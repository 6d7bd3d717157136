import Amber.Core.Memory

/-!
# Split virtqueues

The ring helpers of `amber-core/src/virtio.rs`: walking a descriptor chain into buffers
(`collectChain`), publishing a used element (`pushUsed`) and filling a posted receive
buffer (`injectOne`).  Every address is a wrapping 64-bit sum and every ring index a
wrapping 16-bit counter, exactly as in the source.

The frame lemmas say where each helper may write: `pushUsed` in the used ring,
`fillBufs` in the device-writable buffers of its chain.
-/

namespace Amber

open GuestRam List

/-- `u64::wrapping_add`. -/
def wadd (a b : ℕ) : ℕ := (a + b) % 2 ^ 64

theorem wadd_of_lt {a b : ℕ} (h : a + b < 2 ^ 64) : wadd a b = a + b := Nat.mod_eq_of_lt h

def virtqDescFNext : ℕ := 1
def virtqDescFWrite : ℕ := 2

/-- Per-buffer length ceiling, 16 MiB. -/
def maxDescLen : ℕ := 16 * 2 ^ 20

/-- One descriptor's buffer, gathered from a chain. -/
structure Buf where
  addr : ℕ
  len : ℕ
  writable : Bool
deriving DecidableEq, Repr

/-- One virtqueue's registers and the next available entry to consume. -/
structure Queue where
  num : ℕ
  ready : ℕ
  desc : ℕ
  avail : ℕ
  used : ℕ
  lastAvail : ℕ
deriving DecidableEq, Repr

def Queue.default : Queue := ⟨0, 0, 0, 0, 0, 0⟩

/-- `q.num as u16`. -/
def Queue.qsz (q : Queue) : ℕ := q.num % 2 ^ 16

/-- The queue is live: `!(q.ready == 0 || q.num == 0)`. -/
def Queue.active (q : Queue) : Bool := !(q.ready == 0 || q.num == 0)

/-! ## Walking a chain -/

/-- The buffer descriptor `i` of the table at `desc` describes: its length is clamped, and
dropped to zero when the buffer is not inside RAM. -/
def descBuf (ram : GuestRam) (desc i : ℕ) : Buf :=
  let d := wadd desc (16 * i)
  let addr := ram.readU64 d
  let len := min (ram.readU32 (wadd d 8)) maxDescLen
  let flags := ram.readU16 (wadd d 12)
  { addr
    len := if ram.inRange addr len then len else 0
    writable := flags &&& virtqDescFWrite != 0 }

/-- The `next` index of descriptor `i`, when its NEXT flag is set. -/
def descNext (ram : GuestRam) (desc i : ℕ) : Option ℕ :=
  let d := wadd desc (16 * i)
  if ram.readU16 (wadd d 12) &&& virtqDescFNext = 0 then none else some (ram.readU16 (wadd d 14))

/-- The loop of `collect_chain` with `steps` iterations left, at descriptor `i`. -/
def collectFrom (ram : GuestRam) (desc qsz : ℕ) : ℕ → ℕ → List Buf
  | 0, _ => []
  | steps + 1, i =>
    if i ≥ qsz then []
    else descBuf ram desc i ::
      match descNext ram desc i with
      | none => []
      | some next => collectFrom ram desc qsz steps next

/-- Walk a guest-controlled descriptor chain into buffers. -/
def collectChain (ram : GuestRam) (desc head qsz : ℕ) : List Buf :=
  collectFrom ram desc qsz qsz head

/-- A chain has at most as many buffers as the walk has steps. -/
theorem length_collectFrom_le (ram : GuestRam) (desc qsz : ℕ) :
    ∀ steps i, (collectFrom ram desc qsz steps i).length ≤ steps := by
  intro steps
  induction steps with
  | zero => exact fun i => le_rfl
  | succ steps ih =>
    intro i
    rw [collectFrom]
    split_ifs
    · exact Nat.zero_le _
    · refine Nat.succ_le_succ ?_
      split
      · exact Nat.zero_le _
      · exact ih _

variable {b : Buf} {desc qsz : ℕ} {ram : GuestRam}

/-- Every buffer of a chain is the buffer of a descriptor. -/
theorem exists_descBuf_of_mem :
    ∀ {steps i}, b ∈ collectFrom ram desc qsz steps i → ∃ j, b = descBuf ram desc j := by
  intro steps
  induction steps with
  | zero => exact nofun
  | succ steps ih =>
    intro i hb
    rw [collectFrom] at hb
    split_ifs at hb
    · exact absurd hb not_mem_nil
    · rcases mem_cons.1 hb with rfl | hb
      · exact ⟨i, rfl⟩
      · split at hb
        · exact absurd hb not_mem_nil
        · exact ih hb

theorem len_le_of_mem_collectFrom {steps i : ℕ}
    (h : b ∈ collectFrom ram desc qsz steps i) : b.len ≤ maxDescLen := by
  obtain ⟨j, rfl⟩ := exists_descBuf_of_mem h
  simp only [descBuf]
  split_ifs
  · exact min_le_right _ _
  · exact Nat.zero_le _

/-- A buffer that is not empty lies in RAM. -/
theorem inRange_of_mem_collectFrom {steps i : ℕ}
    (h : b ∈ collectFrom ram desc qsz steps i) (hlen : b.len ≠ 0) :
    ram.inRange b.addr b.len = true := by
  obtain ⟨j, rfl⟩ := exists_descBuf_of_mem h
  simp only [descBuf] at hlen ⊢
  split_ifs at hlen ⊢ with hin
  · exact hin
  · exact absurd rfl hlen

/-! ## Publishing and injecting -/

def pushUsed (ram : GuestRam) (used id len qsz : ℕ) : GuestRam :=
  if qsz = 0 then ram
  else
    let idx := ram.readU16 (wadd used 2)
    let elem := wadd used (4 + 8 * (idx % qsz))
    let ram := ram.writeU32 elem id
    let ram := ram.writeU32 (wadd elem 4) len
    ram.writeU16 (wadd used 2) ((idx + 1) % 2 ^ 16)

/-- The head of the chain the queue consumes next. -/
def nextHead (ram : GuestRam) (q : Queue) : ℕ :=
  ram.readU16 (wadd q.avail (4 + 2 * (q.lastAvail % q.qsz)))

/-- The buffers of the chain the queue consumes next. -/
def nextChain (ram : GuestRam) (q : Queue) : List Buf :=
  collectChain ram q.desc (nextHead ram q) q.qsz

/-- Consume one available entry: `last_avail.wrapping_add(1)`. -/
def Queue.advance (q : Queue) : Queue := { q with lastAvail := (q.lastAvail + 1) % 2 ^ 16 }

/-- Total writable bytes in the next posted buffer, or none if nothing is posted. -/
def nextRxCapacity (ram : GuestRam) (q : Queue) : Option ℕ :=
  if !q.active then none
  else if q.lastAvail = ram.readU16 (wadd q.avail 2) then none
  else some (((nextChain ram q).filter (·.writable)).map (·.len)).sum

/-- The copy loop of `inject_one`: spill `data` over the buffers, stopping once it is used
up.  Returns the RAM and the number of bytes copied. -/
def fillBufs : GuestRam → List Buf → List UInt8 → GuestRam × ℕ
  | ram, [], _ => (ram, 0)
  | ram, b :: bs, data =>
    if data = [] then (ram, 0)
    else
      let n := min b.len data.length
      let rest := fillBufs (ram.write b.addr (data.take n)) bs (data.drop n)
      (rest.1, n + rest.2)

/-- As many bytes are copied as there are, or as there is room for. -/
theorem fillBufs_snd (bufs : List Buf) : ∀ (ram : GuestRam) (data : List UInt8),
    (fillBufs ram bufs data).2 = min (bufs.map (·.len)).sum data.length := by
  induction bufs with
  | nil => exact fun ram data => (Nat.zero_min _).symm
  | cons b bs ih =>
    intro ram data
    rw [fillBufs, map_cons, sum_cons]
    split_ifs with hnil
    · rw [hnil, length_nil, Nat.min_zero]
    · show min b.len data.length + _ = _
      rw [ih, length_drop]
      omega

/-- What one completed chain leaves behind: the head index and the used length. -/
abbrev UsedElem := ℕ × ℕ

/-- Write one payload into the next posted buffer and publish it.  None is the source's
`false`: no buffer is posted and nothing changed. -/
def injectOne (ram : GuestRam) (q : Queue) (data : List UInt8) :
    Option (GuestRam × Queue × UsedElem) :=
  if !q.active then none
  else if q.lastAvail = ram.readU16 (wadd q.avail 2) then none
  else
    let head := nextHead ram q
    let filled := fillBufs ram ((nextChain ram q).filter (·.writable)) data
    let len := filled.2 % 2 ^ 32
    some (pushUsed filled.1 q.used head len q.qsz, q.advance, (head, len))

/-! ## Where the helpers may write -/

/-- `g` lies in a device-writable buffer. -/
def InWritable (bufs : List Buf) (g : ℕ) : Prop :=
  ∃ b ∈ bufs, b.writable = true ∧ b.addr ≤ g ∧ g < b.addr + b.len

/-- `g` lies in the used ring of `qsz` elements at `used`. -/
def InUsedRing (used qsz g : ℕ) : Prop := used ≤ g ∧ g < used + 4 + 8 * qsz

theorem changesOnly_writeBuf (ram : GuestRam) {bufs : List Buf} (hb : b ∈ bufs)
    (hw : b.writable = true) {bs : List UInt8} (hlen : bs.length ≤ b.len) :
    ChangesOnly (InWritable bufs) ram (ram.write b.addr bs) := by
  refine (changesOnly_write ram b.addr bs).mono ?_
  rintro g ⟨h1, h2⟩
  exact ⟨b, hb, hw, h1, by omega⟩

theorem InWritable.of_cons {bufs : List Buf} {g : ℕ} (h : InWritable bufs g) :
    InWritable (b :: bufs) g := by
  obtain ⟨c, hc, hrest⟩ := h
  exact ⟨c, mem_cons_of_mem b hc, hrest⟩

/-- The copy loop writes in its buffers only. -/
theorem changesOnly_fillBufs (bufs : List Buf) :
    ∀ (ram : GuestRam) (data : List UInt8), (∀ b ∈ bufs, b.writable = true) →
      ChangesOnly (InWritable bufs) ram (fillBufs ram bufs data).1 := by
  induction bufs with
  | nil => exact fun ram _ _ => ChangesOnly.refl _ ram
  | cons b bs ih =>
    intro ram data hw
    unfold fillBufs
    split
    · exact ChangesOnly.refl _ ram
    · have hb : b ∈ b :: bs := mem_cons_self
      have hlen : (data.take (min b.len data.length)).length ≤ b.len := by
        rw [length_take]
        omega
      refine (changesOnly_writeBuf ram hb (hw b hb) hlen).trans ?_
      exact (ih _ _ fun c hc => hw c (mem_cons_of_mem b hc)).mono
        fun g hg => hg.of_cons

/-- Filling the writable buffers of a chain changes nothing else. -/
theorem changesOnly_fillChain (ram : GuestRam) (bufs : List Buf) (data : List UInt8) :
    ChangesOnly (InWritable bufs) ram (fillBufs ram (bufs.filter (·.writable)) data).1 := by
  refine (changesOnly_fillBufs _ ram data fun b hb => (mem_filter.1 hb).2).mono ?_
  rintro g ⟨b, hb, hrest⟩
  exact ⟨b, (mem_filter.1 hb).1, hrest⟩

/-- `pushUsed` on a ring that does not wrap around the address space. -/
theorem pushUsed_eq (ram : GuestRam) {used : ℕ} (id len : ℕ) (hq : qsz ≠ 0)
    (hfit : used + 4 + 8 * qsz ≤ 2 ^ 64) :
    pushUsed ram used id len qsz =
      let idx := ram.readU16 (used + 2)
      let elem := used + 4 + 8 * (idx % qsz)
      ((ram.writeU32 elem id).writeU32 (elem + 4) len).writeU16 (used + 2)
        ((idx + 1) % 2 ^ 16) := by
  have hslot : ∀ i, i % qsz < qsz := fun i => Nat.mod_lt i (Nat.pos_of_ne_zero hq)
  have hidx : wadd used 2 = used + 2 := wadd_of_lt (by omega)
  have helem : ∀ i, wadd used (4 + 8 * (i % qsz)) = used + 4 + 8 * (i % qsz) := by
    intro i
    have := hslot i
    rw [wadd_of_lt (by omega), add_assoc]
  have helem4 : ∀ i, wadd (used + 4 + 8 * (i % qsz)) 4 = used + 4 + 8 * (i % qsz) + 4 := by
    intro i
    have := hslot i
    exact wadd_of_lt (by omega)
  simp only [pushUsed, if_neg hq, hidx, helem, helem4]

/-- Publishing writes in the used ring only. -/
theorem changesOnly_pushUsed (ram : GuestRam) {used : ℕ} (id len : ℕ)
    (hfit : used + 4 + 8 * qsz ≤ 2 ^ 64) :
    ChangesOnly (InUsedRing used qsz) ram (pushUsed ram used id len qsz) := by
  by_cases hq : qsz = 0
  · rw [pushUsed, if_pos hq]
    exact ChangesOnly.refl _ ram
  · rw [pushUsed_eq ram id len hq hfit]
    have hslot : ram.readU16 (used + 2) % qsz < qsz := Nat.mod_lt _ (Nat.pos_of_ne_zero hq)
    refine ((changesOnly_writeU32 ram _ id).mono ?_).trans
      (((changesOnly_writeU32 _ _ len).mono ?_).trans ((changesOnly_writeU16 _ _ _).mono ?_))
    all_goals
      rintro g ⟨h1, h2⟩
      exact ⟨by omega, by omega⟩

section ReadBack

variable {ram : GuestRam} {used qsz id len : ℕ}

theorem pushUsed_idx (hq : qsz ≠ 0) (hfit : used + 4 + 8 * qsz ≤ 2 ^ 64)
    (hin : ram.inRange used (4 + 8 * qsz) = true) :
    (pushUsed ram used id len qsz).readU16 (used + 2) =
      (ram.readU16 (used + 2) + 1) % 2 ^ 16 := by
  rw [pushUsed_eq ram id len hq hfit]
  refine readU16_writeU16 ?_ (Nat.mod_lt _ (by decide))
  rw [inRange_iff] at hin ⊢
  simp only [writeU32, write_base, write_len]
  omega

/-- The element just published, in the slot of the old index. -/
theorem pushUsed_elem (hq : qsz ≠ 0) (hfit : used + 4 + 8 * qsz ≤ 2 ^ 64)
    (hin : ram.inRange used (4 + 8 * qsz) = true) (hid : id < 2 ^ 32) (hlen : len < 2 ^ 32) :
    (pushUsed ram used id len qsz).readU32 (used + 4 + 8 * (ram.readU16 (used + 2) % qsz)) = id ∧
    (pushUsed ram used id len qsz).readU32
      (used + 4 + 8 * (ram.readU16 (used + 2) % qsz) + 4) = len := by
  have hslot : ram.readU16 (used + 2) % qsz < qsz := Nat.mod_lt _ (Nat.pos_of_ne_zero hq)
  rw [inRange_iff] at hin
  rw [pushUsed_eq ram id len hq hfit]
  constructor
  · rw [(changesOnly_writeU16 _ _ _).readU32_eq (by omega),
      (changesOnly_writeU32 _ _ _).readU32_eq (by omega)]
    exact readU32_writeU32 (inRange_iff.2 (by omega)) hid
  · rw [(changesOnly_writeU16 _ _ _).readU32_eq (by omega)]
    refine readU32_writeU32 (inRange_iff.2 ?_) hlen
    simp only [writeU32, write_base, write_len]
    omega

/-- The other slots keep their elements. -/
theorem pushUsed_other (id len : ℕ) (hq : qsz ≠ 0) (hfit : used + 4 + 8 * qsz ≤ 2 ^ 64) {t : ℕ}
    (ht : t ≠ ram.readU16 (used + 2) % qsz) :
    (pushUsed ram used id len qsz).readU32 (used + 4 + 8 * t) =
        ram.readU32 (used + 4 + 8 * t) ∧
    (pushUsed ram used id len qsz).readU32 (used + 4 + 8 * t + 4) =
        ram.readU32 (used + 4 + 8 * t + 4) := by
  rw [pushUsed_eq ram id len hq hfit]
  constructor
  all_goals
    rw [(changesOnly_writeU16 _ _ _).readU32_eq (by omega),
      (changesOnly_writeU32 _ _ _).readU32_eq (by omega),
      (changesOnly_writeU32 _ _ _).readU32_eq (by omega)]

end ReadBack

/-- A chain does not depend on anything outside the descriptor table. -/
theorem collectFrom_frame {P : ℕ → Prop} {ram' : GuestRam}
    (hc : ChangesOnly P ram ram') (hfit : desc + 16 * qsz ≤ 2 ^ 64)
    (hP : ∀ g, desc ≤ g → g < desc + 16 * qsz → ¬ P g) :
    ∀ steps i, collectFrom ram' desc qsz steps i = collectFrom ram desc qsz steps i := by
  intro steps
  induction steps with
  | zero => exact fun i => rfl
  | succ steps ih =>
    intro i
    by_cases hi : i ≥ qsz
    · simp only [collectFrom, if_pos hi]
    · have hd : wadd desc (16 * i) = desc + 16 * i := wadd_of_lt (by omega)
      have hoff : ∀ c, c < 16 → wadd (desc + 16 * i) c = desc + 16 * i + c :=
        fun c hc => wadd_of_lt (by omega)
      have hflags : ram'.readU16 (desc + 16 * i + 12) = ram.readU16 (desc + 16 * i + 12) :=
        hc.readU16_eq fun g _ _ => hP g (by omega) (by omega)
      have hnext : ram'.readU16 (desc + 16 * i + 14) = ram.readU16 (desc + 16 * i + 14) :=
        hc.readU16_eq fun g _ _ => hP g (by omega) (by omega)
      have haddr : ram'.readU64 (desc + 16 * i) = ram.readU64 (desc + 16 * i) :=
        hc.readU64_eq fun g _ _ => hP g (by omega) (by omega)
      have hlen : ram'.readU32 (desc + 16 * i + 8) = ram.readU32 (desc + 16 * i + 8) :=
        hc.readU32_eq fun g _ _ => hP g (by omega) (by omega)
      have hbuf : descBuf ram' desc i = descBuf ram desc i := by
        simp [descBuf, hd, hoff 8 (by decide), hoff 12 (by decide), hflags, haddr, hlen,
          hc.inRange_eq]
      have hnx : descNext ram' desc i = descNext ram desc i := by
        simp only [descNext, hd, hoff 12 (by decide), hoff 14 (by decide), hflags, hnext]
      simp only [collectFrom, if_neg hi, hbuf, hnx]
      cases descNext ram desc i with
      | none => rfl
      | some next => simp only [ih next]

theorem collectChain_frame {P : ℕ → Prop} {ram' : GuestRam}
    (hc : ChangesOnly P ram ram') (hfit : desc + 16 * qsz ≤ 2 ^ 64)
    (hP : ∀ g, desc ≤ g → g < desc + 16 * qsz → ¬ P g) (head : ℕ) :
    collectChain ram' desc head qsz = collectChain ram desc head qsz :=
  collectFrom_frame hc hfit hP qsz head

end Amber
