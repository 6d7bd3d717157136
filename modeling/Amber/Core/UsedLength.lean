import Mathlib.Algebra.Order.BigOperators.Group.List
import Amber.Lib.Checked
import Amber.Core.BlkStatus
import Amber.Core.Rng

/-!
# The length a device returns

`BlkDevice::handle` and `RngDevice::handle` add up in a `u32` how much they store into guest
memory, and the transport publishes the sum as the used length.  A chain has at most 256
buffers of at most 16 MiB, which is 2^32 bytes: one more than a `u32` holds.

* The block device cannot overflow: header and status take two of the buffers.  It counts the
  status byte, though, whether or not there is guest memory where the status goes.
* The entropy device adds with a plain `+` over all of them.  A descriptor that points to
  itself makes the one chain that reaches the bound.

`Faulting.rngHandle` and `Faulting.blkHandle` are the two functions with the overflow as a
fault, also where the source wraps on purpose.  `lengths_exact_iff` says that they return,
with the exact number of bytes stored, on every chain but that one whose status byte has a
place in memory.
-/

namespace Amber

open GuestRam Checked List

/-! ## The code with its overflows -/

namespace Faulting

/-- The loop of `RngDevice::handle`. -/
def rngFill : RngDevice → GuestRam → List Buf → ℕ → Except Fault (RngDevice × GuestRam × ℕ)
  | dev, ram, [], written => .ok (dev, ram, written)
  | dev, ram, b :: bs, written =>
    match dev.readExact b.len with
    | (dev, none) => rngFill dev ram bs written
    | (dev, some data) => do
      let written ← add 32 written b.len
      rngFill dev (ram.write b.addr data) bs written

def rngHandle (dev : RngDevice) (ram : GuestRam) (bufs : List Buf) :
    Except Fault (RngDevice × GuestRam × ℕ) :=
  rngFill dev ram (bufs.filter (·.writable)) 0

def blkHandle (dev : BlkDevice) (ram : GuestRam) (bufs : List Buf) :
    Except Fault (BlkDevice × GuestRam × ℕ) :=
  match BlkDevice.request bufs with
  | none => .ok (dev, ram, 0)
  | some (header, data, status) => do
    let done := dev.perform ram header data
    let written ← sum 32 (done.2.1.map (·.2.length))
    let len ← add 32 written 1
    .ok (done.1, (BlkDevice.writeChunks ram done.2.1).write status.addr [done.2.2], len)

end Faulting

/-- The buffers of a chain are in guest memory, or of no length. -/
def GuestRam.Trusted (ram : GuestRam) (bufs : List Buf) : Prop :=
  ∀ b ∈ bufs, b.len ≠ 0 → ram.inRange b.addr b.len = true

/-! ## The entropy device -/

namespace RngDevice

/-- The byte counts of the writes into guest memory, in order. -/
def stored (ram : GuestRam) : RngDevice → List Buf → List ℕ
  | _, [] => []
  | dev, b :: bs =>
    match dev.readExact b.len with
    | (dev, none) => stored ram dev bs
    | (dev, some data) => ram.stores b.addr data :: stored ram dev bs

/-- The lengths the loop adds up, in order. -/
def added : RngDevice → List Buf → List ℕ
  | _, [] => []
  | dev, b :: bs =>
    match dev.readExact b.len with
    | (dev, none) => added dev bs
    | (dev, some data) => data.length :: added dev bs

/-- The arithmetic does not overflow, and the length returned is what was stored. -/
def ExactLength (dev : RngDevice) (queue : ℕ) (ram : GuestRam) (bufs : List Buf) : Prop :=
  Faulting.rngHandle dev ram bufs = .ok (dev.handle queue ram bufs) ∧
    (dev.handle queue ram bufs).2.2 = (stored ram dev (bufs.filter (·.writable))).sum

/-- The chain that overflows: 256 buffers, each writable and of 16 MiB, all of them filled. -/
structure Saturated (dev : RngDevice) (bufs : List Buf) : Prop where
  full : bufs.length = queueMax
  buf : ∀ b ∈ bufs, b.writable = true ∧ b.len = maxDescLen
  filled : ∀ i < queueMax, ∃ bytes, dev.src[i]? = some (some bytes)

variable (bufs : List Buf)

theorem fill_length :
    ∀ (dev : RngDevice) (ram : GuestRam) (written : ℕ), written < 2 ^ 32 →
      (dev.fill ram bufs written).2.2 = (written + (dev.added bufs).sum) % 2 ^ 32 := by
  induction bufs with
  | nil => exact fun dev ram written h => (Nat.mod_eq_of_lt h).symm
  | cons b bs ih =>
    intro dev ram written h
    rcases hread : dev.readExact b.len with ⟨dev', _ | data⟩
    · simp only [fill, added, hread]
      exact ih dev' ram written h
    · simp only [fill, added, hread]
      rw [ih dev' _ _ (Nat.mod_lt _ (by decide)), sum_cons, readExact_length hread,
        Nat.mod_add_mod, add_assoc]

/-- The loop stops at the addition that does not fit, and there is none if the total fits. -/
theorem rngFill_eq :
    ∀ (dev : RngDevice) (ram : GuestRam) (written : ℕ), written < 2 ^ 32 →
      Faulting.rngFill dev ram bufs written =
        if written + (dev.added bufs).sum < 2 ^ 32 then .ok (dev.fill ram bufs written)
        else .error .overflow := by
  induction bufs with
  | nil => exact fun dev ram written h => (if_pos h).symm
  | cons b bs ih =>
    intro dev ram written h
    rcases hread : dev.readExact b.len with ⟨dev', _ | data⟩
    · simp only [Faulting.rngFill, fill, added, hread]
      exact ih dev' ram written h
    · simp only [Faulting.rngFill, fill, added, hread]
      rw [sum_cons, readExact_length hread, ← add_assoc]
      by_cases hfit : written + b.len < 2 ^ 32
      · rw [add_of_lt hfit, ok_bind, ih dev' _ _ hfit, Nat.mod_eq_of_lt hfit]
      · rw [add, if_neg hfit, if_neg (by omega)]
        rfl

/-- What is added up is what is stored, if the buffers are in guest memory. -/
theorem stored_eq_added {ram : GuestRam} :
    ∀ dev : RngDevice, ram.Trusted bufs → stored ram dev bufs = dev.added bufs := by
  induction bufs with
  | nil => exact fun dev _ => rfl
  | cons b bs ih =>
    intro dev htrust
    obtain ⟨hb, hbs⟩ := forall_mem_cons.1 htrust
    rcases hread : dev.readExact b.len with ⟨dev', _ | data⟩
    · simp only [stored, added, hread]
      exact ih dev' hbs
    · simp only [stored, added, hread]
      rw [ih dev' hbs, stores_of_inRange (by rw [readExact_length hread]; exact hb)]

theorem exactLength_iff (dev : RngDevice) (queue : ℕ) {ram : GuestRam} {bufs : List Buf}
    (htrust : ram.Trusted bufs) :
    dev.ExactLength queue ram bufs ↔
      (dev.added (bufs.filter (·.writable))).sum < 2 ^ 32 := by
  have hwritable : ram.Trusted (bufs.filter (·.writable)) :=
    fun b hb => htrust b (mem_filter.1 hb).1
  unfold ExactLength
  rw [stored_eq_added _ dev hwritable, Faulting.rngHandle, rngFill_eq _ dev ram 0 (by decide),
    zero_add, handle, fill_length _ dev ram 0 (by decide), zero_add]
  by_cases hfit : (dev.added (bufs.filter (·.writable))).sum < 2 ^ 32
  · rw [if_pos hfit, Nat.mod_eq_of_lt hfit]
    exact iff_of_true ⟨rfl, rfl⟩ hfit
  · rw [if_neg hfit]
    exact iff_of_false (fun h => nomatch h.1) hfit

/-- What is added up is what some of the buffers hold. -/
theorem added_sublist :
    ∀ dev : RngDevice, List.Sublist (dev.added bufs) (bufs.map (·.len)) := by
  induction bufs with
  | nil => exact fun dev => Sublist.refl _
  | cons b bs ih =>
    intro dev
    rw [added, map_cons]
    split
    · exact (ih _).cons _
    · rename_i dev' data hread
      rw [readExact_length hread]
      exact (ih dev').cons_cons _

theorem length_added_le (dev : RngDevice) :
    (dev.added bufs).length ≤ bufs.length := by
  simpa using (added_sublist bufs dev).length_le

/-- Every buffer is filled exactly when the source delivers every time. -/
theorem length_added_eq_iff :
    ∀ dev : RngDevice, (dev.added bufs).length = bufs.length ↔
      ∀ i < bufs.length, ∃ bytes, dev.src[i]? = some (some bytes) := by
  induction bufs with
  | nil => exact fun dev => ⟨fun _ i hi => absurd hi (Nat.not_lt_zero i), fun _ => rfl⟩
  | cons b bs ih =>
    intro dev
    have hshort := fun dev => length_added_le bs dev
    have hfail : ∀ dev' : RngDevice, ¬ (dev'.added bs).length = (b :: bs).length := by
      intro dev' h
      have := hshort dev'
      rw [length_cons] at h
      omega
    obtain ⟨src⟩ := dev
    match src with
    | [] =>
      refine iff_of_false (hfail _) fun h => ?_
      obtain ⟨bytes, hb⟩ := h 0 (Nat.succ_pos _)
      cases hb
    | none :: rest =>
      refine iff_of_false (hfail _) fun h => ?_
      obtain ⟨bytes, hb⟩ := h 0 (Nat.succ_pos _)
      cases hb
    | some bytes :: rest =>
      have hcons : ((⟨some bytes :: rest⟩ : RngDevice).added (b :: bs)).length =
          ((⟨rest⟩ : RngDevice).added bs).length + 1 := rfl
      rw [hcons, length_cons, Nat.add_right_cancel_iff, ih ⟨rest⟩]
      constructor
      · intro h i hi
        cases i with
        | zero => exact ⟨bytes, rfl⟩
        | succ i => exact h i (by omega)
      · intro h i hi
        exact h (i + 1) (by omega)

/-- When every buffer is filled, what is added up is what the buffers hold. -/
theorem added_eq_of_length {bufs : List Buf} {dev : RngDevice}
    (h : (dev.added bufs).length = bufs.length) : dev.added bufs = bufs.map (·.len) :=
  (added_sublist bufs dev).eq_of_length (by rw [h, length_map])

end RngDevice

/-- At most `n` numbers of at most `m` reach `n * m` only if there are `n` of them, all `m`. -/
theorem full_of_le_sum {m n : ℕ} (hm : 0 < m) {l : List ℕ} (hlen : l.length ≤ n)
    (hle : ∀ x ∈ l, x ≤ m) (hsum : n * m ≤ l.sum) : l.length = n ∧ ∀ x ∈ l, x = m := by
  have htotal : l.sum ≤ l.length * m := sum_le_card_nsmul l m hle
  have hn : l.length = n := le_antisymm hlen (Nat.le_of_mul_le_mul_right (hsum.trans htotal) hm)
  refine ⟨hn, fun x hx => le_antisymm (hle x hx) (not_lt.1 fun hlt => ?_)⟩
  have hless := sum_lt_sum id (fun _ => m) hle ⟨x, hx, hlt⟩
  rw [map_id, map_const', sum_replicate, hn, Nat.nsmul_eq_mul] at hless
  exact absurd hsum (not_le.2 hless)

namespace RngDevice

/-- Among the chains a queue can hand over, the saturated one alone is too long. -/
theorem saturated_iff {dev : RngDevice} {bufs : List Buf} (hlen : bufs.length ≤ queueMax)
    (hmax : ∀ b ∈ bufs, b.len ≤ maxDescLen) :
    dev.Saturated bufs ↔ 2 ^ 32 ≤ (dev.added (bufs.filter (·.writable))).sum := by
  constructor
  · intro h
    have hall : bufs.filter (·.writable) = bufs :=
      filter_eq_self.2 fun b hb => (h.buf b hb).1
    have hfull : (dev.added bufs).length = bufs.length :=
      (length_added_eq_iff bufs dev).2 (by rw [h.full]; exact h.filled)
    have hlens : bufs.map (·.len) = replicate queueMax maxDescLen := by
      rw [eq_replicate_iff, length_map]
      refine ⟨h.full, ?_⟩
      intro n hn
      obtain ⟨b, hb, rfl⟩ := mem_map.1 hn
      exact (h.buf b hb).2
    rw [hall, added_eq_of_length hfull, hlens, sum_replicate]
    decide
  · intro h
    have hfilter := length_filter_le (·.writable) bufs
    have hadded := length_added_le (bufs.filter (·.writable)) dev
    have heach : ∀ n ∈ dev.added (bufs.filter (·.writable)), n ≤ maxDescLen := by
      intro n hn
      obtain ⟨b, hb, rfl⟩ := mem_map.1 ((added_sublist _ dev).subset hn)
      exact hmax b (mem_filter.1 hb).1
    obtain ⟨hfull, heach⟩ := full_of_le_sum (n := queueMax) (by decide) (by omega) heach h
    have hall : bufs.filter (·.writable) = bufs :=
      filter_sublist.eq_of_length (by omega)
    rw [hall] at hfull heach hadded
    have hbufs : (dev.added bufs).length = bufs.length := by omega
    refine ⟨by omega, ?_, ?_⟩
    · intro b hb
      refine ⟨filter_eq_self.1 hall b hb, heach _ ?_⟩
      rw [added_eq_of_length hbufs]
      exact mem_map_of_mem hb
    · have hsrc := (length_added_eq_iff bufs dev).1 hbufs
      rwa [← hbufs, hfull] at hsrc

end RngDevice

/-! ## The block device -/

namespace BlkDevice

/-- The byte counts of the writes into guest memory, in order. -/
def stored (dev : BlkDevice) (ram : GuestRam) (bufs : List Buf) : List ℕ :=
  match request bufs with
  | none => []
  | some (header, data, status) =>
    let done := dev.perform ram header data
    done.2.1.map (fun c => ram.stores c.1 c.2) ++ [ram.stores status.addr [done.2.2]]

/-- The arithmetic does not overflow, and the length returned is what was stored. -/
def ExactLength (dev : BlkDevice) (queue : ℕ) (ram : GuestRam) (bufs : List Buf) : Prop :=
  Faulting.blkHandle dev ram bufs = .ok (dev.handle queue ram bufs) ∧
    (dev.handle queue ram bufs).2.2 = (dev.stored ram bufs).sum

/-- The status byte has a place in guest memory, if the chain has one. -/
def StatusInRam (ram : GuestRam) (bufs : List Buf) : Prop :=
  ∀ header data status, request bufs = some (header, data, status) →
    ram.inRange status.addr 1 = true

theorem lengths_inChunks (bufs : List Buf) :
    ∀ (disk : HostFile) (offset : ℕ),
      (inChunks disk offset bufs).map (·.2.length) = bufs.map (·.len) := by
  induction bufs with
  | nil => exact fun disk offset => rfl
  | cons b bs ih =>
    intro disk offset
    rw [inChunks, map_cons, map_cons, ih, length_readDisk]

/-- The data of a request is short of 2^32 - 1 bytes. -/
theorem sum_perform_lt (dev : BlkDevice) (ram : GuestRam) {bufs data : List Buf}
    {header status : Buf} (hreq : request bufs = some (header, data, status))
    (hlen : bufs.length ≤ queueMax) (hmax : ∀ b ∈ bufs, b.len ≤ maxDescLen) :
    ((dev.perform ram header data).2.1.map (·.2.length)).sum + 1 < 2 ^ 32 := by
  rw [perform_chunks]
  split
  · have hbufs := eq_of_request hreq
    have hdata : data.length + 2 = bufs.length := by
      rw [hbufs, length_cons, length_append, length_singleton]
    have hcount := length_filter_le (·.writable) data
    have hsum := sum_le_card_nsmul ((data.filter (·.writable)).map (·.len)) maxDescLen
      fun n hn => by
        obtain ⟨b, hb, rfl⟩ := mem_map.1 hn
        refine hmax b ?_
        rw [hbufs]
        exact mem_cons_of_mem _ (mem_append_left _ (mem_filter.1 hb).1)
    rw [length_map, Nat.nsmul_eq_mul] at hsum
    have hprod : (data.filter (·.writable)).length * maxDescLen ≤ 254 * maxDescLen :=
      Nat.mul_le_mul_right _ (by rw [queueMax] at hlen; omega)
    rw [lengths_inChunks]
    calc _ ≤ 254 * maxDescLen + 1 := Nat.add_le_add_right (hsum.trans hprod) 1
      _ < 2 ^ 32 := by decide
  · decide

/-- The data of a request is stored, if the buffers are in guest memory. -/
theorem stores_inChunks {ram : GuestRam} (bufs : List Buf) :
    ∀ (disk : HostFile) (offset : ℕ), ram.Trusted bufs →
      (inChunks disk offset bufs).map (fun c => ram.stores c.1 c.2) = bufs.map (·.len) := by
  induction bufs with
  | nil => exact fun disk offset _ => rfl
  | cons b bs ih =>
    intro disk offset htrust
    obtain ⟨hb, hbs⟩ := forall_mem_cons.1 htrust
    have hlen := length_readDisk disk offset b.len
    rw [inChunks, map_cons, map_cons, ih _ _ hbs, stores_of_inRange (by rw [hlen]; exact hb), hlen]

theorem stores_perform (dev : BlkDevice) {ram : GuestRam} {header : Buf} {data : List Buf}
    (htrust : ram.Trusted data) :
    (dev.perform ram header data).2.1.map (fun c => ram.stores c.1 c.2) =
      (dev.perform ram header data).2.1.map (·.2.length) := by
  rw [perform_chunks]
  split_ifs
  · rw [stores_inChunks _ _ _ fun b hb => htrust b (mem_filter.1 hb).1, lengths_inChunks]
  · rfl

/-- The block device counts right exactly if the status byte has a place. -/
theorem exactLength_iff (dev : BlkDevice) (queue : ℕ) {ram : GuestRam} {bufs : List Buf}
    (hlen : bufs.length ≤ queueMax) (hmax : ∀ b ∈ bufs, b.len ≤ maxDescLen)
    (htrust : ram.Trusted bufs) : dev.ExactLength queue ram bufs ↔ StatusInRam ram bufs := by
  unfold ExactLength Faulting.blkHandle handle stored StatusInRam
  cases hreq : request bufs with
  | none => exact iff_of_true ⟨rfl, rfl⟩ nofun
  | some r =>
    obtain ⟨header, data, status⟩ := r
    have hdata : ram.Trusted data := by
      intro b hb
      refine htrust b ?_
      rw [eq_of_request hreq]
      exact mem_cons_of_mem _ (mem_append_left _ hb)
    have hfit := dev.sum_perform_lt ram hreq hlen hmax
    have hmod := Nat.mod_eq_of_lt ((Nat.lt_succ_self _).trans hfit)
    dsimp only
    rw [sum_of_lt (by omega), ok_bind, add_of_lt hfit, ok_bind, hmod, Nat.mod_eq_of_lt hfit,
      sum_append, sum_singleton, stores_perform dev hdata, Nat.add_left_cancel_iff]
    cases hin : ram.inRange status.addr 1 with
    | true =>
      refine iff_of_true ⟨rfl, (if_pos hin).symm⟩ ?_
      rintro _ _ _ ⟨⟩
      exact hin
    | false =>
      refine iff_of_false (fun h => ?_) fun h => ?_
      · have hzero : ram.stores status.addr [(dev.perform ram header data).2.2] = 0 :=
          if_neg (Bool.eq_false_iff.1 hin)
        exact absurd (h.2.trans hzero) one_ne_zero
      · exact absurd (hin.symm.trans (h _ _ _ rfl)) Bool.false_ne_true

end BlkDevice

/-! ## Both devices -/

/-- **The length arithmetic of the block and the entropy device is exact on every chain a queue
of up to 256 descriptors can hand over**, but for the one that has the entropy device fill 256
buffers of 16 MiB, and for those that leave the block device no place for its status byte. -/
theorem lengths_exact_iff (blk : BlkDevice) (rng : RngDevice) (queue : ℕ) (ram : GuestRam)
    (desc head : ℕ) {qsz : ℕ} (hq : qsz ≤ queueMax) :
    (blk.ExactLength queue ram (collectChain ram desc head qsz) ∧
        rng.ExactLength queue ram (collectChain ram desc head qsz)) ↔
      BlkDevice.StatusInRam ram (collectChain ram desc head qsz) ∧
        ¬ rng.Saturated (collectChain ram desc head qsz) := by
  have hlen : (collectChain ram desc head qsz).length ≤ queueMax :=
    (length_collectFrom_le ram desc qsz qsz head).trans hq
  have hmax : ∀ b ∈ collectChain ram desc head qsz, b.len ≤ maxDescLen :=
    fun b hb => len_le_of_mem_collectFrom hb
  have htrust : ram.Trusted (collectChain ram desc head qsz) :=
    fun b hb => inRange_of_mem_collectFrom hb
  rw [RngDevice.saturated_iff hlen hmax, RngDevice.exactLength_iff _ _ htrust, not_le,
    BlkDevice.exactLength_iff _ _ hlen hmax htrust]

/-! 16 MiB of guest memory that begin with a descriptor of the whole of it whose `next` is itself,
and a source that always delivers. -/

def selfLoop : GuestRam :=
  { base := 0
    len := maxDescLen
    host := fun i => (BlkDevice.descriptor 0 maxDescLen 3 0).getD i 0 }

def plenty : RngDevice := ⟨List.replicate queueMax (some fun _ => 0)⟩

def zeroDisk : BlkDevice :=
  BlkDevice.openWith
    { len := 512, data := fun _ => 0, answers := [], fits := sector_le_maxFileLen } false

theorem collectFrom_selfLoop {qsz : ℕ} (hq : 0 < qsz) (steps : ℕ) :
    collectFrom selfLoop 0 qsz steps 0 = List.replicate steps ⟨0, maxDescLen, true⟩ := by
  have hbuf : descBuf selfLoop 0 0 = ⟨0, maxDescLen, true⟩ := by decide
  have hnext : descNext selfLoop 0 0 = some 0 := by decide
  induction steps with
  | zero => rfl
  | succ steps ih =>
    rw [collectFrom, if_neg (not_le.2 hq), hbuf, hnext, replicate_succ]
    exact congrArg _ ih

theorem lengths_exact_selfLoop :
    zeroDisk.ExactLength 0 selfLoop (collectChain selfLoop 0 0 255) ∧
      plenty.ExactLength 0 selfLoop (collectChain selfLoop 0 0 255) := by
  have hchain : collectChain selfLoop 0 0 255 = List.replicate 255 ⟨0, maxDescLen, true⟩ :=
    collectFrom_selfLoop (by decide) 255
  refine (lengths_exact_iff zeroDisk plenty 0 selfLoop 0 0 (by decide)).2 ⟨?_, fun h => ?_⟩
  · intro header data status hreq
    have hmem : status ∈ collectChain selfLoop 0 0 255 := by
      rw [BlkDevice.eq_of_request hreq]
      exact mem_cons_of_mem _ (mem_append_right _ (mem_singleton_self _))
    rw [hchain] at hmem
    rw [eq_of_mem_replicate hmem]
    decide
  · have hfull := h.full
    rw [hchain, length_replicate] at hfull
    exact absurd hfull (by decide)

/-- The longest chain of such a memory. -/
def longChain : List Buf := collectChain selfLoop 0 0 queueMax

theorem stored_selfLoop :
    RngDevice.stored selfLoop plenty (longChain.filter (·.writable)) =
      List.replicate queueMax maxDescLen := by
  have htrust : selfLoop.Trusted (List.replicate queueMax ⟨0, maxDescLen, true⟩) := by
    intro b hb _
    rw [eq_of_mem_replicate hb]
    decide
  rw [longChain, collectChain, collectFrom_selfLoop (by decide), filter_replicate_of_pos rfl,
    RngDevice.stored_eq_added _ _ htrust, RngDevice.added_eq_of_length, map_replicate]
  rw [RngDevice.length_added_eq_iff, length_replicate]
  intro i hi
  exact ⟨_, getElem?_replicate_of_lt hi⟩

/-- 2^32 bytes are stored; the addition overflows, and where it wraps the length is 0. -/
theorem entropy_length_overflows :
    longChain = List.replicate queueMax ⟨0, maxDescLen, true⟩ ∧
    (RngDevice.stored selfLoop plenty (longChain.filter (·.writable))).sum = 2 ^ 32 ∧
    Faulting.rngHandle plenty selfLoop longChain = .error .overflow ∧
    (plenty.handle 0 selfLoop longChain).2.2 = 0 ∧
    ¬ plenty.ExactLength 0 selfLoop longChain := by
  have htrust : selfLoop.Trusted longChain :=
    fun b hb => inRange_of_mem_collectFrom hb
  have hsum : (RngDevice.stored selfLoop plenty (longChain.filter (·.writable))).sum = 2 ^ 32 := by
    rw [stored_selfLoop, sum_replicate]
    decide
  have hadded : (plenty.added (longChain.filter (·.writable))).sum = 2 ^ 32 := by
    rw [← hsum, RngDevice.stored_eq_added]
    exact fun b hb => htrust b (mem_filter.1 hb).1
  refine ⟨collectFrom_selfLoop (by decide : 0 < queueMax) queueMax, hsum, ?_, ?_, ?_⟩
  · rw [Faulting.rngHandle, RngDevice.rngFill_eq _ _ _ 0 (by decide), hadded]
    exact if_neg (by decide)
  · rw [RngDevice.handle, RngDevice.fill_length _ _ _ 0 (by decide), hadded]
    decide
  · rw [RngDevice.exactLength_iff _ _ htrust, hadded]
    decide

end Amber
