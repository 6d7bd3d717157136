import Amber.Core.RingInvariant

/-!
# What a filled receive buffer holds

`inject_one` of `amber-core/src/virtio.rs` spills a payload over the writable buffers of the chain
posted next and publishes the chain's head with the number of bytes copied.  The driver goes the
other way: `latest` takes the newest element of the used ring, walks the chain behind it and reads
as many bytes as the element says.

* `fillBufs_exact` — buffers that are in RAM, apart and large enough take the payload whole.
* `latest_injectOne` — so the driver finds the payload, up to the 32 bits of the used length.
* `VirtioMmio.rxPayloads` — the payloads that the driver finds in the course of a pump.
-/

namespace Amber

open GuestRam VirtioDevice List

/-! ## The buffers -/

/-- No address lies in both buffers. -/
def Apart (b c : Buf) : Prop :=
  ∀ g, b.addr ≤ g → g < b.addr + b.len → ¬ (c.addr ≤ g ∧ g < c.addr + c.len)

/-- The bytes in the buffers, one after the other. -/
def contents (ram : GuestRam) (bufs : List Buf) : List UInt8 :=
  bufs.flatMap fun b => ram.read b.addr b.len

/-- The total length of the buffers. -/
def room (bufs : List Buf) : ℕ := (bufs.map (·.len)).sum

/-- A chain whose writable buffers are apart and have room for `n` bytes. -/
def Receives (n : ℕ) (bufs : List Buf) : Prop :=
  (bufs.filter (·.writable)).Pairwise Apart ∧ n ≤ room (bufs.filter (·.writable))

theorem contents_cons (ram : GuestRam) (b : Buf) (bufs : List Buf) :
    contents ram (b :: bufs) = ram.read b.addr b.len ++ contents ram bufs :=
  flatMap_cons

theorem room_cons (b : Buf) (bufs : List Buf) : room (b :: bufs) = b.len + room bufs := rfl

variable {ram ram' : GuestRam} {n : ℕ} {data : List UInt8} {q : Queue}

/-- Buffers that meet none of the changed addresses hold what they held. -/
theorem contents_eq {P : ℕ → Prop} (hc : ChangesOnly P ram ram')
    {bufs : List Buf} (hP : ∀ b ∈ bufs, ∀ g, b.addr ≤ g → g < b.addr + b.len → ¬ P g) :
    contents ram' bufs = contents ram bufs := by
  induction bufs with
  | nil => rfl
  | cons b bs ih =>
    rw [forall_mem_cons] at hP
    rw [contents_cons, contents_cons, hc.read_eq hP.1, ih hP.2]

/-- The beginning of what was written reads back. -/
theorem take_read_write {gpa : ℕ} {bs : List UInt8}
    (hin : ram.inRange gpa n = true) (hle : bs.length ≤ n) :
    ((ram.write gpa bs).read gpa n).take bs.length = bs := by
  have hbs : ram.inRange gpa bs.length = true := by
    rw [inRange_iff] at hin ⊢
    omega
  have hin' : (ram.write gpa bs).inRange gpa n = true := by
    rwa [(changesOnly_write ram gpa bs).inRange_eq]
  refine ext_getElem? fun i => ?_
  by_cases hi : i < bs.length
  · rw [getElem?_take_of_lt hi, getElem?_read hin' (by omega), byteAt_write hbs hi,
      getElem?_eq_getElem hi]
  · rw [getElem?_eq_none (by rw [length_take]; omega), getElem?_eq_none (by omega)]

/-- A list cut where another ends. -/
theorem take_append_eq {A B : List UInt8} (hn : n = min A.length data.length)
    (hA : A.take n = data.take n) (hB : B.take (data.length - n) = data.drop n) :
    (A ++ B).take data.length = data := by
  have hfront : A.take data.length = A.take n := by
    rw [take_eq_take_iff]
    omega
  have hback : data.length - A.length = data.length - n := by omega
  rw [take_append, hfront, hA, hback, hB, take_append_drop]

/-- **The copy loop places a payload whole** in buffers that are in RAM, apart and large enough. -/
theorem fillBufs_exact (bufs : List Buf) :
    ∀ (ram : GuestRam) (data : List UInt8), (∀ b ∈ bufs, b.writable = true) →
      (∀ b ∈ bufs, b.len ≠ 0 → ram.inRange b.addr b.len = true) → bufs.Pairwise Apart →
      data.length ≤ room bufs →
      (fillBufs ram bufs data).2 = data.length ∧
        (contents (fillBufs ram bufs data).1 bufs).take data.length = data := by
  induction bufs with
  | nil =>
    intro ram data _ _ _ hlen
    obtain rfl := eq_nil_of_length_eq_zero (Nat.le_zero.1 hlen)
    exact ⟨rfl, rfl⟩
  | cons b bs ih =>
    intro ram data hw hin hapart hlen
    by_cases hdata : data = []
    · subst hdata
      exact ⟨rfl, rfl⟩
    · rw [forall_mem_cons] at hw hin
      rw [pairwise_cons] at hapart
      rw [room_cons] at hlen
      set n := min b.len data.length with hn
      set ram₁ := ram.write b.addr (data.take n)
      have hfill : fillBufs ram (b :: bs) data =
          ((fillBufs ram₁ bs (data.drop n)).1, n + (fillBufs ram₁ bs (data.drop n)).2) := by
        rw [fillBufs, if_neg hdata]
      have htake : (data.take n).length = n := by
        rw [length_take]
        omega
      have hdrop : (data.drop n).length = data.length - n := length_drop
      have hin₁ : ∀ c ∈ bs, c.len ≠ 0 → ram₁.inRange c.addr c.len = true := by
        intro c hc hne
        rw [(changesOnly_write ram b.addr _).inRange_eq]
        exact hin.2 c hc hne
      obtain ⟨hcount, hrest⟩ := ih ram₁ (data.drop n) hw.2 hin₁ hapart.2 (by omega)
      -- the later buffers do not touch this one
      have hkeep : (fillBufs ram₁ bs (data.drop n)).1.read b.addr b.len =
          ram₁.read b.addr b.len := by
        refine (changesOnly_fillBufs bs ram₁ _ hw.2).read_eq ?_
        rintro g hlo hhi ⟨c, hc, -, hcover⟩
        exact hapart.1 c hc g hlo hhi hcover
      have hfirst : (ram₁.read b.addr b.len).take n = data.take n := by
        by_cases hzero : b.len = 0
        · have hn0 : n = 0 := by omega
          rw [hn0, take_zero, take_zero]
        · have hback : (ram₁.read b.addr b.len).take (data.take n).length = data.take n :=
            take_read_write (hin.1 hzero) (by omega)
          rwa [htake] at hback
      rw [hdrop] at hrest
      rw [hfill, hcount, hdrop, contents_cons, hkeep]
      exact ⟨by omega, take_append_eq (by rw [length_read, hn]) hfirst hrest⟩

/-! ## The driver's view -/

/-- What the driver finds behind the newest element of the used ring. -/
def latest (ram : GuestRam) (q : Queue) : List UInt8 :=
  let slot := (ram.readU16 (q.used + 2) + (2 ^ 16 - 1)) % 2 ^ 16 % q.num
  let head := ram.readU32 (q.used + 4 + 8 * slot)
  let len := ram.readU32 (q.used + 4 + 8 * slot + 4)
  (contents ram ((collectChain ram q.desc head q.num).filter (·.writable))).take len

theorem injectOne_eq_some {q' : Queue} {e : UsedElem}
    (h : injectOne ram q data = some (ram', q', e)) :
    let filled := fillBufs ram ((nextChain ram q).filter (·.writable)) data
    ram' = pushUsed filled.1 q.used (nextHead ram q) (filled.2 % 2 ^ 32) q.qsz ∧
      q' = q.advance := by
  unfold injectOne at h
  split_ifs at h
  cases h
  exact ⟨rfl, rfl⟩

/-- The driver's view of a chain that was published just now. -/
theorem latest_pushUsed {head len : ℕ} (hgeo : Geometry ram q)
    (hdesc : ∀ g, InUsedRing q.used q.num g → ¬ InDescTable q g) (hhead : head < 2 ^ 32)
    (hlen : len < 2 ^ 32)
    (hfree : ∀ g, InWritable (collectChain ram q.desc head q.num) g →
      ¬ InUsedRing q.used q.num g) :
    latest (pushUsed ram q.used head len q.num) q =
      (contents ram ((collectChain ram q.desc head q.num).filter (·.writable))).take len := by
  have hq : q.num ≠ 0 := hgeo.num_pos.ne'
  have hpush := changesOnly_pushUsed ram head len hgeo.used_fits
  have hidx := ram.readU16_lt (q.used + 2)
  have hslot : ((ram.readU16 (q.used + 2) + 1) % 2 ^ 16 + (2 ^ 16 - 1)) % 2 ^ 16 =
      ram.readU16 (q.used + 2) := by
    omega
  obtain ⟨hid, hl⟩ := pushUsed_elem hq hgeo.used_fits hgeo.used_inRange hhead hlen
  have hchain : collectChain (pushUsed ram q.used head len q.num) q.desc head q.num =
      collectChain ram q.desc head q.num :=
    collectChain_frame hpush hgeo.desc_fits (fun g hlo hhi hu => hdesc g hu ⟨hlo, hhi⟩) head
  simp only [latest, pushUsed_idx hq hgeo.used_fits hgeo.used_inRange, hslot, hid, hl, hchain]
  rw [contents_eq hpush]
  intro b hb g hlo hhi
  obtain ⟨hmem, hw⟩ := mem_filter.1 hb
  exact hfree g ⟨b, hmem, hw, hlo, hhi⟩

/-- **The driver finds the payload that was injected**, as far as a used length of 32 bits can say
how long it is. -/
theorem latest_injectOne {ok : ℕ → List Buf → Prop} {queues : List Queue}
    {posted : ℕ → List ℕ} {served : ℕ → List UsedElem} {i : ℕ} {q' : Queue}
    {e : UsedElem} (h : RingInv ok ram queues posted served)
    (hi : queues[i]? = some q) (hok : ∀ bufs, ok i bufs → Receives n bufs)
    (hdata : data.length ≤ n) (hinj : injectOne ram q data = some (ram', q', e)) :
    latest ram' q' = data.take (data.length % 2 ^ 32) := by
  have c := injectOne_completion (ok i) hinj
  have hmem := mem_of_getElem? hi
  have hgeo := h.layout.geometry q hmem c.active
  obtain ⟨hlt, he, hchain⟩ := c.next hgeo (h.driver i q hi c.active) (h.device i q hi c.active)
  obtain ⟨hbufs, hfree⟩ := (h.driver i q hi c.active).chains _ hlt le_rfl
  rw [← hchain] at hbufs hfree
  obtain ⟨hapart, hroom⟩ := hok _ hbufs
  have hwritable : ∀ b ∈ (nextChain ram q).filter (·.writable), b.writable = true :=
    fun b hb => (mem_filter.1 hb).2
  have hin : ∀ b ∈ (nextChain ram q).filter (·.writable), b.len ≠ 0 →
      ram.inRange b.addr b.len = true :=
    fun b hb => inRange_of_mem_collectFrom (mem_filter.1 hb).1
  obtain ⟨hcount, hwhole⟩ := fillBufs_exact _ ram data hwritable hin hapart (hdata.trans hroom)
  obtain ⟨rfl, rfl⟩ := injectOne_eq_some hinj
  have hfill := changesOnly_fillChain ram (nextChain ram q) data
  generalize fillBufs ram ((nextChain ram q).filter (·.writable)) data = filled at *
  have hsame : collectChain filled.1 q.desc (nextHead ram q) q.num = nextChain ram q := by
    rw [nextChain, hgeo.qsz_eq]
    refine collectChain_frame hfill hgeo.desc_fits ?_ _
    exact fun g hlo hhi hw => hfree g hw ⟨q, hmem, c.active, .inl ⟨hlo, hhi⟩⟩
  rw [hgeo.qsz_eq, hcount]
  set ram₂ := pushUsed filled.1 q.used (nextHead ram q) (data.length % 2 ^ 32) q.num
  have hview : latest ram₂ q =
      (contents filled.1 ((nextChain ram q).filter (·.writable))).take (data.length % 2 ^ 32) := by
    rw [← hsame]
    refine latest_pushUsed (hgeo.of_changesOnly hfill) ?_ ?_ (Nat.mod_lt _ (by decide)) ?_
    · exact fun g hu => (h.layout.used_free i i q q hi hi c.active c.active g hu).1
    · exact (readU16_lt ram _).trans (by decide)
    · rw [hsame]
      exact fun g hw hu => hfree g hw ⟨q, hmem, c.active, .inr (.inr hu)⟩
  have htake : ∀ bs : List UInt8, bs.take (data.length % 2 ^ 32) =
      (bs.take data.length).take (data.length % 2 ^ 32) := by
    intro bs
    rw [take_take, min_eq_left (Nat.mod_le _ _)]
  calc latest ram₂ q.advance
      = latest ram₂ q := rfl
    _ = (contents filled.1 ((nextChain ram q).filter (·.writable))).take (data.length % 2 ^ 32) :=
      hview
    _ = data.take (data.length % 2 ^ 32) := by rw [htake, hwhole]

/-! ## The payloads of a pump -/

section Payloads

variable {σ : Type} [VirtioDevice σ]

/-- What the driver finds behind the element of a buffer as soon as it is published. -/
def Fill.found (f : Fill) : List UInt8 := latest f.ram' f.q'

/-- What it finds in the course of a call of `pump_rx`. -/
def VirtioMmio.rxPayloads (m : VirtioMmio σ) (turns : ℕ) : List (List UInt8) :=
  (m.rxFills turns).map Fill.found

end Payloads

end Amber
