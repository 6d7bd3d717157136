import Amber.Core.NetReceive

/-!
# Does an injection do what the capacity promised?

`next_rx_capacity` and `inject_one` of `amber-core/src/virtio.rs` each walk the ring for themselves:
the one to say how long a payload may be, the other to copy it into the chain and to publish it.
Both look at the ring before anything is written, so they see the same chain.

* `injectOne_agrees` — they agree on whether a chain is posted; and a payload within the capacity is
  stored whole, reported with its length, and nothing else is touched, as long as the used ring is
  in RAM and the length is one that its 32 bits can say.
* `injection_unreported` — a used ring outside RAM is reported to in vain, and a payload of 2^32
  bytes, for which 256 buffers have room, is reported as one of none.
-/

namespace Amber

open GuestRam List

/-! ## The bytes an injection may change -/

/-- `g` is one of the first `n` bytes of the buffers, one after the other. -/
def InFront (bufs : List Buf) (n g : ℕ) : Prop :=
  ∃ before b after, bufs = before ++ b :: after ∧ b.addr ≤ g ∧ g < b.addr + b.len ∧
    room before + (g - b.addr) < n

/-- Where the used element goes that is published next. -/
def usedElem (ram : GuestRam) (q : Queue) : ℕ :=
  q.used + 4 + 8 * (ram.readU16 (q.used + 2) % q.num)

/-- `g` lies in the used element that is published next, or in the used index. -/
def InNextUsed (ram : GuestRam) (q : Queue) (g : ℕ) : Prop :=
  (usedElem ram q ≤ g ∧ g < usedElem ram q + 8) ∨ (q.used + 2 ≤ g ∧ g < q.used + 4)

/-- The copy loop changes as many bytes as there is data. -/
theorem changesOnly_front (bufs : List Buf) : ∀ (ram : GuestRam) (data : List UInt8),
    ChangesOnly (InFront bufs data.length) ram (fillBufs ram bufs data).1 := by
  induction bufs with
  | nil => exact fun ram _ => ChangesOnly.refl _ ram
  | cons b bs ih =>
    intro ram data
    unfold fillBufs
    split
    · exact ChangesOnly.refl _ ram
    · refine ((changesOnly_write ram b.addr _).mono ?_).trans ((ih _ _).mono ?_)
      · rintro g ⟨hlo, hhi⟩
        rw [length_take] at hhi
        exact ⟨[], b, bs, rfl, hlo, by omega, by change 0 + _ < _; omega⟩
      · rintro g ⟨before, c, after, rfl, hlo, hhi, hpos⟩
        rw [length_drop] at hpos
        refine ⟨b :: before, c, after, rfl, hlo, hhi, ?_⟩
        rw [room_cons]
        omega

variable {ram : GuestRam} {q : Queue}

theorem InFront.inWritable {bufs : List Buf} {n g : ℕ}
    (h : InFront (bufs.filter (·.writable)) n g) : InWritable bufs g := by
  obtain ⟨before, b, after, heq, hlo, hhi, -⟩ := h
  have hb : b ∈ bufs.filter (·.writable) := by simp [heq]
  obtain ⟨hmem, hw⟩ := mem_filter.1 hb
  exact ⟨b, hmem, hw, hlo, hhi⟩

/-! ## The used ring -/

/-- The size of the queue is one the transport lets the driver set, and the used ring lies in RAM,
inside the 64-bit address space. -/
structure UsedRing (ram : GuestRam) (q : Queue) : Prop where
  num_le : q.num ≤ queueMax
  fits : q.used + 4 + 8 * q.num ≤ 2 ^ 64
  inside : ram.inRange q.used (4 + 8 * q.num) = true

theorem UsedRing.of_changesOnly {P : ℕ → Prop} {ram' : GuestRam} (h : UsedRing ram q)
    (hc : ChangesOnly P ram ram') : UsedRing ram' q :=
  ⟨h.num_le, h.fits, by rw [hc.inRange_eq]; exact h.inside⟩

theorem changesOnly_nextUsed (h : UsedRing ram q) (hnum : q.num ≠ 0) (id len : ℕ) :
    ChangesOnly (InNextUsed ram q) ram (pushUsed ram q.used id len q.num) := by
  rw [pushUsed_eq ram id len hnum h.fits]
  refine ((changesOnly_writeU32 ram _ id).mono ?_).trans
    (((changesOnly_writeU32 _ _ len).mono ?_).trans ((changesOnly_writeU16 _ _ _).mono ?_))
  · exact fun g hg => .inl ⟨hg.1, by unfold usedElem; omega⟩
  · exact fun g hg => .inl ⟨by unfold usedElem; omega, by unfold usedElem; omega⟩
  · exact fun g hg => .inr hg

/-! ## The injection -/

/-- What `inject_one` leaves of a payload: the data at the front of the writable buffers, the used
element with the head of the chain and the length, the next used index, and all other bytes. -/
structure Injected (ram : GuestRam) (q : Queue) (data : List UInt8) (ram' : GuestRam) : Prop where
  stored : (contents ram' ((nextChain ram q).filter (·.writable))).take data.length = data
  head : ram'.readU32 (usedElem ram q) = nextHead ram q
  length : ram'.readU32 (usedElem ram q + 4) = data.length
  index : ram'.readU16 (q.used + 2) = (ram.readU16 (q.used + 2) + 1) % 2 ^ 16
  others : ChangesOnly (fun g => InFront ((nextChain ram q).filter (·.writable)) data.length g ∨
    InNextUsed ram q g) ram ram'

theorem nextRxCapacity_eq_some {cap : ℕ} (h : nextRxCapacity ram q = some cap) :
    q.num ≠ 0 ∧ room ((nextChain ram q).filter (·.writable)) = cap ∧
      ∀ data, injectOne ram q data =
        let filled := fillBufs ram ((nextChain ram q).filter (·.writable)) data
        some (pushUsed filled.1 q.used (nextHead ram q) (filled.2 % 2 ^ 32) q.qsz, q.advance,
          (nextHead ram q, filled.2 % 2 ^ 32)) := by
  unfold nextRxCapacity at h
  split_ifs at h with hactive hposted
  refine ⟨?_, Option.some.inj h, fun data => ?_⟩
  · intro hzero
    simp [Queue.active, hzero] at hactive
  · rw [injectOne, if_neg hactive, if_neg hposted]

/-- The copy of a payload within the capacity. -/
theorem fillBufs_next {cap : ℕ} (hcap : nextRxCapacity ram q = some cap)
    (hapart : ((nextChain ram q).filter (·.writable)).Pairwise Apart) {data : List UInt8}
    (hdata : data.length ≤ cap) :
    let filled := fillBufs ram ((nextChain ram q).filter (·.writable)) data
    filled.2 = data.length ∧
      (contents filled.1 ((nextChain ram q).filter (·.writable))).take data.length = data := by
  refine fillBufs_exact _ ram data (fun b hb => (mem_filter.1 hb).2) (fun b hb => ?_) hapart ?_
  · exact inRange_of_mem_collectFrom (mem_filter.1 hb).1
  · rwa [(nextRxCapacity_eq_some hcap).2.1]

/-- **Capacity and injection agree.**  For every guest RAM and queue, an injection is refused, and
then changes nothing, exactly when there is no capacity.  If there is, the used ring lies in RAM,
and the writable buffers of the chain are apart from each other and from the used ring (the other
rings are not looked at again once something is written), then every payload within the capacity
that is shorter than 2^32 bytes is injected. -/
theorem injectOne_agrees (ram : GuestRam) (q : Queue) :
    (∀ data, injectOne ram q data = none ↔ nextRxCapacity ram q = none) ∧
    (UsedRing ram q → ((nextChain ram q).filter (·.writable)).Pairwise Apart →
      (∀ g, InWritable (nextChain ram q) g → ¬ InUsedRing q.used q.num g) →
      ∀ cap, nextRxCapacity ram q = some cap → ∀ data : List UInt8, data.length ≤ cap →
        data.length < 2 ^ 32 → ∃ ram',
          injectOne ram q data = some (ram', q.advance, (nextHead ram q, data.length)) ∧
            Injected ram q data ram') := by
  refine ⟨fun data => ?_, ?_⟩
  · unfold injectOne nextRxCapacity
    split_ifs <;> simp
  · intro hring hapart hfree cap hcap data hdata hshort
    obtain ⟨hnum, -, hinj⟩ := nextRxCapacity_eq_some hcap
    have hnumle : q.num ≤ 256 := hring.num_le
    have hqsz : q.qsz = q.num := Nat.mod_eq_of_lt (by omega)
    obtain ⟨hcount, hstored⟩ := fillBufs_next hcap hapart hdata
    have hfill := changesOnly_front ((nextChain ram q).filter (·.writable)) ram data
    specialize hinj data
    generalize fillBufs ram ((nextChain ram q).filter (·.writable)) data = filled at *
    dsimp only at hinj hcount hstored
    rw [hcount, Nat.mod_eq_of_lt hshort, hqsz] at hinj
    -- the copy leaves the used ring alone, so the index read after it is the one before it
    have hidx : filled.1.readU16 (q.used + 2) = ram.readU16 (q.used + 2) :=
      hfill.readU16_eq fun g hlo hhi hg => hfree g hg.inWritable ⟨by omega, by omega⟩
    have helem : usedElem filled.1 q = usedElem ram q := by rw [usedElem, hidx, usedElem]
    have hring' := hring.of_changesOnly hfill
    have hpush := changesOnly_nextUsed hring' hnum (nextHead ram q) data.length
    have hnext : InNextUsed filled.1 q = InNextUsed ram q := by
      funext g
      rw [InNextUsed, helem, InNextUsed]
    obtain ⟨hid, hlen⟩ := pushUsed_elem hnum hring'.fits hring'.inside
      ((readU16_lt ram _).trans (by decide) : nextHead ram q < 2 ^ 32) hshort
    refine ⟨_, hinj, ?_, ?_, ?_, ?_, ?_⟩
    · rw [contents_eq (changesOnly_pushUsed filled.1 _ _ hring'.fits), hstored]
      intro b hb g hlo hhi
      obtain ⟨hmem, hw⟩ := mem_filter.1 hb
      exact hfree g ⟨b, hmem, hw, hlo, hhi⟩
    · rw [← helem]
      exact hid
    · rw [← helem]
      exact hlen
    · rw [pushUsed_idx hnum hring'.fits hring'.inside, hidx]
    · rw [hnext] at hpush
      exact (hfill.mono fun g => .inl).trans (hpush.mono fun g => .inr)

/-! A chain of one writable buffer of eight bytes behind the rings, with the used ring wherever the
driver says. -/

def postedRam : GuestRam :=
  { base := 0
    len := 48
    host := fun g =>
      [40, 0, 0, 0, 0, 0, 0, 0, 8, 0, 0, 0, 2, 0, 0, 0, 0, 0, 1, 0, 0, 0].getD g 0 }

def postedQueue (used : ℕ) : Queue := ⟨1, 1, 0, 16, used, 0⟩

theorem nextChain_posted (used : ℕ) : nextChain postedRam (postedQueue used) = [⟨40, 8, true⟩] := by
  have hhead : nextHead postedRam (postedQueue used) = 0 :=
    (by decide : nextHead postedRam (postedQueue 0) = 0)
  rw [nextChain, hhead]
  exact (by decide : collectChain postedRam 0 0 1 = [⟨40, 8, true⟩])

theorem injectOne_agrees_posted :
    nextRxCapacity postedRam (postedQueue 24) = some 8 ∧ ∃ ram',
      injectOne postedRam (postedQueue 24) [7] = some (ram', (postedQueue 24).advance, (0, 1)) ∧
        Injected postedRam (postedQueue 24) [7] ram' := by
  have hcap : nextRxCapacity postedRam (postedQueue 24) = some 8 := by decide
  refine ⟨hcap, (injectOne_agrees postedRam (postedQueue 24)).2 ⟨by decide, by decide, by decide⟩
    ?_ ?_ 8 hcap [7] (by decide) (by decide)⟩
  · rw [nextChain_posted]
    exact pairwise_singleton _ _
  · rw [nextChain_posted]
    rintro g ⟨b, hb, -, hlo, -⟩ ⟨-, hhi⟩
    rw [mem_singleton.1 hb] at hlo
    exact absurd (hlo.trans_lt hhi) (by decide)

open RxSys QueueSys in
/-- **Where an injection is not reported.**  The chain of one buffer takes a byte, but its used ring
is outside RAM and the length there reads as zero.  And 256 buffers of 16 MiB, apart from each other
and from the rings, take 2^32 bytes, which are published as none. -/
theorem injection_unreported :
    (nextChain postedRam (postedQueue 1000) = [⟨40, 8, true⟩] ∧
      nextRxCapacity postedRam (postedQueue 1000) = some 8 ∧ ∃ ram' q' e,
      injectOne postedRam (postedQueue 1000) [7] = some (ram', q', e) ∧
        ram'.readU32 (usedElem postedRam (postedQueue 1000) + 4) = 0) ∧
    (nextRxCapacity (wideRam 1) wideQueue = some (2 ^ 32) ∧
      ((nextChain (wideRam 1) wideQueue).filter (·.writable)).Pairwise Apart ∧
      (∀ g, InWritable (nextChain (wideRam 1) wideQueue) g → maxDescLen ≤ g) ∧
      (injectOne (wideRam 1) wideQueue (List.replicate (2 ^ 32) 0)).map (·.2.2) =
        some (0, 0)) := by
  refine ⟨⟨nextChain_posted 1000, by decide, _, _, _, rfl, by decide⟩, ?_⟩
  have hchain : nextChain (wideRam 1) wideQueue =
      collectChain (wideRam 1) wideQueue.desc 0 wideQueue.num := rfl
  have hcap : nextRxCapacity (wideRam 1) wideQueue = some (2 ^ 32) := by
    rw [nextRxCapacity, if_neg (by decide), if_neg (by decide), hchain, filter_wideRam]
    exact congrArg some room_wideBuf
  have hapart : ((nextChain (wideRam 1) wideQueue).filter (·.writable)).Pairwise Apart :=
    receives_wideRam.1
  have hdata : (replicate (2 ^ 32) (0 : UInt8)).length = 2 ^ 32 := length_replicate
  refine ⟨hcap, hapart, ?_, ?_⟩
  · rintro g ⟨b, hb, -, hle, -⟩
    rw [hchain, chain_wideRam] at hb
    obtain ⟨i, -, rfl⟩ := mem_map.1 hb
    exact (Nat.le_mul_of_pos_left _ (Nat.succ_pos i)).trans hle
  · obtain ⟨hcount, -⟩ := fillBufs_next hcap hapart hdata.le
    rw [(nextRxCapacity_eq_some hcap).2.2, Option.map_some]
    dsimp only
    rw [hcount, hdata, Nat.mod_self]
    rfl

end Amber
