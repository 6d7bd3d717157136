import Amber.Lib.WrapCounter
import Amber.Core.VirtioMmio

/-!
# The ring invariant

What holds of every live queue between two steps of the transport, when the driver keeps its
side of the virtio contract.

`posted i` lists the heads the driver has made available on queue `i` since set-up, and
`served i` the elements the device side has published.  Both only grow, while the rings in
guest RAM hold 16-bit counters and `num` slots.  `DriverOk` relates the available ring to
`posted`, `DeviceOk` the used ring and `last_avail` to `served`.

* `RingInv.completion` — completing one chain keeps the invariant of every queue.
* `RingInv.completions` — hence any sequence of completions does.
-/

namespace Amber

open GuestRam WrapCounter List Function

/-! ## Where the rings lie -/

def InDescTable (q : Queue) (g : ℕ) : Prop := q.desc ≤ g ∧ g < q.desc + 16 * q.num

def InAvailRing (q : Queue) (g : ℕ) : Prop := q.avail ≤ g ∧ g < q.avail + 4 + 2 * q.num

/-- `g` lies in one of the three rings of a live queue. -/
def InRings (queues : List Queue) (g : ℕ) : Prop :=
  ∃ q ∈ queues, q.active = true ∧
    (InDescTable q g ∨ InAvailRing q g ∨ InUsedRing q.used q.num g)

/-- The size of a queue is a power of two up to 256, its used ring is in RAM and no ring
wraps around the address space. -/
structure Geometry (ram : GuestRam) (q : Queue) : Prop where
  num_pow : ∃ k, k ≤ 8 ∧ q.num = 2 ^ k
  desc_fits : q.desc + 16 * q.num ≤ 2 ^ 64
  avail_fits : q.avail + 4 + 2 * q.num ≤ 2 ^ 64
  used_fits : q.used + 4 + 8 * q.num ≤ 2 ^ 64
  used_inRange : ram.inRange q.used (4 + 8 * q.num) = true

namespace Geometry

variable {ram ram' : GuestRam} {q : Queue} {P : ℕ → Prop}

variable (h : Geometry ram q)

include h

theorem num_pos : 0 < q.num := by
  obtain ⟨k, -, hk⟩ := h.num_pow
  rw [hk]
  exact Nat.two_pow_pos k

theorem num_le : q.num ≤ 256 := by
  obtain ⟨k, hk, hnum⟩ := h.num_pow
  rw [hnum]
  exact Nat.pow_le_pow_right (n := 2) (by decide) hk

theorem num_dvd : q.num ∣ 2 ^ 16 := by
  obtain ⟨k, hk, hnum⟩ := h.num_pow
  rw [hnum]
  exact pow_dvd_pow 2 (by omega)

theorem qsz_eq : q.qsz = q.num :=
  Nat.mod_eq_of_lt (by have := h.num_le; omega)

/-- Wrapping the counter at 16 bits does not change the slot. -/
theorem slot_eq (n : ℕ) : n % 2 ^ 16 % q.num = n % q.num :=
  Nat.mod_mod_of_dvd n h.num_dvd

theorem of_changesOnly (hc : ChangesOnly P ram ram') : Geometry ram' q :=
  { h with used_inRange := by rw [hc.inRange_eq]; exact h.used_inRange }

end Geometry

/-- The used rings are disjoint from every other ring of a live queue. -/
structure Layout (ram : GuestRam) (queues : List Queue) : Prop where
  geometry : ∀ q ∈ queues, q.active = true → Geometry ram q
  used_free : ∀ (i j : ℕ) (q q' : Queue), queues[i]? = some q → queues[j]? = some q' →
    q.active = true → q'.active = true → ∀ g, InUsedRing q.used q.num g →
      ¬ InDescTable q' g ∧ ¬ InAvailRing q' g ∧ (i ≠ j → ¬ InUsedRing q'.used q'.num g)

/-! ## One queue -/

/-- The driver's side of one queue: the available ring shows the posted heads, at most `num`
of them are outstanding after the first `n`, and the outstanding chains are acceptable and
have no writable buffer in a ring. -/
structure DriverOk (ok : List Buf → Prop) (rings : ℕ → Prop) (ram : GuestRam) (q : Queue)
    (posted : List ℕ) (n : ℕ) : Prop where
  availIdx : ram.readU16 (q.avail + 2) = posted.length % 2 ^ 16
  served_le : n ≤ posted.length
  outstanding : posted.length ≤ n + q.num
  availElem : ∀ k (hk : k < posted.length), n ≤ k →
    ram.readU16 (q.avail + 4 + 2 * (k % q.num)) = posted[k]
  chains : ∀ k (hk : k < posted.length), n ≤ k →
    ok (collectChain ram q.desc posted[k] q.num) ∧
      ∀ g, InWritable (collectChain ram q.desc posted[k] q.num) g → ¬ rings g

/-- The device's side of one queue: the used ring and `last_avail` count the served chains,
the last `num` used elements are still in their slots, and the heads served are the heads
posted, in order. -/
structure DeviceOk (ram : GuestRam) (q : Queue) (posted : List ℕ) (served : List UsedElem) :
    Prop where
  lastAvail : q.lastAvail = served.length % 2 ^ 16
  usedIdx : ram.readU16 (q.used + 2) = served.length % 2 ^ 16
  usedElem : ∀ k (hk : k < served.length), served.length ≤ k + q.num →
    ram.readU32 (q.used + 4 + 8 * (k % q.num)) = served[k].1 ∧
      ram.readU32 (q.used + 4 + 8 * (k % q.num) + 4) = served[k].2
  inOrder : served.map Prod.fst = posted.take served.length

section OneQueue

variable {ok : List Buf → Prop} {rings P : ℕ → Prop} {ram ram' : GuestRam} {q q' : Queue}
  {posted : List ℕ} {served : List UsedElem} {n : ℕ} {e : UsedElem}

/-- The driver's side survives writes outside its descriptor table and available ring. -/
theorem DriverOk.frame (h : DriverOk ok rings ram q posted n) (hgeo : Geometry ram q)
    (hc : ChangesOnly P ram ram') (hP : ∀ g, InDescTable q g ∨ InAvailRing q g → ¬ P g) :
    DriverOk ok rings ram' q posted n := by
  have hchain : ∀ head, collectChain ram' q.desc head q.num = collectChain ram q.desc head q.num :=
    collectChain_frame hc hgeo.desc_fits fun g h1 h2 => hP g (.inl ⟨h1, h2⟩)
  refine ⟨?_, h.served_le, h.outstanding, ?_, ?_⟩
  · rw [hc.readU16_eq, h.availIdx]
    exact fun g h1 h2 => hP g (.inr ⟨by omega, by omega⟩)
  · intro k hk hn
    have hslot := Nat.mod_lt k hgeo.num_pos
    rw [hc.readU16_eq, h.availElem k hk hn]
    exact fun g h1 h2 => hP g (.inr ⟨by omega, by omega⟩)
  · intro k hk hn
    rw [hchain]
    exact h.chains k hk hn

/-- Serving the oldest outstanding chain leaves the driver's side of the rest. -/
theorem DriverOk.advance (h : DriverOk ok rings ram q posted n) (hlt : n < posted.length) :
    DriverOk ok rings ram q.advance posted (n + 1) where
  availIdx := h.availIdx
  served_le := hlt
  outstanding := h.outstanding.trans (by simp only [Queue.advance]; omega)
  availElem := fun k hk hn => h.availElem k hk (by omega)
  chains := fun k hk hn => h.chains k hk (by omega)

variable (h : DeviceOk ram q posted served)

include h

/-- The device's side survives writes outside its used ring. -/
theorem DeviceOk.frame (hgeo : Geometry ram q) (hc : ChangesOnly P ram ram')
    (hP : ∀ g, InUsedRing q.used q.num g → ¬ P g) :
    DeviceOk ram' q posted served := by
  refine ⟨h.lastAvail, ?_, ?_, h.inOrder⟩
  · rw [hc.readU16_eq, h.usedIdx]
    exact fun g h1 h2 => hP g ⟨by omega, by omega⟩
  · intro k hk hwin
    have hslot := Nat.mod_lt k hgeo.num_pos
    rw [hc.readU32_eq, hc.readU32_eq]
    · exact h.usedElem k hk hwin
    · exact fun g h1 h2 => hP g ⟨by omega, by omega⟩
    · exact fun g h1 h2 => hP g ⟨by omega, by omega⟩

theorem DeviceOk.served_le : served.length ≤ posted.length := by
  have hlen := congrArg length h.inOrder
  rw [length_map, length_take] at hlen
  omega

/-- Publishing the next posted head counts it on the device's side. -/
theorem DeviceOk.push (hgeo : Geometry ram q) (hhead : posted[served.length]? = some e.1)
    (hid : e.1 < 2 ^ 32) (hlen : e.2 < 2 ^ 32) :
    DeviceOk (pushUsed ram q.used e.1 e.2 q.num) q.advance posted (served ++ [e]) := by
  have hq : q.num ≠ 0 := hgeo.num_pos.ne'
  have hslot : ram.readU16 (q.used + 2) % q.num = served.length % q.num := by
    rw [h.usedIdx, hgeo.slot_eq]
  refine ⟨?_, ?_, ?_, ?_⟩
  · simp [Queue.advance, h.lastAvail]
  · simp [Queue.advance, pushUsed_idx hq hgeo.used_fits hgeo.used_inRange, h.usedIdx]
  · intro k hk hwin
    simp only [Queue.advance] at hwin ⊢
    rw [length_append, length_singleton] at hk hwin
    rcases Nat.lt_succ_iff_lt_or_eq.1 hk with hk' | rfl
    · -- an older element: its slot is not the one being overwritten
      have hne : k % q.num ≠ ram.readU16 (q.used + 2) % q.num := by
        rw [hslot]
        exact mod_ne_mod_of_lt hk' (by omega)
      obtain ⟨h1, h2⟩ := pushUsed_other e.1 e.2 hq hgeo.used_fits hne
      rw [h1, h2, getElem_append_left hk']
      exact h.usedElem k hk' (by omega)
    · rw [← hslot, getElem_append_right (le_refl _)]
      simpa using pushUsed_elem hq hgeo.used_fits hgeo.used_inRange hid hlen
  · rw [map_append, h.inOrder, length_append, length_singleton, map_singleton, take_add_one, hhead]
    rfl

omit h

/-- A completion serves the oldest outstanding chain. -/
theorem Completion.next (c : Completion ok ram q e ram' q') (hgeo : Geometry ram q)
    (hdrv : DriverOk ok rings ram q posted served.length) (hdev : DeviceOk ram q posted served) :
    ∃ hlt : served.length < posted.length, e.1 = posted[served.length] ∧
      nextChain ram q = collectChain ram q.desc posted[served.length] q.num := by
  have hfit := hgeo.avail_fits
  have hpos := hgeo.num_pos
  have hlt : served.length < posted.length := by
    refine lt_of_le_of_ne hdrv.served_le fun heq => c.posted ?_
    rw [wadd_of_lt (by omega), hdrv.availIdx, hdev.lastAvail, heq]
  have hslot := Nat.mod_lt served.length hpos
  have hhead : nextHead ram q = posted[served.length] := by
    rw [nextHead, hgeo.qsz_eq, hdev.lastAvail, hgeo.slot_eq, wadd_of_lt (by omega),
      ← add_assoc, hdrv.availElem _ hlt (le_refl _)]
  refine ⟨hlt, c.head_eq.trans hhead, ?_⟩
  rw [nextChain, hhead, hgeo.qsz_eq]

end OneQueue

/-! ## All queues of a transport -/

/-- The invariant of a transport's queues. -/
structure RingInv (ok : ℕ → List Buf → Prop) (ram : GuestRam) (queues : List Queue)
    (posted : ℕ → List ℕ) (served : ℕ → List UsedElem) : Prop where
  layout : Layout ram queues
  driver : ∀ (i : ℕ) (q : Queue), queues[i]? = some q → q.active = true →
    DriverOk (ok i) (InRings queues) ram q (posted i) (served i).length
  device : ∀ (i : ℕ) (q : Queue), queues[i]? = some q → q.active = true →
    DeviceOk ram q (posted i) (served i)

section Advance

variable {ram ram' : GuestRam} {queues : List Queue} {i : ℕ} {q : Queue} {P : ℕ → Prop}

variable (hi : queues[i]? = some q)

include hi

theorem getElem?_set_advance {j : ℕ} {q' : Queue} (hj : (queues.set i q.advance)[j]? = some q') :
    (j = i ∧ q' = q.advance) ∨ (j ≠ i ∧ queues[j]? = some q') := by
  have hlt := (List.getElem?_eq_some_iff.1 hi).1
  rw [List.getElem?_set] at hj
  split at hj
  · rename_i hij
    cases hj
    exact .inl ⟨hij.symm, rfl⟩
  · rename_i hij
    exact .inr ⟨Ne.symm hij, hj⟩

/-- Behind an advanced queue stands a queue with the same rings. -/
theorem getElem?_of_set_advance {j : ℕ} {q' : Queue} (hj : (queues.set i q.advance)[j]? = some q') :
    ∃ q₀, queues[j]? = some q₀ ∧ (q' = q₀ ∨ q' = q₀.advance) := by
  rcases getElem?_set_advance hi hj with ⟨rfl, rfl⟩ | ⟨-, hj⟩
  · exact ⟨q, hi, .inr rfl⟩
  · exact ⟨q', hj, .inl rfl⟩

theorem inRings_set_advance {g : ℕ} (h : InRings (queues.set i q.advance) g) :
    InRings queues g := by
  obtain ⟨q', hmem, hrest⟩ := h
  obtain ⟨j, hj⟩ := mem_iff_getElem?.1 hmem
  obtain ⟨q₀, hq₀, rfl | rfl⟩ := getElem?_of_set_advance hi hj
  · exact ⟨q', mem_of_getElem? hq₀, hrest⟩
  · exact ⟨q₀, mem_of_getElem? hq₀, hrest⟩

omit hi

theorem Layout.set_advance (h : Layout ram queues) (hi : queues[i]? = some q)
    (hc : ChangesOnly P ram ram') : Layout ram' (queues.set i q.advance) := by
  constructor
  · intro q' hmem hact
    obtain ⟨j, hj⟩ := mem_iff_getElem?.1 hmem
    obtain ⟨q₀, hq₀, rfl | rfl⟩ := getElem?_of_set_advance hi hj
    · exact (h.geometry _ (mem_of_getElem? hq₀) hact).of_changesOnly hc
    · obtain ⟨h1, h2, h3, h4, h5⟩ :=
        (h.geometry _ (mem_of_getElem? hq₀) hact).of_changesOnly hc
      exact ⟨h1, h2, h3, h4, h5⟩
  · intro j j' p p' hp hp' hact hact' g hg
    obtain ⟨p₀, hp₀, rfl | rfl⟩ := getElem?_of_set_advance hi hp <;>
    obtain ⟨p₁, hp₁, rfl | rfl⟩ := getElem?_of_set_advance hi hp'
    all_goals exact h.used_free j j' _ _ hp₀ hp₁ hact hact' g hg

end Advance

section AllQueues

variable {ok : ℕ → List Buf → Prop} {ram ram' : GuestRam} {queues : List Queue}
  {posted : ℕ → List ℕ} {served : ℕ → List UsedElem} {i : ℕ} {q q' : Queue} {e : UsedElem}
  {es : List UsedElem}

/-- **Completing one chain keeps the ring invariant.**  The chain's buffers and the used ring
are disjoint from everything the other queues and the driver rely on. -/
theorem RingInv.completion (h : RingInv ok ram queues posted served) (hi : queues[i]? = some q)
    (c : Completion (ok i) ram q e ram' q') :
    RingInv ok ram' (queues.set i q') posted
      (Function.update served i (served i ++ [e])) := by
  have hmem := mem_of_getElem? hi
  have hgeo := h.layout.geometry q hmem c.active
  obtain ⟨hlt, he, hchain⟩ := c.next hgeo (h.driver i q hi c.active) (h.device i q hi c.active)
  obtain ⟨hok, hfree⟩ := (h.driver i q hi c.active).chains _ hlt (le_refl _)
  rw [← hchain] at hok hfree
  obtain ⟨filled, hfill, rfl⟩ := c.ram_eq
  obtain rfl := c.queue_eq
  have hbufs := hfill hok
  rw [hgeo.qsz_eq]
  have hpush := changesOnly_pushUsed filled e.1 e.2 hgeo.used_fits
  -- everything the completion changes lies in the chain or in the used ring
  have hall : ChangesOnly
      (fun g => InWritable (nextChain ram q) g ∨ InUsedRing q.used q.num g) ram
      (pushUsed filled q.used e.1 e.2 q.num) :=
    (hbufs.mono fun g hg => .inl hg).trans (hpush.mono fun g hg => .inr hg)
  have hdriver : ∀ j p, queues[j]? = some p → p.active = true →
      DriverOk (ok j) (InRings (queues.set i q.advance))
        (pushUsed filled q.used e.1 e.2 q.num) p (posted j) (served j).length := by
    intro j p hp hact
    have hd := (h.driver j p hp hact).frame (h.layout.geometry p (mem_of_getElem? hp) hact)
      hall ?_
    · refine { hd with chains := fun k hk hn => ⟨(hd.chains k hk hn).1, fun g hg hr => ?_⟩ }
      exact (hd.chains k hk hn).2 g hg (inRings_set_advance hi hr)
    · rintro g hg (hw | hu)
      · exact hfree g hw ⟨p, mem_of_getElem? hp, hact, by tauto⟩
      · have := h.layout.used_free i j q p hi hp c.active hact g hu
        tauto
  refine ⟨h.layout.set_advance hi hall, ?_, ?_⟩
  · intro j p hp hact
    rcases getElem?_set_advance hi hp with ⟨rfl, rfl⟩ | ⟨hne, hp⟩
    · rw [update_self, length_append, length_singleton]
      exact (hdriver j q hi hact).advance hlt
    · rw [update_of_ne hne]
      exact hdriver j p hp hact
  · intro j p hp hact
    rcases getElem?_set_advance hi hp with ⟨rfl, rfl⟩ | ⟨hne, hp⟩
    · rw [update_self]
      have hused : ∀ g, InUsedRing q.used q.num g → ¬ InWritable (nextChain ram q) g :=
        fun g hg hw => hfree g hw ⟨q, hmem, hact, .inr (.inr hg)⟩
      have hd := (h.device j q hi hact).frame hgeo hbufs hused
      have hbound : e.1 < 2 ^ 32 := by
        rw [c.head_eq]
        exact (readU16_lt ram _).trans (by decide)
      exact hd.push (hgeo.of_changesOnly hbufs)
        (List.getElem?_eq_some_iff.2 ⟨hlt, he.symm⟩) hbound c.len_lt
    · rw [update_of_ne hne]
      refine (h.device j p hp hact).frame (h.layout.geometry p (mem_of_getElem? hp) hact)
        hall ?_
      rintro g hg (hw | hu)
      · exact hfree g hw ⟨p, mem_of_getElem? hp, hact, .inr (.inr hg)⟩
      · exact (h.layout.used_free i j q p hi hp c.active hact g hu).2.2 (Ne.symm hne) hg

/-- Any sequence of completions on one queue keeps the ring invariant. -/
theorem RingInv.completions (c : Completions (ok i) ram q es ram' q') :
    ∀ {queues : List Queue} {served : ℕ → List UsedElem}, RingInv ok ram queues posted served →
      queues[i]? = some q →
      RingInv ok ram' (queues.set i q') posted
        (Function.update served i (served i ++ es)) := by
  induction c with
  | nil ram q =>
    intro queues served h hi
    have hset : queues.set i q = queues := by
      obtain ⟨hlt, rfl⟩ := List.getElem?_eq_some_iff.1 hi
      exact set_getElem_self hlt
    rw [hset, append_nil, update_eq_self]
    exact h
  | cons hstep _ ih =>
    intro queues served h hi
    have hlt := (List.getElem?_eq_some_iff.1 hi).1
    have h' := ih (h.completion hi hstep) (by rw [getElem?_set_self hlt])
    rw [set_set, update_idem, update_self, append_assoc] at h'
    exact h'

theorem Completions.active {ok : List Buf → Prop} (c : Completions ok ram q es ram' q')
    (h : q.active = true) : q'.active = true := by
  induction c with
  | nil => exact h
  | cons hstep _ ih => exact ih (by rw [hstep.queue_eq, active_advance, h])

/-- A sequence of completions is no longer than the chains that were outstanding. -/
theorem RingInv.completions_length (h : RingInv ok ram queues posted served)
    (hi : queues[i]? = some q) (hact : q.active = true)
    (c : Completions (ok i) ram q es ram' q') :
    (served i).length + es.length ≤ (posted i).length := by
  have hlt := (List.getElem?_eq_some_iff.1 hi).1
  have h' := (RingInv.completions c h hi).device i q' (List.getElem?_set_self hlt)
    (c.active hact)
  have hle := h'.served_le
  rwa [update_self, List.length_append] at hle

end AllQueues

end Amber
