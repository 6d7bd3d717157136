import Mathlib.Data.List.MinMax
import Amber.Hvf.GicV2

/-!
# What the scan for a deliverable interrupt finds

`highest_pending` goes through all INTIDs and keeps the best one it has seen.  Everything that is
delivered is delivered through it: the IRQ line, a read of HPPIR and an acknowledge.  So what it
finds is said once, in terms of the interrupts and not of the scan.

* `Deliverable` — the conditions on an INTID, one by one.
* `Foremost` — of the deliverable INTIDs the one of least priority value, the lowest of several.
* `highestPending_eq_some_iff`, `highestPending_eq_none_iff` — the scan finds the foremost INTID
  with its priority, and nothing only if nothing is deliverable.
-/

namespace Amber.Hvf

open List Option

/-- In an increasing list the minimum that `argmin` picks is the smallest of several. -/
theorem argmin_increasing {α : Type} [LinearOrder α] {l : List α} (hl : l.Pairwise (· < ·))
    {f : α → ℕ} {m : α} :
    l.argmin f = some m ↔ m ∈ l ∧ ∀ a ∈ l, f m < f a ∨ f m = f a ∧ m ≤ a := by
  rw [argmin_eq_some_iff]
  have hidx : ∀ {a b : α}, a ∈ l → b ∈ l → (l.idxOf a < l.idxOf b ↔ a < b) := by
    have hlt : ∀ {a b : α}, a ∈ l → b ∈ l → l.idxOf a < l.idxOf b → a < b := by
      intro a b ha hb hab
      have hab' := pairwise_iff_getElem.1 hl _ _ (idxOf_lt_length_iff.2 ha)
        (idxOf_lt_length_iff.2 hb) hab
      rwa [getElem_idxOf, getElem_idxOf] at hab'
    intro a b ha hb
    refine ⟨hlt ha hb, fun hab => ?_⟩
    rcases Nat.lt_trichotomy (l.idxOf a) (l.idxOf b) with h | h | h
    · exact h
    · exact absurd ((idxOf_inj ha).1 h) hab.ne
    · exact absurd (hlt hb ha h) hab.asymm
  constructor
  · rintro ⟨hm, hmin, hfirst⟩
    refine ⟨hm, fun a ha => ?_⟩
    rcases Nat.lt_or_eq_of_le (hmin a ha) with h | h
    · exact .inl h
    · refine .inr ⟨h, le_of_not_gt fun hlt => ?_⟩
      exact absurd (hfirst a ha h.ge) (not_le.2 ((hidx ha hm).2 hlt))
  · rintro ⟨hm, hleast⟩
    refine ⟨hm, fun a ha => ?_, fun a ha hle => ?_⟩
    · rcases hleast a ha with h | h
      · exact h.le
      · exact h.1.le
    · rcases hleast a ha with h | h
      · exact absurd hle (not_le.2 h)
      · exact not_lt.1 fun hlt => absurd ((hidx ha hm).1 hlt) (not_lt_of_ge h.2)

namespace GicV2

variable {g : GicV2} {c : ℕ} {i : Intid} {p : UInt8}

/-! ## Deliverable interrupts -/

/-- A private INTID is for the CPU of its bank, an SPI for the CPUs of its mask. -/
def targeted (g : GicV2) (c : ℕ) (i : Intid) : Bool :=
  decide (i.val < privateIntids) || (g.targets i).toNat.testBit c

/-- The latch of an edge-triggered INTID, the line of a level-triggered one. -/
def raised (g : GicV2) (c : ℕ) (i : Intid) : Bool :=
  if g.edgeAt c i then g.get c Lines.pending i else g.get c Lines.level i

theorem isPending_eq (g : GicV2) (c : ℕ) (i : Intid) :
    g.isPending c i = (g.targeted c i && g.raised c i) := by
  have hbit : (g.targets i).toNat &&& (1 <<< c) = 0 ↔ (g.targets i).toNat.testBit c = false := by
    rw [Nat.one_shiftLeft, Nat.and_two_pow, Nat.mul_eq_zero, Bool.toNat_eq_zero]
    exact or_iff_left (Nat.two_pow_pos c).ne'
  rw [isPending, raised, targeted]
  by_cases hi : i.val < privateIntids
  · rw [if_neg fun h => absurd hi (not_lt.2 h.1), decide_eq_true hi]
    rfl
  · rw [decide_eq_false hi, Bool.false_or]
    cases hc : (g.targets i).toNat.testBit c with
    | false =>
      rw [if_pos ⟨not_lt.1 hi, hbit.2 hc⟩]
      rfl
    | true =>
      rw [if_neg fun h => absurd (hbit.1 h.2) (by rw [hc]; decide)]
      rfl

/-- INTID `i` can be delivered to CPU `c`. -/
structure Deliverable (g : GicV2) (c : ℕ) (i : Intid) : Prop where
  forwarded : g.distEnabled = true
  enabled : g.enabledAt c i = true
  inactive : g.activeAt c i = false
  targeted : g.targeted c i = true
  raised : g.raised c i = true
  unmasked : g.priorityAt c i < (g.bank c).pmr
  preempts : g.priorityAt c i < g.runningPrio c

theorem Deliverable.isPending (h : g.Deliverable c i) : g.isPending c i = true := by
  rw [isPending_eq, h.targeted, h.raised]
  rfl

/-- … and no other has a lower priority value, or the same one and a lower number. -/
structure Foremost (g : GicV2) (c : ℕ) (i : Intid) : Prop where
  deliverable : g.Deliverable c i
  first : ∀ j, g.Deliverable c j → g.priorityAt c i < g.priorityAt c j ∨
    g.priorityAt c i = g.priorityAt c j ∧ i ≤ j

/-! ## The scan -/

/-- The gates of the scan. -/
def passes (g : GicV2) (c : ℕ) (i : Intid) : Bool :=
  g.enabledAt c i && !g.activeAt c i && g.isPending c i &&
    decide (g.priorityAt c i < (g.bank c).pmr) && decide (g.priorityAt c i < g.runningPrio c)

theorem deliverable_iff_passes :
    g.Deliverable c i ↔ g.distEnabled = true ∧ g.passes c i = true := by
  simp only [passes, isPending_eq, Bool.and_eq_true, decide_eq_true_eq, Bool.not_eq_true']
  constructor
  · rintro ⟨h1, h2, h3, h4, h5, h6, h7⟩
    exact ⟨h1, ⟨⟨⟨h2, h3⟩, h4, h5⟩, h6⟩, h7⟩
  · rintro ⟨h1, ⟨⟨⟨h2, h3⟩, h4, h5⟩, h6⟩, h7⟩
    exact ⟨h1, h2, h3, h4, h5, h6, h7⟩

instance (g : GicV2) (c : ℕ) (i : Intid) : Decidable (g.Deliverable c i) :=
  decidable_of_iff _ deliverable_iff_passes.symm

/-- An INTID with its priority. -/
def ranked (g : GicV2) (c : ℕ) (i : Intid) : Intid × UInt8 := (i, g.priorityAt c i)

/-- One turn of the scan. -/
theorem scan_turn (best : Option (Intid × UInt8)) :
    (if !g.enabledAt c i || g.activeAt c i || !g.isPending c i then best
      else if g.priorityAt c i ≥ (g.bank c).pmr ∨ g.priorityAt c i ≥ g.runningPrio c then best
      else better best i (g.priorityAt c i)) =
      if g.passes c i then better best i (g.priorityAt c i) else best := by
  by_cases hready : (!g.enabledAt c i || g.activeAt c i || !g.isPending c i) = true
  · have hno : g.passes c i = false := by
      rw [passes]
      cases he : g.enabledAt c i <;> cases ha : g.activeAt c i <;>
        cases hp : g.isPending c i <;> first | rfl | (rw [he, ha, hp] at hready; cases hready)
    rw [if_pos hready, hno]
    rfl
  · have hyes : g.enabledAt c i = true ∧ g.activeAt c i = false ∧ g.isPending c i = true := by
      simpa [and_assoc] using hready
    rw [if_neg hready, passes, hyes.1, hyes.2.1, hyes.2.2]
    by_cases hgate : g.priorityAt c i ≥ (g.bank c).pmr ∨ g.priorityAt c i ≥ g.runningPrio c
    · have hno : ¬ (g.priorityAt c i < (g.bank c).pmr ∧ g.priorityAt c i < g.runningPrio c) := by
        rintro ⟨h1, h2⟩
        rcases hgate with h | h
        · exact absurd h1 (UInt8.not_lt.2 h)
        · exact absurd h2 (UInt8.not_lt.2 h)
      rw [if_pos hgate, if_neg]
      simpa using hno
    · rw [not_or] at hgate
      have h1 := UInt8.not_le.1 hgate.1
      have h2 := UInt8.not_le.1 hgate.2
      rw [if_neg (not_or.2 hgate), decide_eq_true h1, decide_eq_true h2]
      rfl

/-- Keeping the better one is a step of `argmin`. -/
theorem better_ranked (o : Option Intid) (i : Intid) :
    better (o.map (g.ranked c)) i (g.priorityAt c i) =
      (List.argAux (fun b d => (g.priorityAt c b).toNat < (g.priorityAt c d).toNat) o i).map
        (g.ranked c) := by
  cases o with
  | none => rfl
  | some j =>
    by_cases h : g.priorityAt c i < g.priorityAt c j
    · have hnat := UInt8.lt_iff_toNat_lt.1 h
      simp only [better, map_some, ranked, argAux, if_pos h, if_pos hnat]
    · have hnat := fun hlt => h (UInt8.lt_iff_toNat_lt.2 hlt)
      simp only [better, map_some, ranked, argAux, if_neg h, if_neg hnat]

theorem scan_eq (g : GicV2) (c : ℕ) (l : List Intid) : ∀ o : Option Intid,
    l.foldl (fun best i => better best i (g.priorityAt c i)) (o.map (g.ranked c)) =
      (l.foldl (List.argAux fun b d => (g.priorityAt c b).toNat < (g.priorityAt c d).toNat)
        o).map (g.ranked c) := by
  induction l with
  | nil => exact fun o => rfl
  | cons i l ih =>
    intro o
    rw [foldl_cons, foldl_cons, better_ranked, ih]

/-- The INTIDs that pass, in order. -/
def passing (g : GicV2) (c : ℕ) : List Intid := (List.finRange numIntid).filter (g.passes c)

theorem mem_passing : i ∈ g.passing c ↔ g.passes c i = true := by
  rw [passing, mem_filter]
  exact and_iff_right (mem_finRange i)

theorem highestPending_eq_argmin (h : g.distEnabled = true) : g.highestPending c =
    ((g.passing c).argmin fun i => (g.priorityAt c i).toNat).map (g.ranked c) := by
  have hturn : (fun (best : Option (Intid × UInt8)) i =>
      if !g.enabledAt c i || g.activeAt c i || !g.isPending c i then best
      else if g.priorityAt c i ≥ (g.bank c).pmr ∨ g.priorityAt c i ≥ g.runningPrio c then best
      else better best i (g.priorityAt c i)) =
      fun best i => if g.passes c i then better best i (g.priorityAt c i) else best :=
    funext fun best => funext fun i => scan_turn best
  rw [highestPending, h, if_neg (by decide), hturn, ← foldl_filter]
  exact scan_eq g c _ none

/-- **The scan finds the foremost interrupt**, and reports the priority it has. -/
theorem highestPending_eq_some_iff :
    g.highestPending c = some (i, p) ↔ g.Foremost c i ∧ p = g.priorityAt c i := by
  by_cases hd : g.distEnabled = true
  · have hsorted : (g.passing c).Pairwise (· < ·) := (pairwise_lt_finRange _).filter _
    have hdel : ∀ j, g.Deliverable c j ↔ j ∈ g.passing c := fun j => by
      rw [deliverable_iff_passes, mem_passing]
      exact and_iff_right hd
    have hrank : (∃ j, (g.passing c).argmin (fun i => (g.priorityAt c i).toNat) = some j ∧
        g.ranked c j = (i, p)) ↔
        (g.passing c).argmin (fun i => (g.priorityAt c i).toNat) = some i ∧
          p = g.priorityAt c i := by
      constructor
      · rintro ⟨j, hj, hij⟩
        cases hij
        exact ⟨hj, rfl⟩
      · rintro ⟨hi, rfl⟩
        exact ⟨i, hi, rfl⟩
    rw [highestPending_eq_argmin hd, map_eq_some_iff, hrank, argmin_increasing hsorted]
    refine and_congr_left fun _ => ⟨fun h => ⟨(hdel i).2 h.1, fun j hj => ?_⟩, fun h =>
      ⟨(hdel i).1 h.deliverable, fun j hj => ?_⟩⟩
    · rcases h.2 j ((hdel j).1 hj) with hlt | heq
      · exact .inl (UInt8.lt_iff_toNat_lt.2 hlt)
      · exact .inr ⟨UInt8.toNat_inj.1 heq.1, heq.2⟩
    · rcases h.first j ((hdel j).2 hj) with hlt | heq
      · exact .inl (UInt8.lt_iff_toNat_lt.1 hlt)
      · exact .inr ⟨congrArg UInt8.toNat heq.1, heq.2⟩
  · have hoff : g.distEnabled = false := by simpa using hd
    rw [highestPending, hoff]
    exact ⟨nofun, fun h => absurd h.1.deliverable.forwarded hd⟩

theorem highestPending_eq_none_iff :
    g.highestPending c = none ↔ ∀ i, ¬ g.Deliverable c i := by
  by_cases hd : g.distEnabled = true
  · rw [highestPending_eq_argmin hd, map_eq_none_iff, argmin_eq_none,
      eq_nil_iff_forall_not_mem]
    refine forall_congr' fun i => not_congr ?_
    rw [mem_passing, deliverable_iff_passes]
    exact (and_iff_right hd).symm
  · have hoff : g.distEnabled = false := by simpa using hd
    rw [highestPending, hoff]
    exact ⟨fun _ i h => hd h.forwarded, fun _ => rfl⟩

/-- Only a higher priority than the innermost running one is delivered. -/
theorem highestPending_lt (h : g.highestPending c = some (i, p)) : p < g.runningPrio c := by
  obtain ⟨hfore, rfl⟩ := highestPending_eq_some_iff.1 h
  exact hfore.deliverable.preempts

/-- Only what is enabled, pending and not active is delivered. -/
theorem highestPending_ready (h : g.highestPending c = some (i, p)) :
    g.enabledAt c i = true ∧ g.activeAt c i = false ∧ g.isPending c i = true := by
  obtain ⟨hfore, -⟩ := highestPending_eq_some_iff.1 h
  exact ⟨hfore.deliverable.enabled, hfore.deliverable.inactive, hfore.deliverable.isPending⟩

end GicV2
end Amber.Hvf
