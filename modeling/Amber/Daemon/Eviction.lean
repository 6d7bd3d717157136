import Amber.Daemon.Launching
import Mathlib.Algebra.Order.BigOperators.Group.List
import Mathlib.Algebra.Order.Ring.Nat

/-!
# What an eviction gives up for a reservation

`reserve_with_evict` of `amber/src/daemon.rs` tries to reserve and, as long as it is refused, takes
one warm worker out of the pool, gives its reservation back and sets its kill flag.  The order in
which workers go is the order in which `evict_one_pooled` pops them: the templates as the map is
walked, the workers of each from the last.

A run of evictions is described by the ids it popped (`Evicted`), whatever the registry and the
pool hold; the descriptions compose, so the loop is one induction on the size of the pool.

* `popFirst_eq_some` — an eviction takes the head of the pop order.
* `reserveWithEvict_stops` — where the loop stops: at the first prefix of the pop order that lets
  the request in, or with an empty pool.
* `reserveWithEvict_exact` — with distinct, registered workers and sums that fit, it admits exactly
  when the request fits beside the VMs that are not in the pool, it evicts as few workers as
  can be, and a refusal leaves those VMs alone.
-/

namespace Amber.Daemon.Start

open World List

variable {env : Env} {reference : String} {w w₁ w₂ : World} {ids more : List ℕ}

/-! ## The pop order -/

/-- The pooled workers in the order in which evictions take them. -/
def popOrder (pool : List (String × List ℕ)) : List ℕ := pool.flatMap fun p => p.2.reverse

theorem popOrder_cons (template : String) (ids : List ℕ) (rest : List (String × List ℕ)) :
    popOrder ((template, ids) :: rest) = ids.reverse ++ popOrder rest := rfl

theorem popFirst_eq_none {pool : List (String × List ℕ)} (h : popFirst pool = none) :
    popOrder pool = [] :=
  flatMap_eq_nil_iff.2 fun p hp => reverse_eq_nil_iff.2 (empty_of_popFirst h p hp)

theorem popFirst_eq_some {pool pool' : List (String × List ℕ)} {id : ℕ}
    (h : popFirst pool = some (id, pool')) : popOrder pool = id :: popOrder pool' := by
  induction pool generalizing pool' with
  | nil => cases h
  | cons p rest ih =>
    obtain ⟨template, ids⟩ := p
    rw [popFirst] at h
    split at h
    · rename_i last hlast
      cases h
      obtain ⟨front, rfl⟩ := getLast?_eq_some_iff.1 hlast
      simp [popOrder_cons]
    · rename_i hids
      obtain ⟨⟨id', rest'⟩, hrest, hr⟩ := Option.map_eq_some_iff.1 h
      cases hr
      rw [popOrder_cons, popOrder_cons, getLast?_eq_none_iff.1 hids, ih hrest]
      rfl

/-! ## Runs of evictions -/

/-- `w₁` is `w` after the eviction of `ids`. -/
structure Evicted (w w₁ : World) (ids : List ℕ) : Prop where
  /-- They were the first of the pop order, and are out of the pool. -/
  pool : popOrder w.pool = ids ++ popOrder w₁.pool
  /-- Their entries, and no others, are out of the registry. -/
  registry : w₁.registry = w.registry.filter fun e => e.id ∉ ids
  /-- The kill flags of their entries, and no others, have been set. -/
  killed : ∀ flag, flag ∈ w₁.killed ↔
    flag ∈ w.killed ∨ ∃ e ∈ w.registry, e.id ∈ ids ∧ e.kill = flag
  counter : w₁.counter = w.counter
  workers : w₁.workers = w.workers
  supervised : w₁.supervised = w.supervised

namespace Evicted

theorem refl (w : World) : Evicted w w [] where
  pool := rfl
  registry := by simp
  killed := by simp
  counter := rfl
  workers := rfl
  supervised := rfl

theorem trans (h₁ : Evicted w w₁ ids) (h₂ : Evicted w₁ w₂ more) :
    Evicted w w₂ (ids ++ more) where
  pool := by rw [h₁.pool, h₂.pool, append_assoc]
  registry := by
    rw [h₂.registry, h₁.registry, filter_filter]
    refine filter_congr fun e _ => ?_
    simp only [mem_append, not_or, Bool.decide_and, Bool.and_comm]
  killed flag := by
    rw [h₂.killed, h₁.killed, h₁.registry]
    constructor
    · rintro ((hold | ⟨e, he, hid, hflag⟩) | ⟨e, he, hid, hflag⟩)
      · exact .inl hold
      · exact .inr ⟨e, he, mem_append_left _ hid, hflag⟩
      · exact .inr ⟨e, (mem_filter.1 he).1, mem_append_right _ hid, hflag⟩
    · rintro (hold | ⟨e, he, hid, hflag⟩)
      · exact .inl (.inl hold)
      · -- an entry goes with the first of its evictions
        by_cases hfirst : e.id ∈ ids
        · exact .inl (.inr ⟨e, he, hfirst, hflag⟩)
        · refine .inr ⟨e, mem_filter.2 ⟨he, by simpa using hfirst⟩, ?_, hflag⟩
          exact (mem_append.1 hid).resolve_left hfirst
  counter := h₂.counter.trans h₁.counter
  workers := h₂.workers.trans h₁.workers
  supervised := h₂.supervised.trans h₁.supervised

end Evicted

theorem evictOnePooled_evicts (h : evictOnePooled w = some w₁) : ∃ id, Evicted w w₁ [id] := by
  obtain ⟨⟨id, pool⟩, hpop, rfl⟩ := Option.map_eq_some_iff.1 h
  refine ⟨id, ?_, ?_, ?_, rfl, rfl, rfl⟩
  · exact popFirst_eq_some hpop
  · simp [World.remove]
  · intro flag
    simp only [mem_append, mem_map, mem_filter, decide_eq_true_eq, mem_singleton, and_assoc]
    exact or_comm

theorem evictOnePooled_eq_none (h : evictOnePooled w = none) : popOrder w.pool = [] :=
  popFirst_eq_none (Option.map_eq_none_iff.1 h)

/-! ## The check of a reservation along a run -/

namespace World

/-- The registry without the entries of `ids`; the rest of the world does not matter to a
reservation's check. -/
def without (w : World) (ids : List ℕ) : World :=
  { w with registry := w.registry.filter fun e => e.id ∉ ids }

/-- The caps of the VMs that are not among `ids`. -/
def capsWithout (w : World) (ids : List ℕ) : ℕ := ((w.without ids).registry.map Entry.ramBytes).sum

/-- The request fits the budget once `ids` are gone, with no wrapping. -/
def Fits (w : World) (env : Env) (reference : String) (ids : List ℕ) : Prop :=
  ∀ budget, env.budget = some budget → w.capsWithout ids + env.ramBytes reference ≤ budget

end World

theorem admits_congr (h : w₁.registry = w₂.registry) :
    w₁.admits env reference = w₂.admits env reference := by
  rw [admits, admits, used, used, h]

theorem Evicted.admits (h : Evicted w w₁ ids) :
    w₁.admits env reference = (w.without ids).admits env reference :=
  admits_congr h.registry

theorem Evicted.without (h : Evicted w w₁ ids) (more : List ℕ) :
    (w₁.without more).registry = (w.without (ids ++ more)).registry := by
  simp only [World.without, h.registry, filter_filter]
  refine filter_congr fun e _ => ?_
  simp only [mem_append, not_or, Bool.decide_and, Bool.and_comm]

/-- Evicting more never asks for more. -/
theorem capsWithout_mono (h : ∀ id ∈ ids, id ∈ more) : w.capsWithout more ≤ w.capsWithout ids := by
  refine List.Sublist.sum_le_sum (List.Sublist.map _ ?_) fun _ _ => Nat.zero_le _
  refine monotone_filter_right _ fun e he => ?_
  simp only [decide_eq_true_eq] at he ⊢
  exact fun hid => he (h _ hid)

theorem capsWithout_le (w : World) (ids : List ℕ) :
    w.capsWithout ids ≤ (w.registry.map Entry.ramBytes).sum :=
  List.Sublist.sum_le_sum (List.Sublist.map _ filter_sublist) fun _ _ => Nat.zero_le _

theorem admits_without_iff
    (hfits : (w.registry.map Entry.ramBytes).sum + env.ramBytes reference < 2 ^ 64)
    (ids : List ℕ) : (w.without ids).admits env reference ↔ w.Fits env reference ids := by
  have hle := capsWithout_le w ids
  have hused : (w.without ids).used = w.capsWithout ids := Nat.mod_eq_of_lt (by
    change w.capsWithout ids < 2 ^ 64
    omega)
  rw [admits, hused, Fits]
  cases env.budget with
  | none => simp
  | some budget =>
    rw [Nat.mod_eq_of_lt (by omega)]
    simp

/-! ## Where the loop stops -/

theorem reserveWithEvict_of_empty {refusal : Halt}
    (h : reserve env reference w = .error refusal w₁) (hevict : evictOnePooled w = none) :
    reserveWithEvict env reference w = .error refusal w := by
  rw [reserveWithEvict, h]
  dsimp only
  split
  · rfl
  · rename_i hsome
    rw [hevict] at hsome
    cases hsome

/-- **The loop stops at the first prefix of the pop order that lets the request in, or when
nothing is left to evict.** -/
theorem reserveWithEvict_stops (env : Env) (reference : String) (w : World) :
    ∃ ids w₁, Evicted w w₁ ids ∧
      (∀ fewer, fewer <+: ids → fewer ≠ ids → ¬ (w.without fewer).admits env reference) ∧
      (w₁.admits env reference ∧
          reserveWithEvict env reference w = .ok w₁.nextId (w₁.insert env reference) ∨
        ¬ w₁.admits env reference ∧ popOrder w₁.pool = [] ∧
          reserveWithEvict env reference w =
            .error (.refused (env.budget.getD 0) w₁.used (env.ramBytes reference)) w₁) := by
  -- along the loop's own recursion: what it evicts later is appended to its first eviction
  induction hsize : poolSize w.pool using Nat.strong_induction_on generalizing w with
  | _ size ih =>
    subst hsize
    have hnone : ∀ fewer : List ℕ, fewer <+: [] → fewer ≠ [] →
        ¬ (w.without fewer).admits env reference :=
      fun fewer hprefix hne => absurd (prefix_nil.1 hprefix) hne
    by_cases hadmits : w.admits env reference
    · refine ⟨[], w, .refl w, hnone, .inl ⟨hadmits, ?_⟩⟩
      exact reserveWithEvict_of_ok (if_pos hadmits)
    · have hrefused : reserve env reference w =
          .error (.refused (env.budget.getD 0) w.used (env.ramBytes reference)) w :=
        if_neg hadmits
      cases hevict : evictOnePooled w with
      | none =>
        refine ⟨[], w, .refl w, hnone, .inr ⟨hadmits, evictOnePooled_eq_none hevict, ?_⟩⟩
        exact reserveWithEvict_of_empty hrefused hevict
      | some w' =>
        obtain ⟨id, hfirst⟩ := evictOnePooled_evicts hevict
        obtain ⟨ids, w₁, hrest, hfewer, hend⟩ :=
          ih _ (evictOnePooled_size hevict) w' rfl
        refine ⟨[id] ++ ids, w₁, hfirst.trans hrest, ?_, ?_⟩
        · intro fewer hprefix hne
          obtain rfl | ⟨fewer', rfl, hprefix'⟩ := prefix_cons_iff.1 hprefix
          · have hself : (w.without []).registry = w.registry := by simp [World.without]
            rwa [admits_congr hself]
          · have hsame : (w'.without fewer').registry = (w.without (id :: fewer')).registry :=
              hfirst.without fewer'
            rw [← admits_congr hsame]
            exact hfewer fewer' hprefix' fun h => hne (by rw [h]; rfl)
        · rwa [reserveWithEvict_of_refusal hrefused hevict]

/-! ## Admission with eviction -/

/-- What is asked of the state a request meets. -/
structure Settled (w : World) (env : Env) (reference : String) : Prop where
  distinct : (popOrder w.pool).Nodup
  registered : ∀ id ∈ popOrder w.pool, ∃ e ∈ w.registry, e.id = id
  sums : (w.registry.map Entry.ramBytes).sum + env.ramBytes reference < 2 ^ 64

/-- Every one of `ids` is out of the pool and of the registry of `w₁`, and its kill flag is
set. -/
def Released (w w₁ : World) (ids : List ℕ) : Prop :=
  ∀ id ∈ ids, id ∉ popOrder w₁.pool ∧ (∀ e ∈ w₁.registry, e.id ≠ id) ∧
    (∃ e ∈ w.registry, e.id = id) ∧ ∀ e ∈ w.registry, e.id = id → e.kill ∈ w₁.killed

theorem Evicted.released (h : Evicted w w₁ ids) (hw : Settled w env reference) :
    Released w w₁ ids := by
  intro id hid
  have hdistinct := hw.distinct
  rw [h.pool] at hdistinct
  refine ⟨fun hleft => ?_, fun e he heq => ?_, ?_, fun e he heq => ?_⟩
  · exact (nodup_append.1 hdistinct).2.2 id hid id hleft rfl
  · rw [h.registry, mem_filter] at he
    exact (of_decide_eq_true he.2) (heq ▸ hid)
  · exact hw.registered id (h.pool ▸ mem_append_left _ hid)
  · exact (h.killed _).2 (.inr ⟨e, he, heq ▸ hid, rfl⟩)

/-- The VM of `e` is as it was: its entry stands, and its kill flag, which no warm worker
shares, has not been set. -/
def Untouched (w w₁ : World) (e : Entry) : Prop :=
  e ∈ w₁.registry ∧
    ((∀ p ∈ w.registry, p.id ∈ popOrder w.pool → p.kill ≠ e.kill) →
      (e.kill ∈ w₁.killed ↔ e.kill ∈ w.killed))

theorem Evicted.untouched (h : Evicted w w₁ ids) {e : Entry} (he : e ∈ w.registry)
    (hid : e.id ∉ popOrder w.pool) : Untouched w w₁ e := by
  have hids : ∀ id ∈ ids, id ∈ popOrder w.pool := fun id hmem =>
    h.pool ▸ mem_append_left _ hmem
  refine ⟨?_, fun hown => ?_⟩
  · rw [h.registry, mem_filter]
    exact ⟨he, decide_eq_true fun hmem => hid (hids _ hmem)⟩
  · rw [h.killed]
    refine ⟨fun hset => hset.resolve_right ?_, .inl⟩
    rintro ⟨p, hp, hpid, hflag⟩
    exact hown p hp (hids _ hpid) hflag

/-- **Admission with eviction is exact and minimal.**  The request is admitted exactly when it fits
beside the VMs that are not in the pool.  Admitted, it has evicted the shortest prefix of the pop
order that makes it fit.  Refused, it has emptied the pool and touched no other VM. -/
theorem reserveWithEvict_exact (hw : Settled w env reference) :
    ((∃ id w', reserveWithEvict env reference w = .ok id w') ↔
        w.Fits env reference (popOrder w.pool)) ∧
      (∀ id w', reserveWithEvict env reference w = .ok id w' →
        ∃ ids w₁, Evicted w w₁ ids ∧ w.Fits env reference ids ∧
          (∀ fewer, fewer <+: popOrder w.pool → w.Fits env reference fewer →
            ids.length ≤ fewer.length) ∧
          Released w w₁ ids ∧ id = w.nextId ∧ w' = w₁.insert env reference) ∧
      ∀ refusal w', reserveWithEvict env reference w = .error refusal w' →
        Evicted w w' (popOrder w.pool) ∧ popOrder w'.pool = [] ∧
          Released w w' (popOrder w.pool) ∧
          ∀ e ∈ w.registry, e.id ∉ popOrder w.pool → Untouched w w' e := by
  obtain ⟨ids, w₁, hevicted, hfewer, ⟨hadmits, hok⟩ | ⟨hrefused, hempty, herror⟩⟩ :=
    reserveWithEvict_stops env reference w
  · rw [hevicted.admits, admits_without_iff hw.sums] at hadmits
    refine ⟨⟨fun _ budget hbudget => ?_, fun _ => ⟨_, _, hok⟩⟩, fun id w' h => ?_,
      fun refusal w' h => ?_⟩
    · have hmono : w.capsWithout (popOrder w.pool) ≤ w.capsWithout ids :=
        capsWithout_mono fun id hid => hevicted.pool ▸ mem_append_left _ hid
      have := hadmits budget hbudget
      omega
    · rw [hok] at h
      cases h
      refine ⟨ids, w₁, hevicted, hadmits, fun fewer hprefix hfits => ?_,
        hevicted.released hw, ?_, rfl⟩
      · by_contra hshort
        rw [not_le] at hshort
        have hids : ids <+: popOrder w.pool := ⟨_, hevicted.pool.symm⟩
        have hproper : fewer <+: ids :=
          prefix_of_prefix_length_le hprefix hids hshort.le
        refine hfewer fewer hproper (fun h => ?_) ((admits_without_iff hw.sums fewer).2 hfits)
        exact absurd (h ▸ hshort) (lt_irrefl _)
      · rw [World.nextId, World.nextId, hevicted.counter]
    · rw [hok] at h
      cases h
  · have hall : popOrder w.pool = ids := by rw [hevicted.pool, hempty, append_nil]
    rw [hevicted.admits, admits_without_iff hw.sums, ← hall] at hrefused
    rw [← hall] at hevicted
    refine ⟨⟨fun ⟨id, w', h⟩ => ?_, fun hfits => absurd hfits hrefused⟩, fun id w' h => ?_,
      fun refusal w' h => ?_⟩
    · rw [herror] at h
      cases h
    · rw [herror] at h
      cases h
    · rw [herror] at h
      cases h
      exact ⟨hevicted, hempty, hevicted.released hw, fun e he hid => hevicted.untouched he hid⟩

/-- A VM of four units beside two warm workers of two. -/
def besideTwoWarm : World where
  registry := [⟨1, "app", 70, 4, 11⟩, ⟨2, "image", 71, 2, 12⟩, ⟨3, "image", 72, 2, 13⟩]
  counter := 3
  pool := [("other", []), ("image", [2, 3])]
  workers := [13, 12, 11]
  supervised := [13, 12, 11]
  killed := []

/-- A budget of eight units, and images of two. -/
def eightUnits : Env where
  budget := some 8
  ramBytes _ := 2
  flag := 14
  pid := 73
  fails _ := none

theorem reserveWithEvict_exact_besideTwoWarm :
    Settled besideTwoWarm eightUnits "image" ∧
      ∃ w₁, Evicted besideTwoWarm w₁ [3] ∧
        reserveWithEvict eightUnits "image" besideTwoWarm =
          .ok 4 (w₁.insert eightUnits "image") := by
  have hsettled : Settled besideTwoWarm eightUnits "image" :=
    ⟨by decide, by decide, by decide⟩
  have hfits : ∀ ids : List ℕ, besideTwoWarm.Fits eightUnits "image" ids ↔
      besideTwoWarm.capsWithout ids + 2 ≤ 8 := fun ids =>
    ⟨fun h => h 8 rfl, fun h budget hbudget => Option.some.inj hbudget ▸ h⟩
  obtain ⟨hiff, hadmitted, -⟩ := reserveWithEvict_exact hsettled
  obtain ⟨id, w', hcall⟩ := hiff.2 ((hfits _).2 (by decide))
  obtain ⟨ids, w₁, hevicted, henough, hshortest, -, rfl, rfl⟩ := hadmitted id w' hcall
  have hlength : ids.length ≤ 1 := hshortest [3] ⟨[2], rfl⟩ ((hfits _).2 (by decide))
  have hpool := hevicted.pool
  match ids, hlength with
  | [], _ => exact absurd ((hfits []).1 henough) (by decide)
  | [first], _ =>
    obtain rfl : first = 3 := (cons.inj hpool).1.symm
    exact ⟨hsettled, w₁, hevicted, hcall⟩

end Amber.Daemon.Start
