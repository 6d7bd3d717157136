import Amber.Daemon.Launching

/-!
# Do real VMs take precedence over the warm pool?

Pooled workers hold reservations, and the daemon promises to evict them before it refuses a real
VM.  `reserve_with_evict` does that for one-shot and detached runs.  A fork that finds the pool of
its template empty and an exec go through `spawn_paused`, though, whose `reserve` gives up at once.

* `Reclaimable` — a pooled worker whose entry is in the registry.
* `Refused` — the request has reserved nothing and the answer says that the budget is exceeded.
* `reserveWithEvict_refuses` — who evicts gives up with an empty pool only.
* `yields_iff` — when a refusal means that there was nothing to reclaim.
* `fork_refused_beside_pool` — a fork and an exec that are refused while a worker of another
  template sits in the pool, and the detached run that is let in.
-/

namespace Amber.Daemon.Start

open Failing

/-! ## Refusals -/

/-- Some pooled worker has a reservation that evicting it would free. -/
def World.Reclaimable (w : World) : Prop :=
  ∃ p ∈ w.pool, ∃ id ∈ p.2, ∃ e ∈ w.registry, e.id = id

/-- The state in which the client is told that the budget is exceeded. -/
def refusal : EStateM.Result Halt World Ending → Option World
  | .error (.refused _ _ _) w => some w
  | .ok (.replied (.failed message)) w =>
    if message = "RAM budget exceeded" then some w else none
  | _ => none

/-- The request is refused for budget and leaves `w'`.  (That it has reserved nothing tells the
daemon's own refusal from a later error that happens to read the same.) -/
def Refused (env : Env) (w : World) (r : Request) (w' : World) : Prop :=
  reservation env w r = none ∧ refusal (handle env r w) = some w'

/-- A request that is refused for budget leaves no reservation to reclaim in the pool. -/
def Yields (env : Env) (w : World) (r : Request) : Prop :=
  ∀ w', Refused env w r w' → ¬ w'.Reclaimable

/-- The requests that go through `reserve_with_evict`. -/
def Request.evicts : Request → Bool
  | .runOneShot _ => true
  | .runDetached _ => true
  | _ => false

/-- The request gets as far as `reserve`. -/
def Request.Asks (env : Env) (w : World) : Request → Prop
  | .runOneShot _ => True
  | .runDetached _ => True
  | .fork template => (pooled w template).getLast? = none
  | .exec _ => env.fails .bind = none ∧ env.fails .setNonblocking = none
  | .refill template target => (pooled w template).length < target

section Refusal

variable {env : Env} {reference : String} {w w' : World}

/-- Who evicts gives up with an empty pool only. -/
theorem reserveWithEvict_refuses {halt : Halt}
    (h : reserveWithEvict env reference w = .error halt w') : ¬ w'.Reclaimable := by
  induction hn : poolSize w.pool using Nat.strong_induction_on generalizing w with
  | _ n ih =>
    rw [reserveWithEvict] at h
    split at h
    · cases h
    · split at h
      · rename_i hnone
        cases h
        rintro ⟨p, hp, id, hid, -⟩
        rw [empty_of_popFirst (Option.map_eq_none_iff.1 hnone) p hp] at hid
        cases hid
      · rename_i w₂ hevict
        exact ih _ (hn ▸ evictOnePooled_size hevict) h rfl

theorem reserve_of_not_admits (h : w.admits env reference = false) :
    reserve env reference w =
      .error (.refused (env.budget.getD 0) w.used (env.ramBytes reference)) w := by
  rw [reserve, h]
  rfl

/-- `spawn_paused` without room. -/
theorem spawnPaused_refuses (h : w.admits env reference = false) :
    spawnPaused env reference w = .error (.failed "RAM budget exceeded") w := by
  refine bind_error ?_
  rw [reserveOnly, reserve_of_not_admits h]

theorem orReply_error {x : M ℕ} {halt : Halt} (h : x w = .error halt w') :
    orReply x w = .ok (.replied halt) w' := by
  rw [orReply, h]

theorem reserved_none_iff : reserved (reserve env reference w) = none ↔
    w.admits env reference = false := by
  unfold reserve
  split_ifs with h
  · simp [reserved, h]
  · simp [reserved, h]

end Refusal

/-! ## Which refusals mean that the pool is empty -/

/-- The state in which the request asks for room; `exec` has taken a number for its socket. -/
def Request.arrived (w : World) : Request → World
  | .exec _ => { w with counter := w.nextId }
  | _ => w

section Yield

variable {env : Env} {w w' : World} {r : Request}

/-- A start whose reservation evicts, whatever it goes on to do. -/
theorem not_reclaimable_of_evict {reference : String} {launch : ℕ → M ℕ}
    (hres : reserved (reserveWithEvict env reference w) = none)
    (h : refusal ((Ending.worker <$> (reserveWithEvict env reference >>= launch)) w) = some w') :
    ¬ w'.Reclaimable := by
  cases hcall : reserveWithEvict env reference w with
  | ok id w₁ =>
    rw [hcall] at hres
    cases hres
  | error halt w₁ =>
    rw [map_eq_pure_bind, bind_error (bind_error hcall)] at h
    cases halt with
    | refused budget used requested =>
      cases h
      exact reserveWithEvict_refuses hcall
    | failed message => cases h

theorem not_reclaimable_of_evicts (hr : r.evicts = true) (h : Refused env w r w') :
    ¬ w'.Reclaimable := by
  cases r with
  | runOneShot reference | runDetached reference => exact not_reclaimable_of_evict h.1 h.2
  | fork template | exec template => cases hr
  | refill template target => cases hr

variable (hr : r.evicts = false)

include hr

theorem reservation_of_asks (h : r.Asks env w) :
    reservation env w r = reserved (reserve env r.reference (r.arrived w)) := by
  cases r with
  | runOneShot reference | runDetached reference => cases hr
  | fork template | exec template => exact if_pos h
  | refill template target => exact if_pos h

/-- Without room, what goes through `spawn_paused` answers that the budget is exceeded. -/
theorem handle_of_asks (h : r.Asks env w) (hno : (r.arrived w).admits env r.reference = false) :
    handle env r w = .ok (.replied (.failed "RAM budget exceeded")) (r.arrived w) := by
  cases r with
  | runOneShot reference | runDetached reference => cases hr
  | fork template => exact (handle_fork_of_empty h).trans (orReply_error (spawnPaused_refuses hno))
  | exec template =>
    exact (handle_exec_of_bound h.1 h.2).trans (orReply_error (spawnPaused_refuses hno))
  | refill template target =>
    have hspawn : spawnPaused env template w = .error (.failed "RAM budget exceeded") w :=
      spawnPaused_refuses hno
    rw [handle, refillTurn, if_pos (show _ < _ from h), hspawn]
    rfl

/-- A request that does not come to `reserve` is not refused for budget. -/
theorem refusal_of_not_asks (h : ¬ r.Asks env w) :
    refusal (handle env r w) = none := by
  cases r with
  | runOneShot reference | runDetached reference => cases hr
  | fork template =>
    obtain ⟨id, hid⟩ := Option.ne_none_iff_exists'.1 h
    rw [handle, handleFork, hid]
    rfl
  | exec template =>
    rw [handle, handleExec, bind_modify]
    cases hbind : env.fails .bind with
    | some message => rw [bind_error (by rw [attempt, hbind])]; rfl
    | none =>
      rw [bind_ok (by rw [attempt, hbind])]
      cases hnonblock : env.fails .setNonblocking with
      | some message => rw [bind_error (by rw [attempt, hnonblock])]; rfl
      | none => exact absurd ⟨hbind, hnonblock⟩ h
  | refill template target => rw [handle, refillTurn, if_neg (show ¬ _ < _ from h)]; rfl

/-- When a request that does not evict is refused. -/
theorem refused_iff : Refused env w r w' ↔
    r.Asks env w ∧ w.admits env r.reference = false ∧ w' = r.arrived w := by
  have harrived : (r.arrived w).admits env r.reference = w.admits env r.reference := by
    cases r <;> rfl
  by_cases hasks : r.Asks env w
  · rw [Refused, reservation_of_asks hr hasks, reserved_none_iff, harrived]
    refine ⟨fun ⟨hno, hrefusal⟩ => ⟨hasks, hno, ?_⟩, fun ⟨_, hno, hw⟩ => ⟨hno, ?_⟩⟩
    · rw [handle_of_asks hr hasks (harrived.trans hno)] at hrefusal
      exact (Option.some.inj hrefusal).symm
    · rw [handle_of_asks hr hasks (harrived.trans hno), hw]
      rfl
  · refine ⟨fun ⟨_, hrefusal⟩ => ?_, fun h => absurd h.1 hasks⟩
    rw [refusal_of_not_asks hr hasks] at hrefusal
    cases hrefusal

omit hr

/-- **When real VMs take precedence.**  A refusal means that the pool has nothing left to reclaim
exactly when the request is one that evicts, or does not come to `reserve`, or fits as things are,
or there was nothing to reclaim when it came. -/
theorem yields_iff (env : Env) (w : World) (r : Request) :
    Yields env w r ↔ r.evicts = true ∨ ¬ r.Asks env w ∨ w.admits env r.reference = true ∨
      ¬ w.Reclaimable := by
  cases hr : r.evicts with
  | true => exact ⟨fun _ => .inl rfl, fun _ w' h => not_reclaimable_of_evicts hr h⟩
  | false =>
    have hsame : (r.arrived w).Reclaimable ↔ w.Reclaimable := by cases r <;> exact Iff.rfl
    constructor
    · intro hyields
      by_cases hasks : r.Asks env w
      · cases hroom : w.admits env r.reference with
        | true => exact .inr (.inr (.inl rfl))
        | false =>
          have hnone := hyields _ ((refused_iff hr).2 ⟨hasks, hroom, rfl⟩)
          exact .inr (.inr (.inr (mt hsame.2 hnone)))
      · exact .inr (.inl hasks)
    · intro h w' hrefused
      obtain ⟨hasks, hroom, rfl⟩ := (refused_iff hr).1 hrefused
      rcases h with hevicts | hnot | hfits | hnone
      · cases hevicts
      · exact absurd hasks hnot
      · rw [hroom] at hfits
        cases hfits
      · exact mt hsame.1 hnone

end Yield

/-- 100 bytes to each VM, under a budget of 150, and nothing fails. -/
def tight : Env where
  budget := some 150
  ramBytes _ := 100
  flag := 7
  pid := 4242
  fails _ := none

/-- **A refusal beside a pooled worker.**  With one pooled worker in the registry, a fork and an
exec of another template are refused and the worker stays; a detached run of the same gets its
room. -/
theorem fork_refused_beside_pool :
    Refused tight warm (.fork "other") warm ∧ warm.Reclaimable ∧
    Refused tight warm (.exec "other") { warm with counter := 2 } ∧
    (reservation tight warm (.runDetached "other")).isSome = true := by
  have hleft : warm.Reclaimable :=
    ⟨_, List.mem_singleton_self _, 1, List.mem_singleton_self _, _, List.mem_singleton_self _, rfl⟩
  have hevict : reserveWithEvict tight "other" warm = _ := reserveWithEvict_of_refusal rfl rfl
  refine ⟨⟨rfl, rfl⟩, hleft, ⟨rfl, rfl⟩, ?_⟩
  rw [reservation, hevict, reserveWithEvict_of_ok rfl]
  rfl

end Amber.Daemon.Start
