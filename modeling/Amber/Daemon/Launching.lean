import Amber.Lib.Failing
import Mathlib.Algebra.BigOperators.Group.List.Basic
import Mathlib.Algebra.Ring.Nat

/-!
# What a failed start leaves behind

The handlers of `amber/src/daemon.rs` that start a VM — `run_one_shot`, `start_detached`, and
through `spawn_paused` also `handle_fork`, `handle_exec` and a turn of `refill_pool` — each from
its reservation to the point where somebody supervises the worker.  A handler is a program over
the registry, the pool and the worker processes that stops at its first error; `Env` says which
of its fallible steps fail.

Some errors are caught and the reservation is given back; others leave through a bare `?`.

* `launchPaused_leaves`, `launchDetached_leaves`, `launchOneShot_leaves` — what the registry and the
  processes are after each error.
* `traceless_iff` — a failed start leaves no trace exactly when the step that failed is the
  control channel, the spawn or the warm-up, the reservation needed no eviction, and the counter
  did not come round to an id in use.
* `log_failure_leaks` — a full disk keeps a reservation for ever, and a client's stream that
  cannot be cloned keeps a worker running that nobody watches.
-/

namespace Amber.Daemon.Start

open Failing List Option

/-! ## The daemon's state -/

structure Entry where
  id : ℕ
  reference : String
  pid : ℕ
  ramBytes : ℕ
  /-- The kill flag, shared with whoever supervises the worker. -/
  kill : ℕ
  deriving DecidableEq

structure World where
  registry : List Entry
  counter : ℕ
  /-- The warm workers of each template, in the order in which the map is walked. -/
  pool : List (String × List ℕ)
  /-- The running workers, each by the kill flag of its entry. -/
  workers : List ℕ
  /-- The flags somebody watches. -/
  supervised : List ℕ
  /-- The flags that are set. -/
  killed : List ℕ
  deriving DecidableEq

/-- The steps that can fail. -/
inductive Fallible
  /-- `create_dir_all(&dir)`. -/
  | logDir
  /-- `File::create(..)` of the log. -/
  | logFile
  /-- `out.try_clone()` of the log. -/
  | logClone
  | currentExe
  /-- `attach_control`. -/
  | control
  | spawn
  /-- No ready byte comes. -/
  | warmUp
  /-- The first `stream.try_clone()` of `run_one_shot`. -/
  | streamOut
  /-- The second. -/
  | streamIn
  /-- `UnixListener::bind` of `handle_exec`. -/
  | bind
  | setNonblocking
  deriving DecidableEq

/-- What the surroundings give a handler.  `flag` is the kill flag it allocates. -/
structure Env where
  budget : Option ℕ
  ramBytes : String → ℕ
  flag : ℕ
  pid : ℕ
  fails : Fallible → Option String

/-- Why a handler stops early. -/
inductive Halt
  | refused (budget used requested : ℕ)
  | failed (message : String)
  deriving DecidableEq

abbrev M := EStateM Halt World

/-! ## Reservations -/

namespace World

def used (w : World) : ℕ := (w.registry.map Entry.ramBytes).sum % 2 ^ 64

/-- The check of `reserve`, in 64 bits. -/
def admits (w : World) (env : Env) (reference : String) : Bool :=
  match env.budget with
  | none => true
  | some budget => decide ((w.used + env.ramBytes reference) % 2 ^ 64 ≤ budget)

/-- `counter.fetch_add(1) + 1`. -/
def nextId (w : World) : ℕ := (w.counter + 1) % 2 ^ 64

/-- `reg.remove(&id)`. -/
def remove (w : World) (id : ℕ) : World :=
  { w with registry := w.registry.filter fun e => e.id ≠ id }

def insert (w : World) (env : Env) (reference : String) : World :=
  { w.remove w.nextId with
    registry := (w.remove w.nextId).registry ++
      [⟨w.nextId, reference, 0, env.ramBytes reference, env.flag⟩]
    counter := w.nextId }

/-- `get_mut(&id)` and `e.info.pid = pid`. -/
def setPid (w : World) (id pid : ℕ) : World :=
  { w with registry := w.registry.map fun e => if e.id = id then { e with pid } else e }

/-- A worker process comes to life. -/
def start (w : World) (env : Env) : World := { w with workers := env.flag :: w.workers }

/-- `child.kill()`. -/
def stop (w : World) (env : Env) : World := { w with workers := w.workers.erase env.flag }

def supervise (w : World) (env : Env) : World :=
  { w with supervised := env.flag :: w.supervised }

end World

open World

/-- `reserve`. -/
def reserve (env : Env) (reference : String) : M ℕ := fun w =>
  if w.admits env reference then .ok w.nextId (w.insert env reference)
  else .error (.refused (env.budget.getD 0) w.used (env.ramBytes reference)) w

/-- `p.values_mut().find_map(|v| v.pop())`. -/
def popFirst : List (String × List ℕ) → Option (ℕ × List (String × List ℕ))
  | [] => none
  | (template, ids) :: rest =>
    match ids.getLast? with
    | some id => some (id, (template, ids.dropLast) :: rest)
    | none => (popFirst rest).map fun r => (r.1, (template, ids) :: r.2)

/-- `evict_one_pooled`. -/
def evictOnePooled (w : World) : Option World :=
  (popFirst w.pool).map fun r =>
    { w.remove r.1 with
      pool := r.2
      killed := (w.registry.filter fun e => e.id = r.1).map Entry.kill ++ w.killed }

def poolSize (pool : List (String × List ℕ)) : ℕ := (pool.map fun p => p.2.length).sum

variable {pool : List (String × List ℕ)}

theorem popFirst_size {r : ℕ × List (String × List ℕ)} (h : popFirst pool = some r) :
    poolSize r.2 < poolSize pool := by
  induction pool generalizing r with
  | nil => cases h
  | cons p rest ih =>
    obtain ⟨template, ids⟩ := p
    rw [popFirst] at h
    split at h
    · rename_i id hid
      cases h
      have hne : ids ≠ [] := by
        rintro rfl
        cases hid
      have hlen := length_pos_of_ne_nil hne
      simp only [poolSize, map_cons, sum_cons, length_dropLast]
      omega
    · obtain ⟨r', hr', rfl⟩ := map_eq_some_iff.1 h
      have hrest := ih hr'
      simp only [poolSize, map_cons, sum_cons] at hrest ⊢
      omega

theorem empty_of_popFirst (h : popFirst pool = none) :
    ∀ p ∈ pool, p.2 = [] := by
  induction pool with
  | nil => exact nofun
  | cons q rest ih =>
    rw [popFirst] at h
    split at h
    · cases h
    · rename_i hids
      exact forall_mem_cons.2 ⟨getLast?_eq_none_iff.1 hids, ih (map_eq_none_iff.1 h)⟩

theorem evictOnePooled_size {w w' : World} (h : evictOnePooled w = some w') :
    poolSize w'.pool < poolSize w.pool := by
  obtain ⟨r, hr, rfl⟩ := map_eq_some_iff.1 h
  exact popFirst_size hr

/-- `reserve_with_evict`. -/
def reserveWithEvict (env : Env) (reference : String) : M ℕ := fun w =>
  match reserve env reference w with
  | .ok id w' => .ok id w'
  | .error refusal _ =>
    match hevict : evictOnePooled w with
    | none => .error refusal w
    | some w' =>
      have := evictOnePooled_size hevict
      reserveWithEvict env reference w'
termination_by w => poolSize w.pool

/-! ## The handlers -/

/-- A step whose error goes straight out: `step()?`. -/
def attempt (env : Env) (s : Fallible) : M Unit := fun w =>
  match env.fails s with
  | some message => .error (.failed message) w
  | none => .ok () w

/-- A step whose error first gives the reservation back. -/
def releasing (env : Env) (id : ℕ) (s : Fallible) : M Unit := fun w =>
  match env.fails s with
  | some message => .error (.failed message) (w.remove id)
  | none => .ok () w

/-- The wait for the ready byte. -/
def awaitReady (env : Env) (id : ℕ) : M Unit := fun w =>
  match env.fails .warmUp with
  | some _ => .error (.failed "worker failed to warm") ((w.remove id).stop env)
  | none => .ok () w

/-- `spawn_paused` after its reservation. -/
def launchPaused (env : Env) (id : ℕ) : M ℕ := do
  attempt env .logDir
  attempt env .logFile
  attempt env .currentExe
  releasing env id .control
  releasing env id .spawn
  modify fun w => (w.start env).setPid id env.pid
  awaitReady env id
  modify fun w => w.supervise env
  return id

/-- The reservation of `spawn_paused`, which evicts nobody. -/
def reserveOnly (env : Env) (template : String) : M ℕ := fun w =>
  match reserve env template w with
  | .ok id w' => .ok id w'
  | .error _ w' => .error (.failed "RAM budget exceeded") w'

/-- `spawn_paused`. -/
def spawnPaused (env : Env) (template : String) : M ℕ := do
  let id ← reserveOnly env template
  launchPaused env id

/-- `start_detached` after its reservation. -/
def launchDetached (env : Env) (id : ℕ) : M ℕ := do
  attempt env .logDir
  attempt env .logFile
  attempt env .logClone
  attempt env .currentExe
  releasing env id .control
  releasing env id .spawn
  modify fun w => (w.start env).setPid id env.pid
  modify fun w => w.supervise env
  return id

def startDetached (env : Env) (reference : String) : M ℕ := do
  let id ← reserveWithEvict env reference
  launchDetached env id

/-- `run_one_shot` after its reservation. -/
def launchOneShot (env : Env) (id : ℕ) : M ℕ := do
  attempt env .currentExe
  releasing env id .control
  releasing env id .spawn
  modify fun w => (w.start env).setPid id env.pid
  attempt env .streamOut
  attempt env .streamIn
  modify fun w => w.supervise env
  return id

def runOneShot (env : Env) (reference : String) : M ℕ := do
  let id ← reserveWithEvict env reference
  launchOneShot env id

/-- The warm workers of a template. -/
def pooled (w : World) (template : String) : List ℕ := (w.pool.lookup template).getD []

/-- Put `ids` in a template's place in the pool. -/
def setPooled (w : World) (template : String) (ids : List ℕ) : World :=
  { w with
    pool := if (w.pool.lookup template).isSome then
        w.pool.map fun p => if p.1 = template then (template, ids) else p
      else w.pool ++ [(template, ids)] }

/-- How a handler that does not fail ends: with a worker, or with an error for the client. -/
inductive Ending
  | worker (id : ℕ)
  | replied (message : Halt)
  /-- A refill that has nothing left to do. -/
  | full
  deriving DecidableEq

/-- `Ok(id) => .., Err(e) => reply(e)`. -/
def orReply (x : M ℕ) : M Ending := fun w =>
  match x w with
  | .ok id w' => .ok (.worker id) w'
  | .error e w' => .ok (.replied e) w'

/-- `handle_fork`, up to the release of its worker. -/
def handleFork (env : Env) (template : String) : M Ending := fun w =>
  match (pooled w template).getLast? with
  | some id => .ok (.worker id) (setPooled w template (pooled w template).dropLast)
  | none => orReply (spawnPaused env template) w

/-- `handle_exec`, up to the release of its worker. -/
def handleExec (env : Env) (template : String) : M Ending := do
  modify fun w => { w with counter := w.nextId }
  attempt env .bind
  attempt env .setNonblocking
  orReply (spawnPaused env template)

/-- A turn of the loop of `refill_pool`; an error ends the loop. -/
def refillTurn (env : Env) (template : String) (target : ℕ) : M Ending := fun w =>
  if (pooled w template).length < target then
    match spawnPaused env template w with
    | .ok id w' => .ok (.worker id) (setPooled w' template (pooled w' template ++ [id]))
    | .error e w' => .ok (.replied e) w'
  else .ok .full w

inductive Request
  | runOneShot (reference : String)
  | runDetached (reference : String)
  | fork (template : String)
  | exec (template : String)
  | refill (template : String) (target : ℕ)
  deriving DecidableEq

def handle (env : Env) : Request → M Ending
  | .runOneShot reference => Ending.worker <$> runOneShot env reference
  | .runDetached reference => Ending.worker <$> startDetached env reference
  | .fork template => handleFork env template
  | .exec template => handleExec env template
  | .refill template target => refillTurn env template target

/-! ## Where a start fails -/

/-- The fallible steps between the reservation and the supervision, in order. -/
def Request.steps : Request → List Fallible
  | .runOneShot _ => [.currentExe, .control, .spawn, .streamOut, .streamIn]
  | .runDetached _ => [.logDir, .logFile, .logClone, .currentExe, .control, .spawn]
  | _ => [.logDir, .logFile, .currentExe, .control, .spawn, .warmUp]

/-- The first of the steps that fails. -/
def firstError (env : Env) (steps : List Fallible) : Option Fallible :=
  steps.find? fun s => (env.fails s).isSome

/-- The steps whose errors are caught. -/
def Fallible.guarded : Fallible → Bool
  | .control => true
  | .spawn => true
  | .warmUp => true
  | _ => false

def reserved : EStateM.Result Halt World ℕ → Option (ℕ × World)
  | .ok id w => some (id, w)
  | .error _ _ => none

/-- The id a request has reserved and the state right after, if it gets that far. -/
def reservation (env : Env) (w : World) : Request → Option (ℕ × World)
  | .runOneShot reference => reserved (reserveWithEvict env reference w)
  | .runDetached reference => reserved (reserveWithEvict env reference w)
  | .fork template =>
    if (pooled w template).getLast? = none then reserved (reserve env template w) else none
  | .exec template =>
    if env.fails .bind = none ∧ env.fails .setNonblocking = none then
      reserved (reserve env template { w with counter := w.nextId })
    else none
  | .refill template target =>
    if (pooled w template).length < target then reserved (reserve env template w) else none

/-- The entry of the request is gone, or (if the error was not caught) still there; a worker that
was started is stopped by the time its entry is gone. -/
def Leaves (env : Env) (id : ℕ) (s : Fallible) (w w' : World) : Prop :=
  if s.guarded then w'.registry = (w.remove id).registry ∧ w'.workers = w.workers
  else ∃ e ∈ w'.registry, e.kill = env.flag

section Launch

variable {env : Env} {id : ℕ} {s s₀ : Fallible} {rest : List Fallible} {α : Type} {x : M α}
  {w w₁ : World}

variable (h : firstError env (s₀ :: rest) = some s)

include h

theorem firstError_cons :
    (s = s₀ ∧ ∃ message, env.fails s₀ = some message) ∨
      (env.fails s₀ = none ∧ firstError env rest = some s) := by
  rw [firstError, find?_cons] at h
  cases hf : env.fails s₀ with
  | none =>
    rw [hf] at h
    exact .inr ⟨rfl, h⟩
  | some message =>
    rw [hf] at h
    exact .inl ⟨(some.inj h).symm, message, rfl⟩

/-- An error that goes straight out finds the reservation in the registry and leaves it there. -/
theorem leaves_attempt (hs₀ : s₀.guarded = false) (hent : ∃ e ∈ w.registry, e.kill = env.flag)
    (hrest : firstError env rest = some s → Leaves env id s w₁ (final (x w))) :
    Leaves env id s w₁ (final ((attempt env s₀ >>= fun _ => x) w)) := by
  rcases firstError_cons h with ⟨rfl, message, hf⟩ | ⟨hf, h⟩
  · have hstop : attempt env s w = .error (.failed message) w := by rw [attempt, hf]
    rw [bind_error hstop, Leaves, hs₀]
    exact hent
  · have hgo : attempt env s₀ w = .ok () w := by rw [attempt, hf]
    rw [bind_ok hgo]
    exact hrest h

theorem leaves_releasing (hs₀ : s₀.guarded = true)
    (hrest : firstError env rest = some s → Leaves env id s w (final (x w))) :
    Leaves env id s w (final ((releasing env id s₀ >>= fun _ => x) w)) := by
  rcases firstError_cons h with ⟨rfl, message, hf⟩ | ⟨hf, h⟩
  · have hstop : releasing env id s w = .error (.failed message) (w.remove id) := by
      rw [releasing, hf]
    rw [bind_error hstop, Leaves, hs₀]
    exact ⟨rfl, rfl⟩
  · have hgo : releasing env id s₀ w = .ok () w := by rw [releasing, hf]
    rw [bind_ok hgo]
    exact hrest h

omit h

theorem remove_setPid (w : World) (id pid : ℕ) :
    ((w.setPid id pid).remove id).registry = (w.remove id).registry := by
  have hrest : ∀ reg : List Entry,
      (reg.map fun e => if e.id = id then { e with pid } else e).filter (fun e => e.id ≠ id) =
        reg.filter fun e => e.id ≠ id := by
    intro reg
    induction reg with
    | nil => rfl
    | cons e reg ih =>
      rw [map_cons, filter_cons, filter_cons, ih]
      by_cases he : e.id = id
      · simp [he]
      · simp [he]
  exact hrest w.registry

theorem entry_setPid (id pid : ℕ) (hent : ∃ e ∈ w.registry, e.kill = env.flag) :
    ∃ e ∈ ((w.start env).setPid id pid).registry, e.kill = env.flag := by
  obtain ⟨e, he, hkill⟩ := hent
  refine ⟨_, mem_map_of_mem he, ?_⟩
  split_ifs
  · exact hkill
  · exact hkill

variable (hent : ∃ e ∈ w.registry, e.kill = env.flag)

include hent

theorem launchPaused_leaves
    (h : firstError env [.logDir, .logFile, .currentExe, .control, .spawn, .warmUp] = some s) :
    Leaves env id s w (final (launchPaused env id w)) := by
  refine leaves_attempt h rfl hent fun h => leaves_attempt h rfl hent fun h =>
    leaves_attempt h rfl hent fun h => leaves_releasing h rfl fun h =>
      leaves_releasing h rfl fun h => ?_
  rw [bind_modify]
  rcases firstError_cons h with ⟨rfl, message, hf⟩ | ⟨-, h⟩
  · -- the worker is up, and is killed after its entry is dropped
    have hstop : awaitReady env id ((w.start env).setPid id env.pid) = .error
        (.failed "worker failed to warm")
          ((((w.start env).setPid id env.pid).remove id).stop env) := by
      rw [awaitReady, hf]
    rw [bind_error hstop]
    refine ⟨remove_setPid (w.start env) id env.pid, ?_⟩
    exact erase_cons_head env.flag w.workers
  · cases h

theorem launchDetached_leaves
    (h : firstError env [.logDir, .logFile, .logClone, .currentExe, .control, .spawn] = some s) :
    Leaves env id s w (final (launchDetached env id w)) := by
  refine leaves_attempt h rfl hent fun h => leaves_attempt h rfl hent fun h =>
    leaves_attempt h rfl hent fun h => leaves_attempt h rfl hent fun h =>
      leaves_releasing h rfl fun h => leaves_releasing h rfl fun h => ?_
  cases h

theorem launchOneShot_leaves
    (h : firstError env [.currentExe, .control, .spawn, .streamOut, .streamIn] = some s) :
    Leaves env id s w (final (launchOneShot env id w)) := by
  refine leaves_attempt h rfl hent fun h => leaves_releasing h rfl fun h =>
    leaves_releasing h rfl fun h => ?_
  have hup := entry_setPid id env.pid hent
  exact leaves_attempt h rfl hup fun h => leaves_attempt h rfl hup nofun

end Launch

/-! ## From the request to the reservation -/

/-- The image or template the request is for. -/
def Request.reference : Request → String
  | .runOneShot reference => reference
  | .runDetached reference => reference
  | .fork template => template
  | .exec template => template
  | .refill template _ => template

/-- The id the request draws; `exec` has taken a number for its socket before. -/
def Request.drawn (w : World) : Request → ℕ
  | .exec _ => ({ w with counter := w.nextId } : World).nextId
  | _ => w.nextId

/-- What a reservation has done: pooled workers may have gone from the registry, which then is
one that admits the request, and the new entry is in it. -/
structure Reserved (env : Env) (reference : String) (id : ℕ) (w w₁ : World) : Prop where
  exists_registry : ∃ registry : List Entry, registry.Sublist w.registry ∧
    (w.admits env reference = true → registry = w.registry) ∧
    ({ w with registry } : World).admits env reference = true ∧
    ∃ e : Entry, e.id = id ∧ e.kill = env.flag ∧
      w₁.registry = registry.filter (fun e => e.id ≠ id) ++ [e]
  workers_eq : w₁.workers = w.workers

section Reserve

variable {env : Env} {reference : String} {id : ℕ} {w w₁ : World}

theorem reserve_eq_ok (h : reserve env reference w = .ok id w₁) :
    w.admits env reference = true ∧ id = w.nextId ∧ w₁ = w.insert env reference := by
  unfold reserve at h
  split_ifs at h with hroom
  cases h
  exact ⟨hroom, rfl, rfl⟩

theorem reserve_refuses {refusal : Halt} (h : reserve env reference w = .error refusal w₁) :
    w.admits env reference = false := by
  unfold reserve at h
  split_ifs at h with hroom
  exact Bool.eq_false_iff.2 hroom

theorem reserved_of_reserve (h : reserve env reference w = .ok id w₁) :
    id = w.nextId ∧ Reserved env reference id w w₁ := by
  obtain ⟨hroom, rfl, rfl⟩ := reserve_eq_ok h
  exact ⟨rfl, ⟨w.registry, List.Sublist.refl _, fun _ => rfl, hroom, _, rfl, rfl, rfl⟩, rfl⟩

theorem reserveWithEvict_of_ok (h : reserve env reference w = .ok id w₁) :
    reserveWithEvict env reference w = .ok id w₁ := by
  rw [reserveWithEvict, h]

theorem reserveWithEvict_of_refusal {refusal : Halt} {w' w₂ : World}
    (h : reserve env reference w = .error refusal w') (hevict : evictOnePooled w = some w₂) :
    reserveWithEvict env reference w = reserveWithEvict env reference w₂ := by
  rw [reserveWithEvict, h]
  dsimp only
  split
  · rename_i hnone
    rw [hevict] at hnone
    cases hnone
  · rename_i w₃ hsome
    rw [some.inj (hevict.symm.trans hsome)]

theorem reserved_of_evict (h : reserveWithEvict env reference w = .ok id w₁) :
    id = w.nextId ∧ Reserved env reference id w w₁ := by
  induction hn : poolSize w.pool using Nat.strong_induction_on generalizing w with
  | _ n ih =>
    rw [reserveWithEvict] at h
    split at h
    · rename_i hok
      cases h
      exact reserved_of_reserve hok
    · rename_i hrefused
      have hno := reserve_refuses hrefused
      split at h
      · cases h
      · rename_i w' hevict
        obtain ⟨hid, ⟨registry, hsub, -, hroom, hentry⟩, hworkers⟩ :=
          ih _ (hn ▸ evictOnePooled_size hevict) h rfl
        obtain ⟨r, -, rfl⟩ := map_eq_some_iff.1 hevict
        -- the registry the request fits in is part of what the eviction has left
        refine ⟨hid, ⟨registry, hsub.trans filter_sublist, fun hyes => ?_, hroom, hentry⟩, hworkers⟩
        rw [hno] at hyes
        cases hyes

end Reserve

section Handle

variable {env : Env} {r : Request} {id : ℕ} {s : Fallible} {w w₁ : World} {template : String}

theorem reserved_eq_some {res : EStateM.Result Halt World ℕ} (h : reserved res = some (id, w₁)) :
    res = .ok id w₁ := by
  cases res with
  | ok id' w' =>
    cases h
    rfl
  | error e w' => cases h

theorem reservation_spec (h : reservation env w r = some (id, w₁)) :
    id = r.drawn w ∧ Reserved env r.reference id w w₁ := by
  cases r with
  | runOneShot reference | runDetached reference => exact reserved_of_evict (reserved_eq_some h)
  | fork _ | refill _ _ =>
    rw [reservation] at h
    split_ifs at h
    exact reserved_of_reserve (reserved_eq_some h)
  | exec template =>
    rw [reservation] at h
    split_ifs at h
    obtain ⟨hid, hentry, hworkers⟩ := reserved_of_reserve (reserved_eq_some h)
    exact ⟨hid, hentry, hworkers⟩

theorem Reserved.entry {reference : String} (h : Reserved env reference id w w₁) :
    ∃ e ∈ w₁.registry, e.kill = env.flag := by
  obtain ⟨⟨registry, -, -, -, e, -, hkill, hreg⟩, -⟩ := h
  refine ⟨e, ?_, hkill⟩
  rw [hreg]
  exact mem_append_right _ (mem_singleton_self e)

theorem final_orReply (x : M ℕ) : final (orReply x w) = final (x w) := by
  unfold orReply
  cases x w <;> rfl

theorem spawnPaused_of_reserve (h : reserve env template w = .ok id w₁) :
    spawnPaused env template w = launchPaused env id w₁ := by
  refine bind_ok ?_
  rw [reserveOnly, h]

theorem handle_fork_of_empty (h : (pooled w template).getLast? = none) :
    handle env (.fork template) w = orReply (spawnPaused env template) w := by
  rw [handle, handleFork, h]

theorem handle_exec_of_bound (hbind : env.fails .bind = none)
    (hnonblock : env.fails .setNonblocking = none) : handle env (.exec template) w =
      orReply (spawnPaused env template) { w with counter := w.nextId } := by
  rw [handle, handleExec, bind_modify, bind_ok (by rw [attempt, hbind]),
    bind_ok (by rw [attempt, hnonblock])]

/-- The state after a request whose start has failed. -/
theorem handle_leaves (h : reservation env w r = some (id, w₁))
    (hs : firstError env r.steps = some s) : Leaves env id s w₁ (final (handle env r w)) := by
  have hent := (reservation_spec h).2.entry
  cases r with
  | runOneShot reference =>
    rw [handle, final_map, runOneShot, bind_ok (reserved_eq_some h)]
    exact launchOneShot_leaves hent hs
  | runDetached reference =>
    rw [handle, final_map, startDetached, bind_ok (reserved_eq_some h)]
    exact launchDetached_leaves hent hs
  | fork template =>
    rw [reservation] at h
    split_ifs at h with hpool
    rw [handle_fork_of_empty hpool, final_orReply, spawnPaused_of_reserve (reserved_eq_some h)]
    exact launchPaused_leaves hent hs
  | exec template =>
    rw [reservation] at h
    split_ifs at h with hbind
    rw [handle_exec_of_bound hbind.1 hbind.2, final_orReply,
      spawnPaused_of_reserve (reserved_eq_some h)]
    exact launchPaused_leaves hent hs
  | refill template target =>
    rw [reservation] at h
    split_ifs at h with hroom
    have hleaves : Leaves env id s w₁ (final (launchPaused env id w₁)) :=
      launchPaused_leaves hent hs
    rw [← spawnPaused_of_reserve (reserved_eq_some h)] at hleaves
    rw [handle, refillTurn, if_pos hroom]
    cases hspawn : spawnPaused env template w with
    | ok _ _ | error _ _ =>
      rw [hspawn] at hleaves
      exact hleaves

/-- Nothing of the request is left: the registry is as it was, and no worker of it runs. -/
def Traceless (env : Env) (w w' : World) : Prop :=
  w'.registry = w.registry ∧ env.flag ∉ w'.workers

instance (env : Env) (w w' : World) : Decidable (Traceless env w w') := by
  unfold Traceless
  infer_instance

/-- **When a failed start leaves no trace.**  The kill flag is a new allocation, so no entry and no
worker has it. -/
theorem traceless_iff (halloc : ∀ e ∈ w.registry, e.kill ≠ env.flag)
    (hworkers : env.flag ∉ w.workers) (hres : reservation env w r = some (id, w₁))
    (hs : firstError env r.steps = some s) :
    Traceless env w (final (handle env r w)) ↔
      s.guarded = true ∧ w.admits env r.reference = true ∧
        ∀ e ∈ w.registry, e.id ≠ r.drawn w := by
  obtain ⟨hid, ⟨registry, hsub, hsame, hroom, e, heid, hkill, hreg⟩, hw₁⟩ := reservation_spec hres
  have hleaves := handle_leaves hres hs
  rw [← hid]
  unfold Leaves at hleaves
  split_ifs at hleaves with hguard
  · have hback : (w₁.remove id).registry = registry.filter fun e => e.id ≠ id := by
      rw [World.remove, hreg]
      simp [heid]
    have hquiet : env.flag ∉ (final (handle env r w)).workers := by
      rwa [hleaves.2, hw₁]
    constructor
    · rintro ⟨heq, -⟩
      rw [hleaves.1, hback] at heq
      -- a filter of a part of the registry is the registry: nothing was evicted or filtered out
      have hall : registry = w.registry :=
        hsub.antisymm (heq ▸ filter_sublist)
      rw [hall] at heq hroom
      exact ⟨hguard, hroom, fun e he => of_decide_eq_true (filter_eq_self.1 heq e he)⟩
    · rintro ⟨-, hfits, hfresh⟩
      refine ⟨?_, hquiet⟩
      rw [hleaves.1, hback, hsame hfits]
      exact filter_eq_self.2 fun e he => decide_eq_true (hfresh e he)
  · obtain ⟨e', he', hkill'⟩ := hleaves
    constructor
    · rintro ⟨heq, -⟩
      rw [heq] at he'
      exact absurd hkill' (halloc e' he')
    · rintro ⟨hyes, -⟩
      exact absurd hyes hguard

end Handle

/-! Starts on an idle daemon, one step of which fails. -/

/-- 100 bytes to each VM, under a budget of 150. -/
def failingAt (s : Fallible) : Env where
  budget := some 150
  ramBytes _ := 100
  flag := 7
  pid := 4242
  fails := fun s' => if s' = s then some "failed" else none

def idle : World := ⟨[], 0, [], [], [], []⟩

/-- A pooled worker that takes 100 bytes. -/
def warm : World := ⟨[⟨1, "template", 4000, 100, 3⟩], 1, [("template", [1])], [3], [3], []⟩

/-- A fork whose worker does not warm up leaves nothing. -/
theorem fork_warmUp_traceless : Traceless (failingAt .warmUp) idle
    (final (handle (failingAt .warmUp) (.fork "template") idle)) := by
  refine (traceless_iff (r := .fork "template") (s := .warmUp) ?_ ?_ rfl rfl).2 ⟨rfl, rfl, ?_⟩
  · exact nofun
  · decide
  · exact nofun

/-- **Starts that leave a trace.**  Without room for a log, a fork keeps its reservation.  A
one-shot run whose client's stream cannot be cloned keeps its reservation and its worker, which
nobody supervises.  And a run that fails to spawn has cost a pooled worker its place. -/
theorem log_failure_leaks :
    (final (handle (failingAt .logDir) (.fork "template") idle)).registry =
      [⟨1, "template", 0, 100, 7⟩] ∧
    (let w := final (handle (failingAt .streamOut) (.runOneShot "image") idle);
      w.registry = [⟨1, "image", 4242, 100, 7⟩] ∧ w.workers = [7] ∧ w.supervised = []) ∧
    (final (handle (failingAt .spawn) (.runDetached "image") warm)).registry = [] := by
  have hfirst : reserveWithEvict (failingAt .streamOut) "image" idle =
      .ok 1 (idle.insert (failingAt .streamOut) "image") := reserveWithEvict_of_ok rfl
  obtain ⟨w, hevict⟩ : ∃ w, evictOnePooled warm = some w := ⟨_, rfl⟩
  have hevicted : reserveWithEvict (failingAt .spawn) "image" warm =
      .ok 2 (w.insert (failingAt .spawn) "image") := by
    rw [reserveWithEvict_of_refusal rfl hevict]
    cases hevict
    exact reserveWithEvict_of_ok rfl
  refine ⟨rfl, ?_, ?_⟩
  · rw [handle, final_map, runOneShot, bind_ok hfirst]
    exact ⟨rfl, rfl, rfl⟩
  · rw [handle, final_map, startDetached, bind_ok hevicted]
    cases hevict
    rfl

end Amber.Daemon.Start
