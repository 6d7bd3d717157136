import Mathlib.Algebra.BigOperators.Group.List.Basic
import Mathlib.Algebra.Ring.Nat

/-!
# The daemon's fleet

Admission, launching, pooling, eviction and supervision of worker processes, from
`amber/src/daemon.rs`.  Every connection has a thread of its own and so has every supervisor
and pool refill; they meet in the registry and the pool, each behind a lock.  One event of the
model is one locked section of one thread, or something the outside does, and events come in
any order.

A `Vm` is one admission: its registry entry (`registered`), its worker process (`alive`) and
how far the thread that owns it has got (`stage`).  `Task` is a thread that holds no admission
yet, or waits to put a warm worker in the pool.  Ids are the numbers after `vm`; templates and
image references are numbered too.

`committed` is what the machine can be asked for: the caps of all workers still alive and of
all reservations that have no live worker.
-/

namespace Amber.Daemon

/-- Who asks for a worker.  A refill thread has read its target size. -/
inductive Launch
  | oneShot
  | detached
  | fork
  | exec
  | refill (target : ℕ)
  deriving DecidableEq

/-- Real VMs go through `reserve_with_evict`; the others through `spawn_paused`. -/
def Launch.evicts : Launch → Bool
  | .oneShot => true
  | .detached => true
  | _ => false

/-- Where the thread that owns an admission is. -/
inductive Stage
  /-- Reserved, nothing spawned yet. -/
  | launching
  /-- Spawned paused, waiting for the ready byte. -/
  | warming
  /-- Failed to warm: out of the registry, about to be killed. -/
  | failed
  /-- In the loop of `supervise`. -/
  | supervised
  /-- `supervise` has returned, the entry is still there. -/
  | reaped
  /-- The entry is gone, the pool is still to be cleaned. -/
  | unlisted
  | done
  deriving DecidableEq

structure Vm where
  id : ℕ
  ramBytes : ℕ
  launch : Launch
  template : ℕ
  registered : Bool
  alive : Bool
  kill : Bool
  stage : Stage
  deriving DecidableEq

/-- What the registry accounts a VM at. -/
def Vm.reserved (v : Vm) : ℕ := if v.registered then v.ramBytes else 0

/-- What a VM can really take: its worker lives, or is still to come. -/
def Vm.committed (v : Vm) : ℕ := if v.registered || v.alive then v.ramBytes else 0

inductive Task
  /-- About to call `reserve`. -/
  | admission (launch : Launch) (template : ℕ)
  /-- Refused, about to look for a pooled worker to evict. -/
  | refused (launch : Launch) (template : ℕ)
  /-- The victim is out of the pool and still in the registry. -/
  | evicting (launch : Launch) (template victim : ℕ)
  /-- A refill thread with a warm worker for the pool. -/
  | pooling (template id target : ℕ)
  /-- A refill thread at the head of its loop. -/
  | refill (template target : ℕ)
  deriving DecidableEq

structure Fleet where
  vms : List Vm
  counter : ℕ
  /-- Pooled workers with their template, in the order they were pushed. -/
  pool : List (ℕ × ℕ)
  tasks : List Task
  deriving DecidableEq

namespace Fleet

def start : Fleet := ⟨[], 0, [], []⟩

/-- The caps in the registry. -/
def used (f : Fleet) : ℕ := (f.vms.map Vm.reserved).sum

/-- The caps of all live workers and outstanding reservations. -/
def committed (f : Fleet) : ℕ := (f.vms.map Vm.committed).sum

def modifyVm (f : Fleet) (k : ℕ) (g : Vm → Vm) : Fleet := { f with vms := f.vms.modify k g }

/-- `reg.remove(&id)`. -/
def remove (f : Fleet) (id : ℕ) : Fleet :=
  { f with vms := f.vms.map fun v => if v.id = id then { v with registered := false } else v }

/-- Set the kill flag of the entry `id`, if there is one. -/
def setKill (f : Fleet) (id : ℕ) : Fleet :=
  { f with
    vms := f.vms.map fun v => if v.id = id ∧ v.registered then { v with kill := true } else v }

def setTask (f : Fleet) (i : ℕ) (t : Task) : Fleet := { f with tasks := f.tasks.set i t }

def endTask (f : Fleet) (i : ℕ) : Fleet := { f with tasks := f.tasks.eraseIdx i }

def startTask (f : Fleet) (t : Task) : Fleet := { f with tasks := f.tasks ++ [t] }

/-! ## Admission -/

/-- The check of `reserve`: a sum and an addition of 64-bit numbers. -/
def admits (f : Fleet) (budget requested : ℕ) : Bool :=
  decide ((f.used % 2 ^ 64 + requested) % 2 ^ 64 ≤ budget)

/-- `counter.fetch_add(1) + 1`. -/
def nextId (f : Fleet) : ℕ := (f.counter + 1) % 2 ^ 64

/-- Insert the entry of a new VM, whose worker is not spawned yet. -/
def insert (f : Fleet) (launch : Launch) (template requested : ℕ) : Fleet :=
  let vm : Vm :=
    { id := f.nextId
      ramBytes := requested
      launch
      template
      registered := true
      alive := false
      kill := false
      stage := .launching }
  { f.remove f.nextId with vms := (f.remove f.nextId).vms ++ [vm], counter := f.nextId }

/-- Check and insert under one lock; `none` is a refusal. -/
def reserve (f : Fleet) (budget : ℕ) (launch : Launch) (template requested : ℕ) : Option Fleet :=
  if f.admits budget requested then some (f.insert launch template requested) else none

/-- The last worker pushed for a template. -/
def pooled (f : Fleet) (template : ℕ) : Option ℕ :=
  ((f.pool.filter (·.1 = template)).map (·.2)).getLast?

def unpool (f : Fleet) (template id : ℕ) : Fleet := { f with pool := f.pool.erase (template, id) }

/-- The second half of `evict_one_pooled`: drop the victim's entry and flag its supervisor. -/
def evict (f : Fleet) (victim : ℕ) : Fleet := (f.setKill victim).remove victim

/-- A call of `reserve`.  On a refusal `reserve_with_evict` goes on to evict; everyone else gives
up. -/
def runAdmit (f : Fleet) (budget i requested : ℕ) (launch : Launch) (template : ℕ) : Fleet :=
  match f.reserve budget launch template requested with
  | some f' => f'.endTask i
  | none => if launch.evicts then f.setTask i (.refused launch template) else f.endTask i

/-- The first half of `evict_one_pooled`: take a victim out of the pool of `pick`.  With nothing
pooled at all the request is refused for good. -/
def runRefused (f : Fleet) (i pick : ℕ) (launch : Launch) (template : ℕ) : Fleet :=
  match f.pooled pick with
  | some victim => (f.unpool pick victim).setTask i (.evicting launch template victim)
  | none => if f.pool = [] then f.endTask i else f

/-- The head of the loop of `refill_pool`. -/
def runRefill (f : Fleet) (i template target : ℕ) : Fleet :=
  if (f.pool.filter (·.1 = template)).length < target then
    f.setTask i (.admission (.refill target) template)
  else f.endTask i

/-- The next locked section of a thread that owns no admission.  `requested` is the cap the
manifest gives, `pick` the template whose pool an eviction tries. -/
def runTask (f : Fleet) (budget i requested pick : ℕ) : Task → Fleet
  | .admission launch template => f.runAdmit budget i requested launch template
  | .refused launch template => f.runRefused i pick launch template
  | .evicting launch template victim => (f.evict victim).setTask i (.admission launch template)
  | .pooling template id target =>
    ({ f with pool := f.pool ++ [(template, id)] } : Fleet).setTask i (.refill template target)
  | .refill template target => f.runRefill i template target

/-! ## The life of a worker -/

/-- How launching a reserved worker ends. -/
inductive LaunchEnd
  | spawned
  /-- The control channel or the process could not be made: the reservation is released. -/
  | failed
  /-- The log file could not be made: the thread returns and the reservation stays. -/
  | leaked
  /-- The client's stream could not be cloned: the thread of a one-shot run returns, and the worker
  runs on with nobody to supervise it. -/
  | abandoned
  deriving DecidableEq

def setStage (stage : Stage) (v : Vm) : Vm := { v with stage }

def launchEnds (f : Fleet) (k : ℕ) (v : Vm) : LaunchEnd → Fleet
  | .spawned => f.modifyVm k fun v =>
      { v with alive := true, stage := if v.launch.evicts then .supervised else .warming }
  | .failed => (f.modifyVm k (setStage .done)).remove v.id
  | .leaked => f.modifyVm k (setStage .done)
  | .abandoned =>
    if v.launch = .oneShot then f.modifyVm k fun v => { v with alive := true, stage := .done }
    else f

/-- The caller of `spawn_paused` goes on: a fork starts a refill, a refill pools its worker. -/
def afterWarm (f : Fleet) (v : Vm) (target : ℕ) : Fleet :=
  match v.launch with
  | .fork => f.startTask (.refill v.template target)
  | .refill target => f.startTask (.pooling v.template v.id target)
  | _ => f

def warmEnds (f : Fleet) (k : ℕ) (v : Vm) (ready : Bool) (target : ℕ) : Fleet :=
  if ready then (f.modifyVm k (setStage .supervised)).afterWarm v target
  else (f.modifyVm k (setStage .failed)).remove v.id

/-- One turn of `supervise`.  A one-shot run is also stopped when its client has gone. -/
def superviseTurn (f : Fleet) (k : ℕ) (v : Vm) (waitFails clientGone : Bool) : Fleet :=
  if !v.alive || waitFails then f.modifyVm k (setStage .reaped)
  else if v.kill || (clientGone && v.launch == .oneShot) then
    f.modifyVm k fun v => { v with alive := false, stage := .reaped }
  else f

/-- The supervisor drops the entry.  That of a real VM has nothing else to do. -/
def deregister (f : Fleet) (k : ℕ) (v : Vm) : Fleet :=
  (f.modifyVm k (setStage (if v.launch.evicts then .done else .unlisted))).remove v.id

/-- The supervisor of a forked worker drops the id from the pool. -/
def clearPool (f : Fleet) (k : ℕ) (v : Vm) : Fleet :=
  let f := f.modifyVm k (setStage .done)
  { f with pool := f.pool.filter fun p => p ≠ (v.template, v.id) }

/-! ## Events -/

inductive Request
  | runOneShot (reference : ℕ)
  | runDetached (reference : ℕ)
  /-- The target is the pool size a refill thread would read. -/
  | fork (template target : ℕ)
  | exec (template : ℕ)
  | kill (id : ℕ)
  deriving DecidableEq

inductive Event
  | request (r : Request)
  | task (i requested pick : ℕ)
  | launchEnds (k : ℕ) (how : LaunchEnd)
  | warmEnds (k : ℕ) (ready : Bool) (target : ℕ)
  /-- `child.kill()` after a failed warm-up. -/
  | abort (k : ℕ)
  | superviseTurn (k : ℕ) (waitFails clientGone : Bool)
  | deregister (k : ℕ)
  | clearPool (k : ℕ)
  /-- The worker process ends. -/
  | exits (k : ℕ)
  deriving DecidableEq

/-- A fork takes a pooled worker and refills the pool, or stages one now. -/
def requestFork (f : Fleet) (template target : ℕ) : Fleet :=
  match f.pooled template with
  | some id => (f.unpool template id).startTask (.refill template target)
  | none => f.startTask (.admission .fork template)

def request (f : Fleet) : Request → Fleet
  | .runOneShot reference => f.startTask (.admission .oneShot reference)
  | .runDetached reference => f.startTask (.admission .detached reference)
  | .fork template target => f.requestFork template target
  -- the number for the private socket comes from the same counter as the ids
  | .exec template => ({ f with counter := f.nextId } : Fleet).startTask (.admission .exec template)
  | .kill id => f.setKill id

/-- Let the owner of admission `k` go on, if it is at `stage`. -/
def atStage (f : Fleet) (k : ℕ) (stage : Stage) (g : Vm → Fleet) : Fleet :=
  match f.vms[k]? with
  | some v => if v.stage = stage then g v else f
  | none => f

/-- Let thread `i` go on. -/
def atTask (f : Fleet) (i : ℕ) (g : Task → Fleet) : Fleet :=
  match f.tasks[i]? with
  | some t => g t
  | none => f

def step (budget : ℕ) (f : Fleet) : Event → Fleet
  | .request r => f.request r
  | .task i requested pick => f.atTask i fun t => f.runTask budget i requested pick t
  | .launchEnds k how => f.atStage k .launching fun v => f.launchEnds k v how
  | .warmEnds k ready target => f.atStage k .warming fun v => f.warmEnds k v ready target
  | .abort k => f.atStage k .failed fun _ => f.modifyVm k (setStage .done)
  | .superviseTurn k waitFails clientGone =>
    f.atStage k .supervised fun v => f.superviseTurn k v waitFails clientGone
  | .deregister k => f.atStage k .reaped fun v => f.deregister k v
  | .clearPool k => f.atStage k .unlisted fun v => f.clearPool k v
  | .exits k => f.modifyVm k fun v => { v with alive := false }

/-! ## Rules

What a locked section leads to, for any property of the fleet after it. -/

section Rules

variable {P : Fleet → Prop} {f : Fleet} {k i : ℕ}

theorem atStage_rule {stage : Stage} {g : Vm → Fleet} (hidle : P f)
    (hgo : ∀ v, f.vms[k]? = some v → v.stage = stage → P (g v)) : P (f.atStage k stage g) := by
  unfold atStage
  cases hv : f.vms[k]? with
  | none => exact hidle
  | some v =>
    dsimp only
    split_ifs with hstage
    · exact hgo v hv hstage
    · exact hidle

theorem atTask_rule {g : Task → Fleet} (hidle : P f)
    (hgo : ∀ t, f.tasks[i]? = some t → P (g t)) : P (f.atTask i g) := by
  unfold atTask
  cases ht : f.tasks[i]? with
  | none => exact hidle
  | some t => exact hgo t ht

theorem runAdmit_rule {budget requested template : ℕ} {launch : Launch}
    (hpass : f.admits budget requested = true →
      P ((f.insert launch template requested).endTask i))
    (hrefused : P (f.setTask i (.refused launch template))) (hend : P (f.endTask i)) :
    P (f.runAdmit budget i requested launch template) := by
  unfold runAdmit reserve
  by_cases hfits : f.admits budget requested = true
  · rw [if_pos hfits]
    exact hpass hfits
  · rw [if_neg hfits]
    split_ifs
    · exact hrefused
    · exact hend

theorem runRefused_rule {pick template : ℕ} {launch : Launch} (hidle : P f)
    (hend : P (f.endTask i))
    (htake : ∀ victim, f.pooled pick = some victim →
      P ((f.unpool pick victim).setTask i (.evicting launch template victim))) :
    P (f.runRefused i pick launch template) := by
  unfold runRefused
  cases hp : f.pooled pick with
  | none =>
    split_ifs
    · exact hend
    · exact hidle
  | some victim => exact htake victim hp

theorem superviseTurn_rule {v : Vm} {waitFails clientGone : Bool} (hidle : P f)
    (hreap : P (f.modifyVm k (setStage .reaped)))
    (hstop : P (f.modifyVm k fun v => { v with alive := false, stage := .reaped })) :
    P (f.superviseTurn k v waitFails clientGone) := by
  unfold superviseTurn
  split_ifs
  · exact hreap
  · exact hstop
  · exact hidle

end Rules

end Fleet
end Amber.Daemon
