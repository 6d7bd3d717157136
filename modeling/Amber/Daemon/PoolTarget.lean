import Amber.Daemon.WarmPool

/-!
# Does the warm pool keep to its target?

Every fork starts a refill thread.  That thread looks whether the pool of its template is short of
the target, stages a worker without any lock, and pushes it.  Nothing counts the workers that are
being staged meanwhile, so two threads that look before either has pushed both find room.  (A fork
that fails to release its worker starts no refill; here that is a refill thread that never gets to
run.)

* `filled` — the pooled workers of a template together with those being staged for its pool.
* `InTarget.settle`, `InTarget.advance` — what the invariant needs of VMs and threads.
* `pool_within_target` — if no refill thread goes on to stage a worker while the pool and what is
  being staged for it make up the target, the pool never exceeds the target.
* `pool_overfilled` — two forks at once, a target of one, two pooled workers.
-/

namespace Amber.Daemon

open List

/-! ## Workers on their way to the pool -/

def Launch.fills : Launch → Bool
  | .refill _ => true
  | _ => false

/-- A refill thread that has found the pool of `template` short, while it owns no admission. -/
def Task.staging (template : ℕ) : Task → Bool
  | .admission launch t => launch.fills && t == template
  | .refused launch t => launch.fills && t == template
  | .evicting launch t _ => launch.fills && t == template
  | .pooling t _ _ => t == template
  | .refill _ _ => false

/-- A worker that is being launched or warmed for the pool of `template`. -/
def Vm.staging (template : ℕ) (v : Vm) : Bool :=
  v.launch.fills && v.template == template && !v.stage.past

/-- A target that has been read is `p`. -/
def Launch.Aims (p : ℕ) : Launch → Prop
  | .refill target => target = p
  | _ => True

def Task.Aims (p : ℕ) : Task → Prop
  | .admission launch _ => launch.Aims p
  | .refused launch _ => launch.Aims p
  | .evicting launch _ _ => launch.Aims p
  | .pooling _ _ target => target = p
  | .refill _ target => target = p

/-- What an event other than an admission does to one VM: it does not start to warm again. -/
structure Vm.Settles (v v' : Vm) : Prop where
  launch_eq : v'.launch = v.launch
  template_eq : v'.template = v.template
  past : v.stage.past = true → v'.stage.past = true

theorem Vm.Settles.refl (v : Vm) : v.Settles v := ⟨rfl, rfl, fun h => h⟩

theorem Vm.Settles.setStage {stage : Stage} (h : stage.past = true) (v : Vm) :
    v.Settles (Fleet.setStage stage v) := ⟨rfl, rfl, fun _ => h⟩

theorem Vm.Settles.staging {v v' : Vm} (h : v.Settles v') {template : ℕ}
    (hs : v'.staging template = true) : v.staging template = true := by
  simp only [Vm.staging, Bool.and_eq_true, h.launch_eq, h.template_eq, Bool.not_eq_true'] at hs ⊢
  refine ⟨hs.1, ?_⟩
  cases hp : v.stage.past with
  | false => rfl
  | true => rw [h.past hp] at hs; exact absurd hs.2 (by simp)

namespace Fleet

/-- The pooled workers of a template. -/
def warm (f : Fleet) (template : ℕ) : ℕ := (f.pool.filter (·.1 = template)).length

/-- The workers that refill threads are staging for the pool of a template. -/
def underway (f : Fleet) (template : ℕ) : ℕ :=
  f.tasks.countP (Task.staging template) + f.vms.countP (Vm.staging template)

def filled (f : Fleet) (template : ℕ) : ℕ := f.warm template + f.underway template

/-- The target a refill thread started by this event reads. -/
def Event.target : Event → Option ℕ
  | .request (.fork _ target) => some target
  | .warmEnds _ _ target => some target
  | _ => none

/-- `[fleet].pool_size` is `p` whenever it is read. -/
def Event.Fixed (p : ℕ) (e : Event) : Prop := ∀ target ∈ e.target, target = p

instance (p : ℕ) (e : Event) : Decidable (e.Fixed p) :=
  inferInstanceAs (Decidable (∀ target ∈ e.target, target = p))

/-- The template and the target of the refill thread that is at the head of its loop and goes on. -/
def refilling (f : Fleet) : Event → Option (ℕ × ℕ)
  | .task i _ _ =>
    match f.tasks[i]? with
    | some (.refill template target) => some (template, target)
    | _ => none
  | _ => none

/-- A refill thread that finds the pool short also finds it short when what is being staged for it
is counted. -/
def Spare (f : Fleet) (e : Event) : Prop :=
  ∀ r ∈ f.refilling e, f.warm r.1 < r.2 → f.filled r.1 < r.2

instance (f : Fleet) (e : Event) : Decidable (f.Spare e) :=
  inferInstanceAs (Decidable (∀ r ∈ f.refilling e, f.warm r.1 < r.2 → f.filled r.1 < r.2))

/-! ## The invariant -/

structure InTarget (p : ℕ) (f : Fleet) : Prop where
  filled_le : ∀ template, f.filled template ≤ p
  tasks : ∀ task ∈ f.tasks, task.Aims p
  vms : ∀ v ∈ f.vms, v.launch.Aims p

variable {p : ℕ} {f : Fleet}

theorem start_inTarget (p : ℕ) : start.InTarget p :=
  ⟨fun _ => Nat.zero_le p, nofun,
    nofun⟩

theorem countP_le_of_settles {l l' : List Vm} (h : List.Forall₂ Vm.Settles l l') (template : ℕ) :
    l'.countP (Vm.staging template) ≤ l.countP (Vm.staging template) := by
  induction h with
  | nil => exact le_refl _
  | cons hab _ ih =>
    rw [countP_cons, countP_cons]
    split_ifs with hb ha
    · omega
    · exact absurd (hab.staging hb) ha
    · omega
    · omega

/-- VMs may settle. -/
theorem InTarget.settle (h : f.InTarget p) {vms : List Vm}
    (hs : List.Forall₂ Vm.Settles f.vms vms) : ({ f with vms } : Fleet).InTarget p where
  filled_le template := by
    refine le_trans ?_ (h.filled_le template)
    exact Nat.add_le_add_left (Nat.add_le_add_left (countP_le_of_settles hs template) _) _
  tasks := h.tasks
  vms v' hv' := by
    obtain ⟨v, hv, hset⟩ := exists_of_forall₂ hs v' hv'
    rw [hset.launch_eq]
    exact h.vms v hv

variable {k i template target : ℕ} {task : Task} {launch : Launch} {v : Vm}

variable (h : f.InTarget p)

include h

theorem InTarget.modifyVm {g : Vm → Vm}
    (hg : ∀ v, f.vms[k]? = some v → v.Settles (g v)) : (f.modifyVm k g).InTarget p :=
  h.settle (forall₂_modify Vm.Settles.refl f.vms hg)

/-- An entry may go, or be flagged. -/
theorem InTarget.mapVms {g : Vm → Vm} (hg : ∀ v : Vm, v.Settles (g v)) :
    ({ f with vms := f.vms.map g } : Fleet).InTarget p := by
  refine h.settle ?_
  rw [forall₂_map_right_iff, forall₂_same]
  exact fun v _ => hg v

theorem InTarget.remove (id : ℕ) : (f.remove id).InTarget p :=
  h.mapVms fun v => by split_ifs <;> exact ⟨rfl, rfl, fun hp => hp⟩

theorem InTarget.setKill (id : ℕ) : (f.setKill id).InTarget p :=
  h.mapVms fun v => by split_ifs <;> exact ⟨rfl, rfl, fun hp => hp⟩

/-- Pool and threads may change as long as they do not come to more. -/
theorem InTarget.advance (pool : List (ℕ × ℕ)) (tasks : List Task)
    (hle : ∀ template, ({ f with pool, tasks } : Fleet).filled template ≤ f.filled template)
    (ha : ∀ task ∈ tasks, task ∈ f.tasks ∨ task.Aims p) :
    ({ f with pool, tasks } : Fleet).InTarget p where
  filled_le template := le_trans (hle template) (h.filled_le template)
  tasks task ht := (ha task ht).elim (h.tasks task) fun haim => haim
  vms := h.vms

theorem InTarget.shrinkPool {pool : List (ℕ × ℕ)} (hp : pool.Sublist f.pool) :
    ({ f with pool } : Fleet).InTarget p :=
  h.advance _ _ (fun _ => Nat.add_le_add_right (hp.filter _).length_le _) fun _ ht => .inl ht

/-- A thread that stages nothing starts. -/
theorem InTarget.startTask (hs : ∀ t, task.staging t = false)
    (ha : task.Aims p) : (f.startTask task).InTarget p := by
  refine h.advance f.pool _ (fun template => ?_) fun t ht => ?_
  · simp [filled, underway, warm, hs]
  · rcases mem_append.1 ht with ht | ht
    · exact .inl ht
    · rw [mem_singleton.1 ht]
      exact .inr ha

theorem InTarget.endTask (i : ℕ) : (f.endTask i).InTarget p := by
  refine h.advance f.pool _ (fun template => ?_) fun t ht =>
    .inl (mem_of_mem_eraseIdx ht)
  have := List.Sublist.countP_le (p := Task.staging template) (eraseIdx_sublist f.tasks i)
  simp only [filled, underway, warm]
  omega

/-- A thread goes on, with the same worker on its way or with none. -/
theorem InTarget.setTask {old : Task}
    (hold : f.tasks[i]? = some old) (hs : ∀ t, task.staging t = true → old.staging t = true)
    (ha : task.Aims p) : (f.setTask i task).InTarget p := by
  refine h.advance f.pool _ (fun template => ?_) fun t ht => ?_
  · have hset := countP_set_add hold task (Task.staging template)
    simp only [filled, underway, warm]
    split_ifs at hset <;> grind
  · rcases mem_or_eq_of_mem_set ht with hmem | rfl
    · exact .inl hmem
    · exact .inr ha

/-! ## Admission, eviction and pooling -/

variable (ht : f.tasks[i]? = some (.admission launch template))

include ht

/-- An admission that passes: the worker is no longer on its way in a thread but as a VM. -/
theorem InTarget.insert (requested : ℕ) :
    ((f.insert launch template requested).endTask i).InTarget p := by
  have hrem := h.remove f.nextId
  have haim : launch.Aims p := h.tasks _ (mem_of_getElem? ht)
  refine ⟨fun t => le_trans ?_ (hrem.filled_le t), fun task htask => ?_, fun v hv => ?_⟩
  · have herase := countP_eraseIdx_add ht (Task.staging t)
    simp only [filled, underway, warm, Fleet.insert, Fleet.endTask, Fleet.remove,
      countP_append, countP_singleton, Vm.staging, Task.staging, Stage.past,
      Bool.not_false, Bool.and_true] at herase ⊢
    grind
  · exact h.tasks task (mem_of_mem_eraseIdx htask)
  · exact forall_mem_append.2 ⟨hrem.vms, forall_mem_singleton.2 haim⟩ v hv

theorem InTarget.runAdmit (budget requested : ℕ) :
    (f.runAdmit budget i requested launch template).InTarget p := by
  have haim : launch.Aims p := h.tasks _ (mem_of_getElem? ht)
  exact runAdmit_rule (fun _ => h.insert ht requested) (h.setTask ht (fun _ hs => hs) haim)
    (h.endTask i)

omit ht

theorem InTarget.runRefused (ht : f.tasks[i]? = some (.refused launch template))
    (pick : ℕ) :
    (f.runRefused i pick launch template).InTarget p := by
  have haim : launch.Aims p := h.tasks _ (mem_of_getElem? ht)
  refine runRefused_rule h (h.endTask i) fun victim _ => ?_
  have hout : (f.unpool pick victim).InTarget p := h.shrinkPool erase_sublist
  exact hout.setTask ht (fun _ hs => hs) haim

/-- The worker a refill thread had on its way is now in the pool. -/
theorem InTarget.push {id : ℕ}
    (ht : f.tasks[i]? = some (.pooling template id target)) :
    (({ f with pool := f.pool ++ [(template, id)] } : Fleet).setTask i
      (.refill template target)).InTarget p := by
  refine h.advance _ _ (fun t => ?_) fun task htask => ?_
  · have hset := countP_set_add ht (.refill template target) (Task.staging t)
    simp only [Task.staging, beq_iff_eq, Bool.false_eq_true, if_false] at hset
    simp only [filled, underway, warm, filter_append, filter_cons, filter_nil,
      length_append, decide_eq_true_eq]
    split_ifs at hset ⊢ <;> grind
  · rcases mem_or_eq_of_mem_set htask with hmem | rfl
    · exact .inl hmem
    · exact .inr (h.tasks _ (mem_of_getElem? ht) : target = p)

/-- The head of the loop of a refill: one more worker is on its way, for which there is room. -/
theorem InTarget.runRefill
    (ht : f.tasks[i]? = some (.refill template target))
    (hroom : f.warm template < target → f.filled template < target) :
    (f.runRefill i template target).InTarget p := by
  obtain rfl : target = p := h.tasks _ (mem_of_getElem? ht)
  unfold Fleet.runRefill
  split_ifs with hshort
  · have hlt := hroom hshort
    refine ⟨fun t => ?_, fun task htask => ?_, h.vms⟩
    · have hset := countP_set_add ht (.admission (.refill target) template) (Task.staging t)
      have hle := h.filled_le t
      simp only [Task.staging, Launch.fills, Bool.true_and, beq_iff_eq, Bool.false_eq_true,
        if_false] at hset
      simp only [filled, underway, warm, Fleet.setTask] at hlt hle ⊢
      split_ifs at hset with heq
      · subst heq
        omega
      · omega
    · rcases mem_or_eq_of_mem_set htask with hmem | rfl
      · exact h.tasks task hmem
      · rfl
  · exact h.endTask i

theorem InTarget.runTask (ht : f.tasks[i]? = some task)
    (budget requested pick : ℕ) (hs : f.Spare (.task i requested pick)) :
    (f.runTask budget i requested pick task).InTarget p := by
  cases task with
  | admission launch template => exact h.runAdmit ht budget requested
  | refused launch template => exact h.runRefused ht pick
  | evicting launch template victim =>
    have haim : launch.Aims p := h.tasks _ (mem_of_getElem? ht)
    have hgone : (f.evict victim).InTarget p := (h.setKill victim).remove victim
    exact hgone.setTask ht (fun _ hs => hs) haim
  | pooling template id target => exact h.push ht
  | refill template target =>
    refine h.runRefill ht (hs (template, target) ?_)
    rw [refilling, ht]
    rfl

/-! ## The life of a worker -/

variable (hv : f.vms[k]? = some v)

include hv

theorem InTarget.launchEnds (hl : v.stage = .launching) (how : LaunchEnd) :
    (f.launchEnds k v how).InTarget p := by
  cases how with
  | spawned =>
    refine h.modifyVm fun w hw => ⟨rfl, rfl, fun hpast => ?_⟩
    obtain rfl : v = w := Option.some.inj (hv.symm.trans hw)
    rw [hl] at hpast
    cases hpast
  | failed => exact (h.modifyVm fun w _ => .setStage rfl w).remove v.id
  | leaked => exact h.modifyVm fun w _ => .setStage rfl w
  | abandoned =>
    show InTarget p (if v.launch = .oneShot then _ else f)
    split_ifs
    · exact h.modifyVm fun w _ => ⟨rfl, rfl, fun _ => rfl⟩
    · exact h

/-- A refill's worker is warm: it is now on its way in the refill thread. -/
theorem InTarget.warmed (hw : v.stage = .warming) (hl : v.launch = .refill target) :
    ((f.modifyVm k (setStage .supervised)).startTask
      (.pooling v.template v.id target)).InTarget p := by
  have hup : (f.modifyVm k (setStage .supervised)).InTarget p :=
    h.modifyVm fun w _ => .setStage rfl w
  refine ⟨fun t => ?_, fun task htask => ?_, hup.vms⟩
  · have hmod := countP_modify_add hv (setStage .supervised) (Vm.staging t)
    have hle := h.filled_le t
    have hout : (setStage .supervised v).staging t = false := by
      simp [Vm.staging, setStage, Stage.past]
    have hin : v.staging t = (v.template == t) := by
      simp [Vm.staging, hw, hl, Launch.fills, Stage.past]
    simp only [filled, underway, warm, Fleet.startTask, Fleet.modifyVm, countP_append,
      countP_singleton, Task.staging] at hle hmod ⊢
    grind
  · rcases mem_append.1 htask with htask | htask
    · exact h.tasks task htask
    · rw [mem_singleton.1 htask]
      have haim := h.vms v (mem_of_getElem? hv)
      rw [hl] at haim
      exact haim

theorem InTarget.warmEnds (hw : v.stage = .warming) (ready : Bool) (htarget : target = p) :
    (f.warmEnds k v ready target).InTarget p := by
  unfold Fleet.warmEnds
  cases ready with
  | false => exact (h.modifyVm fun w _ => .setStage rfl w).remove v.id
  | true =>
    have hup : (f.modifyVm k (setStage .supervised)).InTarget p :=
      h.modifyVm fun w _ => .setStage rfl w
    rw [if_pos rfl]
    unfold Fleet.afterWarm
    split
    · exact hup.startTask (fun _ => rfl) htarget
    · exact h.warmed hv hw ‹_›
    · exact hup

omit hv

theorem InTarget.superviseTurn (k : ℕ) (v : Vm) (waitFails clientGone : Bool) :
    (f.superviseTurn k v waitFails clientGone).InTarget p :=
  superviseTurn_rule h (h.modifyVm fun w _ => .setStage rfl w)
    (h.modifyVm fun _ _ => ⟨rfl, rfl, fun _ => rfl⟩)

theorem InTarget.deregister (k : ℕ) (v : Vm) :
    (f.deregister k v).InTarget p := by
  refine (h.modifyVm fun w _ => .setStage ?_ w).remove v.id
  split_ifs <;> rfl

theorem InTarget.clearPool (k : ℕ) (v : Vm) : (f.clearPool k v).InTarget p := by
  have hdone : (f.modifyVm k (setStage .done)).InTarget p :=
    h.modifyVm fun w _ => .setStage rfl w
  exact hdone.shrinkPool filter_sublist

/-! ## Every run -/

theorem InTarget.requestFork (template : ℕ) (ht : target = p) :
    (f.requestFork template target).InTarget p := by
  unfold Fleet.requestFork
  cases f.pooled template with
  | none => exact h.startTask (fun _ => rfl) trivial
  | some id =>
    have hout : (f.unpool template id).InTarget p := h.shrinkPool erase_sublist
    exact hout.startTask (fun _ => rfl) ht

theorem InTarget.request (r : Request) (hr : (Event.request r).Fixed p) :
    (f.request r).InTarget p := by
  cases r with
  | runOneShot reference | runDetached reference => exact h.startTask (fun _ => rfl) trivial
  | fork template target => exact h.requestFork template (hr target rfl)
  | exec template =>
    have hdraw : ({ f with counter := f.nextId } : Fleet).InTarget p :=
      ⟨h.filled_le, h.tasks, h.vms⟩
    exact hdraw.startTask (fun _ => rfl) trivial
  | kill id => exact h.setKill id

omit h

theorem step_inTarget (budget p : ℕ) (f : Fleet) (e : Event) (h : f.InTarget p)
    (hok : e.Fixed p ∧ f.Spare e) : (f.step budget e).InTarget p := by
  obtain ⟨hfixed, hspare⟩ := hok
  cases e with
  | request r => exact h.request r hfixed
  | task i requested pick =>
    exact atTask_rule h fun t ht => h.runTask ht budget requested pick hspare
  | launchEnds k how => exact atStage_rule h fun v hv hl => h.launchEnds hv hl how
  | warmEnds k ready target =>
    exact atStage_rule h fun v hv hw => h.warmEnds hv hw ready (hfixed target rfl)
  | abort k => exact atStage_rule h fun v _ _ => h.modifyVm fun w _ => .setStage rfl w
  | superviseTurn k waitFails clientGone =>
    exact atStage_rule h fun v _ _ => h.superviseTurn k v waitFails clientGone
  | deregister k => exact atStage_rule h fun v _ _ => h.deregister k v
  | clearPool k => exact atStage_rule h fun v _ _ => h.clearPool k v
  | exits k => exact h.modifyVm fun w _ => ⟨rfl, rfl, fun hp => hp⟩

/-- **The pool keeps to its target if refills do not overlap too much.**  In every run with the pool
size fixed at `p`, in which a refill thread that finds the pool short would also find it short with
the workers being staged for it counted in, no template ever has more than `p` pooled workers. -/
theorem pool_within_target (budget p : ℕ) (l : List Event) (hfixed : ∀ e ∈ l, e.Fixed p)
    (hspare : Runs.Each (step budget) Spare start l) (template : ℕ) :
    (Runs.run (step budget) start l).warm template ≤ p := by
  have hinv : (Runs.run (step budget) start l).InTarget p :=
    Runs.invariant (I := InTarget p) (step_inTarget budget p) (start_inTarget p)
      (Runs.each_and.2 ⟨Runs.each_of_forall hfixed, hspare⟩)
  exact le_trans (Nat.le_add_right _ _) (hinv.filled_le template)

/-- A fork is served, and then its refill thread warms a worker and looks again. -/
def forkRun : List Event :=
  [.request (.fork 7 1), .task 0 100 0, .launchEnds 0 .spawned, .warmEnds 0 true 1, .task 0 0 0,
    .task 0 100 0, .launchEnds 1 .spawned, .warmEnds 1 true 1, .task 0 0 0, .task 0 0 0]

theorem pool_within_target_one :
    Runs.Each (step 1000) Spare start forkRun ∧
      (Runs.run (step 1000) start forkRun).warm 7 ≤ 1 := by
  have hspare : Runs.Each (step 1000) Spare start forkRun := by decide
  exact ⟨hspare, pool_within_target 1000 1 _ (by decide) hspare 7⟩

/-- Two forks of a template with an empty pool.  Both refill threads look before either has pushed
its worker. -/
def twoForks : List Event :=
  [.request (.fork 7 1), .request (.fork 7 1), .task 0 100 0, .task 0 100 0,
    .launchEnds 0 .spawned, .launchEnds 1 .spawned, .warmEnds 0 true 1, .warmEnds 1 true 1,
    .task 0 0 0, .task 1 0 0, .task 0 100 0, .task 0 100 0, .launchEnds 2 .spawned,
    .launchEnds 3 .spawned, .warmEnds 2 true 1, .warmEnds 3 true 1, .task 0 0 0, .task 1 0 0]

theorem pool_overfilled :
    (∀ e ∈ twoForks, e.Fixed 1) ∧ (Runs.run (step 1000) start twoForks).warm 7 = 2 := by decide

end Fleet
end Amber.Daemon
