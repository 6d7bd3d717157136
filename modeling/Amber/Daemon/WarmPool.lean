import Mathlib.Data.List.Count
import Mathlib.Data.List.Nodup
import Amber.Daemon.FleetBudget

/-!
# Does the warm pool hold dead ids?

A pooled worker is in three places: the registry, the pool and its supervisor's thread.  When it
dies its supervisor takes it out of the registry and then, under another lock, out of the pool.
A refill puts a worker in the pool after it is registered and supervised, so the supervisor may
have come and gone before the id is there to be cleaned out.

`Watched` is the fleet with the workers that forks have got so far.  A fork that has got a worker
releases it at once or not at all, so it counts as released from then on.

* `Vm.Follows` — what an event does to a worker, as far as the pool is concerned.
* `Inv.follow`, `Inv.rehandle` — what the invariant needs of the VMs and of those who hold ids.
* `pool_live` — if every refill pools its worker while it is still registered, then, whenever no
  supervisor is between its two clean-ups, every pooled id is registered, is there once, and has
  not been released.
* `pool_holds_dead` — a worker that dies before it is pooled stays in the pool.
-/

namespace Amber.Daemon

open List Option

/-! ## Workers the pool may hold -/

/-- The warm-up is over, well or not. -/
def Stage.past : Stage → Bool
  | .launching => false
  | .warming => false
  | _ => true

def Vm.Past (v : Vm) : Prop := v.stage.past = true

/-- A worker staged from the template. -/
structure Vm.Staged (template : ℕ) (v : Vm) : Prop where
  past : v.Past
  template_eq : v.template = template
  forked : v.launch.evicts = false
  watched : v.registered = true → v.stage = .supervised ∨ v.stage = .reaped

/-- In the registry, or about to be cleaned out of the pool. -/
def Vm.Listed (v : Vm) : Prop := v.registered = true ∨ v.stage = .unlisted

/-- What an event other than an admission does to one VM.  Those with an id in `S` stay listed. -/
structure Vm.Follows (S : ℕ → Prop) (v v' : Vm) : Prop where
  id_eq : v'.id = v.id
  past : v.Past → v'.Past
  staged : ∀ t, v.Staged t → v'.Staged t
  listed : ∀ t, S v.id → v.Staged t → v.Listed → v'.Listed

variable {S : ℕ → Prop} {v v' : Vm}

theorem Vm.Follows.refl (v : Vm) : v.Follows S v :=
  ⟨rfl, fun h => h, fun _ h => h, fun _ _ _ h => h⟩

/-- Of a worker that is still warming nothing is required. -/
theorem Vm.Follows.of_warming (hid : v'.id = v.id) (h : ¬ v.Past) : v.Follows S v' :=
  ⟨hid, fun hp => absurd hp h, fun _ hs => absurd hs.past h, fun _ _ hs => absurd hs.past h⟩

namespace Fleet

variable {f : Fleet}

/-- How many hold the id: the pool, and the threads that put it in or have taken it out. -/
def holders (f : Fleet) (id : ℕ) : ℕ :=
  f.pool.countP (fun p => p.2 = id) + f.tasks.countP (fun t => t.handle = some id)

theorem holders_pos_of_pool {t id : ℕ} (h : (t, id) ∈ f.pool) : 0 < f.holders id := by
  have : 0 < f.pool.countP (fun p => p.2 = id) := countP_pos_iff.2 ⟨_, h, by simp⟩
  unfold holders
  omega

theorem holders_startTask (t : Task) (id : ℕ) :
    (f.startTask t).holders id = f.holders id + if t.handle = some id then 1 else 0 := by
  simp only [startTask, holders, countP_append, countP_singleton, decide_eq_true_eq]
  omega

theorem holders_endTask_le (i id : ℕ) : (f.endTask i).holders id ≤ f.holders id :=
  Nat.add_le_add_left (List.Sublist.countP_le (eraseIdx_sublist f.tasks i)) _

/-- A thread goes on with `t'` in place of `t`. -/
theorem holders_setTask {i : ℕ} {t : Task} (ht : f.tasks[i]? = some t) (t' : Task) (id : ℕ) :
    (f.setTask i t').holders id + (if t.handle = some id then 1 else 0) =
      f.holders id + if t'.handle = some id then 1 else 0 := by
  have hset := countP_set_add ht t' fun t => t.handle = some id
  simp only [setTask, holders, decide_eq_true_eq] at hset ⊢
  omega

theorem holders_unpool {t id : ℕ} (h : (t, id) ∈ f.pool) (id' : ℕ) :
    (f.unpool t id).holders id' + (if id = id' then 1 else 0) = f.holders id' := by
  have hperm := (perm_cons_erase h).countP_eq (fun p => p.2 = id')
  rw [countP_cons] at hperm
  simp only [unpool, holders, decide_eq_true_eq] at hperm ⊢
  omega

/-- Dropping the entry of the VM at `k`, when ids are unique. -/
theorem release_vms {k : ℕ} (hids : (f.vms.map Vm.id).Nodup) (hv : f.vms[k]? = some v)
    (stage : Stage) : ((f.modifyVm k (setStage stage)).remove v.id).vms =
      f.vms.modify k fun v => { v with stage, registered := false } := by
  refine ext_getElem? fun j => ?_
  simp only [Fleet.remove, Fleet.modifyVm, getElem?_map, getElem?_modify]
  cases hj : f.vms[j]? with
  | none => rfl
  | some u =>
    by_cases hjk : k = j
    · subst hjk
      obtain rfl : v = u := some.inj (hv.symm.trans hj)
      simp [setStage]
    · have hne : u.id ≠ v.id := by
        intro hid
        have hlt : j < (f.vms.map Vm.id).length := by
          rw [length_map]
          exact (List.getElem?_eq_some_iff.1 hj).1
        have hsame : (f.vms.map Vm.id)[j]? = (f.vms.map Vm.id)[k]? := by
          rw [getElem?_map, getElem?_map, hj, hv, map_some, map_some, hid]
        exact hjk ((getElem?_inj hlt hids).1 hsame).symm
      simp [hjk, hne]

end Fleet

/-! ## The fleet and the forks -/

structure Watched where
  fleet : Fleet
  /-- The workers forks have got. -/
  released : List ℕ
  deriving DecidableEq

/-- The worker a fork gets: out of the pool, or staged for it. -/
def Fleet.forked (f : Fleet) : Fleet.Event → List ℕ
  | .request (.fork template _) => (f.pooled template).toList
  | .warmEnds k true _ =>
    match f.vms[k]? with
    | some v =>
      if v.stage = .warming ∧ (v.launch = .fork ∨ v.launch = .exec) then [v.id] else []
    | none => []
  | _ => []

namespace Watched

def start : Watched := ⟨Fleet.start, []⟩

def step (budget : ℕ) (w : Watched) (e : Fleet.Event) : Watched :=
  ⟨w.fleet.step budget e, w.released ++ w.fleet.forked e⟩

/-- Somebody past its warm-up has the id. -/
def Known (f : Fleet) (id : ℕ) : Prop := ∃ v ∈ f.vms, v.id = id ∧ v.Past

structure Inv (w : Watched) : Prop where
  ids : (w.fleet.vms.map Vm.id).Nodup
  id_le : ∀ v ∈ w.fleet.vms, v.id ≤ w.fleet.counter
  once : ∀ id, w.fleet.holders id ≤ 1
  known : ∀ id, 0 < w.fleet.holders id ∨ id ∈ w.released → Known w.fleet id
  apart : ∀ id ∈ w.released, w.fleet.holders id = 0
  staged : ∀ t id target, Task.pooling t id target ∈ w.fleet.tasks →
    ∃ v ∈ w.fleet.vms, v.id = id ∧ v.Staged t
  pooled : ∀ t id, (t, id) ∈ w.fleet.pool →
    ∃ v ∈ w.fleet.vms, v.id = id ∧ v.Staged t ∧ v.Listed

theorem start_inv : start.Inv where
  ids := nodup_nil
  id_le _ h := absurd h not_mem_nil
  once _ := Nat.zero_le _
  known _ h := h.elim (fun h => absurd h (lt_irrefl 0)) nofun
  apart _ h := absurd h not_mem_nil
  staged _ _ _ h := absurd h not_mem_nil
  pooled _ _ h := absurd h not_mem_nil

variable {f : Fleet} {released : List ℕ}

theorem exists_of_forall₂_left {α : Type} {R : α → α → Prop} {l l' : List α}
    (h : List.Forall₂ R l l') : ∀ a ∈ l, ∃ a' ∈ l', R a a' :=
  exists_of_forall₂ h.flip

/-- The VMs may change as long as pooled ones stay listed. -/
theorem Inv.follow (h : Inv ⟨f, released⟩) {vms : List Vm}
    (hf : List.Forall₂ (Vm.Follows S) f.vms vms) (hsafe : ∀ p ∈ f.pool, S p.2) :
    Inv ⟨{ f with vms }, released⟩ where
  ids := by
    rw [map_id_of_forall₂ (fun _ _ ha => ha.id_eq) hf]
    exact h.ids
  id_le v' hv' := by
    obtain ⟨v, hv, hfol⟩ := exists_of_forall₂ hf v' hv'
    rw [hfol.id_eq]
    exact h.id_le v hv
  once := h.once
  known id hid := by
    obtain ⟨v, hv, rfl, hpast⟩ := h.known id hid
    obtain ⟨v', hv', hfol⟩ := exists_of_forall₂_left hf v hv
    exact ⟨v', hv', hfol.id_eq, hfol.past hpast⟩
  apart := h.apart
  staged t id target ht := by
    obtain ⟨v, hv, rfl, hstaged⟩ := h.staged t id target ht
    obtain ⟨v', hv', hfol⟩ := exists_of_forall₂_left hf v hv
    exact ⟨v', hv', hfol.id_eq, hfol.staged t hstaged⟩
  pooled t id hp := by
    obtain ⟨v, hv, rfl, hstaged, hlisted⟩ := h.pooled t id hp
    obtain ⟨v', hv', hfol⟩ := exists_of_forall₂_left hf v hv
    exact ⟨v', hv', hfol.id_eq, hfol.staged t hstaged, hfol.listed t (hsafe _ hp) hstaged hlisted⟩

variable {k id t i budget template : ℕ} {task : Task} {launch : Launch}

variable (h : Inv ⟨f, released⟩)

include h

theorem Inv.modifyVm (hv : f.vms[k]? = some v)
    {g : Vm → Vm} (hg : v.Follows (fun _ => True) (g v)) : Inv ⟨f.modifyVm k g, released⟩ := by
  refine h.follow (S := fun _ => True) (forall₂_modify Vm.Follows.refl f.vms fun w hw => ?_)
    fun _ _ => trivial
  rwa [← some.inj (hv.symm.trans hw)]

/-- Pool and threads may change as long as no id gets more holders and what comes into the pool
is listed. -/
theorem Inv.rehandle (pool : List (ℕ × ℕ)) (tasks : List Task)
    (hle : ∀ id, ({ f with pool, tasks } : Fleet).holders id ≤ f.holders id)
    (htasks : ∀ t id target, Task.pooling t id target ∈ tasks →
      Task.pooling t id target ∈ f.tasks)
    (hpool : ∀ t id, (t, id) ∈ pool → (t, id) ∈ f.pool ∨
      ∃ v ∈ f.vms, v.id = id ∧ v.Staged t ∧ v.Listed) :
    Inv ⟨{ f with pool, tasks }, released⟩ where
  ids := h.ids
  id_le := h.id_le
  once id := (hle id).trans (h.once id)
  known id hid := h.known id (hid.imp_left fun hpos => hpos.trans_le (hle id))
  apart id hid := Nat.le_zero.1 ((hle id).trans_eq (h.apart id hid))
  staged t id target ht := h.staged t id target (htasks t id target ht)
  pooled t id hp := (hpool t id hp).elim (h.pooled t id) fun hv => hv

/-- A fork gets a worker nobody holds. -/
theorem Inv.release (hfree : f.holders id = 0)
    (hknown : Known f id) : Inv ⟨f, released ++ [id]⟩ where
  ids := h.ids
  id_le := h.id_le
  once := h.once
  known id' hid := by
    rcases hid with hpos | hmem
    · exact h.known id' (.inl hpos)
    · rcases mem_append.1 hmem with hmem | hmem
      · exact h.known id' (.inr hmem)
      · rw [mem_singleton.1 hmem]
        exact hknown
  apart := forall_mem_append.2 ⟨h.apart, forall_mem_singleton.2 hfree⟩
  staged := h.staged
  pooled := h.pooled

/-- A refill has a warm worker for the pool. -/
theorem Inv.startPooling (target : ℕ)
    (hfree : f.holders id = 0) (hnew : id ∉ released)
    (hv : ∃ v ∈ f.vms, v.id = id ∧ v.Staged t) :
    Inv ⟨f.startTask (.pooling t id target), released⟩ where
  ids := h.ids
  id_le := h.id_le
  once id' := by
    rw [Fleet.holders_startTask]
    split_ifs with hid
    · cases hid
      omega
    · exact h.once id'
  known id' hid := by
    rw [Fleet.holders_startTask] at hid
    by_cases heq : id = id'
    · obtain ⟨v, hmem, hvid, hstaged⟩ := hv
      exact ⟨v, hmem, hvid.trans heq, hstaged.past⟩
    · have hother : (Task.pooling t id target).handle ≠ some id' := fun hh => heq (some.inj hh)
      rw [if_neg hother] at hid
      exact h.known id' hid
  apart id' hid := by
    have hother : (Task.pooling t id target).handle ≠ some id' :=
      fun hh => hnew (some.inj hh ▸ hid)
    rw [Fleet.holders_startTask, if_neg hother]
    exact h.apart id' hid
  staged t' id' target' ht := by
    rcases mem_append.1 ht with hmem | hmem
    · exact h.staged t' id' target' hmem
    · cases mem_singleton.1 hmem
      exact hv
  pooled := h.pooled

/-! ## Threads without a worker in hand -/

omit h in
theorem not_pooling (h : task.handle = none) (t id target : ℕ) :
    task ≠ .pooling t id target := by
  rintro rfl
  cases h

theorem Inv.startFree (ht : task.handle = none) :
    Inv ⟨f.startTask task, released⟩ := by
  refine h.rehandle f.pool (f.tasks ++ [task]) (fun id => ?_) (fun t id target hmem => ?_)
    fun t id hp => .inl hp
  · have := Fleet.holders_startTask (f := f) task id
    rw [ht, if_neg (by simp)] at this
    exact this.le
  · rcases mem_append.1 hmem with hmem | hmem
    · exact hmem
    · exact absurd (mem_singleton.1 hmem).symm (not_pooling ht t id target)

theorem Inv.setFree {old : Task} (hold : f.tasks[i]? = some old)
    (ht : task.handle = none) : Inv ⟨f.setTask i task, released⟩ := by
  refine h.rehandle f.pool (f.tasks.set i task) (fun id => ?_) (fun t id target hmem => ?_)
    fun t id hp => .inl hp
  · have hset := Fleet.holders_setTask hold task id
    rw [ht, if_neg (by simp : ¬ none = some id)] at hset
    show (f.setTask i task).holders id ≤ f.holders id
    omega
  · rcases mem_or_eq_of_mem_set hmem with hmem | heq
    · exact hmem
    · exact absurd heq.symm (not_pooling ht t id target)

theorem Inv.endTask (i : ℕ) : Inv ⟨f.endTask i, released⟩ :=
  h.rehandle f.pool (f.tasks.eraseIdx i) (Fleet.holders_endTask_le i)
    (fun _ _ _ hmem => mem_of_mem_eraseIdx hmem) fun _ _ hp => .inl hp

/-! ## Admission, eviction and pooling -/

theorem Inv.setCounter {n : ℕ} (hn : f.counter ≤ n) :
    Inv ⟨{ f with counter := n }, released⟩ where
  ids := h.ids
  id_le v hv := (h.id_le v hv).trans hn
  once := h.once
  known := h.known
  apart := h.apart
  staged := h.staged
  pooled := h.pooled

theorem Inv.append (hid : v.id = f.counter + 1) :
    Inv ⟨{ f with vms := f.vms ++ [v], counter := v.id }, released⟩ where
  ids := by
    refine Fleet.nodup_ids_append h.ids fun w hw => ?_
    have hle : w.id ≤ f.counter := h.id_le w hw
    omega
  id_le w hw := by
    show w.id ≤ v.id
    rcases mem_append.1 hw with hw | hw
    · have : w.id ≤ f.counter := h.id_le w hw
      omega
    · rw [mem_singleton.1 hw]
  once := h.once
  known id hid := by
    obtain ⟨w, hw, hw'⟩ := h.known id hid
    exact ⟨w, mem_append_left _ hw, hw'⟩
  apart := h.apart
  staged t id target ht := by
    obtain ⟨w, hw, hw'⟩ := h.staged t id target ht
    exact ⟨w, mem_append_left _ hw, hw'⟩
  pooled t id hp := by
    obtain ⟨w, hw, hw'⟩ := h.pooled t id hp
    exact ⟨w, mem_append_left _ hw, hw'⟩

omit h

theorem setKill_follows (id : ℕ) :
    List.Forall₂ (Vm.Follows fun _ => True) f.vms (f.setKill id).vms := by
  rw [Fleet.setKill, forall₂_map_right_iff, forall₂_same]
  intro v _
  split_ifs
  · exact ⟨rfl, fun h => h, fun _ h => ⟨h.past, h.template_eq, h.forked, h.watched⟩,
      fun _ _ _ h => h⟩
  · exact .refl v

theorem remove_follows (id : ℕ) :
    List.Forall₂ (Vm.Follows (· ≠ id)) f.vms (f.remove id).vms := by
  rw [Fleet.remove, forall₂_map_right_iff, forall₂_same]
  intro v _
  split_ifs with hid
  · exact ⟨rfl, fun h => h, fun _ h => ⟨h.past, h.template_eq, h.forked, fun hreg => by cases hreg⟩,
      fun _ hsafe => absurd hid hsafe⟩
  · exact .refl v

variable (h : Inv ⟨f, released⟩)

include h

/-- The new id is nobody's, so the insert replaces nothing. -/
theorem Inv.insert (hid : f.counter + 1 < 2 ^ 64) (launch : Launch)
    (template requested : ℕ) : Inv ⟨f.insert launch template requested, released⟩ := by
  have hnext : f.nextId = f.counter + 1 := Nat.mod_eq_of_lt hid
  have hpool : ∀ p ∈ f.pool, p.2 ≠ f.nextId := by
    rintro ⟨t, id⟩ hp hnew
    obtain ⟨v, hv, hvid, -⟩ := h.pooled t id hp
    have := h.id_le v hv
    simp only at hnew this
    omega
  exact Inv.append (f := f.remove f.nextId) (h.follow (remove_follows _) hpool) hnext

theorem Inv.runAdmit {requested : ℕ}
    (ht : f.tasks[i]? = some (.admission launch template))
    (hid : f.admits budget requested = true → f.counter + 1 < 2 ^ 64) :
    Inv ⟨f.runAdmit budget i requested launch template, released⟩ := by
  refine Fleet.runAdmit_rule (P := fun f => Inv ⟨f, released⟩) (fun hfits => ?_)
    (h.setFree ht rfl) (h.endTask i)
  exact (h.insert (hid hfits) launch template requested).endTask i

theorem Inv.runRefused (pick : ℕ)
    (ht : f.tasks[i]? = some (.refused launch template)) :
    Inv ⟨f.runRefused i pick launch template, released⟩ := by
  refine Fleet.runRefused_rule (P := fun f => Inv ⟨f, released⟩) h (h.endTask i)
    fun victim hp => ?_
  -- out of the pool and into the hands of this thread
  refine h.rehandle (f.pool.erase (pick, victim))
    (f.tasks.set i (.evicting launch template victim)) (fun id => ?_) (fun t id target hmem => ?_)
    fun t id hmem => .inl (mem_of_mem_erase hmem)
  · have hset := Fleet.holders_setTask (f := f.unpool pick victim) ht
      (.evicting launch template victim) id
    have hout := Fleet.holders_unpool (Fleet.mem_pool_of_pooled hp) id
    simp only [Task.handle, some.injEq, reduceCtorEq, if_false] at hset
    show ((f.unpool pick victim).setTask i (.evicting launch template victim)).holders id ≤ _
    omega
  · rcases mem_or_eq_of_mem_set hmem with hmem | heq
    · exact hmem
    · cases heq

/-- An id in a thread's hands is not in the pool. -/
theorem Inv.not_pooled_of_task (hmem : task ∈ f.tasks)
    (ht : task.handle = some id) : ∀ p ∈ f.pool, p.2 ≠ id := by
  intro p hp hid
  have hpool : 0 < f.pool.countP (fun p => p.2 = id) := countP_pos_iff.2 ⟨p, hp, by simp [hid]⟩
  have htask : 0 < f.tasks.countP (fun t => t.handle = some id) :=
    countP_pos_iff.2 ⟨task, hmem, by simp [ht]⟩
  have honce : f.holders id ≤ 1 := h.once id
  unfold Fleet.holders at honce
  omega

theorem Inv.evict {victim : ℕ}
    (ht : f.tasks[i]? = some (.evicting launch template victim)) :
    Inv ⟨f.evict victim, released⟩ := by
  have hout := h.not_pooled_of_task (mem_of_getElem? ht) rfl
  have hkill : Inv ⟨f.setKill victim, released⟩ :=
    h.follow (setKill_follows victim) fun _ _ => trivial
  exact hkill.follow (remove_follows victim) hout

theorem Inv.eq_of_id (hv : v ∈ f.vms) (hv' : v' ∈ f.vms)
    (hid : v.id = v'.id) : v = v' := inj_on_of_nodup_map h.ids hv hv' hid

/-- A refill pushes a worker that is still in the registry. -/
theorem Inv.push {target : ℕ}
    (ht : f.tasks[i]? = some (.pooling t id target))
    (hreg : ∃ v ∈ f.vms, v.id = id ∧ v.registered = true) :
    Inv ⟨({ f with pool := f.pool ++ [(t, id)] } : Fleet).setTask i (.refill t target),
      released⟩ := by
  refine h.rehandle (f.pool ++ [(t, id)]) (f.tasks.set i (.refill t target)) (fun id' => ?_)
    (fun t' id' target' hmem => ?_) fun t' id' hmem => ?_
  · have hset := Fleet.holders_setTask (f := { f with pool := f.pool ++ [(t, id)] }) ht
      (.refill t target) id'
    have hpush : ({ f with pool := f.pool ++ [(t, id)] } : Fleet).holders id' =
        f.holders id' + if id = id' then 1 else 0 := by
      simp only [Fleet.holders, countP_append, countP_singleton, decide_eq_true_eq]
      omega
    simp only [Task.handle, some.injEq, reduceCtorEq, if_false] at hset
    show (({ f with pool := f.pool ++ [(t, id)] } : Fleet).setTask i (.refill t target)).holders
      id' ≤ _
    omega
  · rcases mem_or_eq_of_mem_set hmem with hmem | heq
    · exact hmem
    · cases heq
  · rcases mem_append.1 hmem with hmem | hmem
    · exact .inl hmem
    · cases mem_singleton.1 hmem
      obtain ⟨v, hv, hvid, hstaged⟩ := h.staged t id target (mem_of_getElem? ht)
      obtain ⟨v', hv', hvid', hreg⟩ := hreg
      obtain rfl := h.eq_of_id hv hv' (hvid.trans hvid'.symm)
      exact .inr ⟨v, hv, hvid, hstaged, .inl hreg⟩

/-! ## Launching, warming, supervising -/

theorem Inv.releaseEntry (hv : f.vms[k]? = some v)
    {stage : Stage}
    (hfol : v.Follows (fun _ => True) { v with stage, registered := false }) :
    Inv ⟨(f.modifyVm k (Fleet.setStage stage)).remove v.id, released⟩ := by
  have hvms := Fleet.release_vms h.ids hv stage
  have hmod : Inv ⟨f.modifyVm k fun v => { v with stage, registered := false }, released⟩ :=
    h.modifyVm hv hfol
  have heq : (f.modifyVm k (Fleet.setStage stage)).remove v.id =
      f.modifyVm k fun v => { v with stage, registered := false } := by
    exact congrArg (fun vms => ({ f with vms } : Fleet)) hvms
  rw [heq]
  exact hmod

theorem Inv.launchEnds (hv : f.vms[k]? = some v)
    (hl : v.stage = .launching) (how : Fleet.LaunchEnd) :
    Inv ⟨f.launchEnds k v how, released⟩ := by
  have hnot : ¬ v.Past := by simp [Vm.Past, Stage.past, hl]
  cases how with
  | spawned | leaked => exact h.modifyVm hv (.of_warming rfl hnot)
  | failed => exact h.releaseEntry hv (.of_warming rfl hnot)
  | abandoned =>
    show Inv ⟨if v.launch = .oneShot then _ else f, released⟩
    split_ifs
    · exact h.modifyVm hv (.of_warming rfl hnot)
    · exact h

/-- Nobody holds a worker that is still warming. -/
theorem Inv.free_of_warming (hv : v ∈ f.vms) (hnot : ¬ v.Past) :
    f.holders v.id = 0 ∧ v.id ∉ released := by
  have hunknown : ¬ Known f v.id := by
    rintro ⟨w, hw, hid, hpast⟩
    rw [h.eq_of_id hw hv hid] at hpast
    exact hnot hpast
  refine ⟨Nat.eq_zero_of_not_pos fun hpos => hunknown (h.known _ (.inl hpos)), fun hrel => ?_⟩
  exact hunknown (h.known _ (.inr hrel))

variable (hv : f.vms[k]? = some v)

include hv

theorem Inv.warmEnds (hw : v.stage = .warming) (ready : Bool) (target : ℕ) :
    Inv ⟨f.warmEnds k v ready target, released ++ f.forked (.warmEnds k ready target)⟩ := by
  have hnot : ¬ v.Past := by simp [Vm.Past, Stage.past, hw]
  obtain ⟨hfree, hnew⟩ := h.free_of_warming (mem_of_getElem? hv) hnot
  cases ready with
  | false =>
    have hnone : f.forked (.warmEnds k false target) = [] := rfl
    rw [hnone, append_nil]
    exact h.releaseEntry hv (.of_warming rfl hnot)
  | true =>
    have hup : Inv ⟨f.modifyVm k (Fleet.setStage .supervised), released⟩ :=
      h.modifyVm hv (.of_warming rfl hnot)
    have hmem : Fleet.setStage .supervised v ∈ (f.modifyVm k (Fleet.setStage .supervised)).vms := by
      refine mem_of_getElem? (i := k) ?_
      rw [Fleet.modifyVm, getElem?_modify_eq, hv]
      rfl
    have hknown : Known (f.modifyVm k (Fleet.setStage .supervised)) v.id :=
      ⟨_, hmem, rfl, rfl⟩
    have hforked : f.forked (.warmEnds k true target) =
        if v.launch = .fork ∨ v.launch = .exec then [v.id] else [] := by
      simp [Fleet.forked, hv, hw]
    rw [hforked, Fleet.warmEnds, if_pos rfl, Fleet.afterWarm]
    cases hlaunch : v.launch with
    | fork =>
      exact (hup.release hfree hknown).startFree rfl
    | exec =>
      exact hup.release hfree hknown
    | refill target' =>
      rw [if_neg (by simp), append_nil]
      refine hup.startPooling target' hfree hnew ⟨_, hmem, rfl, rfl, rfl, ?_, fun _ => .inl rfl⟩
      show v.launch.evicts = false
      rw [hlaunch]
      rfl
    | oneShot | detached =>
      rw [if_neg (by simp), append_nil]
      exact hup

/-- A worker the supervisor watches may only be listed as long as it is in the registry. -/
theorem Inv.superviseTurn (hs : v.stage = .supervised) (waitFails clientGone : Bool) :
    Inv ⟨f.superviseTurn k v waitFails clientGone, released⟩ := by
  have hreap : ∀ alive, v.Follows (fun _ => True) { v with alive, stage := .reaped } := by
    intro alive
    refine ⟨rfl, fun _ => rfl, fun t hst => ?_, fun t _ _ hlisted => ?_⟩
    · exact ⟨rfl, hst.template_eq, hst.forked, fun _ => .inr rfl⟩
    · refine .inl (hlisted.resolve_right fun hun => ?_)
      rw [hs] at hun
      cases hun
  exact Fleet.superviseTurn_rule (P := fun f => Inv ⟨f, released⟩) h
    (h.modifyVm hv (hreap v.alive)) (h.modifyVm hv (hreap false))

theorem Inv.deregister :
    Inv ⟨f.deregister k v, released⟩ := by
  refine h.releaseEntry hv ⟨rfl, fun _ => ?_, fun t hst => ?_, fun t _ hst _ => ?_⟩
  · split_ifs <;> rfl
  · refine ⟨?_, hst.template_eq, hst.forked, nofun⟩
    split_ifs <;> rfl
  · -- only the supervisor of a forked worker has the pool to clean
    exact .inr (if_neg (by rw [hst.forked]; decide))

theorem Inv.clearPool (hs : v.stage = .unlisted) : Inv ⟨f.clearPool k v, released⟩ := by
  set pool := f.pool.filter fun p => p ≠ (v.template, v.id)
  have hclean : Inv ⟨{ f with pool }, released⟩ := by
    refine h.rehandle pool f.tasks (fun id => ?_) (fun _ _ _ ht => ht)
      fun t id hp => .inl (mem_of_mem_filter hp)
    exact Nat.add_le_add_right (List.Sublist.countP_le filter_sublist) _
  have hout : ∀ p ∈ pool, p.2 ≠ v.id := by
    rintro ⟨t, id⟩ hp rfl
    obtain ⟨hmem, hne⟩ := mem_filter.1 hp
    obtain ⟨w, hw, hid, hstaged, -⟩ := h.pooled t v.id hmem
    rw [h.eq_of_id hw (mem_of_getElem? hv) hid] at hstaged
    exact of_decide_eq_true hne (by rw [hstaged.template_eq])
  refine hclean.follow (S := (· ≠ v.id)) (forall₂_modify Vm.Follows.refl f.vms fun w hw => ?_) hout
  obtain rfl : v = w := some.inj (hv.symm.trans hw)
  refine ⟨rfl, fun _ => rfl, fun t hst => ?_, fun t hsafe => absurd rfl hsafe⟩
  refine ⟨rfl, hst.template_eq, hst.forked, fun hreg => ?_⟩
  rcases hst.watched hreg with hsup | hreap
  · rw [hs] at hsup
    cases hsup
  · rw [hs] at hreap
    cases hreap

omit hv

omit h

/-! ## Runs -/

/-- A refill pools its worker only while it is in the registry, and the id counter does not wrap
around. -/
def Timely (budget : ℕ) (f : Fleet) (requested : ℕ) : Task → Prop
  | .pooling _ id _ => ∃ v ∈ f.vms, v.id = id ∧ v.registered = true
  | .admission _ _ => f.admits budget requested = true → f.counter + 1 < 2 ^ 64
  | _ => True

instance (budget : ℕ) (f : Fleet) (requested : ℕ) : ∀ t, Decidable (Timely budget f requested t)
  | .pooling _ id _ => inferInstanceAs (Decidable (∃ v ∈ f.vms, v.id = id ∧ v.registered = true))
  | .admission _ _ =>
    inferInstanceAs (Decidable (f.admits budget requested = true → f.counter + 1 < 2 ^ 64))
  | .refused _ _ | .evicting _ _ _ | .refill _ _ => .isTrue trivial

def Prompt (budget : ℕ) (w : Watched) : Fleet.Event → Prop
  | .task i requested _ => ∀ t ∈ w.fleet.tasks[i]?, Timely budget w.fleet requested t
  | .request (.exec _) => w.fleet.counter + 1 < 2 ^ 64
  | _ => True

instance (budget : ℕ) (w : Watched) : ∀ e, Decidable (w.Prompt budget e)
  | .task i requested _ =>
    inferInstanceAs (Decidable (∀ t ∈ w.fleet.tasks[i]?, Timely budget w.fleet requested t))
  | .request (.exec _) => inferInstanceAs (Decidable (w.fleet.counter + 1 < 2 ^ 64))
  | .request (.runOneShot _) | .request (.runDetached _) | .request (.fork _ _)
  | .request (.kill _) | .launchEnds _ _ | .warmEnds _ _ _ | .abort _ | .superviseTurn _ _ _
  | .deregister _ | .clearPool _ | .exits _ => .isTrue trivial

variable (h : Inv ⟨f, released⟩)

include h

theorem Inv.runTask {requested pick : ℕ} {t : Task} (ht : f.tasks[i]? = some t)
    (hs : Timely budget f requested t) :
    Inv ⟨f.runTask budget i requested pick t, released⟩ := by
  cases t with
  | admission launch template => exact h.runAdmit ht hs
  | refused launch template => exact h.runRefused pick ht
  | evicting launch template victim => exact (h.evict ht).setFree ht rfl
  | pooling template id target => exact h.push ht hs
  | refill template target =>
    show Inv ⟨if _ then _ else _, released⟩
    split_ifs
    · exact h.setFree ht rfl
    · exact h.endTask i

theorem Inv.requestFork (template target : ℕ) :
    Inv ⟨f.requestFork template target, released ++ (f.pooled template).toList⟩ := by
  unfold Fleet.requestFork
  cases hp : f.pooled template with
  | none =>
    rw [toList_none, append_nil]
    exact h.startFree rfl
  | some id =>
    have hmem := Fleet.mem_pool_of_pooled hp
    have hout := Fleet.holders_unpool hmem
    have hpop : Inv ⟨f.unpool template id, released⟩ := by
      refine h.rehandle (f.pool.erase (template, id)) f.tasks (fun id' => ?_) (fun _ _ _ ht => ht)
        fun t id' hp' => .inl (mem_of_mem_erase hp')
      have := hout id'
      show (f.unpool template id).holders id' ≤ _
      omega
    have hfree : (f.unpool template id).holders id = 0 := by
      have hself := hout id
      have honce : f.holders id ≤ 1 := h.once id
      rw [if_pos rfl] at hself
      omega
    have hknown : Known f id := h.known id (.inl (Fleet.holders_pos_of_pool hmem))
    exact (hpop.release hfree hknown).startFree rfl

theorem Inv.atStage {stage : Stage} {g : Vm → Fleet}
    (hg : ∀ v, f.vms[k]? = some v → v.stage = stage → Inv ⟨g v, released⟩) :
    Inv ⟨f.atStage k stage g, released⟩ :=
  Fleet.atStage_rule (P := fun f => Inv ⟨f, released⟩) h hg

/-- A VM that changes nothing the pool depends on. -/
theorem Inv.touch {g : Vm → Vm} (hg : ∀ v : Vm, v.Follows (fun _ => True) (g v)) :
    Inv ⟨f.modifyVm k g, released⟩ :=
  h.follow (S := fun _ => True) (forall₂_modify Vm.Follows.refl f.vms fun v _ => hg v)
    fun _ _ => trivial

omit h

/-- A step that gives no fork a worker. -/
theorem Inv.quiet {w : Watched} {e : Fleet.Event} (hnone : w.fleet.forked e = [])
    (h : Inv ⟨w.fleet.step budget e, w.released⟩) : (w.step budget e).Inv := by
  rw [step, hnone, append_nil]
  exact h

theorem step_inv (budget : ℕ) (w : Watched) (e : Fleet.Event) (h : w.Inv)
    (hs : w.Prompt budget e) : (w.step budget e).Inv := by
  cases e with
  | request r =>
    cases r with
    | runOneShot reference | runDetached reference => exact .quiet rfl (h.startFree rfl)
    | fork template target => exact h.requestFork template target
    | exec template =>
      have hnext : w.fleet.nextId = w.fleet.counter + 1 := Nat.mod_eq_of_lt hs
      have hdraw := h.setCounter (by omega : w.fleet.counter ≤ w.fleet.nextId)
      exact .quiet rfl (hdraw.startFree rfl)
    | kill id => exact .quiet rfl (h.follow (setKill_follows id) fun _ _ => trivial)
  | task i requested pick =>
    refine .quiet rfl ?_
    exact Fleet.atTask_rule (P := fun f => Inv ⟨f, w.released⟩) h fun t ht => h.runTask ht (hs t ht)
  | launchEnds k how => exact .quiet rfl (h.atStage fun v hv hl => h.launchEnds hv hl how)
  | warmEnds k ready target =>
    show Inv ⟨w.fleet.atStage k .warming _, _⟩
    unfold Fleet.atStage
    cases hv : w.fleet.vms[k]? with
    | none =>
      have hnone : w.fleet.forked (.warmEnds k ready target) = [] := by
        cases ready <;> simp [Fleet.forked, hv]
      rw [hnone, append_nil]
      exact h
    | some v =>
      dsimp only
      split_ifs with hstage
      · exact h.warmEnds hv hstage ready target
      · have hnone : w.fleet.forked (.warmEnds k ready target) = [] := by
          cases ready <;> simp [Fleet.forked, hv, hstage]
        rw [hnone, append_nil]
        exact h
  | abort k =>
    refine .quiet rfl (h.atStage fun v hv hs => h.modifyVm hv ?_)
    refine ⟨rfl, fun _ => rfl, fun t hst => ⟨rfl, hst.template_eq, hst.forked, fun hreg => ?_⟩,
      fun t _ hst hlisted => ?_⟩
    · rcases hst.watched hreg with hsup | hreap
      · rw [hs] at hsup
        cases hsup
      · rw [hs] at hreap
        cases hreap
    · refine .inl (hlisted.resolve_right fun hun => ?_)
      rw [hs] at hun
      cases hun
  | superviseTurn k waitFails clientGone =>
    exact .quiet rfl (h.atStage fun v hv hs => h.superviseTurn hv hs waitFails clientGone)
  | deregister k => exact .quiet rfl (h.atStage fun v hv _ => h.deregister hv)
  | clearPool k => exact .quiet rfl (h.atStage fun v hv hs => h.clearPool hv hs)
  | exits k =>
    exact .quiet rfl (h.touch fun v => ⟨rfl, fun hp => hp,
      fun t hst => ⟨hst.past, hst.template_eq, hst.forked, hst.watched⟩, fun _ _ _ hl => hl⟩)

/-- No supervisor is between its two clean-ups. -/
def Settled (w : Watched) : Prop := ∀ v ∈ w.fleet.vms, v.stage ≠ .unlisted

/-- The pooled id is registered, is in the pool once, and no fork has got it. -/
structure Fresh (w : Watched) (id : ℕ) : Prop where
  registered : ∃ v ∈ w.fleet.vms, v.id = id ∧ v.registered = true
  once : (w.fleet.pool.map Prod.snd).count id = 1
  unreleased : id ∉ w.released

theorem Inv.fresh {w : Watched} (h : w.Inv) (hset : w.Settled)
    (hp : (t, id) ∈ w.fleet.pool) : w.Fresh id := by
  obtain ⟨v, hv, hid, -, hlisted⟩ := h.pooled t id hp
  have hpos := Fleet.holders_pos_of_pool hp
  refine ⟨⟨v, hv, hid, hlisted.resolve_right (hset v hv)⟩, ?_, fun hrel => ?_⟩
  · have hmem : 0 < (w.fleet.pool.map Prod.snd).count id :=
      count_pos_iff.2 (mem_map.2 ⟨_, hp, rfl⟩)
    have hle : (w.fleet.pool.map Prod.snd).count id ≤ w.fleet.holders id := by
      rw [count, countP_map]
      refine (le_of_eq (countP_congr fun p _ => ?_)).trans (Nat.le_add_right _ _)
      simp
    have := h.once id
    omega
  · have := h.apart id hrel
    omega

/-- **Every pooled id is alive, alone and unreleased.**  In every run in which a refill pools its
worker only while that is in the registry, and no id wraps around, whenever no supervisor is between
its two clean-ups. -/
theorem pool_live (budget : ℕ) (l : List Fleet.Event)
    (hl : Runs.Each (step budget) (Prompt budget) start l)
    (hset : (Runs.run (step budget) start l).Settled) :
    ∀ p ∈ (Runs.run (step budget) start l).fleet.pool,
      (Runs.run (step budget) start l).Fresh p.2 := by
  have hinv : (Runs.run (step budget) start l).Inv :=
    Runs.invariant (I := Inv) (step_inv budget) start_inv hl
  exact fun p hp => hinv.fresh hset hp

/-- A worker is forked, and a second one staged for the pool. -/
def stagedRun : List Fleet.Event :=
  [.request (.fork 7 1), .task 0 100 0, .launchEnds 0 .spawned, .warmEnds 0 true 1, .task 0 0 0,
    .task 0 100 0, .launchEnds 1 .spawned, .warmEnds 1 true 1]

/-- Pooled at once, it is there. -/
theorem pool_live_stagedRun :
    let s := Runs.run (step 1000) start (stagedRun ++ [.task 0 0 0])
    s.fleet.pool = [(7, 2)] ∧ s.Fresh 2 := by
  refine ⟨by decide +kernel, pool_live 1000 (stagedRun ++ [.task 0 0 0]) (by decide +kernel) ?_
    (7, 2) ?_⟩
  · unfold Settled
    decide +kernel
  · exact mem_singleton_self _

/-- The worker dies and its supervisor has cleaned up before the refill puts it in the pool. -/
def lateRun : List Fleet.Event :=
  stagedRun ++ [.exits 1, .superviseTurn 1 false false, .deregister 1, .clearPool 1, .task 0 0 0]

/-- **The pool holds a dead id.**  Nobody is left to take it out. -/
theorem pool_holds_dead :
    let s := Runs.run (step 1000) start lateRun
    s.Settled ∧ s.fleet.pool = [(7, 2)] ∧
      s.fleet.vms.map (fun v => (v.id, v.registered)) = [(1, true), (2, false)] := by
  unfold Settled
  decide +kernel

end Watched
end Amber.Daemon
