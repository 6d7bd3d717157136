import Mathlib.Algebra.Order.BigOperators.Group.List
import Amber.Lib.Runs
import Amber.Daemon.Fleet

/-!
# Is the fleet budget a ceiling?

The check and the insert of `reserve` happen under one lock, so two admissions cannot both pass
on the same room.  What the check reads is the registry, though, and the registry is not the
machine: a pooled worker is dropped from it when it is evicted and dies only when its
supervisor next looks, a worker that fails to warm is dropped before it is killed, and a
supervisor whose `try_wait` fails drops a worker it has not stopped.  And the check adds 64-bit
numbers.

* `Vm.Ages` — what every event but an admission does to the VMs there are: none commits more
  than it did (`Inv.age`).
* `budget_holds` — if no admission passes while a worker that has left the registry is alive,
  or by a sum that does not fit in 64 bits, then what is committed never exceeds the budget.
* `budget_exceeded` — an eviction followed at once by the admission it made room for, and an
  admission whose sum wraps.
-/

namespace Amber.Daemon

open List Option

/-! ## How VMs age -/

/-- What an event other than an admission does to one VM. -/
structure Vm.Ages (v v' : Vm) : Prop where
  id_eq : v'.id = v.id
  committed_le : v'.committed ≤ v.committed
  launching : v'.stage = .launching →
    v.stage = .launching ∧ (v.registered = true → v'.registered = true)

theorem Vm.Ages.refl (v : Vm) : v.Ages v := ⟨rfl, le_refl _, fun h => ⟨h, fun hr => hr⟩⟩

theorem Vm.Ages.setStage {stage : Stage} (h : stage ≠ .launching) (v : Vm) :
    v.Ages (Fleet.setStage stage v) := ⟨rfl, le_refl _, fun hl => absurd hl h⟩

variable {α : Type} {R : α → α → Prop}

theorem forall₂_modify (hrefl : ∀ a, R a a) {g : α → α} (l : List α) :
    ∀ {k : ℕ}, (∀ a, l[k]? = some a → R a (g a)) →
      List.Forall₂ R l (l.modify k g) := by
  induction l with
  | nil =>
    intro k _
    cases k <;> exact .nil
  | cons a l ih =>
    intro k hg
    cases k with
    | zero => exact .cons (hg a rfl) (forall₂_same.2 fun b _ => hrefl b)
    | succ k => exact .cons (hrefl a) (ih fun b hb => hg b hb)

variable {l : List α}

theorem exists_of_forall₂ {l' : List α} (h : List.Forall₂ R l l') : ∀ a' ∈ l', ∃ a ∈ l, R a a' := by
  induction h with
  | nil => exact nofun
  | cons hab _ ih =>
    intro a' ha
    rcases mem_cons.1 ha with rfl | ha
    · exact ⟨_, mem_cons_self, hab⟩
    · obtain ⟨a, hmem, hr⟩ := ih a' ha
      exact ⟨a, mem_cons_of_mem _ hmem, hr⟩

theorem map_id_of_forall₂ {R : Vm → Vm → Prop} (hR : ∀ v v', R v v' → v'.id = v.id)
    {l l' : List Vm} (h : List.Forall₂ R l l') : l'.map Vm.id = l.map Vm.id := by
  induction h with
  | nil => rfl
  | cons hab _ ih => rw [map_cons, map_cons, hR _ _ hab, ih]

theorem committed_le_of_ages {l l' : List Vm} (h : List.Forall₂ Vm.Ages l l') :
    (l'.map Vm.committed).sum ≤ (l.map Vm.committed).sum := by
  induction h with
  | nil => exact le_refl _
  | cons hab _ ih =>
    exact Nat.add_le_add hab.committed_le ih

theorem countP_set_add {i : ℕ} {a : α} (h : l[i]? = some a) (b : α) (q : α → Bool) :
    (l.set i b).countP q + (if q a then 1 else 0) =
      l.countP q + if q b then 1 else 0 := by
  obtain ⟨hi, rfl⟩ := List.getElem?_eq_some_iff.1 h
  have hpos : q l[i] = true → 0 < l.countP q :=
    fun hq => countP_pos_iff.2 ⟨_, getElem_mem hi, hq⟩
  rw [countP_set hi]
  split_ifs with hq
  · have hone := hpos hq
    omega
  · have hone := hpos hq
    omega
  · omega
  · omega

theorem countP_modify_add {k : ℕ} {a : α} (h : l[k]? = some a) (g : α → α) (q : α → Bool) :
    (l.modify k g).countP q + (if q a then 1 else 0) =
      l.countP q + if q (g a) then 1 else 0 := by
  obtain ⟨hk, rfl⟩ := List.getElem?_eq_some_iff.1 h
  rw [modify_eq_set_get g hk]
  exact countP_set_add h (g l[k]) q

theorem countP_eraseIdx_add {i : ℕ} {a : α} (h : l[i]? = some a) (q : α → Bool) :
    (l.eraseIdx i).countP q + (if q a then 1 else 0) = l.countP q := by
  obtain ⟨hi, rfl⟩ := List.getElem?_eq_some_iff.1 h
  rw [← (getElem_cons_eraseIdx_perm hi).countP_eq q, countP_cons]

/-! ## The invariant -/

/-- The worker a thread has in hand. -/
def Task.handle : Task → Option ℕ
  | .evicting _ _ victim => some victim
  | .pooling _ id _ => some id
  | _ => none

namespace Fleet

/-- `id` is in the pool, or in the hands of a thread that took it out or is putting it in. -/
def Handle (f : Fleet) (id : ℕ) : Prop :=
  (∃ t, (t, id) ∈ f.pool) ∨ ∃ task ∈ f.tasks, task.handle = some id

structure Inv (budget : ℕ) (f : Fleet) : Prop where
  committed_le : f.committed ≤ budget
  ids : (f.vms.map Vm.id).Nodup
  id_le : ∀ v ∈ f.vms, v.id ≤ f.counter
  launching : ∀ v ∈ f.vms, v.stage = .launching → v.registered = true
  /-- Nobody can evict or pool a VM that is still being launched. -/
  handles : ∀ id, f.Handle id → id ≤ f.counter ∧ ∀ v ∈ f.vms, v.id = id → v.stage ≠ .launching

variable {budget : ℕ} {f : Fleet}

theorem start_inv (budget : ℕ) : start.Inv budget :=
  ⟨Nat.zero_le _, nodup_nil, nofun,
    nofun,
    fun _ h => h.elim (fun ⟨_, h⟩ => absurd h not_mem_nil)
      fun ⟨_, h, _⟩ => absurd h not_mem_nil⟩

/-- VMs may age. -/
theorem Inv.age (h : f.Inv budget) {vms : List Vm} (hage : List.Forall₂ Vm.Ages f.vms vms) :
    ({ f with vms } : Fleet).Inv budget := by
  refine ⟨(committed_le_of_ages hage).trans h.committed_le, ?_, fun v' hv' => ?_,
    fun v' hv' hl => ?_, fun id hid => ⟨(h.handles id hid).1, fun v' hv' hvid hl => ?_⟩⟩
  · rw [map_id_of_forall₂ (fun _ _ ha => ha.id_eq) hage]
    exact h.ids
  · obtain ⟨v, hv, ha⟩ := exists_of_forall₂ hage v' hv'
    rw [ha.id_eq]
    exact h.id_le v hv
  · obtain ⟨v, hv, ha⟩ := exists_of_forall₂ hage v' hv'
    obtain ⟨hvl, hreg⟩ := ha.launching hl
    exact hreg (h.launching v hv hvl)
  · obtain ⟨v, hv, ha⟩ := exists_of_forall₂ hage v' hv'
    exact (h.handles id hid).2 v hv (ha.id_eq.symm.trans hvid) (ha.launching hl).1

variable {k id requested : ℕ} {t : Task} {v : Vm}

variable (h : f.Inv budget) (i : ℕ)

include h

theorem Inv.modifyVm {g : Vm → Vm}
    (hg : ∀ v, f.vms[k]? = some v → v.Ages (g v)) : (f.modifyVm k g).Inv budget :=
  h.age (forall₂_modify Vm.Ages.refl f.vms hg)

variable (hid : ∀ v ∈ f.vms, v.id = id → v.stage ≠ .launching)

include hid

omit h in
theorem remove_ages :
    List.Forall₂ Vm.Ages f.vms (f.remove id).vms := by
  rw [Fleet.remove, forall₂_map_right_iff, forall₂_same]
  intro v hv
  split_ifs with hvid
  · refine ⟨rfl, ?_, fun hl => absurd hl (hid v hv hvid)⟩
    simp only [Vm.committed]
    cases v.registered <;> cases v.alive <;> simp
  · exact Vm.Ages.refl v

/-- The entry of a VM whose launch is over may go. -/
theorem Inv.remove : (f.remove id).Inv budget :=
  h.age (remove_ages hid)

omit hid

theorem Inv.setKill (id : ℕ) : (f.setKill id).Inv budget := by
  refine h.age ?_
  rw [forall₂_map_right_iff, forall₂_same]
  intro v _
  split_ifs
  · exact ⟨rfl, le_refl _, fun hl => ⟨hl, fun hr => hr⟩⟩
  · exact Vm.Ages.refl v

/-- Pool and threads may change, as long as nobody gets hold of a new id. -/
theorem Inv.rehandle (pool : List (ℕ × ℕ)) (tasks : List Task)
    (hh : ∀ id, ({ f with pool, tasks } : Fleet).Handle id → f.Handle id) :
    ({ f with pool, tasks } : Fleet).Inv budget :=
  ⟨h.committed_le, h.ids, h.id_le, h.launching, fun id hid => h.handles id (hh id hid)⟩

theorem Inv.endTask : (f.endTask i).Inv budget := by
  refine h.rehandle f.pool _ fun id hid => hid.imp_right ?_
  rintro ⟨t, ht, hid⟩
  exact ⟨t, mem_of_mem_eraseIdx ht, hid⟩

theorem Inv.setTask (ht : ∀ id, t.handle = some id → f.Handle id) : (f.setTask i t).Inv budget := by
  refine h.rehandle f.pool _ fun id hid => ?_
  rcases hid with hpool | ⟨t', ht', hid⟩
  · exact .inl hpool
  · rcases mem_or_eq_of_mem_set ht' with hmem | rfl
    · exact .inr ⟨t', hmem, hid⟩
    · exact ht id hid

theorem Inv.startTask
    (ht : ∀ id, t.handle = some id →
      id ≤ f.counter ∧ ∀ v ∈ f.vms, v.id = id → v.stage ≠ .launching) :
    (f.startTask t).Inv budget := by
  refine ⟨h.committed_le, h.ids, h.id_le, h.launching, fun id hid => ?_⟩
  rcases hid with hpool | ⟨t', ht', hid⟩
  · exact h.handles id (.inl hpool)
  · rcases mem_append.1 ht' with hmem | hmem
    · exact h.handles id (.inr ⟨t', hmem, hid⟩)
    · rw [mem_singleton.1 hmem] at hid
      exact ht id hid

/-- A thread that has nobody in hand. -/
theorem Inv.startFree (ht : t.handle = none) :
    (f.startTask t).Inv budget :=
  h.startTask fun id hid => by rw [ht] at hid; cases hid

theorem Inv.setFree (ht : t.handle = none) :
    (f.setTask i t).Inv budget :=
  h.setTask i fun id hid => by rw [ht] at hid; cases hid

theorem Inv.unpool (template id : ℕ) : (f.unpool template id).Inv budget := by
  refine h.rehandle _ f.tasks fun id' hid => hid.imp_left ?_
  rintro ⟨t, ht⟩
  exact ⟨t, mem_of_mem_erase ht⟩

omit h in
theorem mem_pool_of_pooled {template : ℕ} (h : f.pooled template = some id) :
    (template, id) ∈ f.pool := by
  obtain ⟨p, hp, rfl⟩ := mem_map.1 (mem_of_getLast? h)
  obtain ⟨hmem, ht⟩ := mem_filter.1 hp
  rw [← of_decide_eq_true ht]
  exact hmem

/-! ## Launching, warming, supervising -/

variable (hv : f.vms[k]? = some v)

include hv

/-- After its own thread has moved on, the VM behind an id is where that thread put it. -/
theorem Inv.stage_of_id (stage : Stage) :
    ∀ w ∈ (f.modifyVm k (setStage stage)).vms, w.id = v.id → w.stage = stage := by
  intro w hw hid
  obtain ⟨j, hj⟩ := mem_iff_getElem?.1 hw
  rw [Fleet.modifyVm, getElem?_modify] at hj
  obtain ⟨u, hu, rfl⟩ := map_eq_some_iff.1 hj
  by_cases hjk : k = j
  · rw [if_pos hjk]
    rfl
  · -- ids are unique, so another VM has another one
    rw [if_neg hjk] at hid
    have hlt : j < (f.vms.map Vm.id).length := by
      rw [length_map]
      exact (List.getElem?_eq_some_iff.1 hu).1
    have hsame : (f.vms.map Vm.id)[j]? = (f.vms.map Vm.id)[k]? := by
      rw [getElem?_map, getElem?_map, hu, hv, map_some, map_some, hid]
    exact absurd ((getElem?_inj hlt h.ids).1 hsame).symm hjk

/-- A thread that has failed releases its own entry. -/
theorem Inv.release {stage : Stage} (hstage : stage ≠ .launching) :
    ((f.modifyVm k (setStage stage)).remove v.id).Inv budget := by
  refine (h.modifyVm fun w _ => .setStage hstage w).remove ?_
  intro w hw hid
  rw [h.stage_of_id hv stage w hw hid]
  exact hstage

/-- The reservation of a VM that is being launched is still there, so its live worker commits
nothing new. -/
theorem Inv.spawn (hl : v.stage = .launching) (stage : Vm → Stage) (hstage : stage v ≠ .launching) :
    (f.modifyVm k fun v => { v with alive := true, stage := stage v }).Inv budget := by
  refine h.modifyVm fun w hw => ?_
  obtain rfl : v = w := some.inj (hv.symm.trans hw)
  have hreg := h.launching v (mem_of_getElem? hv) hl
  refine ⟨rfl, ?_, fun hlaunch => absurd hlaunch hstage⟩
  simp only [Vm.committed, hreg, Bool.true_or]
  exact le_refl _

theorem Inv.launchEnds (hl : v.stage = .launching) (how : LaunchEnd) :
    (f.launchEnds k v how).Inv budget := by
  cases how with
  | spawned =>
    refine h.spawn hv hl (fun v => if v.launch.evicts then .supervised else .warming) ?_
    split_ifs <;> decide
  | failed => exact h.release hv (by decide)
  | leaked => exact h.modifyVm fun w _ => .setStage (by decide) w
  | abandoned =>
    show Inv budget (if v.launch = .oneShot then _ else f)
    split_ifs
    · exact h.spawn hv hl (fun _ => .done) (by decide)
    · exact h

theorem Inv.warmEnds (ready : Bool) (target : ℕ) : (f.warmEnds k v ready target).Inv budget := by
  unfold Fleet.warmEnds
  cases ready with
  | false => exact h.release hv (by decide)
  | true =>
    have hup : (f.modifyVm k (setStage .supervised)).Inv budget :=
      h.modifyVm fun w _ => .setStage (by decide) w
    rw [if_pos rfl]
    unfold Fleet.afterWarm
    split
    · exact hup.startFree rfl
    · refine hup.startTask fun id hid => ?_
      obtain rfl : v.id = id := some.inj hid
      refine ⟨h.id_le v (mem_of_getElem? hv), fun w hw hwid => ?_⟩
      rw [h.stage_of_id hv .supervised w hw hwid]
      decide
    · exact hup

omit hv

theorem Inv.superviseTurn (k : ℕ) (v : Vm) (waitFails clientGone : Bool) :
    (f.superviseTurn k v waitFails clientGone).Inv budget := by
  refine superviseTurn_rule h (h.modifyVm fun w _ => .setStage (by decide) w) ?_
  refine h.modifyVm fun w _ => ⟨rfl, ?_, fun hl => Stage.noConfusion hl⟩
  simp only [Vm.committed]
  cases w.registered <;> cases w.alive <;> simp

theorem Inv.deregister (hv : f.vms[k]? = some v) :
    (f.deregister k v).Inv budget := by
  refine h.release hv ?_
  split_ifs <;> decide

theorem Inv.clearPool (k : ℕ) (v : Vm) : (f.clearPool k v).Inv budget := by
  have hdone : (f.modifyVm k (setStage .done)).Inv budget :=
    h.modifyVm fun w _ => .setStage (by decide) w
  refine hdone.rehandle _ f.tasks fun id hid => hid.imp_left ?_
  rintro ⟨t, ht⟩
  exact ⟨t, mem_of_mem_filter ht⟩

omit h

/-! ## Admission -/

/-- Thread `i` is about to call `reserve`. -/
def admitting (f : Fleet) (i : ℕ) : Bool :=
  match f.tasks[i]? with
  | some (.admission _ _) => true
  | _ => false

/-- An admission passes only when every live worker is in the registry and neither the sum nor
the next id wraps around.  (`exec` draws from the counter, too.) -/
def Sound (budget : ℕ) (f : Fleet) : Event → Prop
  | .task i requested _ => f.admitting i = true → f.admits budget requested = true →
      f.used + requested < 2 ^ 64 ∧ (∀ v ∈ f.vms, v.alive = true → v.registered = true) ∧
        f.counter + 1 < 2 ^ 64
  | .request (.exec _) => f.counter + 1 < 2 ^ 64
  | _ => True

instance (budget : ℕ) (f : Fleet) (e : Event) : Decidable (f.Sound budget e) := by
  unfold Sound
  split <;> infer_instance

theorem committed_eq_used (h : ∀ v ∈ f.vms, v.alive = true → v.registered = true) :
    f.committed = f.used := by
  have hv : f.vms.map Vm.committed = f.vms.map Vm.reserved := by
    refine map_congr_left fun v hv => ?_
    unfold Vm.committed Vm.reserved
    cases hr : v.registered <;> cases ha : v.alive <;> simp_all
  rw [committed, used, hv]

variable (h : f.Inv budget)

include h

/-- A larger counter leaves room for the ids there are. -/
theorem Inv.setCounter {n : ℕ} (hn : f.counter ≤ n) :
    ({ f with counter := n } : Fleet).Inv budget :=
  ⟨h.committed_le, h.ids, fun v hv => (h.id_le v hv).trans hn, h.launching,
    fun id hid => ⟨(h.handles id hid).1.trans hn, (h.handles id hid).2⟩⟩

omit h in
/-- A new worker's id is above all others. -/
theorem nodup_ids_append {vms : List Vm} (h : (vms.map Vm.id).Nodup)
    (hlt : ∀ w ∈ vms, w.id < v.id) : ((vms ++ [v]).map Vm.id).Nodup := by
  rw [map_append, nodup_append]
  refine ⟨h, pairwise_singleton _ _, fun a ha b hb => ?_⟩
  obtain ⟨w, hw, rfl⟩ := mem_map.1 ha
  rw [mem_singleton.1 hb]
  exact (hlt w hw).ne

/-- A new reservation that there is room for. -/
theorem Inv.append (hid : v.id = f.counter + 1)
    (hreg : v.registered = true) (hroom : f.committed + v.committed ≤ budget) :
    ({ f with vms := f.vms ++ [v], counter := v.id } : Fleet).Inv budget := by
  have hlt : ∀ w ∈ f.vms, w.id < v.id := fun w hw => by
    have := h.id_le w hw
    omega
  refine ⟨?_, ?_, ?_, ?_, fun id hhandle => ?_⟩
  · simpa [committed] using hroom
  · exact nodup_ids_append h.ids hlt
  · exact forall_mem_append.2 ⟨fun w hw => (hlt w hw).le, forall_mem_singleton.2 le_rfl⟩
  · exact forall_mem_append.2 ⟨h.launching, forall_mem_singleton.2 fun _ => hreg⟩
  · obtain ⟨hle, hnot⟩ := h.handles id hhandle
    refine ⟨by show id ≤ v.id; omega, fun w hw hwid => ?_⟩
    rcases mem_append.1 hw with hw | hw
    · exact hnot w hw hwid
    · rw [mem_singleton.1 hw] at hwid
      omega

theorem Inv.insert (launch : Launch) (template : ℕ)
    (hfits : f.admits budget requested = true) (hsum : f.used + requested < 2 ^ 64)
    (hlive : ∀ v ∈ f.vms, v.alive = true → v.registered = true)
    (hid : f.counter + 1 < 2 ^ 64) : (f.insert launch template requested).Inv budget := by
  have hnext : f.nextId = f.counter + 1 := Nat.mod_eq_of_lt hid
  have hroom : f.used + requested ≤ budget := by
    have hcheck := of_decide_eq_true hfits
    rwa [Nat.mod_eq_of_lt (by omega : f.used < 2 ^ 64), Nat.mod_eq_of_lt hsum] at hcheck
  -- nobody has the new id yet, so the insert replaces nothing
  have hfresh : ∀ v ∈ f.vms, v.id = f.nextId → v.stage ≠ .launching := by
    intro v hv hvid
    have := h.id_le v hv
    omega
  have hcommitted : (f.remove f.nextId).committed ≤ f.used :=
    (committed_le_of_ages (remove_ages hfresh)).trans_eq (committed_eq_used hlive)
  refine (h.remove hfresh).append hnext rfl ?_
  exact (Nat.add_le_add_right hcommitted requested).trans hroom

theorem Inv.runAdmit {i pick : ℕ} {launch : Launch} {template : ℕ}
    (ht : f.tasks[i]? = some (.admission launch template))
    (hs : f.Sound budget (.task i requested pick)) :
    (f.runAdmit budget i requested launch template).Inv budget := by
  have hcall : f.admitting i = true := by rw [admitting, ht]
  refine runAdmit_rule (fun hfits => ?_) (h.setFree i rfl) (h.endTask i)
  obtain ⟨hsum, hlive, hid⟩ := hs hcall hfits
  exact (h.insert launch template hfits hsum hlive hid).endTask i

theorem Inv.runRefused (pick : ℕ) (launch : Launch) (template : ℕ) :
    (f.runRefused i pick launch template).Inv budget := by
  refine runRefused_rule h (h.endTask i) fun victim hp => ?_
  -- the victim was in the pool, and now it is in this thread's hands
  refine h.rehandle (f.pool.erase (pick, victim))
    (f.tasks.set i (.evicting launch template victim)) fun id hid => ?_
  rcases hid with ⟨t, ht⟩ | ⟨t, ht, hid⟩
  · exact .inl ⟨t, mem_of_mem_erase ht⟩
  · rcases mem_or_eq_of_mem_set ht with hmem | rfl
    · exact .inr ⟨t, hmem, hid⟩
    · cases hid
      exact .inl ⟨pick, mem_pool_of_pooled hp⟩

theorem Inv.runTask {i pick : ℕ}
    (ht : f.tasks[i]? = some t) (hs : f.Sound budget (.task i requested pick)) :
    (f.runTask budget i requested pick t).Inv budget := by
  have hmem := mem_of_getElem? ht
  cases t with
  | admission launch template => exact h.runAdmit ht hs
  | refused launch template => exact h.runRefused i pick launch template
  | evicting launch template victim =>
    have hkill := h.setKill victim
    refine (hkill.remove fun v hv hvid => ?_).setFree i rfl
    exact (hkill.handles victim (.inr ⟨_, hmem, rfl⟩)).2 v hv hvid
  | pooling template id target =>
    refine Inv.setFree (f := { f with pool := f.pool ++ [(template, id)] }) ?_ i rfl
    refine h.rehandle _ f.tasks fun id' hid' => ?_
    rcases hid' with ⟨t, ht⟩ | htask
    · rcases mem_append.1 ht with ht | ht
      · exact .inl ⟨t, ht⟩
      · cases mem_singleton.1 ht
        exact .inr ⟨_, hmem, rfl⟩
    · exact .inr htask
  | refill template target =>
    show Inv budget (if _ then _ else _)
    split_ifs
    · exact h.setFree i rfl
    · exact h.endTask i

theorem Inv.request {r : Request} (hs : f.Sound budget (.request r)) :
    (f.request r).Inv budget := by
  cases r with
  | runOneShot reference | runDetached reference => exact h.startFree rfl
  | fork template target =>
    show Inv budget (f.requestFork template target)
    unfold Fleet.requestFork
    cases f.pooled template with
    | none => exact h.startFree rfl
    | some id => exact (h.unpool template id).startFree rfl
  | exec template =>
    have hnext : f.nextId = f.counter + 1 := Nat.mod_eq_of_lt hs
    exact (h.setCounter (by omega : f.counter ≤ f.nextId)).startFree rfl
  | kill id => exact h.setKill id

omit h

theorem step_inv (e : Event) (h : f.Inv budget) (hs : f.Sound budget e) :
    (f.step budget e).Inv budget := by
  cases e with
  | request r => exact h.request hs
  | task i requested pick => exact atTask_rule h fun t ht => h.runTask ht hs
  | launchEnds k how => exact atStage_rule h fun v hv hl => h.launchEnds hv hl how
  | warmEnds k ready target => exact atStage_rule h fun v hv _ => h.warmEnds hv ready target
  | abort k => exact atStage_rule h fun v _ _ => h.modifyVm fun w _ => .setStage (by decide) w
  | superviseTurn k waitFails clientGone =>
    exact atStage_rule h fun v _ _ => h.superviseTurn k v waitFails clientGone
  | deregister k => exact atStage_rule h fun v hv _ => h.deregister hv
  | clearPool k => exact atStage_rule h fun v _ _ => h.clearPool k v
  | exits k =>
    refine h.modifyVm fun w _ => ⟨rfl, ?_, fun hl => ⟨hl, fun hr => hr⟩⟩
    simp only [Vm.committed]
    cases w.registered <;> cases w.alive <;> simp

/-- **The budget holds while admissions are sound.**  In every run in which no admission passes
while a worker that has left the registry is still alive, by a sum that does not fit in 64
bits, or with an id that has wrapped around, the caps of all live workers and outstanding
reservations stay within the budget. -/
theorem budget_holds (budget : ℕ) (l : List Event)
    (hl : Runs.Each (step budget) (Sound budget) start l) :
    (Runs.run (step budget) start l).committed ≤ budget :=
  (Runs.invariant (I := Inv budget) (fun _ e h hs => step_inv e h hs) (start_inv budget)
    hl).committed_le

/-- One worker is run and another one pooled; a third does not fit and the pooled one is
evicted for it. -/
def evictedRun : List Event :=
  [.request (.fork 7 1), .task 0 400 0, .launchEnds 0 .spawned, .warmEnds 0 true 1,
    .task 0 400 0, .task 0 400 0, .launchEnds 1 .spawned, .warmEnds 1 true 1, .task 0 0 0,
    .task 0 0 0, .request (.runDetached 8), .task 0 400 0, .task 0 0 7, .task 0 0 0]

/-- The evicted worker is stopped by its supervisor before the admission is tried again. -/
theorem budget_holds_evictedRun :
    let l := evictedRun ++ [.superviseTurn 1 false false, .deregister 1, .task 0 400 0,
      .launchEnds 2 .spawned]
    (Runs.run (step 1000) start l).vms.map Vm.alive = [true, false, true] ∧
      (Runs.run (step 1000) start l).committed ≤ 1000 :=
  ⟨by decide +kernel, budget_holds 1000 _ (by decide +kernel)⟩

/-- The admission is tried again at once. -/
def hastyRun : List Event := evictedRun ++ [.task 0 400 0, .launchEnds 2 .spawned]

/-- A run of 600, then one that asks for all but a hundred bytes of the address space. -/
def wrappedRun : List Event :=
  [.request (.runDetached 8), .task 0 600 0, .launchEnds 0 .spawned, .request (.runDetached 8),
    .task 0 (2 ^ 64 - 100) 0, .launchEnds 1 .spawned]

/-- **The budget is exceeded.**  Tried again while the evicted worker is alive, the admission
makes three workers of 400 under a budget of 1000.  And a request whose cap wraps the sum around
is let in whatever it asks for. -/
theorem budget_exceeded :
    ((Runs.run (step 1000) start hastyRun).vms.map Vm.alive = [true, true, true] ∧
      1000 < (Runs.run (step 1000) start hastyRun).committed) ∧
    (Runs.run (step 1000) start wrappedRun).vms.map Vm.alive = [true, true] ∧
      1000 < (Runs.run (step 1000) start wrappedRun).committed := by
  decide +kernel

end Fleet
end Amber.Daemon
