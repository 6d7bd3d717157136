import Amber.Lib.Runs
import Amber.Hvf.SmpRestore

/-!
# Turning secondaries on

Several vcpus run at once, each on its own thread.  Those that are on execute guest code and make
hypercalls, `CPU_ON` among them, with whatever the guest has put in the registers.  A secondary that
is parked looks at its slot under the lock; if something is posted there it takes it, drops the lock
and then sets its registers, and in between the others go on.  The acts of all of them come in any
order.

`Smp` is the machine together with what a thread has taken out of its slot and not yet put in the
registers; `Trace` adds the answers to all `CPU_ON` calls and every start of a parked secondary.
All that concerns one CPU is in its `View`.

* `view_step` — an act does to the view of a CPU what `View.react` says, or nothing.
* `Phase.react` — off, posted, taken, on: the phases of a secondary, with the calls and starts of
  each.
* `secondaries_start_once` — a secondary starts at most once, as the one successful call for it
  asked; every other call for it finds it on.
-/

namespace Amber.Hvf

open List

/-- What `CPU_ON` returns. -/
def psciSuccess : BitVec 64 := 0
def psciAlreadyOn : BitVec 64 := -4
def psciInvalidParameters : BitVec 64 := -2

/-- A `CPU_ON` call and its answer. -/
structure CpuOnCall where
  target : ℕ
  entry : BitVec 64
  ctx : BitVec 64
  result : BitVec 64
  deriving DecidableEq

/-- A secondary that leaves the parked state, with its registers as it does. -/
structure Start where
  cpu : ℕ
  pc : BitVec 64
  x0 : BitVec 64
  deriving DecidableEq

namespace Machine

variable {n : ℕ} {m : Machine n} {i j : Fin n} {target : ℕ}

theorem hvc_of_cpuOn {entry ctx : BitVec 64} (h : m.asksCpuOn i = some (target, entry, ctx)) :
    (m.hvc i).1 = m.cpuOn i target entry ctx := by
  unfold asksCpuOn at h
  dsimp only at h
  split_ifs at h with hfunc
  cases h
  unfold hvc
  rw [if_neg (by rcases hfunc with hf | hf <;> rw [hf] <;> decide),
    if_neg (by rcases hfunc with hf | hf <;> rw [hf] <;> decide), if_pos hfunc]

/-- Every other hypercall leaves the slots alone. -/
theorem hvc_of_other (h : m.asksCpuOn i = none) : (m.hvc i).1.slot = m.slot := by
  unfold asksCpuOn at h
  dsimp only at h
  split_ifs at h with hfunc
  unfold hvc affinityInfo
  dsimp only
  split_ifs <;> rfl

theorem cpuOn_started (target : ℕ) (entry ctx : BitVec 64) :
    ((m.cpuOn i target entry ctx).vcpu j).started = (m.vcpu j).started := by
  unfold cpuOn
  split_ifs
  · exact setX0_started (m := m.setSlot _ _) 0
  · exact setX0_started _
  · exact setX0_started _

theorem hvc_started : ((m.hvc i).1.vcpu j).started = (m.vcpu j).started := by
  unfold hvc affinityInfo
  dsimp only
  split_ifs
  · rfl
  · exact setX0_started _
  · exact cpuOn_started _ _ _
  all_goals exact setX0_started _

/-- A call changes no slot but its target's. -/
theorem cpuOn_slot_of_ne (h : j.val ≠ target) (entry ctx : BitVec 64) :
    (m.cpuOn i target entry ctx).slot j = m.slot j := by
  unfold cpuOn
  split_ifs with ht
  · exact setSlot_of_ne _ fun heq => h (congrArg Fin.val heq)
  · rfl
  · rfl

theorem cpuOn_slot_self (entry ctx : BitVec 64) : (m.cpuOn i j.val entry ctx).slot j =
    if m.slot j = .off then .posted entry ctx else m.slot j := by
  unfold cpuOn
  rw [dif_pos j.isLt]
  split_ifs with hoff
  · exact setSlot_self _
  · rfl

theorem cpuOn_result_self (entry ctx : BitVec 64) :
    (m.cpuOn i j.val entry ctx).x0 i =
      if m.slot j = .off then psciSuccess else psciAlreadyOn := by
  unfold cpuOn
  rw [dif_pos j.isLt]
  split_ifs with hoff
  · exact setX0_x0 (m := m.setSlot _ _) _
  · exact setX0_x0 _

theorem cpuOn_invalid (h : n ≤ target) (entry ctx : BitVec 64) :
    m.cpuOn i target entry ctx = m.setX0 i psciInvalidParameters := by
  rw [cpuOn, dif_neg (not_lt.2 h)]
  rfl

end Machine

/-! ## The threads -/

structure Smp (n : ℕ) where
  machine : Machine n
  /-- What the thread of a vcpu has taken out of its slot and not yet put in its registers. -/
  taken : Fin n → Option (BitVec 64 × BitVec 64)

/-- What a thread does next. -/
inductive Act (n : ℕ)
  /-- Guest code on vcpu `i` leaves these registers. -/
  | guest (i : Fin n) (regs : Regs)
  | hvc (i : Fin n)
  /-- A parked secondary looks at its slot. -/
  | wake (i : Fin n)
  /-- It sets its registers and is on its way. -/
  | boot (i : Fin n)

def Act.vcpu {n : ℕ} : Act n → Fin n
  | .guest i _ => i
  | .hvc i => i
  | .wake i => i
  | .boot i => i

namespace Smp

variable {n : ℕ}

def create (hw : Fin n → HvfVcpu) : Smp n := ⟨Machine.create hw, fun _ => none⟩

def started (s : Smp n) (i : Fin n) : Bool := (s.machine.vcpu i).started

/-- The look at the slot, under the lock. -/
def wake (s : Smp n) (i : Fin n) : Smp n :=
  match s.machine.slot i with
  | .posted entry ctx =>
    ⟨s.machine.setSlot i .on, Function.update s.taken i (some (entry, ctx))⟩
  | _ => s

/-- The registers of a secondary that has taken its entry. -/
def boot (s : Smp n) (i : Fin n) : Smp n :=
  match s.taken i with
  | some (entry, ctx) =>
    ⟨s.machine.modifyVcpu i fun c =>
        { c with regs := Machine.bootRegs c.regs entry ctx, started := true },
      Function.update s.taken i none⟩
  | none => s

/-- Only a vcpu that has started runs guest code, and only one that has not is parked. -/
def step (s : Smp n) : Act n → Smp n
  | .guest i regs =>
    if s.started i then { s with machine := s.machine.modifyVcpu i fun c => { c with regs } } else s
  | .hvc i => if s.started i then { s with machine := (s.machine.hvc i).1 } else s
  | .wake i => if s.started i then s else s.wake i
  | .boot i => s.boot i

end Smp

/-! ## What is called and what starts -/

structure Trace (n : ℕ) where
  smp : Smp n
  /-- All `CPU_ON` calls so far. -/
  calls : List CpuOnCall
  /-- All secondaries that have left the parked state so far. -/
  starts : List Start

namespace Trace

variable {n : ℕ}

/-- The `CPU_ON` call an act makes, with what it finds in `x0` afterwards. -/
def called (s : Smp n) : Act n → List CpuOnCall
  | .hvc i =>
    if s.started i then
      match s.machine.asksCpuOn i with
      | some (target, entry, ctx) =>
        [⟨target, entry, ctx, (s.machine.hvc i).1.x0 i⟩]
      | none => []
    else []
  | _ => []

/-- The vcpu is parked in `s` and no longer in `s'`. -/
def left (s s' : Smp n) (i : Fin n) : List Start :=
  if !s.started i && s'.started i then
    [⟨i.val, (s'.machine.vcpu i).regs.pc, s'.machine.x0 i⟩]
  else []

def step (t : Trace n) (a : Act n) : Trace n where
  smp := t.smp.step a
  calls := t.calls ++ called t.smp a
  starts := t.starts ++ left t.smp (t.smp.step a) a.vcpu

def create (hw : Fin n → HvfVcpu) : Trace n := ⟨Smp.create hw, [], []⟩

def callsFor (t : Trace n) (target : ℕ) : List CpuOnCall := t.calls.filter (·.target = target)

def startsOf (t : Trace n) (j : Fin n) : List Start := t.starts.filter (·.cpu = j.val)

end Trace

/-! ## One CPU -/

/-- All that concerns one CPU. -/
structure View where
  slot : CpuOn
  started : Bool
  taken : Option (BitVec 64 × BitVec 64)
  calls : List CpuOnCall
  starts : List Start

/-- What can happen to it. -/
inductive Touch
  /-- Somebody calls `CPU_ON` for it. -/
  | call (entry ctx : BitVec 64)
  | wake
  | boot

namespace View

/-- CPU `j` by itself. -/
def react (j : ℕ) (v : View) : Touch → View
  | .call entry ctx =>
    if v.slot = .off then
      { v with slot := .posted entry ctx, calls := v.calls ++ [⟨j, entry, ctx, psciSuccess⟩] }
    else { v with calls := v.calls ++ [⟨j, entry, ctx, psciAlreadyOn⟩] }
  | .wake =>
    if v.started then v
    else
      match v.slot with
      | .posted entry ctx => { v with slot := .on, taken := some (entry, ctx) }
      | _ => v
  | .boot =>
    match v.taken with
    | some (entry, ctx) =>
      { v with
        started := true
        taken := none
        starts := if v.started then v.starts else v.starts ++ [⟨j, entry, ctx⟩] }
    | none => v

end View

/-- The phases of secondary `j`. -/
inductive Phase (j : ℕ) : View → Prop
  | off : Phase j ⟨.off, false, none, [], []⟩
  | posted (entry ctx : BitVec 64) (others : List CpuOnCall)
      (h : ∀ c ∈ others, c.result = psciAlreadyOn) :
      Phase j ⟨.posted entry ctx, false, none, ⟨j, entry, ctx, psciSuccess⟩ :: others, []⟩
  | taken (entry ctx : BitVec 64) (others : List CpuOnCall)
      (h : ∀ c ∈ others, c.result = psciAlreadyOn) :
      Phase j ⟨.on, false, some (entry, ctx), ⟨j, entry, ctx, psciSuccess⟩ :: others, []⟩
  | on (entry ctx : BitVec 64) (others : List CpuOnCall)
      (h : ∀ c ∈ others, c.result = psciAlreadyOn) :
      Phase j ⟨.on, true, none, ⟨j, entry, ctx, psciSuccess⟩ :: others, [⟨j, entry, ctx⟩]⟩

theorem alreadyOn_concat {others : List CpuOnCall} (h : ∀ c ∈ others, c.result = psciAlreadyOn)
    (j : ℕ) (entry ctx : BitVec 64) :
    ∀ c ∈ others ++ [⟨j, entry, ctx, psciAlreadyOn⟩], c.result = psciAlreadyOn :=
  forall_mem_append.2 ⟨h, forall_mem_singleton.2 rfl⟩

/-- A secondary goes through its phases in order. -/
theorem Phase.react {j : ℕ} {v : View} (h : Phase j v) (x : Touch) : Phase j (v.react j x) := by
  cases x with
  | call entry ctx =>
    cases h with
    | off => exact .posted entry ctx [] nofun
    | posted entry' ctx' others h => exact .posted _ _ _ (alreadyOn_concat h j entry ctx)
    | taken entry' ctx' others h => exact .taken _ _ _ (alreadyOn_concat h j entry ctx)
    | on entry' ctx' others h => exact .on _ _ _ (alreadyOn_concat h j entry ctx)
  | wake =>
    cases h with
    | off => exact .off
    | posted entry ctx others h | taken entry ctx others h => exact .taken _ _ _ h
    | on entry ctx others h => exact .on _ _ _ h
  | boot =>
    cases h with
    | off => exact .off
    | posted entry ctx others h => exact .posted _ _ _ h
    | taken entry ctx others h | on entry ctx others h => exact .on _ _ _ h

namespace Trace

variable {n : ℕ} {t : Trace n} {i j : Fin n} {others : List CpuOnCall} {a : Act n}

def view (t : Trace n) (j : Fin n) : View :=
  ⟨t.smp.machine.slot j, t.smp.started j, t.smp.taken j, t.callsFor j.val, t.startsOf j⟩

/-- What an act means for CPU `j`. -/
def touch (t : Trace n) (j : Fin n) : Act n → Option Touch
  | .guest _ _ => none
  | .hvc i =>
    if t.smp.started i then
      match t.smp.machine.asksCpuOn i with
      | some (target, entry, ctx) => if target = j.val then some (.call entry ctx) else none
      | none => none
    else none
  | .wake i => if i = j then some .wake else none
  | .boot i => if i = j then some .boot else none

theorem left_of_started {s s' : Smp n} (h : s'.started i = s.started i) : left s s' i = [] := by
  rw [left, h, Bool.not_and_self]
  rfl

theorem left_of_ne {s s' : Smp n} (h : i ≠ j) :
    (left s s' i).filter (·.cpu = j.val) = [] := by
  have hne : i.val ≠ j.val := fun heq => h (Fin.ext heq)
  unfold left
  split_ifs
  · simp [hne]
  · rfl

/-- An act that does not concern CPU `j`. -/
theorem view_of_frame (hslot : (t.smp.step a).machine.slot j = t.smp.machine.slot j)
    (hstarted : (t.smp.step a).started j = t.smp.started j)
    (htaken : (t.smp.step a).taken j = t.smp.taken j)
    (hcalls : (called t.smp a).filter (·.target = j.val) = []) : (t.step a).view j = t.view j := by
  have hstarts : (left t.smp (t.smp.step a) a.vcpu).filter (·.cpu = j.val) = [] := by
    by_cases hj : a.vcpu = j
    · rw [hj, left_of_started hstarted]
      rfl
    · exact left_of_ne hj
  simp [view, step, callsFor, startsOf, hslot, hstarted, htaken, hcalls, hstarts]

theorem view_guest (regs : Regs) : (t.step (.guest i regs)).view j = t.view j := by
  have hkept : ∀ s : Smp n, (s.step (.guest i regs)).machine.slot j = s.machine.slot j ∧
      (s.step (.guest i regs)).started j = s.started j ∧
      (s.step (.guest i regs)).taken j = s.taken j := by
    intro s
    rw [Smp.step]
    split_ifs
    · refine ⟨rfl, ?_, rfl⟩
      simp only [Smp.started]
      by_cases hj : j = i
      · rw [hj, Machine.modifyVcpu_self]
      · rw [Machine.modifyVcpu_of_ne _ hj]
    · exact ⟨rfl, rfl, rfl⟩
  obtain ⟨hslot, hstarted, htaken⟩ := hkept t.smp
  exact view_of_frame hslot hstarted htaken rfl

/-- A hypercall that is no `CPU_ON` for `j`. -/
theorem view_hvc_other (hup : t.smp.started i = true)
    (h : ∀ entry ctx, t.smp.machine.asksCpuOn i ≠ some (j.val, entry, ctx)) :
    (t.step (.hvc i)).view j = t.view j := by
  have hstep : t.smp.step (.hvc i) = { t.smp with machine := (t.smp.machine.hvc i).1 } := if_pos hup
  refine view_of_frame ?_ ?_ ?_ ?_
  · rw [hstep]
    cases hask : t.smp.machine.asksCpuOn i with
    | none => rw [Machine.hvc_of_other hask]
    | some call =>
      obtain ⟨target, entry, ctx⟩ := call
      rw [Machine.hvc_of_cpuOn hask]
      refine Machine.cpuOn_slot_of_ne (fun heq => ?_) entry ctx
      exact h entry ctx (hask.trans (by rw [heq]))
  · rw [hstep]
    exact Machine.hvc_started
  · rw [hstep]
  · rw [called, if_pos hup]
    cases hask : t.smp.machine.asksCpuOn i with
    | none => rfl
    | some call =>
      obtain ⟨target, entry, ctx⟩ := call
      have hne : target ≠ j.val := fun heq => h entry ctx (hask.trans (by rw [heq]))
      simp [hne]

theorem view_hvc_call (hup : t.smp.started i = true) {entry ctx : BitVec 64}
    (hask : t.smp.machine.asksCpuOn i = some (j.val, entry, ctx)) :
    (t.step (.hvc i)).view j = (t.view j).react j.val (.call entry ctx) := by
  have hstep : t.smp.step (.hvc i) =
      { t.smp with machine := t.smp.machine.cpuOn i j.val entry ctx } := by
    rw [← Machine.hvc_of_cpuOn hask]
    exact if_pos hup
  have hcalled : called t.smp (.hvc i) = [⟨j.val, entry, ctx,
      if t.smp.machine.slot j = .off then psciSuccess else psciAlreadyOn⟩] := by
    rw [called, if_pos hup, hask]
    rw [Machine.hvc_of_cpuOn hask, Machine.cpuOn_result_self]
  have hstarted : ∀ k, (t.smp.step (.hvc i)).started k = t.smp.started k := by
    intro k
    rw [hstep]
    exact Machine.cpuOn_started _ _ _
  have hslot : (t.smp.step (.hvc i)).machine.slot j =
      if t.smp.machine.slot j = .off then .posted entry ctx else t.smp.machine.slot j := by
    rw [hstep]
    exact Machine.cpuOn_slot_self entry ctx
  have htaken : (t.smp.step (.hvc i)).taken j = t.smp.taken j := by rw [hstep]
  simp only [view, step, callsFor, startsOf, Act.vcpu, filter_append, hcalled, hstarted, hslot,
    htaken, left_of_started (hstarted i), View.react, append_nil]
  split_ifs with hoff <;> simp [hoff]

theorem view_wake : (t.step (.wake j)).view j = (t.view j).react j.val .wake := by
  have hstep : t.smp.step (.wake j) = if t.smp.started j then t.smp else t.smp.wake j := rfl
  cases hup : t.smp.started j with
  | true =>
    have hsame : t.smp.step (.wake j) = t.smp := by rw [hstep, if_pos hup]
    rw [view_of_frame (by rw [hsame]) (by rw [hsame]) (by rw [hsame]) rfl, View.react]
    exact (if_pos hup).symm
  | false =>
    have hwake : t.smp.step (.wake j) = t.smp.wake j := by rw [hstep, hup]; rfl
    cases hslot : t.smp.machine.slot j with
    | posted entry ctx =>
      have hnext : t.smp.step (.wake j) = ⟨t.smp.machine.setSlot j .on,
          Function.update t.smp.taken j (some (entry, ctx))⟩ := by
        rw [hwake, Smp.wake, hslot]
      have hstarted : (t.smp.step (.wake j)).started j = t.smp.started j := by rw [hnext]; rfl
      simp only [view, step, callsFor, startsOf, called, Act.vcpu, left_of_started hstarted,
        hstarted, append_nil, View.react, hup, hslot]
      simp only [hnext, Machine.setSlot_self, Function.update_self]
      rfl
    | off | on =>
      have hsame : t.smp.step (.wake j) = t.smp := by rw [hwake, Smp.wake, hslot]
      rw [view_of_frame (by rw [hsame]) (by rw [hsame]) (by rw [hsame]) rfl]
      simp [view, View.react, hslot]

theorem view_boot : (t.step (.boot j)).view j = (t.view j).react j.val .boot := by
  have hstep : t.smp.step (.boot j) = t.smp.boot j := rfl
  cases htaken : t.smp.taken j with
  | none =>
    have hsame : t.smp.step (.boot j) = t.smp := by rw [hstep, Smp.boot, htaken]
    rw [view_of_frame (by rw [hsame]) (by rw [hsame]) (by rw [hsame]) rfl]
    simp [view, View.react, htaken]
  | some p =>
    obtain ⟨entry, ctx⟩ := p
    have hnext : t.smp.step (.boot j) = ⟨t.smp.machine.modifyVcpu j fun c =>
        { c with regs := Machine.bootRegs c.regs entry ctx, started := true },
        Function.update t.smp.taken j none⟩ := by
      rw [hstep, Smp.boot, htaken]
    have hvcpu : (t.smp.step (.boot j)).machine.vcpu j = { t.smp.machine.vcpu j with
        regs := Machine.bootRegs (t.smp.machine.vcpu j).regs entry ctx, started := true } := by
      simp only [hnext, Machine.modifyVcpu_self]
    have hup : (t.smp.step (.boot j)).started j = true := by rw [Smp.started, hvcpu]
    have hleft : left t.smp (t.smp.step (.boot j)) j =
        if t.smp.started j then [] else [⟨j.val, entry, ctx⟩] := by
      rw [left, Machine.x0, hup, hvcpu]
      cases t.smp.started j with
      | true => rfl
      | false =>
        rfl
    have hslot : (t.smp.step (.boot j)).machine.slot j = t.smp.machine.slot j := by rw [hnext]; rfl
    have hgone : (t.smp.step (.boot j)).taken j = none := by
      rw [hnext]
      exact Function.update_self j none t.smp.taken
    simp only [view, step, callsFor, startsOf, called, Act.vcpu, hleft, hup, hslot, hgone,
      append_nil, View.react, htaken, filter_append]
    split_ifs <;> simp

/-- Looking at its own slot, or setting its own registers, a vcpu leaves the others alone. -/
theorem view_of_ne (ha : a = .wake i ∨ a = .boot i) (h : j ≠ i) :
    (t.step a).view j = t.view j := by
  have hkept : ∀ s : Smp n, (s.step a).machine.slot j = s.machine.slot j ∧
      (s.step a).started j = s.started j ∧ (s.step a).taken j = s.taken j := by
    intro s
    rcases ha with rfl | rfl
    · rw [Smp.step]
      split_ifs
      · exact ⟨rfl, rfl, rfl⟩
      · unfold Smp.wake
        split
        · exact ⟨Machine.setSlot_of_ne _ h, rfl, Function.update_of_ne h _ _⟩
        · exact ⟨rfl, rfl, rfl⟩
    · rw [Smp.step]
      unfold Smp.boot
      split
      · refine ⟨rfl, ?_, Function.update_of_ne h _ _⟩
        simp only [Smp.started, Machine.modifyVcpu_of_ne _ h]
      · exact ⟨rfl, rfl, rfl⟩
  obtain ⟨hslot, hstarted, htaken⟩ := hkept t.smp
  refine view_of_frame hslot hstarted htaken ?_
  rcases ha with rfl | rfl <;> rfl

/-- **An act concerns one CPU as `View.react` says, or not at all.** -/
theorem view_step (t : Trace n) (a : Act n) (j : Fin n) : (t.step a).view j =
    match t.touch j a with
    | some x => (t.view j).react j.val x
    | none => t.view j := by
  cases a with
  | guest i regs => exact view_guest regs
  | hvc i =>
    rw [touch]
    cases hup : t.smp.started i with
    | false =>
      have hsame : t.smp.step (.hvc i) = t.smp := by rw [Smp.step, hup]; rfl
      refine view_of_frame (by rw [hsame]) (by rw [hsame]) (by rw [hsame]) ?_
      rw [called, hup]
      rfl
    | true =>
      rw [if_pos rfl]
      cases hask : t.smp.machine.asksCpuOn i with
      | none => exact view_hvc_other hup fun _ _ h => by rw [hask] at h; cases h
      | some call =>
        obtain ⟨target, entry, ctx⟩ := call
        dsimp only
        split_ifs with htarget
        · subst htarget
          exact view_hvc_call hup hask
        · refine view_hvc_other hup fun _ _ h => htarget ?_
          rw [hask] at h
          cases h
          rfl
  | wake i =>
    rw [touch]
    split_ifs with hij
    · subst hij
      exact view_wake
    · exact view_of_ne (.inl rfl) (Ne.symm hij)
  | boot i =>
    rw [touch]
    split_ifs with hij
    · subst hij
      exact view_boot
    · exact view_of_ne (.inr rfl) (Ne.symm hij)

/-! ## Every run -/

/-- Every secondary is in one of its phases, and a call for no CPU is refused. -/
structure Inv (t : Trace n) : Prop where
  phase : ∀ j : Fin n, 0 < j.val → Phase j.val (t.view j)
  invalid : ∀ c ∈ t.calls, n ≤ c.target → c.result = psciInvalidParameters

theorem create_inv (hw : Fin n → HvfVcpu) : (create hw).Inv := by
  refine ⟨fun j hj => ?_, nofun⟩
  have hview : (create hw).view j = ⟨.off, false, none, [], []⟩ := by
    simp [view, create, Smp.create, Smp.started, Machine.create, callsFor, startsOf, hj.ne']
  rw [hview]
  exact .off

theorem called_invalid {s : Smp n} {c : CpuOnCall} (hc : c ∈ called s a) (h : n ≤ c.target) :
    c.result = psciInvalidParameters := by
  cases a with
  | hvc i =>
    rw [called] at hc
    split_ifs at hc
    · cases hask : s.machine.asksCpuOn i with
      | none => rw [hask] at hc; cases hc
      | some call =>
        rw [hask] at hc
        rw [mem_singleton.1 hc] at h ⊢
        show ((s.machine.hvc i).1.vcpu i).regs.x 0 = psciInvalidParameters
        rw [Machine.hvc_of_cpuOn hask, Machine.cpuOn_invalid h, Machine.setX0_x0]
    · cases hc
  | guest i regs => cases hc
  | wake i | boot i => cases hc

theorem step_inv (t : Trace n) (a : Act n) (h : t.Inv) : (t.step a).Inv := by
  refine ⟨fun j hj => ?_, fun c hc hn => ?_⟩
  · rw [view_step]
    cases t.touch j a with
    | none => exact h.phase j hj
    | some x => exact (h.phase j hj).react x
  · rcases mem_append.1 hc with hc | hc
    · exact h.invalid c hc hn
    · exact called_invalid hc hn

/-- CPU `j` has left the parked state at most once, as the one call for it that succeeded asked, and
every other call for it was told that it is on. -/
structure StartsOnce (t : Trace n) (j : Fin n) : Prop where
  once : (t.startsOf j).length ≤ 1
  asked : ∀ x ∈ t.startsOf j, ∃ c ∈ t.callsFor j.val,
    c.result = psciSuccess ∧ x.pc = c.entry ∧ x.x0 = c.ctx
  unique : ((t.callsFor j.val).filter (·.result = psciSuccess)).length ≤ 1
  others : ∀ c ∈ t.callsFor j.val, c.result ≠ psciSuccess → c.result = psciAlreadyOn

variable (h : ∀ c ∈ others, c.result = psciAlreadyOn)

include h

theorem one_success {first : CpuOnCall} :
    ((first :: others).filter (·.result = psciSuccess)).length ≤ 1 := by
  have hnone : others.filter (·.result = psciSuccess) = [] := by
    refine filter_eq_nil_iff.2 fun c hc => ?_
    rw [h c hc]
    decide
  rw [filter_cons, hnone]
  split_ifs <;> simp

/-- From the view of a CPU that has been called. -/
theorem StartsOnce.of_called {entry ctx : BitVec 64}
    (hcalls : t.callsFor j.val = ⟨j.val, entry, ctx, psciSuccess⟩ :: others)
    (hstarts : t.startsOf j = [] ∨ t.startsOf j = [⟨j.val, entry, ctx⟩]) : t.StartsOnce j where
  once := by rcases hstarts with hs | hs <;> simp [hs]
  asked x hx := by
    rcases hstarts with hs | hs
    · rw [hs] at hx
      cases hx
    · rw [hs, mem_singleton] at hx
      rw [hcalls, hx]
      exact ⟨_, mem_cons_self, rfl, rfl, rfl⟩
  unique := by
    rw [hcalls]
    exact one_success h
  others c hc hne := by
    rw [hcalls] at hc
    rcases mem_cons.1 hc with rfl | hc
    · exact absurd rfl hne
    · exact h c hc

omit h

theorem startsOnce_of_phase (h : Phase j.val (t.view j)) : t.StartsOnce j := by
  have hcalls : (t.view j).calls = t.callsFor j.val := rfl
  have hstarts : (t.view j).starts = t.startsOf j := rfl
  generalize t.view j = v at h hcalls hstarts
  cases h with
  | off =>
    refine ⟨?_, fun x hx => ?_, ?_, fun c hc => ?_⟩
    · rw [← hstarts]
      exact Nat.zero_le _
    · rw [← hstarts] at hx
      cases hx
    · rw [← hcalls]
      exact Nat.zero_le _
    · rw [← hcalls] at hc
      cases hc
  | posted entry ctx others h | taken entry ctx others h =>
    exact .of_called h hcalls.symm (.inl hstarts.symm)
  | on entry ctx others h => exact .of_called h hcalls.symm (.inr hstarts.symm)

/-- **Secondaries start at most once, and as requested.**  However the acts of the vcpus are
interleaved, every secondary has left the parked state at most once, at the entry and with the
context of the one call for it that succeeded; the other calls for it were told that it is on.  A
call for a CPU that does not exist was told so, and changes no more than the register with the
answer.  A call changes no slot but its target's. -/
theorem secondaries_start_once (hw : Fin n → HvfVcpu) (l : List (Act n)) :
    (∀ j : Fin n, 0 < j.val → (Runs.run step (create hw) l).StartsOnce j) ∧
    (∀ c ∈ (Runs.run step (create hw) l).calls, n ≤ c.target → c.result = psciInvalidParameters) ∧
    ∀ (m : Machine n) (i : Fin n) (target : ℕ) (entry ctx : BitVec 64),
      m.asksCpuOn i = some (target, entry, ctx) →
        (n ≤ target → (m.hvc i).1 = m.setX0 i psciInvalidParameters) ∧
        ∀ j : Fin n, j.val ≠ target → (m.hvc i).1.slot j = m.slot j := by
  have hinv : (Runs.run step (create hw) l).Inv :=
    Runs.invariant_always step_inv (create_inv hw) l
  refine ⟨fun j hj => startsOnce_of_phase (hinv.phase j hj), hinv.invalid, ?_⟩
  intro m i target entry ctx hask
  rw [Machine.hvc_of_cpuOn hask]
  exact ⟨fun h => Machine.cpuOn_invalid h entry ctx,
    fun j h => Machine.cpuOn_slot_of_ne h entry ctx⟩

/-- Registers with which the guest calls `CPU_ON` for CPU 1. -/
def callRegs (entry ctx : BitVec 64) : Regs :=
  ⟨fun k => [0xc4000003, 1, entry, ctx].getD k 0, 0, 0, 0, 0⟩

/-- CPU 0 turns CPU 1 on, and tries again with another entry before CPU 1 has set its registers. -/
theorem secondaries_start_once_two :
    let t := Runs.run step (create fun _ => Machine.resetVcpu 0) [.guest 0 (callRegs 0x40080000 7),
      .hvc 0, .wake 1, .guest 0 (callRegs 0x1000 8), .hvc 0, .boot (1 : Fin 2)]
    t.starts = [⟨1, 0x40080000, 7⟩] ∧ t.StartsOnce 1 :=
  ⟨rfl, (secondaries_start_once _ _).1 1 (by decide)⟩

end Trace
end Amber.Hvf
