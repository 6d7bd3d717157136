import Mathlib.Logic.Equiv.Fintype
import Amber.Core.Snapshot
import Amber.Hvf.DataAbort

/-!
# Vcpus on Hypervisor.framework

The state of a vcpu and of the PSCI slot table (`amber-hvf/src/lib.rs`), its capture into a
`CpuSnapshot` and the restore from one, and how a vcpu is brought up: `create_vcpu` parks every
secondary, the guest's `CPU_ON` posts an entry point in its slot, and its thread picks that up
in `run`.

The power state of a vcpu is in three places: the slot, the flag `started`, and the thread that
is parked or not.  A `CpuSnapshot` has none of them.

* `restore_of_capture` — a restore of what was captured succeeds and brings the registers back.
* `restoreAll_eq` — what the restores of all vcpus, in any order, leave.
* `Machine.PowerKept` — what it means that the power state has survived.
-/

namespace Amber.Hvf

open Snapshot

/-! ## One vcpu -/

def cntvCtlEl0 : BitVec 16 := 0xdf19
def cntvCvalEl0 : BitVec 16 := 0xdf1a

/-- The framework on this host: the system registers it lists (`SYS_REGS`), which of them it lets
be read and written; and whether the GIC is the software one. -/
structure Host where
  sysRegs : List (BitVec 16)
  readable : BitVec 16 → Bool
  writable : BitVec 16 → Bool
  swgic : Bool

structure HvfVcpu where
  regs : Regs
  sys : BitVec 16 → BitVec 64
  fp : Fin 32 → Vector UInt8 16
  vtimerOffset : BitVec 64
  vtimerMask : Bool
  /-- False for a secondary that has not been turned on; `run` parks it. -/
  started : Bool

open List Function Option

/-- `hv_vcpu_set_reg`. -/
def hvVcpuSetReg (r : Regs) (reg : ℕ) (v : BitVec 64) : Option Regs :=
  if h : reg < 31 then some { r with x := Function.update r.x ⟨reg, h⟩ v }
  else if reg = hvRegPc then some { r with pc := v }
  else if reg = hvRegFpcr then some { r with fpcr := v }
  else if reg = hvRegFpsr then some { r with fpsr := v }
  else if reg = hvRegCpsr then some { r with cpsr := v }
  else none

/-- Set registers from `X0 + i` on. -/
def setXs (r : Regs) (i : ℕ) : List (BitVec 64) → Option Regs
  | [] => some r
  | v :: vs => (hvVcpuSetReg r (hvRegX0 + i) v).bind fun r => setXs r (i + 1) vs

namespace HvfVcpu

/-- The virtual counter at host instant `now`. -/
def cntvct (v : HvfVcpu) (now : BitVec 64) : BitVec 64 := now - v.vtimerOffset

/-- `HvfVcpu::capture` at host instant `mono`. -/
def capture (host : Host) (mono : BitVec 64) (v : HvfVcpu) : CpuSnapshot where
  x := List.ofFn v.regs.x
  pc := v.regs.pc
  cpsr := v.regs.cpsr
  fpcr := v.regs.fpcr
  fpsr := v.regs.fpsr
  vtimerOffset := v.vtimerOffset
  mono := mono
  sysregs := (host.sysRegs.filter host.readable).map fun id => (id, v.sys id)
  fp := List.ofFn v.fp
  kvmRegs := []

/-- One system register.  With the framework's own GIC the timer's are left alone; a register
that refuses is skipped. -/
def restoreSys (host : Host) (sys : BitVec 16 → BitVec 64) (p : BitVec 16 × BitVec 64) :
    BitVec 16 → BitVec 64 :=
  if !host.swgic && (p.1 == cntvCtlEl0 || p.1 == cntvCvalEl0) then sys
  else if host.writable p.1 then Function.update sys p.1 p.2
  else sys

/-- The vtimer offset that continues the captured counter from host instant `now`. -/
def newOffset (now : BitVec 64) (cpu : CpuSnapshot) : BitVec 64 :=
  now - (cpu.mono - cpu.vtimerOffset)

/-- `HvfVcpu::restore` at host instant `now`, but for the slot.  The vector registers are not
set. -/
def restore (host : Host) (now : BitVec 64) (cpu : CpuSnapshot) (v : HvfVcpu) : Option HvfVcpu :=
  (setXs v.regs 0 cpu.x).map fun regs =>
    { v with
      started := true
      regs := { regs with fpcr := cpu.fpcr, fpsr := cpu.fpsr, cpsr := cpu.cpsr, pc := cpu.pc }
      vtimerOffset := newOffset now cpu
      vtimerMask := false
      sys := cpu.sysregs.foldl (restoreSys host) v.sys }

end HvfVcpu

/-- The general registers with those from `i` on replaced by a list. -/
def spliceXs (x : Fin 31 → BitVec 64) (i : ℕ) (vs : List (BitVec 64)) : Fin 31 → BitVec 64 :=
  fun k => if i ≤ k.val then vs.getD (k.val - i) (x k) else x k

variable (x : Fin 31 → BitVec 64)

theorem spliceXs_nil (i : ℕ) : spliceXs x i [] = x := by
  funext k
  rw [spliceXs, getD_nil, ite_self]

theorem spliceXs_cons {i : ℕ} (hi : i < 31) (v : BitVec 64) (vs : List (BitVec 64)) :
    spliceXs (Function.update x ⟨i, hi⟩ v) (i + 1) vs = spliceXs x i (v :: vs) := by
  funext k
  unfold spliceXs
  rcases Nat.lt_trichotomy k.val i with hk | hk | hk
  · have hne : k ≠ ⟨i, hi⟩ := fun heq => hk.ne (congrArg Fin.val heq)
    rw [if_neg (by omega), if_neg (by omega), update_of_ne hne]
  · have heq : k = ⟨i, hi⟩ := Fin.ext hk
    rw [if_neg (by omega), if_pos hk.ge, heq, update_self, Nat.sub_self]
    rfl
  · have hne : k ≠ ⟨i, hi⟩ := fun heq => hk.ne' (congrArg Fin.val heq)
    have hsub : k.val - i = (k.val - (i + 1)) + 1 := by omega
    rw [if_pos (by omega), if_pos hk.le, update_of_ne hne, hsub, getD_cons_succ]

theorem setXs_eq {i : ℕ} {vs : List (BitVec 64)} (r : Regs) (h : i + vs.length ≤ 31) :
    setXs r i vs = some { r with x := spliceXs r.x i vs } := by
  induction vs generalizing r i with
  | nil => rw [setXs, spliceXs_nil]
  | cons v vs ih =>
    rw [length_cons] at h
    have hi : i < 31 := by omega
    have hset : hvVcpuSetReg r (hvRegX0 + i) v =
        some { r with x := update r.x ⟨i, hi⟩ v } := by
      have hreg : hvRegX0 + i = i := zero_add i
      rw [hvVcpuSetReg, hreg, dif_pos hi]
    rw [setXs, hset, bind_some, ih _ (by omega), spliceXs_cons]

/-- **What was captured can be restored.**  The registers come back, the vcpu counts as started,
and its counter goes on from where the capture left it. -/
theorem restore_of_capture (host : Host) (mono now : BitVec 64) (v fresh : HvfVcpu) :
    ∃ v', fresh.restore host now (v.capture host mono) = some v' ∧ v'.regs = v.regs ∧
      v'.started = true ∧ v'.vtimerOffset = now - (mono - v.vtimerOffset) := by
  have hxs : setXs fresh.regs 0 (v.capture host mono).x =
      some { fresh.regs with x := v.regs.x } := by
    rw [setXs_eq _ (by rw [HvfVcpu.capture, length_ofFn])]
    have hall : spliceXs fresh.regs.x 0 (ofFn v.regs.x) = v.regs.x := by
      funext k
      rw [spliceXs, if_pos (Nat.zero_le _), Nat.sub_zero, getD_eq_getElem?_getD,
        List.getElem?_ofFn, dif_pos k.isLt, getD_some]
    rw [HvfVcpu.capture, hall]
  rw [HvfVcpu.restore, hxs, map_some]
  exact ⟨_, rfl, rfl, rfl, rfl⟩

/-! ## The slot table -/

/-- PSCI life-cycle of one vcpu. -/
inductive CpuOn
  | off
  | posted (entry ctx : BitVec 64)
  | on
  deriving DecidableEq

/-- The vcpus of a VM and the state they share. -/
structure Machine (n : ℕ) where
  slot : Fin n → CpuOn
  vcpu : Fin n → HvfVcpu

namespace Machine

variable {n : ℕ}

/-- All vcpus as `create_vcpu` leaves them: the first is on, the others are parked. -/
def create (hw : Fin n → HvfVcpu) : Machine n where
  slot i := if i.val = 0 then .on else .off
  vcpu i := { hw i with started := i.val == 0 }

def modifyVcpu (m : Machine n) (i : Fin n) (f : HvfVcpu → HvfVcpu) : Machine n :=
  { m with vcpu := Function.update m.vcpu i (f (m.vcpu i)) }

def setSlot (m : Machine n) (i : Fin n) (s : CpuOn) : Machine n :=
  { m with slot := Function.update m.slot i s }

/-- The result of a call, in `x0`. -/
def setX0 (m : Machine n) (i : Fin n) (v : BitVec 64) : Machine n :=
  m.modifyVcpu i fun c => { c with regs := { c.regs with x := Function.update c.regs.x 0 v } }

/-- What vcpu `i` has in `x0`. -/
def x0 (m : Machine n) (i : Fin n) : BitVec 64 := (m.vcpu i).regs.x 0

/-- `CPU_ON` from vcpu `i`: success, already on (-4), or no such vcpu (-2). -/
def cpuOn (m : Machine n) (i : Fin n) (target : ℕ) (entry ctx : BitVec 64) : Machine n :=
  if h : target < n then
    if m.slot ⟨target, h⟩ = .off then (m.setSlot ⟨target, h⟩ (.posted entry ctx)).setX0 i 0
    else m.setX0 i (-4)
  else m.setX0 i (-2)

/-- `AFFINITY_INFO`: 0 for a vcpu that is on or about to be, else 1. -/
def affinityInfo (m : Machine n) (i : Fin n) (target : ℕ) : Machine n :=
  if h : target < n then m.setX0 i (if m.slot ⟨target, h⟩ = .off then 1 else 0)
  else m.setX0 i 1

/-- A hypercall of vcpu `i`; `true` for a shutdown. -/
def hvc (m : Machine n) (i : Fin n) : Machine n × Bool :=
  let x := (m.vcpu i).regs.x
  let func := x 0
  let target := (x 1 &&& 0xff).toNat
  if func = 0x84000008 ∨ func = 0x84000009 then (m, true)
  else if func = 0x84000000 then (m.setX0 i 0x10000, false)
  else if func = 0x84000003 ∨ func = 0xc4000003 then (m.cpuOn i target (x 2) (x 3), false)
  else if func = 0x84000004 ∨ func = 0xc4000004 then (m.affinityInfo i target, false)
  else (m.setX0 i (-1), false)

/-- Target, entry and context, if the hypercall that vcpu `i` makes is `CPU_ON`. -/
def asksCpuOn (m : Machine n) (i : Fin n) : Option (ℕ × BitVec 64 × BitVec 64) :=
  let x := (m.vcpu i).regs.x
  if x 0 = 0x84000003 ∨ x 0 = 0xc4000003 then some ((x 1 &&& 0xff).toNat, x 2, x 3) else none

/-- A vcpu comes up at EL1 with interrupts masked, at the entry with the context. -/
def bootRegs (r : Regs) (entry ctx : BitVec 64) : Regs :=
  { r with cpsr := 0x3c5, pc := entry, x := Function.update r.x 0 ctx }

/-- The thread of a posted vcpu picks the entry up. -/
def bringUp (m : Machine n) (i : Fin n) (entry ctx : BitVec 64) : Machine n :=
  (m.setSlot i .on).modifyVcpu i fun c =>
    { c with regs := bootRegs c.regs entry ctx, started := true }

/-- The head of `HvfVcpu::run`: the machine in which vcpu `i` executes its next instruction, or
`none` if it stays parked. -/
def enter (m : Machine n) (i : Fin n) : Option (Machine n) :=
  if (m.vcpu i).started then some m
  else
    match m.slot i with
    | .posted entry ctx => some (m.bringUp i entry ctx)
    | _ => none

/-- `HvfVcpu::restore` of vcpu `i`, with its slot. -/
def restoreVcpu (host : Host) (now : Fin n → BitVec 64) (snaps : Fin n → CpuSnapshot)
    (m : Machine n) (i : Fin n) : Option (Machine n) :=
  ((m.vcpu i).restore host (now i) (snaps i)).map fun v => (m.setSlot i .on).modifyVcpu i fun _ => v

/-- Every vcpu restores on its own thread; `order` is the order they come in. -/
def restoreAll (host : Host) (now : Fin n → BitVec 64) (snaps : Fin n → CpuSnapshot)
    (order : Equiv.Perm (Fin n)) (m : Machine n) : Option (Machine n) :=
  ((List.finRange n).map order).foldlM (restoreVcpu host now snaps) m

variable {m : Machine n} {i j : Fin n} {snaps : Fin n → CpuSnapshot} {restored : Fin n → HvfVcpu}
  (f : HvfVcpu → HvfVcpu)

theorem modifyVcpu_self : (m.modifyVcpu i f).vcpu i = f (m.vcpu i) :=
  update_self i _ _

theorem modifyVcpu_of_ne (h : j ≠ i) :
    (m.modifyVcpu i f).vcpu j = m.vcpu j := update_of_ne h _ _

theorem setSlot_self (s : CpuOn) : (m.setSlot i s).slot i = s := update_self i _ _

theorem setSlot_of_ne (s : CpuOn) (h : j ≠ i) : (m.setSlot i s).slot j = m.slot j :=
  update_of_ne h _ _

/-! ## Restoring all vcpus -/

/-- The restores touch their own vcpu and slot only, so their order does not show. -/
theorem restoreIn_eq (host : Host) (now : Fin n → BitVec 64) (order : List (Fin n))
    (hnodup : order.Nodup) (m : Machine n)
    (h : ∀ i ∈ order, (m.vcpu i).restore host (now i) (snaps i) = some (restored i)) :
    ∃ r, order.foldlM (restoreVcpu host now snaps) m = some r ∧
      (∀ i ∈ order, r.slot i = .on ∧ r.vcpu i = restored i) ∧
      ∀ i, i ∉ order → r.slot i = m.slot i ∧ r.vcpu i = m.vcpu i := by
  induction order generalizing m with
  | nil => exact ⟨m, rfl, nofun, fun i _ => ⟨rfl, rfl⟩⟩
  | cons i order ih =>
    obtain ⟨hout, hnodup⟩ := nodup_cons.1 hnodup
    have hfirst := h i mem_cons_self
    have hne : ∀ j ∈ order, j ≠ i := fun j hj heq => hout (heq ▸ hj)
    -- the machine after the first restore
    have hstep : restoreVcpu host now snaps m i =
        some ((m.setSlot i .on).modifyVcpu i fun _ => restored i) := by
      rw [restoreVcpu, hfirst, map_some]
    obtain ⟨r, hr, hin, hkept⟩ := ih hnodup ((m.setSlot i .on).modifyVcpu i fun _ => restored i)
      (fun j hj => by
        rw [modifyVcpu_of_ne _ (hne j hj)]
        exact h j (mem_cons_of_mem _ hj))
    refine ⟨r, ?_, ?_, ?_⟩
    · rw [foldlM_cons, hstep]
      exact hr
    · intro j hj
      rcases mem_cons.1 hj with rfl | hj
      · obtain ⟨hslot, hvcpu⟩ := hkept j hout
        rw [hslot, hvcpu, modifyVcpu_self]
        exact ⟨setSlot_self _, rfl⟩
      · exact hin j hj
    · intro j hj
      rw [mem_cons, not_or] at hj
      obtain ⟨hslot, hvcpu⟩ := hkept j hj.2
      rw [hslot, hvcpu, modifyVcpu_of_ne _ hj.1]
      exact ⟨setSlot_of_ne _ hj.1, rfl⟩

/-- **All vcpus restored, in whatever order**: every slot says on, and every vcpu is what its own
restore makes of it. -/
theorem restoreAll_eq (host : Host) (now : Fin n → BitVec 64) (order : Equiv.Perm (Fin n))
    (m : Machine n) (h : ∀ i, (m.vcpu i).restore host (now i) (snaps i) = some (restored i)) :
    m.restoreAll host now snaps order = some ⟨fun _ => .on, restored⟩ := by
  have hnodup : ((finRange n).map order).Nodup :=
    (nodup_finRange n).map order.injective
  obtain ⟨r, hr, hin, -⟩ := restoreIn_eq host now _ hnodup m fun i _ => h i
  have hall : ∀ i, i ∈ (finRange n).map order := fun i =>
    mem_map.2 ⟨order.symm i, mem_finRange _, order.apply_symm_apply i⟩
  have hmachine : r = ⟨fun _ => .on, restored⟩ := by
    cases r
    congr
    · funext i
      exact (hin i (hall i)).1
    · funext i
      exact (hin i (hall i)).2
  rw [restoreAll, hr, hmachine]

/-! ## Bring-up -/

theorem setX0_x0 (v : BitVec 64) : ((m.setX0 i v).vcpu i).regs.x 0 = v := by
  rw [setX0, modifyVcpu_self]
  show update (m.vcpu i).regs.x 0 v 0 = v
  rw [update_self]

theorem setX0_started (v : BitVec 64) : ((m.setX0 i v).vcpu j).started = (m.vcpu j).started := by
  by_cases h : j = i
  · rw [h, setX0, modifyVcpu_self]
  · rw [setX0, modifyVcpu_of_ne _ h]

/-! ## The power state -/

/-- The power state has survived: a vcpu runs without being turned on exactly if it was on, and
one that was off is off and can be turned on. -/
def PowerKept (m r : Machine n) : Prop :=
  ∀ i, ((r.enter i).isSome = true ↔ m.slot i = .on) ∧
    (m.slot i = .off → r.slot i = .off ∧ ∀ caller entry ctx, ∃ r',
      (r.cpuOn caller i.val entry ctx).enter i = some r' ∧
        (r'.vcpu i).regs.pc = entry ∧ (r'.vcpu i).regs.x 0 = ctx)

end Machine
end Amber.Hvf
