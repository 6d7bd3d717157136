import Mathlib.Data.Fin.VecNotation
import Mathlib.Tactic.Ring
import Amber.Hvf.Vcpu

/-!
# Restoring a machine with several vcpus

What the guest sees after `capture` and `restore` of every vcpu, each at its own host instant
and in any order: the counters it compares between CPUs, and which CPUs run.

`restore` computes the timer offset of a vcpu from the two instants of that vcpu alone, and it
marks every vcpu as running.

* `cntvct_coherent_iff` — the counters agree exactly when as much time lies between capture and
  restore for every vcpu.
* `powerKept_iff` — the power state survives exactly when every vcpu was on.
-/

namespace Amber.Hvf.Machine

open Snapshot

variable {n : ℕ}

/-- All vcpus captured, each at its own instant. -/
def snapshot (host : Host) (mono : Fin n → BitVec 64) (m : Machine n) : Fin n → CpuSnapshot :=
  fun i => (m.vcpu i).capture host (mono i)

/-- A VM created on fresh vcpus `hw` and restored from the snapshot of `m`. -/
def reborn (host : Host) (mono now : Fin n → BitVec 64) (order : Equiv.Perm (Fin n))
    (hw : Fin n → HvfVcpu) (m : Machine n) : Option (Machine n) :=
  (create hw).restoreAll host now (m.snapshot host mono) order

/-- Every vcpu is back with its registers, on and started. -/
theorem reborn_eq (host : Host) (mono now : Fin n → BitVec 64) (order : Equiv.Perm (Fin n))
    (hw : Fin n → HvfVcpu) (m : Machine n) : ∃ r, m.reborn host mono now order hw = some r ∧
      ∀ i, r.slot i = .on ∧ (r.vcpu i).started = true ∧ (r.vcpu i).regs = (m.vcpu i).regs ∧
        (r.vcpu i).vtimerOffset = now i - (mono i - (m.vcpu i).vtimerOffset) := by
  choose restored hrestored hregs hstarted hoffset using fun i =>
    restore_of_capture host (mono i) (now i) (m.vcpu i) ((create hw).vcpu i)
  refine ⟨_, restoreAll_eq host now order (create hw) hrestored, fun i => ?_⟩
  exact ⟨rfl, hstarted i, hregs i, hoffset i⟩

/-! ## The counters -/

/-- All vcpus read the same counter at every instant. -/
def CountersAgree (m : Machine n) : Prop :=
  ∀ now i j, (m.vcpu i).cntvct now = (m.vcpu j).cntvct now

theorem countersAgree_iff {m : Machine n} :
    m.CountersAgree ↔ ∀ i j, (m.vcpu i).vtimerOffset = (m.vcpu j).vtimerOffset := by
  unfold CountersAgree HvfVcpu.cntvct
  constructor
  · intro h i j
    exact sub_right_injective (h 0 i j)
  · intro h now i j
    rw [h i j]

/-- **When the counters agree after a restore.**  If they agree at capture, they agree again
exactly when the time from capture to restore is the same for every vcpu. -/
theorem cntvct_coherent_iff (host : Host) (mono now : Fin n → BitVec 64)
    (order : Equiv.Perm (Fin n)) (hw : Fin n → HvfVcpu) (m : Machine n)
    (hoff : ∀ i j, (m.vcpu i).vtimerOffset = (m.vcpu j).vtimerOffset) :
    ∃ r, m.reborn host mono now order hw = some r ∧
      (r.CountersAgree ↔ ∀ i j, now i - mono i = now j - mono j) := by
  obtain ⟨r, hr, hall⟩ := reborn_eq host mono now order hw m
  refine ⟨r, hr, ?_⟩
  have hoffset : ∀ i, (r.vcpu i).vtimerOffset = now i - mono i + (m.vcpu i).vtimerOffset := by
    intro i
    rw [(hall i).2.2.2, sub_add]
  rw [countersAgree_iff]
  refine forall_congr' fun i => forall_congr' fun j => ?_
  rw [hoffset i, hoffset j, hoff i j]
  exact add_left_inj _

/-! ## The power state -/

/-- **When the power state survives a restore**: exactly when every vcpu was on. -/
theorem powerKept_iff (host : Host) (mono now : Fin n → BitVec 64) (order : Equiv.Perm (Fin n))
    (hw : Fin n → HvfVcpu) (m : Machine n) : ∃ r, m.reborn host mono now order hw = some r ∧
      (m.PowerKept r ↔ ∀ i, m.slot i = .on) := by
  obtain ⟨r, hr, hall⟩ := reborn_eq host mono now order hw m
  refine ⟨r, hr, ?_⟩
  -- every restored vcpu runs at once
  have hruns : ∀ i, (r.enter i).isSome = true := by
    intro i
    rw [Machine.enter, if_pos (hall i).2.1]
    rfl
  constructor
  · intro h i
    exact (h i).1.1 (hruns i)
  · intro h i
    refine ⟨⟨fun _ => h i, fun _ => hruns i⟩, fun hoff => ?_⟩
    rw [h i] at hoff
    cases hoff

/-! ## Two vcpus -/

/-- A host with the software GIC and no system registers to speak of. -/
def plainHost : Host := ⟨[], fun _ => true, fun _ => true, true⟩

/-- A vcpu at reset, with a timer offset. -/
def resetVcpu (offset : BitVec 64) : HvfVcpu where
  regs := ⟨fun _ => 0, 0, 0, 0, 0⟩
  sys _ := 0
  fp _ := Vector.replicate 16 0
  vtimerOffset := offset
  vtimerMask := false
  started := false

/-- Two vcpus just created. -/
def twoVcpus : Machine 2 := create fun _ => resetVcpu 7

/-- Captured at 1000 and 1100, restored at 5000 and 5100: the counters agree. -/
theorem cntvct_coherent_twoVcpus : ∃ r, twoVcpus.reborn plainHost ![1000, 1100] ![5000, 5100]
    (Equiv.refl _) (fun _ => resetVcpu 0) = some r ∧ r.CountersAgree := by
  obtain ⟨r, hr, hiff⟩ := cntvct_coherent_iff plainHost ![1000, 1100] ![5000, 5100]
    (Equiv.refl _) (fun _ => resetVcpu 0) twoVcpus (fun _ _ => rfl)
  exact ⟨r, hr, hiff.2 (by decide)⟩

/-- **Counters that differ.**  The second vcpu is captured a hundred ticks after the first and
both are restored at once: its counter is a hundred ahead for good. -/
theorem cntvct_skewed : (∀ i j, (twoVcpus.vcpu i).vtimerOffset = (twoVcpus.vcpu j).vtimerOffset) ∧
    ∃ r, twoVcpus.reborn plainHost ![1000, 1100] ![5000, 5000] (Equiv.refl _)
      (fun _ => resetVcpu 0) = some r ∧
      ∀ now, (r.vcpu 1).cntvct now = (r.vcpu 0).cntvct now + 100 := by
  refine ⟨fun _ _ => rfl, ?_⟩
  obtain ⟨r, hr, hall⟩ := reborn_eq plainHost ![1000, 1100] ![5000, 5000] (Equiv.refl _)
    (fun _ => resetVcpu 0) twoVcpus
  refine ⟨r, hr, fun now => ?_⟩
  rw [HvfVcpu.cntvct, HvfVcpu.cntvct, (hall 0).2.2.2, (hall 1).2.2.2]
  show now - (5000 - (1100 - 7)) = now - (5000 - (1000 - 7)) + 100
  ring

/-- **A vcpu that was never turned on runs.**  Captured before its bring-up, the second vcpu is
on after the restore, it executes at address 0, and turning it on is refused. -/
theorem off_runs : twoVcpus.slot 1 = .off ∧
    ∃ r, twoVcpus.reborn plainHost ![1000, 1000] ![5000, 5000] (Equiv.refl _)
      (fun _ => resetVcpu 0) = some r ∧ ¬ twoVcpus.PowerKept r ∧
      r.enter 1 = some r ∧ (r.vcpu 1).regs.pc = 0 ∧
      ((r.cpuOn 0 1 0x40200000 0).vcpu 0).regs.x 0 = -4 := by
  refine ⟨rfl, ?_⟩
  obtain ⟨r, hr, hall⟩ := reborn_eq plainHost ![1000, 1000] ![5000, 5000] (Equiv.refl _)
    (fun _ => resetVcpu 0) twoVcpus
  obtain ⟨hon, hstarted, hregs, -⟩ := hall 1
  have hruns : r.enter 1 = some r := by rw [Machine.enter, if_pos hstarted]
  refine ⟨r, hr, fun h => ?_, hruns, by rw [hregs]; rfl, ?_⟩
  · have hslot := (h 1).1.1 (by rw [hruns]; rfl)
    cases hslot
  · have hrefused : r.cpuOn 0 1 0x40200000 0 = r.setX0 0 (-4) := by
      have hne : ¬ r.slot ⟨1, by decide⟩ = .off := by
        show ¬ r.slot 1 = .off
        rw [hon]
        decide
      rw [Machine.cpuOn, dif_pos (by decide), if_neg hne]
    rw [hrefused, setX0_x0]

end Amber.Hvf.Machine
