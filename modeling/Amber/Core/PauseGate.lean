import Amber.Core.RunLoop

/-!
# The pause gate at shutdown

The primary waits at the pause gate for as long as the VM is paused, whether it is still to run
or not; the other vcpus look at `running`, too.  The gate opens again only by a frame from the
control reader, and the reader ends when `running` is cleared.

* `Frozen.step` — a primary at the closed gate of a stopped VM, with the reader gone, stays there
  whatever anyone does.
* `no_deadlock` — this does not come about as long as the VM is stopped only with the primary
  away from the closed gate, and not paused once it is stopped.
* `pause_then_gone` — a pause, and then the daemon is gone.
-/

namespace Amber.RunLoop.Sys

open Control

variable {ρ : Type} {k : ℕ} {s : Sys ρ k} {c : Choice ρ}

/-- The VM is stopped, and the primary is at the pause gate and cannot get away from it: no
thread, whatever it does, lets it go on. -/
def Deadlock (s : Sys ρ k) : Prop :=
  s.running = false ∧ s.primary.pc = .gate ∧ ∀ l, (Runs.run step s l).primary.pc = .gate

/-- While the primary is at the gate: no vcpu and no end of the channel stops the VM when it is
paused, and it is not paused when it is stopped. -/
def Graceful (s : Sys ρ k) : Event ρ k → Prop
  | .secondary i c => s.primary.pc = .gate → s.paused = true → (s.secondary i).stops c = false
  | .control c => s.primary.pc = .gate →
    (s.paused = true → s.channel.hangsUp c = false) ∧
      (s.running = false → s.channel.frame c ≠ some .pause)
  | _ => True

instance (s : Sys ρ k) (e : Event ρ k) : Decidable (s.Graceful e) := by
  cases e <;> unfold Graceful <;> infer_instance

/-! ## The gate of a stopped VM is open -/

def Open (s : Sys ρ k) : Prop := s.running = false → s.primary.pc = .gate → s.paused = false

/-- The primary is at the gate because the VM runs, or because the gate is closed. -/
theorem primaryStep_gate (h : (s.primaryStep c).primary.pc = .gate) :
    s.primary.pc = .head ∧ s.running = true ∨ s.primary.pc = .gate ∧ s.paused = true := by
  have hgoes := Primary.next_goes s.running s.paused (decide (0 < k)) s.deposited c s.primary
  rw [show (s.primary.next s.running s.paused (decide (0 < k)) s.deposited c).pc = .gate from h]
    at hgoes
  generalize s.primary.pc = pc at hgoes ⊢
  cases hgoes with
  | enter hrunning => exact .inl ⟨rfl, hrunning⟩
  | wait hpaused => exact .inr ⟨rfl, hpaused⟩

/-- A primary at the gate has not cleared `running` with this step. -/
theorem primaryStep_running (h : (s.primaryStep c).primary.pc = .gate) :
    (s.primaryStep c).running = s.running := by
  have hfin : (s.primaryStep c).primary.finished = false := by
    rw [Primary.finished, h]
  show (s.running && !(s.primaryStep c).primary.finished) = s.running
  rw [hfin, Bool.not_false, Bool.and_true]

theorem Open.primaryStep (h : s.Open) (c : Choice ρ) : (s.primaryStep c).Open := by
  intro hstopped hgate
  rw [primaryStep_running hgate] at hstopped
  rcases primaryStep_gate hgate with ⟨-, hrunning⟩ | ⟨hold, -⟩
  · rw [hrunning] at hstopped
    cases hstopped
  · exact h hstopped hold

theorem Open.secondaryStep (h : s.Open) {i : Fin k} (hc : s.Graceful (.secondary i c)) :
    (s.secondaryStep i c).Open := by
  intro hstopped hgate
  rcases Bool.and_eq_false_iff.1 hstopped with hold | hstops
  · exact h hold hgate
  · -- this step stops the VM, so it is not paused
    refine Bool.eq_false_iff.2 fun hpaused => ?_
    rw [hc hgate hpaused] at hstops
    cases hstops

/-- The end of the channel is no frame. -/
theorem frame_of_hangsUp {ch : Channel} {c : ControlChoice} (h : ch.hangsUp c = true) :
    ch.frame c = none := by
  obtain ⟨hpc, hends⟩ := Bool.and_eq_true_iff.1 h
  have hbyte : ch.byte c = none := by
    unfold Channel.byte
    rcases Bool.or_eq_true_iff.1 hends with hfails | hempty
    · rw [if_pos hfails]
    · have hwire : ch.wire = [] := List.isEmpty_iff.1 (Bool.and_eq_true_iff.1 hempty).1
      rw [hwire]
      split_ifs <;> rfl
  rw [Channel.frame, eq_of_beq hpc, hbyte]

theorem Open.controlStep (h : s.Open) {c : ControlChoice} (hc : s.Graceful (.control c)) :
    (s.controlStep c).Open := by
  intro hstopped hgate
  obtain ⟨hhang, hpause⟩ := hc hgate
  show applyFrame s.paused (s.channel.frame c) = false
  rcases Bool.and_eq_false_iff.1 hstopped with hold | hends
  · -- stopped before: the gate was open, and this is no pause
    rw [h hold hgate]
    have hne := hpause hold
    cases hframe : s.channel.frame c with
    | none => rfl
    | some f =>
      cases f with
      | pause => exact absurd hframe hne
      | resume => rfl
      | balloon mib => rfl
  · -- the channel ends
    have hends : s.channel.hangsUp c = true := by simpa using hends
    rw [frame_of_hangsUp hends]
    refine Bool.eq_false_iff.2 fun hpaused => ?_
    rw [hhang hpaused] at hends
    cases hends

theorem Open.step (h : s.Open) {e : Event ρ k} (he : s.Graceful e) : (s.step e).Open := by
  cases e with
  | primary c => exact h.primaryStep c
  | secondary i c => exact h.secondaryStep he
  | control c => exact h.controlStep he
  | send b => exact h
  | hangUp => exact h

/-- Through an open gate the primary goes. -/
theorem Open.not_deadlock (h : s.Open) : ¬ s.Deadlock := by
  rintro ⟨hstopped, hgate, hstuck⟩
  have hpaused := h hstopped hgate
  let c : Choice ρ := ⟨.idle, s.primary.cpu.regs, none, false, false⟩
  have hstay : (s.primaryStep c).primary.pc = .gate := hstuck [.primary c]
  rcases primaryStep_gate hstay with ⟨hhead, -⟩ | ⟨-, hclosed⟩
  · rw [hhead] at hgate
    cases hgate
  · rw [hpaused] at hclosed
    cases hclosed

/-- **No deadlock in a graceful run.**  As long as the VM is stopped, by the end of the control
channel or by another vcpu, only with the primary away from the closed gate, and no pause is
taken after that with the primary at the gate, the primary of a stopped VM is never stuck at the
gate. -/
theorem no_deadlock (hasControl : Bool) (cpu : Cpu ρ) (cpus : Fin k → Cpu ρ)
    (l : List (Event ρ k)) (hl : Runs.Each step Graceful (start hasControl cpu cpus) l) :
    ¬ (Runs.run step (start hasControl cpu cpus) l).Deadlock :=
  (Runs.invariant (I := Open) (fun _ _ h he => h.step he) (fun h => by cases h) hl).not_deadlock

/-! ## The gate that stays closed -/

/-- Nobody is left who could open the gate. -/
structure Frozen (s : Sys ρ k) : Prop where
  stopped : s.running = false
  gate : s.primary.pc = .gate
  paused : s.paused = true
  gone : s.channel.pc = .exited

theorem Frozen.step (h : s.Frozen) (e : Event ρ k) : (s.step e).Frozen := by
  cases e with
  | primary c =>
    have hpc : (s.primaryStep c).primary.pc = .gate := by
      show (s.primary.next s.running s.paused (decide (0 < k)) s.deposited c).pc = .gate
      rw [Primary.next, h.gate, h.paused]
      rfl
    exact ⟨(primaryStep_running hpc).trans h.stopped, hpc, h.paused, h.gone⟩
  | secondary i c =>
    refine ⟨?_, h.gate, h.paused, h.gone⟩
    show (s.running && _) = false
    rw [h.stopped, Bool.false_and]
  | control c =>
    have hframe : s.channel.frame c = none := by rw [Channel.frame, h.gone]
    refine ⟨?_, h.gate, ?_, ?_⟩
    · show (s.running && _) = false
      rw [h.stopped, Bool.false_and]
    · show applyFrame s.paused (s.channel.frame c) = true
      rw [hframe]
      exact h.paused
    · show (s.channel.next s.running c).pc = .exited
      rw [Channel.next, h.gone]
      exact h.gone
  | send _ | hangUp => exact ⟨h.stopped, h.gate, h.paused, h.gone⟩

theorem Frozen.deadlock (h : s.Frozen) : s.Deadlock :=
  ⟨h.stopped, h.gate, fun l =>
    (Runs.invariant_always (I := Frozen) (fun _ e h => h.step e) h l).gate⟩

/-! ## Runs of a VM with two vcpus -/

/-- Nothing fails; the vcpus exit with `exit`. -/
def meets (exit : VmExit) : Choice ℕ := ⟨exit, 0, none, false, false⟩

/-- One turn of the control reader with something to read. -/
def readTurn : List (Event ℕ 1) := List.replicate 3 (.control ⟨true, false⟩)

/-- The VM is paused, and the primary comes to the gate. -/
def pausedRun : List (Event ℕ 1) :=
  List.replicate 4 (.secondary 0 (meets .idle)) ++ [.send opPause] ++ readTurn ++
    [.primary (meets .idle)]

def twoCpus : Sys ℕ 1 := start true ⟨0, 0⟩ fun _ => ⟨0, 0⟩

/-- A pause, a resume, and then the daemon is gone. -/
theorem no_deadlock_resumed :
    let l := pausedRun ++ [.send opResume] ++ readTurn ++ [.primary (meets .idle), .hangUp] ++
      readTurn
    (Runs.run step twoCpus l).running = false ∧ ¬ (Runs.run step twoCpus l).Deadlock :=
  ⟨by decide +kernel, no_deadlock true ⟨0, 0⟩ (fun _ => ⟨0, 0⟩) _ (by decide +kernel)⟩

/-- **Stuck at the gate.**  The VM is paused and then the daemon is gone; or it is paused while
the other vcpu is in the guest, which then shuts it down.  Either way the primary waits for a
resume that nobody is left to read. -/
theorem pause_then_gone :
    (Runs.run step twoCpus (pausedRun ++ [.hangUp] ++ readTurn)).Deadlock ∧
    (Runs.run step twoCpus (pausedRun ++ [.secondary 0 (meets .shutdown),
      .control ⟨false, false⟩])).Deadlock :=
  ⟨Frozen.deadlock ⟨by decide +kernel, by decide +kernel, by decide +kernel, by decide +kernel⟩,
    Frozen.deadlock ⟨by decide +kernel, by decide +kernel, by decide +kernel, by decide +kernel⟩⟩

end Amber.RunLoop.Sys
