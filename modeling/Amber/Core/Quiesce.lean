import Amber.Core.RunLoop

/-!
# Quiescing for a snapshot

In every run of the threads of a VM, while the primary is writing the snapshot, every vcpu stands
as it was captured.  A vcpu that has left its registers finds `want` set each time it comes round
its loop, and nobody clears it; the primary goes nowhere but on to the end.

* `Inv.step` — what every step of every thread keeps.
* `quiesce_coherent` — the registers written are those the vcpus have, and a vcpu that does not
  leave its own makes the snapshot fail.
-/

namespace Amber.RunLoop

/-- On its way to the end of a snapshot, or ended. -/
def PrimaryPc.stopping : PrimaryPc → Bool
  | .quiesce | .captureGic | .writing | .done _ => true
  | _ => false

/-- Between its own capture and the end of the write. -/
def PrimaryPc.holding : PrimaryPc → Bool
  | .quiesce | .captureGic | .writing => true
  | _ => false

/-- All the others have left their registers. -/
def PrimaryPc.complete : PrimaryPc → Bool
  | .captureGic | .writing => true
  | _ => false

/-- Neither in the guest nor in a device. -/
def SecondaryPc.calm : SecondaryPc → Bool
  | .head | .checkWant | .deposit | .parked | .exited => true
  | _ => false

variable {ρ : Type} {k : ℕ}

/-! ## The primary -/

namespace Primary

variable {running paused smp deposited : Bool} {c : Choice ρ} {p : Primary ρ}

/-- There is no way back into the loop. -/
theorem next_stopping (h : p.pc.stopping = true) :
    (p.next running paused smp deposited c).pc.stopping = true := by
  have hgoes := next_goes running paused smp deposited c p
  generalize p.pc = pc at h hgoes
  generalize (p.next running paused smp deposited c).pc = pc' at hgoes ⊢
  cases hgoes <;> first | rfl | cases h

/-- The capture is of the registers as they are, and it stays so. -/
theorem next_captured (h : p.pc.holding = true → p.captured = some p.cpu)
    (hnext : (p.next running paused smp deposited c).pc.holding = true) :
    (p.next running paused smp deposited c).captured =
      some (p.next running paused smp deposited c).cpu := by
  by_cases hsnap : p.pc = .snapPoint
  · unfold next at hnext ⊢
    rw [hsnap] at hnext ⊢
    cases hdue : c.due <;> cases hfails : c.fails <;> simp only [hdue, hfails] at hnext ⊢
    · cases hnext
    · cases hnext
    · rfl
    · cases hnext
  · -- from anywhere else it was holding already
    have hgoes := next_goes running paused smp deposited c p
    have hold : p.pc.holding = true := by
      generalize p.pc = pc at hsnap hgoes ⊢
      generalize (p.next running paused smp deposited c).pc = pc' at hnext hgoes
      cases hgoes <;> first | rfl | exact absurd rfl hsnap | cases hnext
    have hcpu : (p.next running paused smp deposited c).cpu = p.cpu :=
      next_cpu (fun hpc => by rw [hpc] at hold; cases hold)
        (fun hpc => by rw [hpc] at hold; cases hold)
    rw [next_captured_of_ne hsnap, hcpu]
    exact h hold

/-- The wait ends when every slot is filled; with one vcpu there is none. -/
theorem next_complete (h : (p.next running paused smp deposited c).pc.complete = true) :
    p.pc.complete = true ∨ deposited = true ∨ smp = false := by
  have hgoes := next_goes running paused smp deposited c p
  generalize p.pc = pc at hgoes ⊢
  generalize (p.next running paused smp deposited c).pc = pc' at h hgoes
  cases hgoes with
  | alone hsmp => exact .inr (.inr hsmp)
  | complete hdep => exact .inr (.inl hdep)
  | write => exact .inl rfl
  | _ => cases h

end Primary

/-! ## The others -/

/-- A vcpu that has left its registers has them still, and is not in the guest; and it leaves
them only when asked. -/
structure Secondary.Kept (want : Bool) (q : Secondary ρ) : Prop where
  slot : ∀ cpu, q.slot = some cpu → want = true ∧ cpu = q.cpu ∧ q.pc.calm = true
  asked : q.pc = .deposit → want = true

namespace Secondary

variable {running paused want : Bool} {c : Choice ρ} {q : Secondary ρ}

/-- The loop goes to a place that is neither in the guest nor the deposit. -/
theorem Kept.moveTo (h : q.Kept want) {pc : SecondaryPc} (hcalm : pc.calm = true)
    (hpc : pc = .deposit → want = true) : ({ q with pc } : Secondary ρ).Kept want := by
  refine ⟨fun cpu hslot => ?_, hpc⟩
  obtain ⟨hwant, hcpu, -⟩ := h.slot cpu hslot
  exact ⟨hwant, hcpu, hcalm⟩

/-- Nothing is left by a vcpu that is in the guest or in a device. -/
theorem Kept.slot_none (h : q.Kept want) (hpc : q.pc.calm = false) : q.slot = none := by
  cases hslot : q.slot with
  | none => rfl
  | some cpu =>
    rw [(h.slot cpu hslot).2.2] at hpc
    cases hpc

/-- Nor by one that nobody has asked. -/
theorem Kept.slot_none_of_not_want (h : q.Kept want) (hwant : want = false) : q.slot = none := by
  cases hslot : q.slot with
  | none => rfl
  | some cpu =>
    rw [(h.slot cpu hslot).1] at hwant
    cases hwant

theorem Kept.of_none (h : q.slot = none) (hpc : q.pc ≠ .deposit) : q.Kept want := by
  refine ⟨fun cpu hslot => ?_, fun heq => absurd heq hpc⟩
  rw [h] at hslot
  cases hslot

theorem Kept.leave (h : q.Kept want) (hwant : want = true) : (q.leave c).Kept want := by
  unfold Secondary.leave
  cases hslot : q.slot with
  | some cpu =>
    have hmoved : ({ q with pc := .parked } : Secondary ρ).Kept want :=
      h.moveTo rfl nofun
    rw [hslot] at hmoved
    exact hmoved
  | none =>
    cases c.fails with
    | some err => exact .of_none rfl nofun
    | none =>
      refine ⟨fun cpu hcpu => ?_, nofun⟩
      cases hcpu
      exact ⟨hwant, rfl, rfl⟩

theorem afterRun_ne_deposit (c : Choice ρ) : afterRun c ≠ .deposit := by
  unfold afterRun
  split <;> decide

/-- One turn of the loop. -/
theorem Kept.next (h : q.Kept want) : (q.next running paused want c).Kept want := by
  unfold Secondary.next
  cases hpc : q.pc with
  | create | gate =>
    refine .of_none (h.slot_none (by rw [hpc]; rfl)) ?_
    dsimp only
    split_ifs <;> decide
  | head =>
    dsimp only
    split_ifs
    · exact h.moveTo rfl nofun
    · exact h.moveTo rfl nofun
  | checkWant =>
    dsimp only
    split_ifs with hwant
    · exact h.moveTo rfl fun _ => hwant
    · exact .of_none (h.slot_none_of_not_want (Bool.eq_false_iff.2 hwant)) nofun
  | deposit => exact h.leave (h.asked hpc)
  | parked => exact h.moveTo rfl nofun
  | run => exact .of_none (h.slot_none (by rw [hpc]; rfl)) (afterRun_ne_deposit c)
  | mmio | idle => exact .of_none (h.slot_none (by rw [hpc]; rfl)) nofun
  | exited => exact h

/-- What has been left is not taken back. -/
theorem next_slot (h : q.slot.isSome = true) :
    (q.next running paused want c).slot.isSome = true := by
  unfold Secondary.next
  cases q.pc with
  | deposit =>
    obtain ⟨cpu, hcpu⟩ := Option.isSome_iff_exists.1 h
    simp [Secondary.leave, hcpu]
  | _ => exact h

theorem Kept.mono {want' : Bool} (h : q.Kept want) (hwant : want = true → want' = true) :
    q.Kept want' :=
  ⟨fun cpu hslot => ⟨hwant (h.slot cpu hslot).1, (h.slot cpu hslot).2⟩, fun hpc =>
    hwant (h.asked hpc)⟩

end Secondary

/-! ## All of them -/

namespace Sys

/-- What holds in every state. -/
structure Inv (s : Sys ρ k) : Prop where
  stopping : s.want = true → s.primary.pc.stopping = true
  captured : s.primary.pc.holding = true → s.primary.captured = some s.primary.cpu
  complete : s.primary.pc.complete = true → ∀ i, (s.secondary i).slot.isSome = true
  kept : ∀ i, (s.secondary i).Kept s.want

variable {s : Sys ρ k}

theorem inv_start (hasControl : Bool) (cpu : Cpu ρ) (cpus : Fin k → Cpu ρ) :
    (start hasControl cpu cpus).Inv where
  stopping h := by cases h
  captured h := by cases h
  complete h := by cases h
  kept _ := .of_none rfl nofun

theorem Inv.primaryStep (h : s.Inv) (c : Choice ρ) : (s.primaryStep c).Inv where
  stopping hwant := by
    rcases Bool.or_eq_true_iff.1 hwant with hwant | hpc
    · exact Primary.next_stopping (h.stopping hwant)
    · show (s.primary.next s.running s.paused (decide (0 < k)) s.deposited c).pc.stopping = true
      rw [eq_of_beq hpc]
      rfl
  captured hnext := Primary.next_captured h.captured hnext
  complete hnext := by
    rcases Primary.next_complete hnext with hold | hdep | hsmp
    · exact h.complete hold
    · exact of_decide_eq_true hdep
    · -- with one vcpu there are no others
      exact fun i => absurd (Nat.zero_lt_of_lt i.isLt) (of_decide_eq_false hsmp)
  kept i := (h.kept i).mono fun hwant => Bool.or_eq_true_iff.2 (.inl hwant)

theorem Inv.secondaryStep (h : s.Inv) (i : Fin k) (c : Choice ρ) : (s.secondaryStep i c).Inv where
  stopping := h.stopping
  captured := h.captured
  complete hpc j := by
    by_cases hj : j = i
    · rw [hj, secondaryStep_self]
      exact Secondary.next_slot (h.complete hpc i)
    · rw [secondaryStep_of_ne s c hj]
      exact h.complete hpc j
  kept j := by
    by_cases hj : j = i
    · rw [hj, secondaryStep_self]
      exact (h.kept i).next
    · rw [secondaryStep_of_ne s c hj]
      exact h.kept j

theorem Inv.step (h : s.Inv) (e : Event ρ k) : (s.step e).Inv := by
  cases e with
  | primary c => exact h.primaryStep c
  | secondary i c => exact h.secondaryStep i c
  | control _ | send _ | hangUp => exact ⟨h.stopping, h.captured, h.complete, h.kept⟩

/-- A slot that is empty keeps the primary waiting until the deadline, and then it gives up. -/
theorem quiesce_of_missing {i : Fin k} (hpc : s.primary.pc = .quiesce)
    (hslot : (s.secondary i).slot = none) (c : Choice ρ) :
    (s.step (.primary c)).primary.pc =
      if c.expired then .done (some quiesceError) else .quiesce := by
  have hdep : s.deposited = false := by
    refine decide_eq_false fun hall => ?_
    have := hall i
    rw [hslot] at this
    cases this
  show (s.primary.next s.running s.paused (decide (0 < k)) s.deposited c).pc = _
  rw [Primary.next, hpc, hdep]
  rfl

/-- **Snapshots are of a machine at rest.**  In every run of the threads of a VM: while the
primary writes the snapshot it has its own registers as it captured them, the slot of every other
vcpu has the registers that vcpu has, with no guest code run and no exit served since, and none
is in the guest or in a device.  And while a slot is empty the primary does not go on to write:
when the deadline has passed it fails. -/
theorem quiesce_coherent (hasControl : Bool) (cpu : Cpu ρ) (cpus : Fin k → Cpu ρ)
    (l : List (Event ρ k)) :
    let s := Runs.run step (start hasControl cpu cpus) l
    (s.primary.pc = .writing → s.primary.captured = some s.primary.cpu ∧
      ∀ i, (s.secondary i).slot = some (s.secondary i).cpu ∧ (s.secondary i).pc.calm = true) ∧
    (s.primary.pc = .quiesce → ∀ i, (s.secondary i).slot = none → ∀ c,
      (s.step (.primary c)).primary.pc =
        if c.expired then .done (some quiesceError) else .quiesce) := by
  intro s
  have hinv : s.Inv := Runs.invariant_always (I := Inv) (fun _ e h => h.step e)
    (inv_start hasControl cpu cpus) l
  refine ⟨fun hpc => ⟨hinv.captured (by rw [hpc]; rfl), fun i => ?_⟩,
    fun hpc i hslot c => quiesce_of_missing hpc hslot c⟩
  obtain ⟨c, hc⟩ := Option.isSome_iff_exists.1 (hinv.complete (by rw [hpc]; rfl) i)
  obtain ⟨-, hcpu, hcalm⟩ := (hinv.kept i).slot c hc
  exact ⟨hcpu ▸ hc, hcalm⟩

/-- A choice of one's own, with nothing failing. -/
def quietly (due : Bool) : Choice ℕ := ⟨.idle, 7, none, due, false⟩

-- the other vcpu comes up, runs once, and is asked for its registers
example : (Runs.run step (start (k := 1) false ⟨0, 0⟩ fun _ => ⟨0, 0⟩)
    (List.replicate 6 (.secondary 0 (quietly false)) ++
      List.replicate 4 (.primary (quietly true)) ++
      List.replicate 4 (.secondary 0 (quietly false)) ++
      List.replicate 2 (.primary (quietly true)))).primary.pc = .writing := by decide +kernel

end Sys
end Amber.RunLoop
