import Amber.Hvf.GicCells

/-!
# The banks of other CPUs

Behind one set of offsets the software GIC keeps what is private to a CPU and what all share; the
CPU that makes an access is what picks the bank.  Here the question is what a CPU can do to the
bank of another, and what it can learn of it.

* `access_isolated` — an access leaves the bank of every other CPU as it is, but for a write to
  SGIR, which posts one SGI there; and no answer depends on another CPU's bank.
-/

namespace Amber.Hvf.GicV2

open Function

/-! ## What a CPU can do to another's bank -/

section Frame

variable {g : GicV2} {c t : ℕ}

variable (h : c ≠ t)

include h

theorem bank_modifyBank_of_ne (f : CpuBank → CpuBank) :
    (g.modifyBank c f).bank t = g.bank t := by
  rcases lt_or_ge t g.cpus.length with ht | ht
  · rw [bank_modifyBank ht, if_neg h]
  · exact bank_modifyBank_of_le ht f

theorem bank_put_of_ne (i : Intid) (f : {n : ℕ} → Fin n → Lines n → Lines n) :
    (g.put c i f).bank t = g.bank t := by
  by_cases hi : i.val < privateIntids
  · rw [put_private hi]
    exact bank_modifyBank_of_ne h _
  · rw [put_shared hi]
    rfl

theorem bank_distWrite_of_ne {off : ℕ} (hoff : align4 off ≠ Gicd.sgir) (size w : ℕ) :
    (g.distWrite c off size w).bank t = g.bank t :=
  distWrite_keep (P := fun g' => g'.bank t = g.bank t)
    (fun _ _ _ hg => (bank_put_of_ne h ..).trans hg) (fun _ _ hg => hg) rfl
    (fun hsgir => absurd hsgir hoff) rfl

omit h in
/-- Two values at one SGI are all that a write to SGIR changes in a bank. -/
theorem exists_bank_sgir (w : ℕ) : ∃ p s, (g.sgir c w).bank t =
    { g.bank t with
      pending := Function.update (g.bank t).pending (Fin.castLE (by decide) (sgiOf w)) p
      sgiSrc := Function.update (g.bank t).sgiSrc (sgiOf w) s } := by
  by_cases hhit : t < g.cpus.length ∧ sgiHits c w t = true
  · refine ⟨true, UInt8.ofNat c, ?_⟩
    rw [bank_sgir hhit.1, if_pos hhit.2]
  · refine ⟨(g.bank t).pending (Fin.castLE (by decide) (sgiOf w)), (g.bank t).sgiSrc (sgiOf w), ?_⟩
    rw [update_eq_self, update_eq_self]
    rcases lt_or_ge t g.cpus.length with ht | ht
    · rw [bank_sgir ht, if_neg fun hw => hhit ⟨ht, hw⟩]
    · simp [bank, sgir, List.getD_eq_getElem?_getD, List.getElem?_mapIdx, List.getElem?_eq_none ht]

theorem bank_acknowledge_of_ne : (g.acknowledge c).1.bank t = g.bank t := by
  cases hp : g.highestPending c with
  | none => rw [acknowledge_of_none hp]
  | some best =>
    rw [acknowledge, hp]
    exact (bank_modifyBank_of_ne h _).trans (bank_put_of_ne h _ _)

theorem bank_endOfInterrupt_of_ne (intid : ℕ) :
    (g.endOfInterrupt c intid).bank t = g.bank t := by
  rw [endOfInterrupt, bank_modifyBank_of_ne h]
  split_ifs
  · exact bank_put_of_ne h _ _
  · rfl

theorem bank_cpuRead_of_ne (off size : ℕ) :
    (g.cpuRead c off size).1.bank t = g.bank t := by
  rw [cpuRead_fst]
  split_ifs
  · exact bank_acknowledge_of_ne h
  · rfl

theorem bank_cpuWrite_of_ne (off w : ℕ) :
    (g.cpuWrite c off w).bank t = g.bank t := by
  unfold cpuWrite
  dsimp only
  split_ifs
  · exact bank_modifyBank_of_ne h _
  · exact bank_modifyBank_of_ne h _
  · exact bank_endOfInterrupt_of_ne h _
  · rfl

theorem bank_setLevel_of_ne (intid : ℕ) (high : Bool) :
    (g.setLevel c intid high).bank t = g.bank t := by
  unfold setLevel
  split_ifs
  · exact bank_put_of_ne h _ _
  · rfl

end Frame

/-- Who posted an SGI is not changed when it is acknowledged. -/
theorem sgiSrc_acked (g : GicV2) (c : ℕ) (i : Intid) (f : {n : ℕ} → Fin n → Lines n → Lines n)
    (prio : UInt8) :
    (((g.put c i f).modifyBank c
      fun b => { b with running := b.running ++ [prio] }).bank c).sgiSrc = (g.bank c).sgiSrc := by
  rw [interface_modifyBank (O := CpuBank.sgiSrc) (by exact fun _ => rfl)]
  exact interface_put (O := CpuBank.sgiSrc) (fun _ _ => rfl) ..

/-! ## What a CPU can learn of another's bank -/

/-- The same but for the banks of other CPUs. -/
structure SameFor (c : ℕ) (g g' : GicV2) : Prop where
  distEnabled : g'.distEnabled = g.distEnabled
  shared : g'.shared = g.shared
  targets : g'.targets = g.targets
  length : g'.cpus.length = g.cpus.length
  bank : g'.bank c = g.bank c

namespace SameFor

variable {c : ℕ} {g g' : GicV2} (h : SameFor c g g')

include h

theorem get {α : Type} {F : {n : ℕ} → Lines n → Fin n → α} (i : Intid) :
    g'.get c F i = g.get c F i :=
  get_congr (by rw [h.bank]) h.shared

theorem enabledAt : g'.enabledAt c = g.enabledAt c := funext h.get

theorem activeAt : g'.activeAt c = g.activeAt c := funext h.get

theorem priorityAt : g'.priorityAt c = g.priorityAt c := funext h.get

theorem edgeAt : g'.edgeAt c = g.edgeAt c := funext h.get

theorem isPending : g'.isPending c = g.isPending c := by
  funext i
  rw [GicV2.isPending, GicV2.isPending, h.targets, h.edgeAt, h.get, h.get]

theorem runningPrio : g'.runningPrio c = g.runningPrio c := by
  rw [GicV2.runningPrio, GicV2.runningPrio, h.bank]

theorem highestPending : g'.highestPending c = g.highestPending c := by
  rw [GicV2.highestPending, h.distEnabled, h.enabledAt, h.activeAt, h.priorityAt, h.isPending,
    h.bank, h.runningPrio]
  rfl

theorem distRead32 (off : ℕ) : g'.distRead32 c off = g.distRead32 c off := by
  rw [GicV2.distRead32, h.distEnabled, h.length, h.enabledAt, h.isPending, h.activeAt,
    h.priorityAt, h.targets, h.edgeAt]
  rfl

/-- What is acknowledged, and by whom it was posted, is in the own bank. -/
theorem acknowledge : (g'.acknowledge c).2 = (g.acknowledge c).2 := by
  rw [GicV2.acknowledge, GicV2.acknowledge, h.highestPending]
  cases g.highestPending c with
  | none => rfl
  | some best =>
    dsimp only
    rw [sgiSrc_acked, sgiSrc_acked, h.bank]

theorem cpuRead (off size : ℕ) : (g'.cpuRead c off size).2 = (g.cpuRead c off size).2 := by
  simp only [GicV2.cpuRead, apply_ite Prod.snd, h.bank, h.runningPrio, h.highestPending,
    h.acknowledge]

end SameFor

/-! ## Isolation -/

/-- What an access answers. -/
def answer (g : GicV2) : Access → Option ℕ
  | .distRead cpu off size => some (g.distRead cpu off size)
  | .cpuRead cpu off size => some (g.cpuRead cpu off size).2
  | .distWrite .. => none
  | .cpuWrite .. => none
  | .setLevel .. => none

/-- The SGI that an access posts: that of a write to SGIR. -/
def Access.sgi : Access → Option (Fin 16)
  | .distWrite _ off _ val => if align4 off = Gicd.sgir then some (sgiOf (val % 2 ^ 32)) else none
  | _ => none

theorem bank_access {g : GicV2} {a : Access} {t : ℕ} (ht : t ≠ a.cpu) (hsgi : a.sgi = none) :
    (g.access a).bank t = g.bank t := by
  cases a with
  | distRead cpu off size => rfl
  | distWrite cpu off size val =>
    refine bank_distWrite_of_ne ht.symm (fun hoff => ?_) size val
    rw [Access.sgi, if_pos hoff] at hsgi
    cases hsgi
  | cpuRead cpu off size => exact bank_cpuRead_of_ne ht.symm off size
  | cpuWrite cpu off size val => exact bank_cpuWrite_of_ne ht.symm off val
  | setLevel cpu intid high => exact bank_setLevel_of_ne ht.symm intid high

/-- **CPUs are isolated.**  An access leaves the whole bank of every other CPU as it is, unless it
is a write to SGIR; that changes there the pending bit and the source of the SGI it names and
nothing else.  What it answers is the same whatever the banks of other CPUs hold. -/
theorem access_isolated (g : GicV2) (a : Access) {t : ℕ} (ht : t ≠ a.cpu) :
    (a.sgi = none → (g.access a).bank t = g.bank t) ∧
      (∀ sgi, a.sgi = some sgi → ∃ p s, (g.access a).bank t =
        { g.bank t with
          pending := Function.update (g.bank t).pending (Fin.castLE (by decide) sgi) p
          sgiSrc := Function.update (g.bank t).sgiSrc sgi s }) ∧
      ∀ g', SameFor a.cpu g g' → g'.answer a = g.answer a := by
  refine ⟨bank_access ht, ?sgi, ?answer⟩
  case sgi =>
    intro sgi hsgi
    cases a with
    | distWrite cpu off size val =>
      rw [Access.sgi] at hsgi
      split_ifs at hsgi with hoff
      cases hsgi
      rw [access, distWrite_of_sgir hoff]
      exact exists_bank_sgir _
    | distRead cpu off size | cpuRead cpu off size => cases hsgi
    | cpuWrite cpu off size val => cases hsgi
    | setLevel cpu intid high => cases hsgi
  case answer =>
    intro g' hsame
    cases a with
    | distRead cpu off size =>
      exact congrArg (fun v => some (extract v off size)) (hsame.distRead32 (align4 off))
    | cpuRead cpu off size => exact congrArg some (hsame.cpuRead off size)
    | distWrite cpu off size val | cpuWrite cpu off size val => rfl
    | setLevel cpu intid high => rfl

/-- CPU 0 of two enables everything private and posts SGI 3 to CPU 1; the first does not show in
the bank of CPU 1, whose answers are the same with CPU 0 reset. -/
theorem access_isolated_two :
    let g := withCpus 2
    let g' := g.access (.distWrite 0 Gicd.isenabler 4 0xffffffff)
    g'.bank 1 = g.bank 1 ∧
      (∃ p s, (g'.access (.distWrite 0 Gicd.sgir 4 0x20003)).bank 1 =
        { g'.bank 1 with
          pending := update (g'.bank 1).pending (Fin.castLE (by decide) (3 : Fin 16)) p
          sgiSrc := update (g'.bank 1).sgiSrc 3 s }) ∧
      g'.answer (.distRead 1 Gicd.isenabler 4) = g.answer (.distRead 1 Gicd.isenabler 4) := by
  intro g g'
  have hbank : g'.bank 1 = g.bank 1 :=
    (access_isolated g (.distWrite 0 Gicd.isenabler 4 0xffffffff) (by decide)).1 rfl
  have hsame : SameFor 1 g g' := ⟨rfl, rfl, rfl, rfl, hbank⟩
  exact ⟨hbank, (access_isolated g' (.distWrite 0 Gicd.sgir 4 0x20003) (by decide)).2.1 3 rfl,
    (access_isolated g (.distRead 1 Gicd.isenabler 4) (t := 0) (by decide)).2.2 g' hsame⟩

end Amber.Hvf.GicV2
