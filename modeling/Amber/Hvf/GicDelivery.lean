import Amber.Hvf.GicCells

/-!
# Delivery of interrupts over runs of accesses

CPUs read and write the registers of the software GIC and devices change their lines, in any order.
Two things must survive every such run: an SGI that is posted stays pending until its CPU takes it,
and an interrupt that is taken is not taken again before it is ended.

* `Selected` — the CPUs the documented filter of SGIR picks.
* `latch_access` — exactly which accesses set and clear the latch of an SGI.
* `ipi_not_lost` — no posted SGI is lost, and nobody else gets it.
* `active_access` — an active INTID stays active until an access ends it.
* `active_not_delivered` — so no CPU can take it meanwhile.
-/

namespace Amber.Hvf.GicV2

open List Runs

variable {g : GicV2} {t c : ℕ} {i : Intid} {s : Fin 16}

/-! ## What an access means for an INTID -/

/-- SGI `s` as an INTID. -/
def sgi (s : Fin 16) : Intid := Fin.castLE (by decide) s

/-- The CPUs an SGIR write of `w` by `cpu` is for: those of the target list, all but the poster, or
the poster alone. -/
def Selected (cpu w t : ℕ) : Prop :=
  if w / 2 ^ 24 % 4 = 0 then w.testBit (16 + t) = true
  else if w / 2 ^ 24 % 4 = 1 then t ≠ cpu
  else t = cpu

/-- The access posts SGI `s` to CPU `t`. -/
def Access.Posts (t : ℕ) (s : Fin 16) : Access → Prop
  | .distWrite cpu off _ val =>
    align4 off = Gicd.sgir ∧ sgiOf (val % 2 ^ 32) = s ∧ Selected cpu (val % 2 ^ 32) t
  | _ => False

/-- CPU `t` sets its own latch through ISPENDR. -/
def Access.SetsPending (t : ℕ) (s : Fin 16) : Access → Prop
  | .distWrite cpu off _ val =>
    align4 off = Gicd.ispendr ∧ (val % 2 ^ 32).testBit s.val = true ∧ cpu = t
  | _ => False

/-- CPU `t` clears its own latch through ICPENDR. -/
def Access.ClearsPending (t : ℕ) (s : Fin 16) : Access → Prop
  | .distWrite cpu off _ val =>
    align4 off = Gicd.icpendr ∧ (val % 2 ^ 32).testBit s.val = true ∧ cpu = t
  | _ => False

/-- CPU `t` reads IAR and gets INTID `i`.  (An access narrower than the register sees some of its
bytes.) -/
def Takes (g : GicV2) (t : ℕ) (i : Intid) : Access → Prop
  | .cpuRead cpu off _ => cpu = t ∧ align4 off = Gicc.iar ∧ g.iarIntid t = i.val
  | _ => False

/-- The access writes EOIR for `i`, or clears its active bit through ICACTIVER; for a private INTID,
by CPU `t`. -/
def Access.Ends (t : ℕ) (i : Intid) : Access → Prop
  | .cpuWrite cpu off _ val =>
    align4 off = Gicc.eoir ∧ i.val = (val % 2 ^ 32) &&& 0x3ff ∧ (i.val < privateIntids → cpu = t)
  | .distWrite cpu off _ val =>
    align4 off = Gicd.icactiver + 4 * (i.val / 32) ∧
      (val % 2 ^ 32).testBit (i.val % 32) = true ∧ (i.val < privateIntids → cpu = t)
  | _ => False

/-- A device drives the line of an SGI, which no device has. -/
def Access.DrivesSgi : Access → Prop
  | .setLevel _ intid _ => intid < 16
  | _ => False

variable {start w off size : ℕ} {a : Access}

theorem bitAt_iff {o : ℕ} (hr : range o start 32 = true) (ho : o % 4 = 0)
    (hstart : start % 4 = 0) : BitAt o start w t i c ↔
      o = start + 4 * (i.val / 32) ∧ w.testBit (i.val % 32) = true ∧
        (i.val < privateIntids → c = t) := by
  have hrange := of_decide_eq_true hr
  unfold BitAt baseIndex align4
  constructor
  · rintro ⟨hlow, hhigh, hbit, hc⟩
    have hsub : i.val - (o - start - (o - start) % 4) * 8 = i.val % 32 := by omega
    rw [hsub] at hbit
    exact ⟨by omega, hbit, hc⟩
  · rintro ⟨heq, hbit, hc⟩
    have hsub : i.val - (o - start - (o - start) % 4) * 8 = i.val % 32 := by omega
    exact ⟨by omega, by omega, by rw [hsub]; exact hbit, hc⟩

theorem align4_mod (off : ℕ) : align4 off % 4 = 0 := by
  unfold align4
  omega

theorem length_access (a : Access) : (g.access a).cpus.length = g.cpus.length := by
  cases a with
  | distRead cpu off size => rfl
  | distWrite cpu off size w => exact length_distWrite ..
  | cpuRead cpu off size =>
    rw [access, cpuRead_fst]
    split_ifs
    · exact length_acknowledge
    · rfl
  | cpuWrite cpu off size w =>
    show (g.cpuWrite cpu off w).cpus.length = _
    unfold cpuWrite
    dsimp only
    split_ifs
    · exact length_modify ..
    · exact length_modify ..
    · refine (length_modify ..).trans ?_
      split_ifs
      · exact length_put ..
      · rfl
    · rfl
  | setLevel cpu intid high =>
    show (g.setLevel cpu intid high).cpus.length = _
    unfold setLevel
    split_ifs
    · exact length_put ..
    · rfl

/-! ## Active INTIDs -/

theorem active_distWrite (ht : t < g.cpus.length) (h : g.activeAt t i = true)
    (hno : ¬ (Access.distWrite c off size w).Ends t i) :
    (g.distWrite c off size w).activeAt t i = true := by
  refine distWrite_rule (P := fun g' => g'.activeAt t i = true) ?_ ?_ ?_ (fun start on => ?_)
    (fun _ => ?_) (fun _ => ?_) ?_ (fun hr => ?_) ?_ (fun _ => ?_) h
  · exact (get_writePriority_keep (F := Lines.active) fun _ _ _ => rfl).trans h
  · exact (get_writeTargets (F := Lines.active)).trans h
  · exact h
  · exact (get_bitsSet_keep (F := Lines.active) (f := setEnabled on) fun _ _ => rfl).trans h
  · exact (get_bitsSet_keep (F := Lines.active) (f := setPending true) fun _ _ => rfl).trans h
  · exact (get_bitsSet_keep (F := Lines.active) (f := setPending false) fun _ _ => rfl).trans h
  · rw [activeAt, get_bitsSet (f := setActive true) (v := true) ht fun _ _ => rfl]
    split_ifs
    · rfl
    · exact h
  · -- the register has a bit for the INTID, but this write does not set it
    rw [activeAt, get_bitsSet (f := setActive false) (v := false) ht fun _ _ => rfl, if_neg]
    · exact h
    · exact fun hbit => hno ((bitAt_iff hr (align4_mod off) (by decide)).1 hbit)
  · exact (get_writeConfig_keep (F := Lines.active) fun _ _ _ => rfl).trans h
  · exact (get_sgir_keep (F := Lines.active) ht _ fun _ _ => rfl).trans h

theorem active_acknowledge (ht : t < g.cpus.length) (h : g.activeAt t i = true) :
    (g.acknowledge c).1.activeAt t i = true := by
  cases hp : g.highestPending c with
  | none => rwa [acknowledge_of_none hp]
  | some best =>
    rw [activeAt, get_acknowledge hp,
      get_put (f := ackLines) (V := fun _ _ => true) ht fun _ _ => rfl]
    split_ifs
    · unfold get
      split_ifs <;> rfl
    · exact h

/-- An active INTID stays active until an access ends it. -/
theorem active_access (a : Access) (ht : t < g.cpus.length) (h : g.activeAt t i = true)
    (hno : ¬ a.Ends t i) : (g.access a).activeAt t i = true := by
  cases a with
  | distRead cpu off size => exact h
  | distWrite cpu off size w => exact active_distWrite ht h hno
  | cpuRead cpu off size =>
    rw [access, cpuRead_fst]
    split_ifs
    · exact active_acknowledge ht h
    · exact h
  | cpuWrite cpu off size w =>
    show (g.cpuWrite cpu off w).activeAt t i = true
    unfold cpuWrite
    dsimp only
    split_ifs with _ _ heoir
    · exact (get_modifyBank (F := Lines.active) (by exact fun _ => rfl)).trans h
    · exact (get_modifyBank (F := Lines.active) (by exact fun _ => rfl)).trans h
    · rw [active_endOfInterrupt ht, if_neg]
      · exact h
      · exact fun hend => hno ⟨heoir, hend⟩
    · exact h
  | setLevel cpu intid high =>
    show (g.setLevel cpu intid high).activeAt t i = true
    unfold setLevel
    split_ifs
    · exact (get_put_keep (F := Lines.active) (by exact fun _ _ => rfl)).trans h
    · exact h

theorem activeAt_congr {u : ℕ} (hu : i.val < privateIntids → u = t) :
    g.activeAt u i = g.activeAt t i := by
  by_cases hi : i.val < privateIntids
  · rw [hu hi]
  · exact (get_shared hi).trans (get_shared hi).symm

/-- What a CPU takes is active from then on. -/
theorem active_of_takes (ht : t < g.cpus.length) (h : g.Takes t i a) :
    (g.access a).activeAt t i = true := by
  cases a with
  | cpuRead cpu off size =>
    obtain ⟨rfl, hiar, hintid⟩ := h
    obtain ⟨p, hp⟩ := iarIntid_eq_iff.1 hintid
    rw [access, cpuRead_fst, if_pos hiar, activeAt, get_acknowledge hp,
      get_put (f := ackLines) (V := fun _ _ => true) ht fun _ _ => rfl,
      if_pos ⟨rfl, fun _ => rfl⟩]
    unfold get
    split_ifs <;> rfl
  | distRead cpu off size => exact h.elim
  | distWrite cpu off size w | cpuWrite cpu off size w => exact h.elim
  | setLevel cpu intid high => exact h.elim

/-- Nobody takes what is active. -/
theorem not_active_of_takes (h : g.Takes t i a) : g.activeAt t i = false := by
  cases a with
  | cpuRead cpu off size =>
    obtain ⟨p, hp⟩ := iarIntid_eq_iff.1 h.2.2
    exact (highestPending_ready hp).2.1
  | distRead cpu off size => exact h.elim
  | distWrite cpu off size w | cpuWrite cpu off size w => exact h.elim
  | setLevel cpu intid high => exact h.elim

/-- **An active interrupt is delivered to no one.**  After a CPU has taken an INTID, and whatever
registers are written and lines driven since, as long as the INTID is not ended no CPU gets it (for
a private INTID, not the CPU that has it). -/
theorem active_not_delivered (g : GicV2) {t u : ℕ} (ht : t < g.cpus.length) (i : Intid)
    {a : Access} (htake : g.Takes t i a) (l : List Access)
    (hl : Runs.Each access (fun _ b => ¬ b.Ends t i) (g.access a) l)
    (hu : i.val < privateIntids → u = t) (b : Access) :
    ¬ (Runs.run access (g.access a) l).Takes u i b := by
  have hactive : t < (run access (g.access a) l).cpus.length ∧
      (run access (g.access a) l).activeAt t i = true := by
    refine invariant (I := fun g => t < g.cpus.length ∧ g.activeAt t i = true)
      (fun g b h hno => ⟨?_, active_access b h.1 h.2 hno⟩) ⟨?_, active_of_takes ht htake⟩ hl
    · rw [length_access]
      exact h.1
    · rw [length_access]
      exact ht
  intro hagain
  have hidle := not_active_of_takes hagain
  rw [activeAt_congr hu, hactive.2] at hidle
  cases hidle

def spi40 : Intid := ⟨40, by decide⟩

/-- SPI 40 is enabled and its line is high. -/
def spiReady : List Access :=
  [.distWrite 0 Gicd.ctlr 4 1, .cpuWrite 0 Gicc.pmr 4 0xff, .cpuWrite 1 Gicc.pmr 4 0xff,
    .distWrite 0 (Gicd.isenabler + 4) 4 0x100, .setLevel 0 40 true]

/-- CPU 0 takes it, it is routed to CPU 1 as well, and its line falls and rises; CPU 1 does not get
it. -/
theorem active_not_delivered_spi :
    (Runs.run access (withCpus 2) spiReady).Takes 0 spi40 (.cpuRead 0 Gicc.iar 4) ∧
    ¬ (Runs.run access ((Runs.run access (withCpus 2) spiReady).access (.cpuRead 0 Gicc.iar 4))
      [.distWrite 1 (Gicd.itargetsr + 40) 1 3, .setLevel 0 40 false, .setLevel 0 40 true]).Takes 1
        spi40 (.cpuRead 1 Gicc.iar 4) := by
  have htake : (run access (withCpus 2) spiReady).Takes 0 spi40 (.cpuRead 0 Gicc.iar 4) :=
    ⟨rfl, by decide, by decide +kernel⟩
  refine ⟨htake, active_not_delivered _ (by decide) spi40 htake _ ?_
    (fun h => absurd h (by decide)) _⟩
  exact ⟨fun h => absurd h.1 (by decide), fun h => h, fun h => h, trivial⟩

/-! ## The latches of SGIs -/

theorem sgi_private (s : Fin 16) : (sgi s).val < privateIntids := s.isLt.trans (by decide)

theorem isPending_sgi (hedge : g.edgeAt t (sgi s) = true) :
    g.isPending t (sgi s) = g.get t Lines.pending (sgi s) := by
  have hprivate := sgi_private s
  rw [isPending, if_neg fun h => absurd hprivate (not_lt.2 h.1), if_pos hedge]

/-- The filter of the source is the documented one. -/
theorem sgiHits_iff (ht : t < maxCpus) : sgiHits c w t = true ↔ Selected c w t := by
  have hfilter : (w >>> 24) &&& 0x3 = w / 2 ^ 24 % 4 := by
    rw [Nat.shiftRight_eq_div_pow, show 0x3 = 2 ^ 2 - 1 from rfl, Nat.and_two_pow_sub_one_eq_mod]
  have hlist : ((w >>> 16) &&& 0xff).testBit t = w.testBit (16 + t) := by
    have ht8 : t < 8 := ht
    rw [show 0xff = 2 ^ 8 - 1 from rfl, Nat.and_two_pow_sub_one_eq_mod, Nat.testBit_mod_two_pow,
      Nat.testBit_shiftRight, decide_eq_true ht8, Bool.true_and]
  unfold sgiHits Selected
  dsimp only
  rw [hfilter, hlist]
  split_ifs
  · exact Iff.rfl
  · exact bne_iff_ne
  · exact beq_iff_eq

theorem pending_sgir (ht : t < g.cpus.length) (hlen : g.cpus.length ≤ maxCpus) (w : ℕ) :
    (g.sgir c w).get t Lines.pending (sgi s) = true ↔
      (sgiOf w = s ∧ Selected c w t) ∨ g.get t Lines.pending (sgi s) = true := by
  rw [get_private (sgi_private s), get_private (sgi_private s), bank_sgir ht]
  by_cases hsel : Selected c w t
  · rw [if_pos ((sgiHits_iff (ht.trans_le hlen)).2 hsel)]
    by_cases hs : sgiOf w = s
    · subst hs
      refine ⟨fun _ => .inl ⟨rfl, hsel⟩, fun _ => ?_⟩
      exact Function.update_self (Fin.castLE (by decide) (sgiOf w)) true (g.bank t).pending
    · have hne : (⟨(sgi s).val, sgi_private s⟩ : Fin privateIntids) ≠
          Fin.castLE (by decide) (sgiOf w) := fun heq => hs (Fin.ext (congrArg Fin.val heq).symm)
      show Function.update (g.bank t).pending _ true _ = true ↔ _
      rw [Function.update_of_ne hne]
      exact ⟨.inr, fun h => h.resolve_left fun h => hs h.1⟩
  · rw [if_neg fun h => hsel ((sgiHits_iff (ht.trans_le hlen)).1 h)]
    exact ⟨.inr, fun h => h.resolve_left fun h => hsel h.2⟩

theorem distWrite_of_ispendr (h : align4 off = Gicd.ispendr) (size w : ℕ) :
    g.distWrite c off size w =
      g.bitsSet c Gicd.ispendr Gicd.ispendr (w % 2 ^ 32) (setPending true) := by
  rw [distWrite, range_of_align4 h (by decide), range_of_align4 h (by decide), h]
  rfl

theorem distWrite_of_icpendr (h : align4 off = Gicd.icpendr) (size w : ℕ) :
    g.distWrite c off size w =
      g.bitsSet c Gicd.icpendr Gicd.icpendr (w % 2 ^ 32) (setPending false) := by
  rw [distWrite, range_of_align4 h (by decide), range_of_align4 h (by decide), h]
  rfl

/-- A bit of ISPENDR or ICPENDR beyond the first register is not an SGI's. -/
theorem not_bitAt_sgi (hr : range (align4 off) start 32 = true)
    (hstart : start % 4 = 0) (hne : align4 off ≠ start) :
    ¬ BitAt (align4 off) start w t (sgi s) c := by
  intro h
  have heq := ((bitAt_iff hr (align4_mod off) hstart).1 h).1
  have hs : (sgi s).val < 16 := s.isLt
  omega

/-- The other registers of the distributor leave the latches of SGIs alone. -/
theorem pending_distWrite_other (ht : t < g.cpus.length)
    (h₁ : align4 off ≠ Gicd.sgir) (h₂ : align4 off ≠ Gicd.ispendr)
    (h₃ : align4 off ≠ Gicd.icpendr) :
    (g.distWrite c off size w).get t Lines.pending (sgi s) = g.get t Lines.pending (sgi s) := by
  refine distWrite_rule
    (P := fun g' => g'.get t Lines.pending (sgi s) = g.get t Lines.pending (sgi s)) ?_ ?_ ?_
    (fun start on => ?_) (fun hr => ?_) (fun hr => ?_) ?_ (fun _ => ?_) ?_ (fun h => ?_) rfl
  · exact get_writePriority_keep (F := Lines.pending) fun _ _ _ => rfl
  · exact get_writeTargets (F := Lines.pending)
  · rfl
  · exact get_bitsSet_keep (F := Lines.pending) (f := setEnabled on) fun _ _ => rfl
  · rw [get_bitsSet (f := setPending true) (v := true) ht fun _ _ => rfl,
      if_neg (not_bitAt_sgi hr (by decide) h₂)]
  · rw [get_bitsSet (f := setPending false) (v := false) ht fun _ _ => rfl,
      if_neg (not_bitAt_sgi hr (by decide) h₃)]
  · exact get_bitsSet_keep (F := Lines.pending) (f := setActive true) fun _ _ => rfl
  · exact get_bitsSet_keep (F := Lines.pending) (f := setActive false) fun _ _ => rfl
  · exact get_writeConfig_keep (F := Lines.pending) fun _ _ _ => rfl
  · exact absurd h h₁

theorem bitAt_sgi (hstart : start % 4 = 0) :
    BitAt start start w t (sgi s) c ↔ w.testBit s.val = true ∧ c = t := by
  have hs : (sgi s).val < 16 := s.isLt
  have hr : range start start 32 = true := decide_eq_true (by omega)
  rw [bitAt_iff hr hstart hstart]
  have hmod : (sgi s).val % 32 = s.val := Nat.mod_eq_of_lt (hs.trans (by decide))
  rw [hmod]
  exact ⟨fun h => ⟨h.2.1, h.2.2 (sgi_private s)⟩, fun h => ⟨by omega, h.1, fun _ => h.2⟩⟩

theorem pending_distWrite (ht : t < g.cpus.length)
    (hlen : g.cpus.length ≤ maxCpus) :
    (g.distWrite c off size w).get t Lines.pending (sgi s) = true ↔
      (Access.distWrite c off size w).Posts t s ∨ (Access.distWrite c off size w).SetsPending t s ∨
        g.get t Lines.pending (sgi s) = true ∧
          ¬ (Access.distWrite c off size w).ClearsPending t s := by
  unfold Access.Posts Access.SetsPending Access.ClearsPending
  by_cases h₁ : align4 off = Gicd.sgir
  · rw [distWrite_of_sgir h₁, pending_sgir ht hlen]
    simp [h₁, Gicd.sgir, Gicd.ispendr, Gicd.icpendr]
  · by_cases h₂ : align4 off = Gicd.ispendr
    · rw [distWrite_of_ispendr h₂, get_bitsSet (f := setPending true) (v := true) ht fun _ _ => rfl,
        if_congr (bitAt_sgi (by decide)) rfl rfl]
      split_ifs with hbit
      · exact ⟨fun _ => .inr (.inl ⟨h₂, hbit⟩), fun _ => rfl⟩
      · refine ⟨fun h => .inr (.inr ⟨h, fun hc => absurd (h₂.symm.trans hc.1) (by decide)⟩), ?_⟩
        rintro (h | h | h)
        · exact absurd h.1 h₁
        · exact absurd h.2 hbit
        · exact h.1
    · by_cases h₃ : align4 off = Gicd.icpendr
      · rw [distWrite_of_icpendr h₃,
          get_bitsSet (f := setPending false) (v := false) ht fun _ _ => rfl,
          if_congr (bitAt_sgi (by decide)) rfl rfl]
        split_ifs with hbit
        · refine ⟨fun h => h.elim, ?_⟩
          rintro (h | h | h)
          · exact absurd h.1 h₁
          · exact absurd h.1 h₂
          · exact absurd ⟨h₃, hbit⟩ h.2
        · refine ⟨fun h => .inr (.inr ⟨h, fun hc => hbit hc.2⟩), ?_⟩
          rintro (h | h | h)
          · exact absurd h.1 h₁
          · exact absurd h.1 h₂
          · exact h.1
      · rw [pending_distWrite_other ht h₁ h₂ h₃]
        simp [h₁, h₂, h₃]

theorem pending_acknowledge (ht : t < g.cpus.length) (hedge : g.edgeAt t (sgi s) = true) :
    (g.acknowledge c).1.get t Lines.pending (sgi s) = true ↔
      g.get t Lines.pending (sgi s) = true ∧ ¬ (c = t ∧ g.iarIntid t = (sgi s).val) := by
  rw [iarIntid_eq_iff]
  cases hp : g.highestPending c with
  | none =>
    rw [acknowledge_of_none hp]
    refine ⟨fun h => ⟨h, ?_⟩, fun h => h.1⟩
    rintro ⟨rfl, p, hsome⟩
    rw [hp] at hsome
    cases hsome
  | some best =>
    obtain ⟨j, p⟩ := best
    rw [get_acknowledge hp, get_put (f := ackLines)
      (V := fun l k => if l.edge k then false else l.pending k) ht pending_ackLines]
    have hval : g.get t (fun l k => if l.edge k then false else l.pending k) (sgi s) = false := by
      have hbank : (g.bank t).edge ⟨(sgi s).val, sgi_private s⟩ = true := by
        rwa [edgeAt, get_private (sgi_private s)] at hedge
      rw [get_private (sgi_private s)]
      exact if_pos hbank
    split_ifs with hmeet
    · obtain ⟨rfl, hc⟩ := hmeet
      have hct : c = t := hc (sgi_private s)
      subst hct
      rw [hval]
      exact ⟨fun h => absurd h Bool.false_ne_true, fun h => absurd ⟨rfl, p, hp⟩ h.2⟩
    · refine ⟨fun h => ⟨h, ?_⟩, fun h => h.1⟩
      rintro ⟨rfl, p', hsome⟩
      rw [hp] at hsome
      cases hsome
      exact hmeet ⟨rfl, fun _ => rfl⟩

theorem pending_cpuWrite :
    (g.cpuWrite c off w).get t Lines.pending i = g.get t Lines.pending i := by
  unfold cpuWrite
  dsimp only
  split_ifs
  · exact get_modifyBank (F := Lines.pending) (by exact fun _ => rfl)
  · exact get_modifyBank (F := Lines.pending) (by exact fun _ => rfl)
  · exact get_endOfInterrupt_keep (F := Lines.pending) fun _ _ => rfl
  · rfl

theorem pending_setLevel {intid : ℕ} {high : Bool} :
    (g.setLevel c intid high).get t Lines.pending i = g.get t Lines.pending i := by
  unfold setLevel
  split_ifs
  · exact get_put_keep (F := Lines.pending) (by exact fun _ _ => rfl)
  · rfl

/-- SGIs stay edge-triggered. -/
theorem edge_access (ha : ¬ a.DrivesSgi) (ht : t < g.cpus.length) :
    (g.access a).edgeAt t (sgi s) = g.edgeAt t (sgi s) := by
  cases a with
  | distRead cpu off size => rfl
  | distWrite cpu off size w =>
    refine distWrite_rule (P := fun g' => g'.edgeAt t (sgi s) = g.edgeAt t (sgi s)) ?_ ?_ ?_
      (fun start on => ?_) (fun _ => ?_) (fun _ => ?_) ?_ (fun _ => ?_) ?_ (fun _ => ?_) rfl
    · exact get_writePriority_keep (F := Lines.edge) fun _ _ _ => rfl
    · exact get_writeTargets (F := Lines.edge)
    · rfl
    · exact get_bitsSet_keep (F := Lines.edge) (f := setEnabled on) fun _ _ => rfl
    · exact get_bitsSet_keep (F := Lines.edge) (f := setPending true) fun _ _ => rfl
    · exact get_bitsSet_keep (F := Lines.edge) (f := setPending false) fun _ _ => rfl
    · exact get_bitsSet_keep (F := Lines.edge) (f := setActive true) fun _ _ => rfl
    · exact get_bitsSet_keep (F := Lines.edge) (f := setActive false) fun _ _ => rfl
    · exact edge_writeConfig ht s.isLt
    · exact get_sgir_keep (F := Lines.edge) ht _ fun _ _ => rfl
  | cpuRead cpu off size =>
    rw [access, cpuRead_fst]
    split_ifs
    · cases hp : g.highestPending cpu with
      | none => rw [acknowledge_of_none hp]
      | some best =>
        rw [edgeAt, get_acknowledge hp, get_put_keep (f := ackLines) fun _ _ => rfl]
        rfl
    · rfl
  | cpuWrite cpu off size w =>
    show (g.cpuWrite cpu off w).edgeAt t (sgi s) = _
    unfold cpuWrite
    dsimp only
    split_ifs
    · exact get_modifyBank (F := Lines.edge) (by exact fun _ => rfl)
    · exact get_modifyBank (F := Lines.edge) (by exact fun _ => rfl)
    · exact get_endOfInterrupt_keep (F := Lines.edge) fun _ _ => rfl
    · rfl
  | setLevel cpu intid high =>
    show (g.setLevel cpu intid high).edgeAt t (sgi s) = _
    unfold setLevel
    split_ifs with hlt
    · rw [edgeAt, get_put (V := fun _ _ => false) ht (by exact fun _ _ => rfl), if_neg]
      · rfl
      · rintro ⟨heq, -⟩
        have hs : (sgi s).val < 16 := s.isLt
        rw [heq] at hs
        exact ha hs
    · rfl

/-- **Which accesses set and clear the latch of an SGI.**  After an access it is set if the access
posts the SGI to the CPU or sets it through ISPENDR, or if it was set and the CPU neither clears it
through ICPENDR nor takes it. -/
theorem latch_access (ha : ¬ a.DrivesSgi) (ht : t < g.cpus.length)
    (hlen : g.cpus.length ≤ maxCpus) (hedge : g.edgeAt t (sgi s) = true) :
    (g.access a).isPending t (sgi s) = true ↔ a.Posts t s ∨ a.SetsPending t s ∨
      g.isPending t (sgi s) = true ∧ ¬ a.ClearsPending t s ∧ ¬ g.Takes t (sgi s) a := by
  rw [isPending_sgi ((edge_access ha ht).trans hedge), isPending_sgi hedge]
  cases a with
  | distRead cpu off size =>
    simp [access, Access.Posts, Access.SetsPending, Access.ClearsPending, Takes]
  | distWrite cpu off size w =>
    rw [access, pending_distWrite ht hlen]
    simp [Takes]
  | cpuRead cpu off size =>
    rw [access, cpuRead_fst]
    split_ifs with hiar
    · rw [pending_acknowledge ht hedge]
      simp [Access.Posts, Access.SetsPending, Access.ClearsPending, Takes, hiar]
    · simp [Access.Posts, Access.SetsPending, Access.ClearsPending, Takes, hiar]
  | cpuWrite cpu off size w =>
    rw [access, pending_cpuWrite]
    simp [Access.Posts, Access.SetsPending, Access.ClearsPending, Takes]
  | setLevel cpu intid high =>
    rw [access, pending_setLevel]
    simp [Access.Posts, Access.SetsPending, Access.ClearsPending, Takes]

/-- What the runs of a controller with `m` CPUs keep. -/
structure SgisEdge (m : ℕ) (g : GicV2) : Prop where
  length_eq : g.cpus.length = m
  edge : ∀ t < m, ∀ s, g.edgeAt t (sgi s) = true

theorem withCpus_sgisEdge (n : ℕ) : (withCpus n).SgisEdge (withCpus n).cpus.length := by
  refine ⟨rfl, fun t ht s => ?_⟩
  have hbank : (withCpus n).bank t = CpuBank.default := by
    rw [bank, getD_eq_getElem?_getD, getElem?_eq_getElem ht]
    exact getElem_replicate _
  rw [edgeAt, get_private (sgi_private s), hbank]
  exact decide_eq_true s.isLt

theorem SgisEdge.access {m : ℕ} (h : g.SgisEdge m) (ha : ¬ a.DrivesSgi) :
    (g.access a).SgisEdge m where
  length_eq := (length_access a).trans h.length_eq
  edge t ht s := (edge_access ha (h.length_eq ▸ ht)).trans (h.edge t ht s)

/-- A run in which no device drives the line of an SGI. -/
theorem SgisEdge.run {m : ℕ} (h : g.SgisEdge m) {l : List Access} (hl : ∀ a ∈ l, ¬ a.DrivesSgi) :
    (Runs.run GicV2.access g l).SgisEdge m := by
  have heach : Runs.Each GicV2.access (fun _ a => ¬ a.DrivesSgi) g l := each_of_forall hl
  exact invariant (I := SgisEdge m) (fun _ _ h ha => h.access ha) h heach

/-- The SGI of one who is not selected changes nothing for a CPU. -/
theorem isPending_sgir_of_not_selected (ht : t < g.cpus.length) (hlen : g.cpus.length ≤ maxCpus)
    (h : ¬ Selected c w t) (i : Intid) :
    (g.sgir c w).isPending t i = g.isPending t i := by
  have hbank : (g.sgir c w).bank t = g.bank t := by
    rw [bank_sgir ht, if_neg fun hhit => h ((sgiHits_iff (ht.trans_le hlen)).1 hhit)]
  have hget : ∀ F : {n : ℕ} → Lines n → Fin n → Bool, (g.sgir c w).get t F i = g.get t F i :=
    fun F => get_congr (by rw [hbank]) rfl
  unfold isPending edgeAt
  rw [hget Lines.edge, hget Lines.pending, hget Lines.level]
  rfl

/-- **No IPI is lost.**  In every run of register accesses by all CPUs (and of device lines), an SGI
that is posted to a CPU stays pending there until that CPU takes it or clears it through ICPENDR.  A
CPU the filter does not select is left as it is, and in general the SGI of a CPU becomes pending
only by a post that selects it or through its own ISPENDR. -/
theorem ipi_not_lost (n : ℕ) {before : List Access} (hbefore : ∀ a ∈ before, ¬ a.DrivesSgi)
    {t : ℕ} (ht : t < (withCpus n).cpus.length) (s : Fin 16) :
    let g := Runs.run access (withCpus n) before
    (∀ post after, post.Posts t s → (∀ a ∈ after, ¬ a.DrivesSgi) →
      Runs.Each access (fun g a => ¬ a.ClearsPending t s ∧ ¬ g.Takes t (sgi s) a)
        (g.access post) after →
      (Runs.run access (g.access post) after).isPending t (sgi s) = true) ∧
    (∀ cpu off size w, align4 off = Gicd.sgir → ¬ Selected cpu (w % 2 ^ 32) t → ∀ i,
      (g.access (.distWrite cpu off size w)).isPending t i = g.isPending t i) ∧
    ∀ a, ¬ a.DrivesSgi → g.isPending t (sgi s) = false →
      (g.access a).isPending t (sgi s) = true → a.Posts t s ∨ a.SetsPending t s := by
  have hcpus : (withCpus n).cpus.length ≤ maxCpus := by
    rw [withCpus, length_replicate]
    exact min_le_right _ _
  have hstart := (withCpus_sgisEdge n).run hbefore
  generalize run access (withCpus n) before = g at hstart ⊢
  have htg : ∀ {g : GicV2}, g.SgisEdge (withCpus n).cpus.length → t < g.cpus.length := fun h => by
    rw [h.length_eq]
    exact ht
  have hmax : ∀ {g : GicV2}, g.SgisEdge (withCpus n).cpus.length → g.cpus.length ≤ maxCpus :=
    fun h => by
      rw [h.length_eq]
      exact hcpus
  refine ⟨fun post after hpost hafter hl => ?_, fun cpu off size w hoff hsel i => ?_,
    fun a ha hidle hrises => ?_⟩
  · have hdrives : ¬ post.DrivesSgi := by
      cases post with
      | setLevel cpu intid high => exact hpost.elim
      | _ => exact id
    have hposted : (g.access post).isPending t (sgi s) = true :=
      (latch_access hdrives (htg hstart) (hmax hstart) (hstart.edge t ht s)).2 (.inl hpost)
    -- from the post on, the latch is part of the invariant
    refine (invariant (I := fun g => g.SgisEdge (withCpus n).cpus.length ∧
        g.isPending t (sgi s) = true) (fun g a h hok => ?_) ⟨hstart.access hdrives, hposted⟩
      (each_and.2 ⟨each_of_forall hafter, hl⟩)).2
    exact ⟨h.1.access hok.1,
      (latch_access hok.1 (htg h.1) (hmax h.1) (h.1.edge t ht s)).2 (.inr (.inr ⟨h.2, hok.2⟩))⟩
  · rw [access, distWrite_of_sgir hoff]
    exact isPending_sgir_of_not_selected (htg hstart) (hmax hstart) hsel i
  · rcases (latch_access ha (htg hstart) (hmax hstart) (hstart.edge t ht s)).1 hrises with
      h | h | h
    · exact .inl h
    · exact .inr h
    · rw [h.1] at hidle
      cases hidle

/-- SGI 5 is posted again while CPU 1 is still handling it; it is pending when CPU 1 is done. -/
theorem ipi_not_lost_active :
    (Runs.run access (withCpus 2) ipiTaken).activeAt 1 (sgi 5) = true ∧
    (Runs.run access ((Runs.run access (withCpus 2) ipiTaken).access
      (.distWrite 0 Gicd.sgir 4 0x20005)) [.cpuWrite 1 Gicc.eoir 4 5]).isPending 1 (sgi 5) =
      true := by
  refine ⟨by decide +kernel, (ipi_not_lost 2 ?_ (by decide) 5).1 _ _ ?_ ?_ ?_⟩
  · exact fun a ha => by
      simp only [ipiTaken, mem_cons, not_mem_nil, or_false] at ha
      rcases ha with rfl | rfl | rfl | rfl | rfl | rfl <;> exact id
  · exact ⟨by decide, by decide, by unfold Selected; decide⟩
  · exact fun a ha => by
      rw [mem_singleton.1 ha]
      exact id
  · exact ⟨⟨fun h => h, fun h => h⟩, trivial⟩

end Amber.Hvf.GicV2
