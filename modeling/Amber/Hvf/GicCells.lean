import Amber.Lib.Runs
import Amber.Hvf.GicSnapshot

/-!
# One INTID of one CPU

What the accesses to the software GIC do to the per-INTID arrays, seen at one place: INTID `i` of
CPU `t`, which is in the bank of `t` for a private INTID and in the shared block for an SPI.

* `get_put` — a change of the arrays at one place, seen at another.
* `foldl_range` — the loops of the source over the bits and bytes of a register.
* `get_bitsSet` — a write to a register of one bit per INTID.
* `bank_sgir` — a write to SGIR, seen in the bank of a CPU.
* `get_acknowledge` — a read of IAR.
-/

namespace Amber.Hvf.GicV2

open List Function

variable {g : GicV2} {t c : ℕ} {i j : Intid} {α : Type}
  {F V : {n : ℕ} → Lines n → Fin n → α} {f : {n : ℕ} → Fin n → Lines n → Lines n}
  {h : CpuBank → CpuBank}

/-- CPU `c` and CPU `t` mean the same place by INTIDs `j` and `i`. -/
def Meets (t : ℕ) (i : Intid) (c : ℕ) (j : Intid) : Prop :=
  i = j ∧ (i.val < privateIntids → c = t)

instance (t : ℕ) (i : Intid) (c : ℕ) (j : Intid) : Decidable (Meets t i c j) :=
  inferInstanceAs (Decidable (_ ∧ _))

/-! ## Banks -/

theorem bank_modifyBank (ht : t < g.cpus.length) (h : CpuBank → CpuBank) :
    (g.modifyBank c h).bank t = if c = t then h (g.bank t) else g.bank t := by
  simp only [bank, modifyBank, getD_eq_getElem?_getD, getElem?_modify,
    getElem?_eq_getElem ht, Option.getD_some]
  split_ifs <;> rfl

theorem bank_modifyBank_of_le (ht : g.cpus.length ≤ t) (h : CpuBank → CpuBank) :
    (g.modifyBank c h).bank t = g.bank t := by
  simp only [bank, modifyBank, getD_eq_getElem?_getD, getElem?_modify, getElem?_eq_none ht]
  rfl

/-- A change of one bank leaves what it leaves in every bank. -/
theorem interface_modifyBank {γ : Type} {O : CpuBank → γ} (hh : ∀ b, O (h b) = O b) :
    O ((g.modifyBank c h).bank t) = O (g.bank t) := by
  rcases lt_or_ge t g.cpus.length with ht | ht
  · rw [bank_modifyBank ht]
    split_ifs
    · exact hh _
    · rfl
  · rw [bank_modifyBank_of_le ht]

theorem get_private (hi : i.val < privateIntids) :
    g.get t F i = F (g.bank t).toLines ⟨i, hi⟩ := dif_pos hi

theorem get_shared (hi : ¬ i.val < privateIntids) : g.get t F i = F g.shared i := dif_neg hi

theorem put_private (hj : j.val < privateIntids) :
    g.put c j f = g.modifyBank c fun b => { b with toLines := f ⟨j, hj⟩ b.toLines } := dif_pos hj

theorem put_shared (hj : ¬ j.val < privateIntids) :
    g.put c j f = { g with shared := f j g.shared } := dif_neg hj

/-- A place is seen in the same way in two states with the same arrays. -/
theorem get_congr {g' : GicV2} (hbank : (g'.bank t).toLines = (g.bank t).toLines)
    (hshared : g'.shared = g.shared) : g'.get t F i = g.get t F i := by
  by_cases hi : i.val < privateIntids
  · rw [get_private hi, get_private hi, hbank]
  · rw [get_shared hi, get_shared hi, hshared]

/-- A change of a bank that leaves its arrays alone. -/
theorem get_modifyBank (hh : ∀ b, (h b).toLines = b.toLines) :
    (g.modifyBank c h).get t F i = g.get t F i :=
  get_congr (interface_modifyBank (O := CpuBank.toLines) hh) rfl

theorem length_put (g : GicV2) (c : ℕ) (j : Intid) (f : {n : ℕ} → Fin n → Lines n → Lines n) :
    (g.put c j f).cpus.length = g.cpus.length := by
  unfold put
  split_ifs
  · exact length_modify ..
  · rfl

theorem targets_put (g : GicV2) (c : ℕ) (j : Intid) (f : {n : ℕ} → Fin n → Lines n → Lines n) :
    (g.put c j f).targets = g.targets := by
  unfold put
  split_ifs
  · rfl
  · rfl

/-! ## A change at one place -/

/-- A change at `j` for CPU `c`, seen at `i` for CPU `t`. -/
theorem get_put (ht : t < g.cpus.length)
    (hf : ∀ {n : ℕ} (k : Fin n) (l : Lines n), F (f k l) = update (F l) k (V l k)) :
    (g.put c j f).get t F i = if Meets t i c j then g.get t V i else g.get t F i := by
  by_cases hj : j.val < privateIntids
  · rw [put_private hj]
    by_cases hi : i.val < privateIntids
    · rw [get_private hi, get_private hi, get_private hi, bank_modifyBank ht]
      by_cases hct : c = t
      · rw [if_pos hct]
        rw [hf]
        by_cases hij : i = j
        · subst hij
          rw [update_self, if_pos ⟨rfl, fun _ => hct⟩]
        · have hne : (⟨i, hi⟩ : Fin privateIntids) ≠ ⟨j, hj⟩ := fun heq =>
            hij (Fin.ext (Fin.mk.inj heq))
          rw [update_of_ne hne, if_neg fun h : Meets t i c j => hij h.1]
      · rw [if_neg hct, if_neg fun h : Meets t i c j => hct (h.2 hi)]
    · rw [if_neg fun h : Meets t i c j => hi (h.1 ▸ hj), get_shared hi, get_shared hi]
      rfl
  · rw [put_shared hj]
    by_cases hi : i.val < privateIntids
    · rw [if_neg fun h : Meets t i c j => hj (h.1 ▸ hi), get_private hi, get_private hi]
      rfl
    · rw [get_shared hi, get_shared hi, get_shared hi]
      rw [hf]
      by_cases hij : i = j
      · subst hij
        rw [update_self, if_pos ⟨rfl, fun h => absurd h hi⟩]
      · rw [update_of_ne hij, if_neg fun h : Meets t i c j => hij h.1]

/-- A change of the other arrays. -/
theorem get_put_keep (hf : ∀ {n : ℕ} (k : Fin n) (l : Lines n), F (f k l) = F l) :
    (g.put c j f).get t F i = g.get t F i := by
  by_cases hi : i.val < privateIntids
  · rw [get_private hi, get_private hi]
    by_cases hj : j.val < privateIntids
    · rw [put_private hj]
      rcases lt_or_ge t g.cpus.length with ht | ht
      · rw [bank_modifyBank ht]
        split_ifs
        · exact congrFun (hf _ _) _
        · rfl
      · rw [bank_modifyBank_of_le ht]
    · rw [put_shared hj]
      rfl
  · rw [get_shared hi, get_shared hi]
    by_cases hj : j.val < privateIntids
    · rw [put_private hj]
      rfl
    · rw [put_shared hj]
      exact congrFun (hf _ _) _

/-! ## Loops over the fields of a register -/

/-- A loop over the fields of a register, in turn `b` that of INTID `base + b`. -/
theorem foldl_range {S : GicV2 → ℕ → GicV2} {I : GicV2 → Prop} {O : GicV2 → α} (base j : ℕ)
    {P : ℕ → Prop} [DecidablePred P] {v : ℕ → α} (hI : ∀ g b, I g → I (S g b))
    (hstep : ∀ g b, I g → O (S g b) = if base + b = j ∧ P b then v b else O g) (hg : I g)
    (count : ℕ) :
    I ((List.range count).foldl S g) ∧ O ((List.range count).foldl S g) =
      if (base ≤ j ∧ j < base + count) ∧ P (j - base) then v (j - base) else O g := by
  induction count with
  | zero =>
    refine ⟨hg, ?_⟩
    rw [if_neg fun h => absurd h.1 (by omega)]
    rfl
  | succ count ih =>
    rw [range_succ, foldl_concat]
    refine ⟨hI _ _ ih.1, ?_⟩
    rw [hstep _ _ ih.1, ih.2]
    by_cases hj : base + count = j
    · have hsub : j - base = count := by omega
      have hold : ¬ ((base ≤ j ∧ j < base + count) ∧ P (j - base)) := fun h => by omega
      rw [if_neg hold, hsub]
      refine if_congr ⟨fun h => ⟨by omega, h.2⟩, fun h => ⟨hj, h.2⟩⟩ rfl rfl
    · rw [if_neg fun h => hj h.1]
      refine if_congr ⟨fun h => ⟨by omega, h.2⟩, fun h => ⟨by omega, h.2⟩⟩ rfl rfl

/-- A turn of such a loop that changes the arrays at INTID `base + b`. -/
theorem get_turn {v : α} {base b : ℕ} (ht : t < g.cpus.length)
    (hf : ∀ {n : ℕ} (k : Fin n) (l : Lines n), F (f k l) = update (F l) k v) :
    (if h : base + b < numIntid then g.put c ⟨base + b, h⟩ f else g).get t F i =
      if base + b = i.val ∧ (i.val < privateIntids → c = t) then v else g.get t F i := by
  by_cases hb : base + b < numIntid
  · rw [dif_pos hb, get_put (V := fun _ _ => v) ht hf]
    refine if_congr ⟨fun h => ⟨congrArg Fin.val h.1.symm, h.2⟩, fun h => ⟨Fin.ext h.1.symm, h.2⟩⟩
      ?_ rfl
    unfold get
    split_ifs
    · rfl
    · rfl
  · rw [dif_neg hb, if_neg]
    omega

/-- The register at `off` has a bit for `i`, it is set in `w`, and `c` means the place of `t`. -/
def BitAt (off start w t : ℕ) (i : Intid) (c : ℕ) : Prop :=
  baseIndex off start ≤ i.val ∧ i.val < baseIndex off start + 32 ∧
    w.testBit (i.val - baseIndex off start) = true ∧ (i.val < privateIntids → c = t)

instance (off start w t : ℕ) (i : Intid) (c : ℕ) : Decidable (BitAt off start w t i c) :=
  inferInstanceAs (Decidable (_ ∧ _ ∧ _ ∧ _))

variable {off start w size intid : ℕ}

/-- A write to a register of one bit per INTID that sets the array to `v` where a bit is set. -/
theorem get_bitsSet {v : α} (ht : t < g.cpus.length)
    (hf : ∀ {n : ℕ} (k : Fin n) (l : Lines n), F (f k l) = update (F l) k v) :
    (g.bitsSet c off start w f).get t F i =
      if BitAt off start w t i c then v else g.get t F i := by
  refine (foldl_range (g := g) (I := fun g => t < g.cpus.length) (O := fun g => g.get t F i)
    (P := fun b => w.testBit b = true ∧ (i.val < privateIntids → c = t)) (v := fun _ => v)
    (baseIndex off start) i.val ?len ?step ht 32).2.trans (if_congr ?bit rfl rfl)
  case bit => rw [BitAt, and_assoc]
  case len =>
    intro g b hg
    split_ifs
    · rwa [length_put]
    · exact hg
    · exact hg
  case step =>
    intro g b hg
    by_cases hbit : w.testBit b = true
    · simp only [hbit, if_true, true_and]
      exact get_turn hg hf
    · rw [if_neg fun h => hbit h.2.1]
      split_ifs
      · rfl
      · rfl

theorem get_bitsSet_keep
    (hf : ∀ {n : ℕ} (k : Fin n) (l : Lines n), F (f k l) = F l) :
    (g.bitsSet c off start w f).get t F i = g.get t F i :=
  bitsSet_rule (P := fun g' => g'.get t F i = g.get t F i)
    (fun _ _ hg => (get_put_keep hf).trans hg) rfl

theorem targets_bitsSet (g : GicV2) (c off start w : ℕ)
    (f : {n : ℕ} → Fin n → Lines n → Lines n) :
    (g.bitsSet c off start w f).targets = g.targets :=
  bitsSet_rule (P := fun g' => g'.targets = g.targets)
    (fun _ _ hg => (targets_put ..).trans hg) rfl

/-! ## The other writes to the distributor -/

/-- A write to IPRIORITYR sets the priority of each INTID it has a byte for. -/
theorem priorityAt_writePriority (ht : t < g.cpus.length) :
    (g.writePriority c off size w).priorityAt t i =
      if (off - Gicd.ipriorityr ≤ i.val ∧ i.val < off - Gicd.ipriorityr + size) ∧
        (i.val < privateIntids → c = t) then byteOf w (i.val - (off - Gicd.ipriorityr))
      else g.priorityAt t i := by
  refine (foldl_range (g := g) (I := fun g => t < g.cpus.length) (O := fun g => g.priorityAt t i)
    (P := fun _ => i.val < privateIntids → c = t) (off - Gicd.ipriorityr) i.val ?len ?step ht
    size).2
  case len =>
    intro g b hg
    split_ifs
    · rwa [length_put]
    · exact hg
  case step =>
    intro g b hg
    exact get_turn hg fun _ _ => rfl

theorem targets_writePriority (off size w : ℕ) :
    (g.writePriority c off size w).targets = g.targets :=
  writePriority_rule (P := fun g' => g'.targets = g.targets)
    (fun _ _ _ hg => (targets_put ..).trans hg) rfl

/-- A write to ITARGETSR sets the targets of each SPI it has a byte for. -/
theorem targets_writeTargets (g : GicV2) (off size w : ℕ) (i : Intid) :
    (g.writeTargets off size w).targets i =
      if (off - Gicd.itargetsr ≤ i.val ∧ i.val < off - Gicd.itargetsr + size) ∧
        privateIntids ≤ i.val then
        byteOf w (i.val - (off - Gicd.itargetsr)) &&& UInt8.ofNat (1 <<< g.cpus.length - 1)
      else g.targets i := by
  refine (foldl_range (g := g) (I := fun _ => True) (O := fun g => g.targets i)
    (P := fun b => off - Gicd.itargetsr + b ≥ privateIntids)
    (v := fun b => byteOf w b &&& UInt8.ofNat (1 <<< g.cpus.length - 1)) (off - Gicd.itargetsr)
    i.val (fun _ _ _ => trivial) ?step trivial size).2.trans
      (if_congr (and_congr_right fun h => ?sub) rfl rfl)
  case sub => rw [Nat.add_sub_cancel' h.1]
  case step =>
    intro g' b _
    split_ifs with hb hspi hi hi hi
    · obtain rfl : i = ⟨off - Gicd.itargetsr + b, hb⟩ := Fin.ext hi.1.symm
      exact update_self ..
    · refine update_of_ne (fun h => hi ⟨?_, hspi⟩) ..
      rw [h]
    · exact absurd hi.2 hspi
    · rfl
    · omega
    · rfl

theorem get_writePriority_keep
    (hf : ∀ {n : ℕ} (k : Fin n) (l : Lines n) (p : UInt8),
      F { l with priority := update l.priority k p } = F l) :
    (g.writePriority c off size w).get t F i = g.get t F i :=
  writePriority_rule (P := fun g' => g'.get t F i = g.get t F i)
    (fun _ _ p hg => (get_put_keep fun k l => hf k l p).trans hg) rfl

theorem get_writeTargets :
    (g.writeTargets off size w).get t F i = g.get t F i :=
  writeTargets_rule (P := fun g' => g'.get t F i = g.get t F i) (fun _ _ hg => hg) rfl

theorem get_writeConfig_keep
    (hf : ∀ {n : ℕ} (k : Fin n) (l : Lines n) (e : Bool),
      F { l with edge := update l.edge k e } = F l) :
    (g.writeConfig c off w).get t F i = g.get t F i :=
  writeConfig_rule (P := fun g' => g'.get t F i = g.get t F i)
    (fun _ _ e hg => (get_put_keep fun k l => hf k l e).trans hg) rfl

theorem targets_writeConfig (off w : ℕ) : (g.writeConfig c off w).targets = g.targets :=
  writeConfig_rule (P := fun g' => g'.targets = g.targets)
    (fun _ _ _ hg => (targets_put ..).trans hg) rfl

/-- A write to ICFGR sets the trigger mode of what it names, SGIs apart. -/
theorem edgeAt_writeConfig (ht : t < g.cpus.length) :
    (g.writeConfig c off w).edgeAt t i =
      if (baseIndexCfg off ≤ i.val ∧ i.val < baseIndexCfg off + 16) ∧ 16 ≤ i.val ∧
        (i.val < privateIntids → c = t) then w.testBit ((i.val - baseIndexCfg off) * 2 + 1)
      else g.edgeAt t i := by
  refine (foldl_range (g := g) (I := fun g => t < g.cpus.length) (O := fun g => g.edgeAt t i)
    (P := fun b => baseIndexCfg off + b ≥ 16 ∧ (i.val < privateIntids → c = t))
    (v := fun b => w.testBit (b * 2 + 1)) (baseIndexCfg off) i.val ?len ?step ht 16).2.trans
      (if_congr (and_congr_right fun h => ?sub) rfl rfl)
  case sub => rw [Nat.add_sub_cancel' h.1]
  case len =>
    intro g b hg
    split_ifs
    · rwa [length_put]
    · exact hg
    · exact hg
  case step =>
    intro g b hg
    by_cases hbig : baseIndexCfg off + b ≥ 16
    · simp only [hbig, if_true, true_and]
      exact get_turn hg fun _ _ => rfl
    · rw [if_neg fun h => hbig h.2.1]
      split_ifs
      · rfl
      · rfl

/-- SGIs keep their configuration. -/
theorem edge_writeConfig (ht : t < g.cpus.length) (hi : i.val < 16) :
    (g.writeConfig c off w).edgeAt t i = g.edgeAt t i := by
  rw [edgeAt_writeConfig ht, if_neg fun h => absurd h.2.1 (not_le.2 hi)]

/-- A block of registers holds a byte if it holds the register the byte is in. -/
theorem range_of_align4 {o count : ℕ} (h : align4 off = o) (hstart : start % 4 = 0) :
    range off start count = range o start count := by
  subst h
  unfold range align4
  refine decide_eq_decide.2 ?_
  omega

theorem distWrite_of_sgir (h : align4 off = Gicd.sgir) (size w : ℕ) :
    g.distWrite c off size w = g.sgir c (w % 2 ^ 32) := by
  rw [distWrite, range_of_align4 h (by decide), range_of_align4 h (by decide), h]
  rfl

/-- A write to SGIR, seen in the bank of a CPU. -/
theorem bank_sgir (ht : t < g.cpus.length) (w : ℕ) : (g.sgir c w).bank t =
    if sgiHits c w t then
      { g.bank t with
        pending := update (g.bank t).pending (Fin.castLE (by decide) (sgiOf w)) true
        sgiSrc := update (g.bank t).sgiSrc (sgiOf w) (UInt8.ofNat c) }
    else g.bank t := by
  simp [bank, sgir, getD_eq_getElem?_getD, getElem?_mapIdx, getElem?_eq_getElem ht]

/-- Only the latches of SGIs change. -/
theorem get_sgir_keep (ht : t < g.cpus.length) (w : ℕ)
    (hf : ∀ {n : ℕ} (l : Lines n) (p : Fin n → Bool), F { l with pending := p } = F l) :
    (g.sgir c w).get t F i = g.get t F i := by
  by_cases hi : i.val < privateIntids
  · rw [get_private hi, get_private hi, bank_sgir ht]
    split_ifs
    · exact congrFun (hf _ _) _
    · rfl
  · rw [get_shared hi, get_shared hi]
    rfl

theorem length_sgir (w : ℕ) : (g.sgir c w).cpus.length = g.cpus.length := length_mapIdx ..

theorem length_distWrite (off size w : ℕ) :
    (g.distWrite c off size w).cpus.length = g.cpus.length :=
  distWrite_keep (P := fun g' => g'.cpus.length = g.cpus.length)
    (fun _ _ _ hg => (length_put ..).trans hg) (fun _ _ hg => hg) rfl (fun _ => length_sgir _) rfl

/-! ## Acknowledging -/

/-- The INTID a read of IAR by CPU `t` returns, as bits 0 to 9 of the register. -/
def iarIntid (g : GicV2) (t : ℕ) : ℕ := (g.acknowledge t).2 % 1024

/-- A read of IAR returns what is deliverable, and nothing else. -/
theorem iarIntid_eq_iff : g.iarIntid t = i.val ↔ ∃ p, g.highestPending t = some (i, p) := by
  unfold iarIntid acknowledge
  cases hp : g.highestPending t with
  | none =>
    have := i.isLt
    simp only [numIntid] at this
    simp only [spurious, reduceCtorEq, exists_false, iff_false]
    omega
  | some best =>
    obtain ⟨j, p⟩ := best
    have hj : j.val < 1024 := j.isLt.trans (by decide)
    have hlow : ∀ x : ℕ, (j.val ||| (x <<< 10)) % 1024 = j.val := by
      intro x
      rw [show 1024 = 2 ^ 10 from rfl, Nat.or_mod_two_pow, Nat.mod_eq_of_lt hj, Nat.shiftLeft_eq,
        Nat.mul_mod_left, Nat.or_zero]
    have hiff : j.val = i.val ↔ ∃ p', some (j, p) = some (i, p') :=
      ⟨fun h => ⟨p, by rw [Fin.ext h]⟩, fun ⟨_, h⟩ => by cases h; rfl⟩
    dsimp only
    split_ifs
    · rw [hlow, hiff]
    · rw [Nat.mod_eq_of_lt hj, hiff]

/-- What the place of the INTID becomes. -/
def ackLines {n : ℕ} (j : Fin n) (l : Lines n) : Lines n :=
  { l with
    active := Function.update l.active j true
    pending := if l.edge j then Function.update l.pending j false else l.pending }

theorem pending_ackLines {n : ℕ} (j : Fin n) (l : Lines n) : (ackLines j l).pending =
    update l.pending j (if l.edge j then false else l.pending j) := by
  unfold ackLines
  split_ifs
  · rfl
  · exact (update_eq_self j l.pending).symm

theorem acknowledge_of_none (h : g.highestPending c = none) : (g.acknowledge c).1 = g := by
  rw [acknowledge, h]

theorem get_acknowledge {p : UInt8} (h : g.highestPending c = some (j, p)) :
    (g.acknowledge c).1.get t F i = (g.put c j ackLines).get t F i := by
  rw [acknowledge, h]
  exact get_modifyBank fun _ => rfl

theorem length_acknowledge : (g.acknowledge c).1.cpus.length = g.cpus.length := by
  cases h : g.highestPending c with
  | none => rw [acknowledge_of_none h]
  | some best =>
    rw [acknowledge, h]
    exact (length_modify ..).trans (length_put ..)

theorem get_endOfInterrupt : (g.endOfInterrupt c intid).get t F i =
    (if h : intid < numIntid then g.put c ⟨intid, h⟩ (setActive false) else g).get t F i :=
  get_modifyBank (h := fun b => { b with running := b.running.dropLast }) fun _ => rfl

theorem get_endOfInterrupt_keep
    (hf : ∀ {n : ℕ} (k : Fin n) (l : Lines n), F (setActive false k l) = F l) :
    (g.endOfInterrupt c intid).get t F i = g.get t F i := by
  rw [get_endOfInterrupt]
  split_ifs
  · exact get_put_keep hf
  · rfl

theorem active_endOfInterrupt (ht : t < g.cpus.length) :
    (g.endOfInterrupt c intid).activeAt t i =
      if i.val = intid ∧ (i.val < privateIntids → c = t) then false else g.activeAt t i := by
  unfold activeAt
  rw [get_endOfInterrupt]
  split_ifs with hlt hmeet hmeet
  · rw [get_put (V := fun _ _ => false) ht fun _ _ => rfl, if_pos ⟨Fin.ext hmeet.1, hmeet.2⟩]
    unfold get
    split_ifs <;> rfl
  · rw [get_put (V := fun _ _ => false) ht fun _ _ => rfl, if_neg]
    rintro ⟨rfl, hc⟩
    exact hmeet ⟨rfl, hc⟩
  · exact absurd (hmeet.1 ▸ i.isLt) hlt
  · rfl

end Amber.Hvf.GicV2
