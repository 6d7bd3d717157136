import Amber.Hvf.GicDelivery
import Amber.Hvf.GicIsolation

/-!
# Acknowledging an interrupt

A CPU learns which interrupt it got by reading IAR, and it ends one by writing EOIR.  The question
is what such a read returns and changes, whether it agrees with the IRQ line that made the CPU
look, and what the stack of running priorities holds while interrupts preempt each other.

* `acknowledge_foremost` — a read of IAR takes the foremost deliverable interrupt and changes
  nothing but what taking it means; with nothing deliverable it changes nothing at all.
* `line_agrees_iff` — the line and the register agree exactly while the CPU interface is enabled or
  nothing is deliverable: the line looks at the enable bit of the interface, the read does not.
* `preemption_nests` — a CPU that ends its interrupts innermost first has their priorities on the
  stack, strictly higher the further in.
-/

namespace Amber.Hvf.GicV2

open List Runs

variable {g : GicV2} {c t : ℕ} {i : Intid} {a : Access}

/-! ## The CPU interface under accesses -/

section Interface

variable {γ : Type} {O : CpuBank → γ} (hO : ∀ b l, O { b with toLines := l } = O b)

include hO

/-- The distributor reaches the CPU interfaces through SGIR only. -/
theorem interface_distWrite {off w : ℕ}
    (hsgir : align4 off = Gicd.sgir → O ((g.sgir c (w % 2 ^ 32)).bank t) = O (g.bank t))
    (size : ℕ) : O ((g.distWrite c off size w).bank t) = O (g.bank t) :=
  distWrite_keep (P := fun g' => O (g'.bank t) = O (g.bank t))
    (fun _ _ _ hg => (interface_put hO ..).trans hg) (fun _ _ hg => hg) rfl hsgir rfl

theorem interface_setLevel (intid : ℕ) (high : Bool) :
    O ((g.setLevel c intid high).bank t) = O (g.bank t) := by
  unfold setLevel
  split_ifs
  · exact interface_put hO ..
  · rfl

end Interface

/-! ## What a read of IAR does -/

/-- CPU `c` has taken INTID `i`: it is active where it is kept, its latch is consumed if it is
edge-triggered, and its priority is the innermost running one. -/
structure Acknowledged (g : GicV2) (c : ℕ) (i : Intid) (g' : GicV2) : Prop where
  distEnabled : g'.distEnabled = g.distEnabled
  targets : g'.targets = g.targets
  length : g'.cpus.length = g.cpus.length
  shared : g'.shared = if i.val < privateIntids then g.shared else ackLines i g.shared
  bank : g'.bank c =
    { g.bank c with
      toLines := if h : i.val < privateIntids then ackLines ⟨i, h⟩ (g.bank c).toLines
        else (g.bank c).toLines
      running := (g.bank c).running ++ [g.priorityAt c i] }
  others : ∀ t, t ≠ c → g'.bank t = g.bank t

theorem distEnabled_put (g : GicV2) (c : ℕ) (i : Intid)
    (f : {n : ℕ} → Fin n → Lines n → Lines n) : (g.put c i f).distEnabled = g.distEnabled := by
  unfold put
  split_ifs <;> rfl

theorem acknowledge_fst {best : Intid × UInt8} (h : g.highestPending c = some best) :
    (g.acknowledge c).1 = (g.put c best.1 ackLines).modifyBank c
      fun b => { b with running := b.running ++ [best.2] } := by
  rw [acknowledge, h]
  rfl

theorem acknowledge_acknowledged (hc : c < g.cpus.length) (h : g.Foremost c i) :
    g.Acknowledged c i (g.acknowledge c).1 := by
  have hact := acknowledge_fst (highestPending_eq_some_iff.2 ⟨h, rfl⟩)
  have hlen : c < (g.put c i ackLines).cpus.length := by rwa [length_put]
  refine ⟨?_, ?_, length_acknowledge, ?_, ?_, fun t ht => bank_acknowledge_of_ne ht.symm⟩
  · rw [hact]
    exact distEnabled_put ..
  · rw [hact]
    exact targets_put ..
  · rw [hact]
    by_cases hi : i.val < privateIntids
    · rw [put_private hi, if_pos hi]
      rfl
    · rw [put_shared hi, if_neg hi]
      rfl
  · rw [hact, bank_modifyBank hlen, if_pos rfl]
    by_cases hi : i.val < privateIntids
    · rw [put_private hi, bank_modifyBank hc, if_pos rfl, dif_pos hi]
    · rw [put_shared hi, dif_neg hi]
      rfl

/-- The poster of an SGI, and nothing for another INTID. -/
def sourceOf (g : GicV2) (c : ℕ) (i : Intid) : ℕ :=
  if h : i.val < 16 then ((g.bank c).sgiSrc ⟨i, h⟩).toNat else 0

/-- The value returned: the INTID, and from bit 10 on the poster. -/
theorem acknowledge_value (h : g.Foremost c i) :
    (g.acknowledge c).2 = i.val + 2 ^ 10 * g.sourceOf c i := by
  have hp := highestPending_eq_some_iff.2 ⟨h, rfl⟩
  have hlow : i.val < 2 ^ 10 := i.isLt.trans (by decide)
  rw [acknowledge, hp]
  dsimp only
  rw [sgiSrc_acked, sourceOf]
  split_ifs
  · rw [Nat.shiftLeft_eq, mul_comm, Nat.or_comm, ← Nat.two_pow_add_eq_or_of_lt hlow,
      add_comm]
  · rfl

theorem acknowledge_of_silent (h : ∀ i, ¬ g.Deliverable c i) : g.acknowledge c = (g, spurious) := by
  rw [acknowledge, highestPending_eq_none_iff.2 h]

/-- There is a foremost interrupt as soon as there is a deliverable one. -/
theorem exists_foremost (h : g.Deliverable c i) : ∃ j, g.Foremost c j := by
  cases hp : g.highestPending c with
  | none => exact absurd h (highestPending_eq_none_iff.1 hp i)
  | some best => exact ⟨best.1, (highestPending_eq_some_iff.1 hp).1⟩

/-! ## Who posted an SGI -/

theorem sgiSrc_cpuRead (off size : ℕ) :
    ((g.cpuRead c off size).1.bank t).sgiSrc = (g.bank t).sgiSrc := by
  rw [cpuRead_fst]
  split_ifs
  · cases hp : g.highestPending c with
    | none => rw [acknowledge_of_none hp]
    | some best =>
      rw [acknowledge_fst hp, interface_modifyBank (O := CpuBank.sgiSrc) (by exact fun _ => rfl)]
      exact interface_put (O := CpuBank.sgiSrc) (fun _ _ => rfl) ..
  · rfl

theorem sgiSrc_cpuWrite (off w : ℕ) :
    ((g.cpuWrite c off w).bank t).sgiSrc = (g.bank t).sgiSrc := by
  unfold cpuWrite
  dsimp only
  split_ifs
  · exact interface_modifyBank (O := CpuBank.sgiSrc) fun _ => rfl
  · exact interface_modifyBank (O := CpuBank.sgiSrc) fun _ => rfl
  · rw [endOfInterrupt, interface_modifyBank (O := CpuBank.sgiSrc) (by exact fun _ => rfl)]
    split_ifs
    · exact interface_put (O := CpuBank.sgiSrc) (fun _ _ => rfl) ..
    · rfl
  · rfl

/-- Every recorded poster is a CPU of the controller. -/
def PostersExist (g : GicV2) : Prop := ∀ t s, ((g.bank t).sgiSrc s).toNat < max g.cpus.length 1

theorem bank_withCpus (n t : ℕ) : (withCpus n).bank t = CpuBank.default := by
  rw [bank, getD_eq_getElem?_getD]
  cases h : (withCpus n).cpus[t]? with
  | none => rfl
  | some b => exact eq_of_mem_replicate (mem_of_getElem? h)

theorem withCpus_postersExist (n : ℕ) : (withCpus n).PostersExist := by
  intro t s
  rw [bank_withCpus]
  exact lt_max_of_lt_right one_pos

theorem PostersExist.access (h : g.PostersExist) (hlen : g.cpus.length ≤ maxCpus)
    (ha : a.cpu < g.cpus.length) : (g.access a).PostersExist := by
  intro t s
  rw [length_access]
  have hkeep : ∀ {g' : GicV2}, (g'.bank t).sgiSrc = (g.bank t).sgiSrc →
      ((g'.bank t).sgiSrc s).toNat < max g.cpus.length 1 := fun heq => heq ▸ h t s
  cases a with
  | distRead cpu off size => exact h t s
  | distWrite cpu off size w =>
    replace ha : cpu < g.cpus.length := ha
    by_cases hoff : align4 off = Gicd.sgir
    · rw [GicV2.access, distWrite_of_sgir hoff]
      rcases lt_or_ge t g.cpus.length with ht | ht
      · rw [bank_sgir ht]
        split_ifs
        · dsimp only
          by_cases hs : s = sgiOf (w % 2 ^ 32)
          · rw [hs, Function.update_self, UInt8.toNat_ofNat_of_lt' ((ha.trans_le hlen).trans
              (by decide))]
            exact lt_max_of_lt_left ha
          · rw [Function.update_of_ne hs]
            exact h t s
        · exact h t s
      · refine hkeep ?_
        simp [bank, sgir, getD_eq_getElem?_getD, getElem?_mapIdx, getElem?_eq_none ht]
    · exact hkeep (interface_distWrite (O := CpuBank.sgiSrc) (fun _ _ => rfl)
        (fun heq => absurd heq hoff) size)
  | cpuRead cpu off size => exact hkeep (sgiSrc_cpuRead off size)
  | cpuWrite cpu off size w => exact hkeep (sgiSrc_cpuWrite off w)
  | setLevel cpu intid high =>
    exact hkeep (interface_setLevel (O := CpuBank.sgiSrc) (fun _ _ => rfl) intid high)

/-- What holds in every controller that CPUs and devices have used. -/
structure InUse (m : ℕ) (g : GicV2) : Prop where
  length_eq : g.cpus.length = m
  posters : g.PostersExist

theorem run_inUse (n : ℕ) {l : List Access} (hl : ∀ a ∈ l, a.cpu < (withCpus n).cpus.length) :
    (Runs.run access (withCpus n) l).InUse (withCpus n).cpus.length := by
  have hmax : (withCpus n).cpus.length ≤ maxCpus := by
    rw [withCpus, length_replicate]
    exact min_le_right ..
  refine invariant (I := InUse (withCpus n).cpus.length) (fun g a hg ha => ?_)
    ⟨rfl, withCpus_postersExist n⟩ (each_of_forall hl)
  exact ⟨(length_access a).trans hg.length_eq,
    hg.posters.access (hg.length_eq.trans_le hmax) (hg.length_eq ▸ ha)⟩

theorem sourceOf_lt (h : g.PostersExist) (hlen : g.cpus.length ≤ maxCpus) (c : ℕ) (i : Intid) :
    g.sourceOf c i < 8 := by
  unfold sourceOf
  split_ifs with hi
  · exact (h c ⟨i, hi⟩).trans_le (max_le hlen (by decide))
  · decide

/-! ## A read of IAR -/

/-- A 4-byte read of an aligned register sees all of it. -/
theorem extract_word {v off : ℕ} (hoff : off % 4 = 0) (hv : v < 2 ^ 32) : extract v off 4 = v := by
  have hmask : v &&& 0xffffffff = v % 2 ^ 32 := Nat.and_two_pow_sub_one_eq_mod v 32
  rw [extract, hoff, zero_mul, Nat.shiftRight_zero]
  exact hmask.trans (Nat.mod_eq_of_lt hv)

theorem cpuRead_iar {v : ℕ} (h : (g.acknowledge c).2 = v) (hv : v < 2 ^ 32) :
    g.cpuRead c Gicc.iar 4 = ((g.acknowledge c).1, v) := by
  have hread : g.cpuRead c Gicc.iar 4 =
      ((g.acknowledge c).1, extract (g.acknowledge c).2 Gicc.iar 4) := rfl
  rw [hread, h, extract_word (by decide) hv]

/-- **A read of IAR takes the foremost interrupt.**  In every state CPUs and devices lead to, a CPU
that reads IAR while nothing is deliverable to it gets 1023 and changes nothing.  Otherwise it gets
the foremost interrupt, with the poster of an SGI in bits 10 to 12, and taking that interrupt is
all it changes. -/
theorem acknowledge_foremost (n : ℕ) {l : List Access}
    (hl : ∀ a ∈ l, a.cpu < (withCpus n).cpus.length) {c : ℕ} (hc : c < (withCpus n).cpus.length) :
    let g := run access (withCpus n) l
    ((∀ i, ¬ g.Deliverable c i) → g.cpuRead c Gicc.iar 4 = (g, 1023)) ∧
      ∀ i, g.Deliverable c i → ∃ j, g.Foremost c j ∧ g.sourceOf c j < 8 ∧
        (g.cpuRead c Gicc.iar 4).2 = j.val + 2 ^ 10 * g.sourceOf c j ∧
        g.Acknowledged c j (g.cpuRead c Gicc.iar 4).1 := by
  intro g
  have hg : g.InUse (withCpus n).cpus.length := run_inUse n hl
  have hmax : g.cpus.length ≤ maxCpus := by
    rw [hg.length_eq, withCpus, length_replicate]
    exact min_le_right ..
  refine ⟨fun hsilent => ?_, fun i hi => ?_⟩
  · have hack := acknowledge_of_silent hsilent
    rw [cpuRead_iar (congrArg Prod.snd hack) (show spurious < 2 ^ 32 by decide), hack]
    rfl
  · obtain ⟨j, hj⟩ := exists_foremost hi
    have hsource := sourceOf_lt hg.posters hmax c j
    have hintid : j.val < 256 := j.isLt
    rw [cpuRead_iar (acknowledge_value hj) (by omega)]
    exact ⟨j, hj, hsource, rfl, acknowledge_acknowledged (hg.length_eq ▸ hc) hj⟩

/-- CPU 1 of two is set up for SGI 5 and CPU 0 posts it. -/
def sgiPosted : List Access :=
  [.distWrite 0 Gicd.ctlr 4 1, .cpuWrite 1 Gicc.pmr 4 0xff, .distWrite 1 Gicd.isenabler 4 0x20,
    .distWrite 0 Gicd.sgir 4 0x20005]

theorem acknowledge_foremost_sgi :
    let g := run access (withCpus 2) sgiPosted
    g.Deliverable 1 (sgi 5) ∧ ∃ j, g.Foremost 1 j ∧ g.sourceOf 1 j < 8 ∧
      (g.cpuRead 1 Gicc.iar 4).2 = j.val + 2 ^ 10 * g.sourceOf 1 j ∧
      g.Acknowledged 1 j (g.cpuRead 1 Gicc.iar 4).1 := by
  intro g
  have hdel : g.Deliverable 1 (sgi 5) := by
    refine ⟨?_, ?_, ?_, ?_, ?_, ?_, ?_⟩ <;> decide +kernel
  exact ⟨hdel, (acknowledge_foremost 2 (by decide) (by decide)).2 (sgi 5) hdel⟩

/-! ## The IRQ line -/

theorem irqPending_iff :
    g.irqPending c = true ↔ (g.bank c).cpuEnabled = true ∧ ∃ i, g.Deliverable c i := by
  have hfound : (g.highestPending c).isSome = true ↔ ∃ i, g.Deliverable c i := by
    rw [← Option.ne_none_iff_isSome, Ne, highestPending_eq_none_iff, not_forall_not]
  rw [irqPending, Bool.and_eq_true, hfound]

/-- A read of IAR returns an INTID exactly if one is deliverable. -/
theorem iarIntid_ne_spurious_iff : g.iarIntid c ≠ spurious ↔ ∃ i, g.Deliverable c i := by
  constructor
  · intro h
    by_contra hno
    rw [not_exists] at hno
    rw [iarIntid, acknowledge_of_silent hno] at h
    exact h rfl
  · rintro ⟨i, hi⟩
    obtain ⟨j, hj⟩ := exists_foremost hi
    have hj' := iarIntid_eq_iff.2 ⟨_, highestPending_eq_some_iff.2 ⟨hj, rfl⟩⟩
    rw [hj']
    exact (j.isLt.trans (by decide)).ne

/-- What a 4-byte read of IAR returns has the INTID in bits 0 to 9. -/
theorem cpuRead_iar_intid (g : GicV2) (c : ℕ) :
    (g.cpuRead c Gicc.iar 4).2 % 1024 = g.iarIntid c := by
  have hlt : (g.acknowledge c).2 < 2 ^ 32 := by
    by_cases hsome : ∃ i, g.Deliverable c i
    · obtain ⟨i, hi⟩ := hsome
      obtain ⟨j, hj⟩ := exists_foremost hi
      have hintid : j.val < 256 := j.isLt
      have hsource : g.sourceOf c j < 256 := by
        unfold sourceOf
        split_ifs
        · exact UInt8.toNat_lt _
        · decide
      rw [acknowledge_value hj]
      omega
    · rw [acknowledge_of_silent (not_exists.1 hsome)]
      exact show spurious < 2 ^ 32 by decide
  rw [cpuRead_iar rfl hlt]
  rfl

/-- **When the line and the register agree.**  A read of IAR returns an INTID exactly when the IRQ
line of the CPU is up, if and only if the interface of the CPU is enabled or nothing is
deliverable. -/
theorem line_agrees_iff (g : GicV2) (c : ℕ) :
    ((g.cpuRead c Gicc.iar 4).2 % 1024 ≠ 1023 ↔ g.irqPending c = true) ↔
      (g.bank c).cpuEnabled = true ∨ ∀ i, ¬ g.Deliverable c i := by
  rw [cpuRead_iar_intid, show 1023 = spurious from rfl, iarIntid_ne_spurious_iff, irqPending_iff,
    ← not_exists]
  constructor
  · intro h
    by_cases hsome : ∃ i, g.Deliverable c i
    · exact .inl (h.1 hsome).1
    · exact .inr hsome
  · rintro (hon | hno)
    · exact (and_iff_right hon).symm
    · exact ⟨fun h => absurd h hno, fun h => h.2⟩

/-- SPI 40 is up while CPU 0 has its interface disabled: the line of the CPU is down, and yet a read
of IAR takes the interrupt, which is active from then on. -/
theorem taken_while_disabled :
    let g := run access (withCpus 1) [.distWrite 0 Gicd.ctlr 4 1, .cpuWrite 0 Gicc.pmr 4 0xff,
      .distWrite 0 (Gicd.isenabler + 4) 4 0x100, .setLevel 0 40 true]
    (g.bank 0).cpuEnabled = false ∧ g.irqPending 0 = false ∧ (g.cpuRead 0 Gicc.iar 4).2 = 40 ∧
      (g.cpuRead 0 Gicc.iar 4).1.activeAt 0 spi40 = true := by
  decide +kernel

/-! ## Preemption -/

/-- CPU `c` reads IAR. -/
def Access.readsIar (c : ℕ) : Access → Bool
  | .cpuRead cpu off _ => cpu == c && align4 off == Gicc.iar
  | _ => false

/-- The INTID that CPU `c` ends by a write of EOIR. -/
def Access.eoi (c : ℕ) : Access → Option ℕ
  | .cpuWrite cpu off _ val =>
    if cpu = c ∧ align4 off = Gicc.eoir then some ((val % 2 ^ 32) &&& 0x3ff) else none
  | _ => none

/-- Nothing else touches the stack of CPU `c`. -/
theorem running_access (hread : a.readsIar c = false) (heoi : a.eoi c = none) :
    ((g.access a).bank c).running = (g.bank c).running := by
  cases a with
  | distRead cpu off size => rfl
  | distWrite cpu off size w =>
    refine interface_distWrite (O := CpuBank.running) (fun _ _ => rfl) (fun _ => ?_) size
    obtain ⟨p, s, hbank⟩ := exists_bank_sgir (g := g) (c := cpu) (t := c) (w % 2 ^ 32)
    rw [hbank]
  | cpuRead cpu off size =>
    rw [access, cpuRead_fst]
    split_ifs with hiar
    · have hne : cpu ≠ c := by
        rintro rfl
        simp [Access.readsIar, hiar] at hread
      rw [bank_acknowledge_of_ne hne]
    · rfl
  | cpuWrite cpu off size w =>
    rw [access]
    unfold cpuWrite
    dsimp only
    split_ifs with hctlr hpmr heoir
    · exact interface_modifyBank (O := CpuBank.running) fun _ => rfl
    · exact interface_modifyBank (O := CpuBank.running) fun _ => rfl
    · have hne : cpu ≠ c := by
        rintro rfl
        rw [Access.eoi, if_pos ⟨rfl, heoir⟩] at heoi
        cases heoi
      rw [bank_endOfInterrupt_of_ne hne]
    · rfl
  | setLevel cpu intid high =>
    exact interface_setLevel (O := CpuBank.running) (fun _ _ => rfl) intid high

theorem access_of_readsIar (h : a.readsIar c = true) :
    g.access a = (g.acknowledge c).1 := by
  cases a with
  | cpuRead cpu off size =>
    obtain ⟨hcpu, hoff⟩ := Bool.and_eq_true_iff.1 h
    rw [beq_iff_eq] at hcpu hoff
    rw [access, cpuRead_fst, if_pos hoff, hcpu]
  | distRead cpu off size => cases h
  | distWrite cpu off size w | cpuWrite cpu off size w => cases h
  | setLevel cpu intid high => cases h

theorem access_of_eoi {intid : ℕ} (h : a.eoi c = some intid) :
    a.readsIar c = false ∧ g.access a = g.endOfInterrupt c intid := by
  cases a with
  | cpuWrite cpu off size w =>
    rw [Access.eoi] at h
    split_ifs at h with hoff
    cases h
    refine ⟨rfl, ?_⟩
    rw [access, cpuWrite, hoff.1, hoff.2]
    rfl
  | distRead _ _ _ | distWrite _ _ _ _ | cpuRead _ _ _ | setLevel _ _ _ => cases h

theorem running_endOfInterrupt (hc : c < g.cpus.length) (intid : ℕ) :
    ((g.endOfInterrupt c intid).bank c).running = (g.bank c).running.dropLast := by
  rw [endOfInterrupt, bank_modifyBank (by split_ifs <;> simp only [length_put, hc]), if_pos rfl]
  refine congrArg dropLast ?_
  split_ifs
  · exact interface_put (O := CpuBank.running) (fun _ _ => rfl) ..
  · rfl

/-- The controller, with the interrupts CPU `c` has taken and not ended, the innermost last, each
with the priority it had when it was taken. -/
structure Nest where
  gic : GicV2
  unfinished : List (Intid × UInt8)

namespace Nest

def start (n : ℕ) : Nest := ⟨withCpus n, []⟩

/-- The interrupts unfinished after a read of IAR. -/
def taken (c : ℕ) (s : Nest) : List (Intid × UInt8) :=
  if h : s.gic.iarIntid c < numIntid then
    s.unfinished ++ [(⟨s.gic.iarIntid c, h⟩, s.gic.priorityAt c ⟨s.gic.iarIntid c, h⟩)]
  else s.unfinished

/-- … and after a write of EOIR for `intid`: without the last one of that number. -/
def ended (s : Nest) (intid : ℕ) : List (Intid × UInt8) :=
  (s.unfinished.reverse.eraseP fun x => x.1.val == intid).reverse

def step (c : ℕ) (s : Nest) (a : Access) : Nest where
  gic := s.gic.access a
  unfinished :=
    if a.readsIar c then s.taken c
    else match a.eoi c with
      | some intid => s.ended intid
      | none => s.unfinished

/-- If CPU `c` ends an interrupt, it is the one it took last. -/
def InnermostFirst (c : ℕ) (s : Nest) (a : Access) : Prop :=
  a.eoi c = none ∨ a.eoi c = s.unfinished.getLast?.map (·.1.val)

instance (c : ℕ) (s : Nest) (a : Access) : Decidable (s.InnermostFirst c a) :=
  inferInstanceAs (Decidable (_ ∨ _))

/-- The priorities of the unfinished interrupts are on the stack, and fall from the outside in. -/
structure Nested (m c : ℕ) (s : Nest) : Prop where
  length_eq : s.gic.cpus.length = m
  stacked : (s.gic.bank c).running = s.unfinished.map Prod.snd
  descending : Descending (s.gic.bank c).running

variable {m : ℕ} {s : Nest}

/-- Taking an interrupt puts its priority on the stack, below all that are there. -/
theorem Nested.take (hs : s.Nested m c) (hc : c < m) :
    ((s.gic.acknowledge c).1.bank c).running = (s.taken c).map Prod.snd ∧
      Descending ((s.gic.acknowledge c).1.bank c).running := by
  have hc' : c < s.gic.cpus.length := hs.length_eq ▸ hc
  unfold taken
  split_ifs with hintid
  · obtain ⟨p, hp⟩ := iarIntid_eq_iff.1 (show s.gic.iarIntid c = (⟨_, hintid⟩ : Intid).val from rfl)
    have hfore := (highestPending_eq_some_iff.1 hp).1
    have hrun := congrArg CpuBank.running (acknowledge_acknowledged hc' hfore).bank
    rw [hrun]
    refine ⟨?_, hs.descending.push hfore.deliverable.preempts⟩
    rw [map_append, hs.stacked]
    rfl
  · have hsilent : ∀ i, ¬ s.gic.Deliverable c i := by
      intro i hi
      obtain ⟨j, hj⟩ := exists_foremost hi
      have hj' := iarIntid_eq_iff.2 ⟨_, highestPending_eq_some_iff.2 ⟨hj, rfl⟩⟩
      exact hintid (hj'.trans_lt j.isLt)
    rw [acknowledge_of_silent hsilent]
    exact ⟨hs.stacked, hs.descending⟩

/-- Ending the innermost interrupt takes it off the end. -/
theorem ended_eq {intid : ℕ} (h : s.unfinished.getLast?.map (·.1.val) = some intid) :
    s.ended intid = s.unfinished.dropLast := by
  obtain ⟨x, hx, hintid⟩ := Option.map_eq_some_iff.1 h
  obtain ⟨l, hl⟩ := getLast?_eq_some_iff.1 hx
  rw [ended, hl, reverse_append, reverse_singleton, singleton_append,
    eraseP_cons_of_pos, reverse_reverse, dropLast_concat]
  exact beq_iff_eq.2 hintid

theorem step_nested (hc : c < m) (a : Access) (hs : s.Nested m c) (ha : s.InnermostFirst c a) :
    (s.step c a).Nested m c := by
  have hlen : (s.step c a).gic.cpus.length = m := (length_access a).trans hs.length_eq
  cases hread : a.readsIar c with
  | true =>
    have hgic : (s.step c a).gic = (s.gic.acknowledge c).1 := access_of_readsIar hread
    have hun : (s.step c a).unfinished = s.taken c := if_pos hread
    obtain ⟨hrun, hdesc⟩ := hs.take hc
    exact ⟨hlen, by rw [hgic, hun, hrun], by rwa [hgic]⟩
  | false =>
    have hskip : ¬ a.readsIar c = true := by rw [hread]; decide
    cases heoi : a.eoi c with
    | some intid =>
      have hgic : (s.step c a).gic = s.gic.endOfInterrupt c intid := (access_of_eoi heoi).2
      have hun : (s.step c a).unfinished = s.unfinished.dropLast := by
        rw [step, if_neg hskip, heoi]
        refine ended_eq (Eq.symm ?_)
        rcases ha with hnone | hlast
        · rw [heoi] at hnone
          cases hnone
        · rwa [heoi] at hlast
      have hrun := running_endOfInterrupt (hs.length_eq ▸ hc : c < s.gic.cpus.length) intid
      refine ⟨hlen, ?_, ?_⟩
      · rw [hgic, hun, hrun, hs.stacked, map_dropLast]
      · rw [hgic, hrun]
        exact hs.descending.pop
    | none =>
      have hun : (s.step c a).unfinished = s.unfinished := by
        rw [step, if_neg hskip, heoi]
      have hrun : ((s.step c a).gic.bank c).running = (s.gic.bank c).running :=
        running_access hread heoi
      exact ⟨hlen, by rw [hun, hrun, hs.stacked], by rw [hrun]; exact hs.descending⟩

/-- **Preemption nests.**  In every run in which a CPU ends its interrupts innermost first, whatever
else happens, its stack holds the priorities at which it took the unfinished ones, in order and
strictly falling; RPR reads the innermost one, or `0xff` when there is none, and the stack is empty
then. -/
theorem preemption_nests (n : ℕ) {c : ℕ} (hc : c < (withCpus n).cpus.length) (l : List Access)
    (hl : Runs.Each (step c) (InnermostFirst c) (start n) l) :
    let s := run (step c) (start n) l
    (s.gic.bank c).running = s.unfinished.map Prod.snd ∧
      (s.unfinished.map Prod.snd).Pairwise (· > ·) ∧
      (s.gic.cpuRead c Gicc.rpr 4).2 = (s.unfinished.getLast?.map (·.2.toNat)).getD 0xff ∧
      (s.unfinished = [] → (s.gic.bank c).running = []) := by
  intro s
  have hs : s.Nested (withCpus n).cpus.length c := by
    refine invariant (fun s a hs ha => step_nested hc a hs ha) ⟨rfl, ?_, ?_⟩ hl
    · rw [start, bank_withCpus]
      rfl
    · rw [start, bank_withCpus]
      exact descending_nil
  refine ⟨hs.stacked, hs.stacked ▸ hs.descending.pairwise, ?_, fun hnil => ?_⟩
  · have hread : (s.gic.cpuRead c Gicc.rpr 4).2 = (s.gic.runningPrio c).toNat :=
      extract_word (by decide) ((UInt8.toNat_lt _).trans (by decide))
    rw [hread, runningPrio, hs.stacked, getLast?_map]
    cases s.unfinished.getLast? with
    | none => rfl
    | some x => rfl
  · rw [hs.stacked, hnil]
    rfl

/-- CPU 0 takes SPI 40 at priority `0x80`, is preempted by SPI 41 at priority `0x40`, and ends them;
`preempted n` is the run up to its `n`-th access. -/
def preempted (n : ℕ) : List Access :=
  [.distWrite 0 Gicd.ctlr 4 1, .cpuWrite 0 Gicc.pmr 4 0xff,
    .distWrite 0 (Gicd.ipriorityr + 40) 2 0x4080, .distWrite 0 (Gicd.isenabler + 4) 4 0x300,
    .setLevel 0 40 true, .cpuRead 0 Gicc.iar 4, .setLevel 0 41 true, .cpuRead 0 Gicc.iar 4,
    .cpuWrite 0 Gicc.eoir 4 41, .cpuWrite 0 Gicc.eoir 4 40].take n

theorem preemption_nests_two :
    let s := run (step 0) (start 1) (preempted 8)
    s.unfinished.map Prod.snd = [0x80, 0x40] ∧ (s.gic.bank 0).running = [0x80, 0x40] ∧
      (s.gic.cpuRead 0 Gicc.rpr 4).2 = 0x40 ∧
      ((run (step 0) (start 1) (preempted 10)).gic.bank 0).running = [] := by
  intro s
  have hun : s.unfinished.map Prod.snd = [0x80, 0x40] := by decide +kernel
  obtain ⟨hrun, -, hrpr, -⟩ := preemption_nests 1 (c := 0) (by decide) (preempted 8)
    (by decide +kernel)
  obtain ⟨-, -, -, hempty⟩ := preemption_nests 1 (c := 0) (by decide) (preempted 10)
    (by decide +kernel)
  refine ⟨hun, hrun.trans hun, hrpr.trans ?_, hempty ?_⟩
  · decide +kernel
  · decide +kernel

end Nest

end Amber.Hvf.GicV2
