import Mathlib.Data.List.Chain
import Amber.Hvf.GicScan

/-!
# Snapshots of the software GIC lose nothing

The blob is positional: reader and writer have to agree on every offset, and each bank ends in
a running stack of its own length, of which only 255 entries are kept.

* `restore_capture_of_fits` — a controller with one to eight CPUs and stacks of at most 255
  entries is read back exactly, whatever it is read into, as long as that has no more CPUs.
* `Descending` — a running stack falls strictly from the idle priority down, since only a
  higher priority than the innermost one is ever acknowledged; so it has at most 255 entries.
* `restore_capture` — together: what any sequence of accesses and restores leads to is restored
  from its own blob.
-/

namespace Amber.Hvf

open ByteReader List Option

/-! ## The layout -/

variable {n : ℕ} {s : List UInt8}

theorem reads_encodeFlags (a : Fin n → Bool) : Reads (array flag n) (encodeFlags a) a :=
  reads_array reads_flag a

theorem reads_encodeBytes (a : Fin n → UInt8) : Reads (array byte n) (encodeBytes a) a :=
  reads_array reads_byte a

theorem reads_lines (l : Lines n) : Reads (readLines n) l.encode l :=
  (reads_encodeFlags l.enabled).bind <| (reads_encodeFlags l.pending).bind <|
    (reads_encodeFlags l.active).bind <| (reads_encodeFlags l.level).bind <|
      (reads_encodeFlags l.edge).bind (reads_encodeBytes l.priority).map

theorem reads_bank {b : CpuBank} (hb : b.running.length ≤ 255) : Reads readBank b.encode b := by
  have hcount : (UInt8.ofNat b.running.length).toNat = b.running.length :=
    UInt8.toNat_ofNat_of_lt' (Nat.lt_succ_of_le hb)
  have hrun : Reads (many byte (UInt8.ofNat b.running.length).toNat)
      (b.running.flatMap fun x => [x]) b.running := by
    rw [hcount]
    exact reads_many fun x _ => reads_byte x
  rw [CpuBank.encode, min_eq_left hb, take_length]
  exact (reads_flag b.cpuEnabled).bind <| (reads_byte b.pmr).bind <|
    (reads_lines b.toLines).bind <| (reads_encodeBytes b.sgiSrc).bind <|
      (reads_byte _).bind hrun.map

namespace GicV2

/-- One to eight CPUs, no running stack deeper than the blob keeps. -/
structure Fits (g : GicV2) : Prop where
  some_cpu : 1 ≤ g.cpus.length
  max_cpu : g.cpus.length ≤ maxCpus
  stack : ∀ b ∈ g.cpus, b.running.length ≤ 255

/-- The controller `g` with reset CPUs added up to `m`. -/
def padded (g : GicV2) (m : ℕ) : GicV2 :=
  { g with cpus := g.cpus ++ List.replicate (m - g.cpus.length) CpuBank.default }

variable {g : GicV2}

theorem padded_of_le {m : ℕ} (hm : m ≤ g.cpus.length) : g.padded m = g := by
  rw [padded, Nat.sub_eq_zero_of_le hm, replicate_zero, append_nil]

theorem reads_v2 (hg : g.Fits) (m : ℕ) :
    Reads (readV2 m) (g.capture.drop 2) (g.padded m) := by
  have hcount : (UInt8.ofNat g.cpus.length).toNat = g.cpus.length :=
    UInt8.toNat_ofNat_of_lt' (lt_of_le_of_lt hg.max_cpu (by decide))
  have hclamp : min (max (UInt8.ofNat g.cpus.length).toNat 1) maxCpus = g.cpus.length := by
    rw [hcount, Nat.max_eq_left hg.some_cpu, min_eq_left hg.max_cpu]
  have hbanks : Reads (many readBank (min (max (UInt8.ofNat g.cpus.length).toNat 1) maxCpus))
      (g.cpus.flatMap CpuBank.encode) g.cpus := by
    rw [hclamp]
    exact reads_many fun b hb => reads_bank (hg.stack b hb)
  have hbody : g.capture.drop 2 = [UInt8.ofNat g.cpus.length] ++ ([ofFlag g.distEnabled] ++
      (g.cpus.flatMap CpuBank.encode ++ (g.shared.encode ++ encodeBytes g.targets))) := rfl
  rw [hbody, readV2]
  exact (reads_byte _).bind <| (reads_flag g.distEnabled).bind <| hbanks.bind <|
    (reads_lines g.shared).bind (reads_encodeBytes g.targets).map

/-- **Reader and writer agree.**  The blob of a controller that fits its layout is read back
exactly, with reset CPUs for those the reader has besides. -/
theorem restore_capture_of_fits (hg : g.Fits) (h : GicV2) :
    h.restore g.capture = g.padded h.cpus.length := by
  have hread := reads_v2 hg h.cpus.length []
  rw [append_nil] at hread
  have hmagic : g.capture.head? = some blobMagic := rfl
  rw [restore, if_pos hmagic, restoreV2, hread]

end GicV2

/-! ## Running stacks -/

/-- A running stack falls strictly, from the idle priority down. -/
def Descending (running : List UInt8) : Prop := (idlePrio :: running).IsChain (· > ·)

theorem length_le_of_isChain :
    ∀ {a : UInt8}, (a :: s).IsChain (· > ·) → s.length ≤ a.toNat := by
  induction s with
  | nil => exact fun _ => Nat.zero_le _
  | cons b s ih =>
    intro a h
    obtain ⟨hab, hrest⟩ := isChain_cons_cons.1 h
    have hlt : b.toNat < a.toNat := UInt8.lt_iff_toNat_lt.1 hab
    have hle := ih hrest
    rw [length_cons]
    omega

/-- There are only 255 priorities above the idle one. -/
theorem Descending.length_le (h : Descending s) : s.length ≤ 255 :=
  length_le_of_isChain h

/-- Every entry is a higher priority than all below it. -/
theorem Descending.pairwise (h : Descending s) : s.Pairwise (· > ·) := by
  exact (pairwise_cons.1 (isChain_iff_pairwise.1 h)).2

theorem descending_nil : Descending [] := isChain_singleton _

theorem Descending.push (h : Descending s) {p : UInt8}
    (hp : p < s.getLast?.getD idlePrio) : Descending (s ++ [p]) := by
  refine isChain_append.2 ⟨h, isChain_singleton p, fun x hx y hy => ?_⟩
  rw [getLast?_cons, mem_some_iff] at hx
  rw [head?_cons, mem_some_iff] at hy
  rw [← hx, ← hy]
  exact hp

theorem Descending.pop (h : Descending s) : Descending s.dropLast := by
  refine List.IsChain.prefix h ?_
  rw [cons_prefix_cons]
  exact ⟨rfl, dropLast_prefix s⟩

namespace GicV2

variable {n : ℕ} {g : GicV2}

/-! ## What the writes keep -/

section Rules

variable {P : GicV2 → Prop} {c off start size w : ℕ}

theorem bitsSet_rule {f : {n : ℕ} → Fin n → Lines n → Lines n}
    (hput : ∀ g j, P g → P (g.put c j f)) (h : P g) : P (g.bitsSet c off start w f) := by
  refine foldlRecOn _ _ h fun g hg b _ => ?_
  split_ifs
  · exact hput _ _ hg
  · exact hg
  · exact hg

theorem writePriority_rule (hput : ∀ g j p, P g →
    P (g.put c j fun k l => { l with priority := Function.update l.priority k p })) (h : P g) :
    P (g.writePriority c off size w) := by
  refine foldlRecOn _ _ h fun g hg b _ => ?_
  split_ifs
  · exact hput _ _ _ hg
  · exact hg

theorem writeTargets_rule (hset : ∀ g ts, P g → P { g with targets := ts }) (h : P g) :
    P (g.writeTargets off size w) := by
  refine foldlRecOn _ _ h fun g hg b _ => ?_
  split_ifs
  · exact hset _ _ hg
  · exact hg
  · exact hg

theorem writeConfig_rule (hput : ∀ g j e, P g →
    P (g.put c j fun k l => { l with edge := Function.update l.edge k e })) (h : P g) :
    P (g.writeConfig c off w) := by
  refine foldlRecOn _ _ h fun g hg b _ => ?_
  split_ifs
  · exact hput _ _ _ hg
  · exact hg
  · exact hg

/-- What a write to the distributor can do. -/
theorem distWrite_rule (hpriority : P (g.writePriority c off size w))
    (htargets : P (g.writeTargets off size w))
    (hctlr : P { g with distEnabled := (w % 2 ^ 32).testBit 0 })
    (henabler : ∀ start on, P (g.bitsSet c (align4 off) start (w % 2 ^ 32) (setEnabled on)))
    (hispendr : range (align4 off) Gicd.ispendr 32 = true →
      P (g.bitsSet c (align4 off) Gicd.ispendr (w % 2 ^ 32) (setPending true)))
    (hicpendr : range (align4 off) Gicd.icpendr 32 = true →
      P (g.bitsSet c (align4 off) Gicd.icpendr (w % 2 ^ 32) (setPending false)))
    (hisactiver : P (g.bitsSet c (align4 off) Gicd.isactiver (w % 2 ^ 32) (setActive true)))
    (hicactiver : range (align4 off) Gicd.icactiver 32 = true →
      P (g.bitsSet c (align4 off) Gicd.icactiver (w % 2 ^ 32) (setActive false)))
    (hicfgr : P (g.writeConfig c (align4 off) (w % 2 ^ 32)))
    (hsgir : align4 off = Gicd.sgir → P (g.sgir c (w % 2 ^ 32))) (hnone : P g) :
    P (g.distWrite c off size w) := by
  refine iteInduction (fun _ => hpriority) fun _ => iteInduction (fun _ => htargets) fun _ => ?_
  refine iteInduction (fun _ => hctlr) fun _ => iteInduction (fun _ => henabler _ _) fun _ => ?_
  refine iteInduction (fun _ => henabler _ _) fun _ => iteInduction hispendr fun _ => ?_
  refine iteInduction hicpendr fun _ => iteInduction (fun _ => hisactiver) fun _ => ?_
  refine iteInduction hicactiver fun _ => iteInduction (fun _ => hicfgr) fun _ => ?_
  exact iteInduction hsgir fun _ => hnone

/-- What every change of the arrays and of the targets keeps. -/
theorem distWrite_keep
    (hput : ∀ g j (f : {n : ℕ} → Fin n → Lines n → Lines n), P g → P (g.put c j f))
    (htargets : ∀ g ts, P g → P { g with targets := ts })
    (hctlr : P { g with distEnabled := (w % 2 ^ 32).testBit 0 })
    (hsgir : align4 off = Gicd.sgir → P (g.sgir c (w % 2 ^ 32))) (h : P g) :
    P (g.distWrite c off size w) := by
  have hbits : ∀ off start w (f : {n : ℕ} → Fin n → Lines n → Lines n),
      P (g.bitsSet c off start w f) := fun _ _ _ f => bitsSet_rule (fun g j => hput g j f) h
  exact distWrite_rule (writePriority_rule (fun g j _ => hput g j _) h)
    (writeTargets_rule htargets h) hctlr (fun _ on => hbits _ _ _ (setEnabled on))
    (fun _ => hbits _ _ _ (setPending true)) (fun _ => hbits _ _ _ (setPending false))
    (hbits _ _ _ (setActive true)) (fun _ => hbits _ _ _ (setActive false))
    (writeConfig_rule (fun g j _ => hput g j _) h) hsgir h

end Rules

/-- What holds of a controller configured for `n` CPUs: it has at least these and at most
eight, and its running stacks fall. -/
structure Wf (n : ℕ) (g : GicV2) : Prop where
  some_cpu : 1 ≤ n
  has_cpus : n ≤ g.cpus.length
  max_cpu : g.cpus.length ≤ maxCpus
  stack : ∀ (k : ℕ) (b : CpuBank), g.cpus[k]? = some b → Descending b.running

variable (h : g.Wf n)

include h

theorem Wf.fits : g.Fits := by
  refine ⟨h.some_cpu.trans h.has_cpus, h.max_cpu, fun b hb => ?_⟩
  obtain ⟨k, hk⟩ := mem_iff_getElem?.1 hb
  exact (h.stack k b hk).length_le

omit h in
theorem withCpus_wf (h1 : 1 ≤ n) (h8 : n ≤ maxCpus) : (withCpus n).Wf n := by
  have hlen : (withCpus n).cpus.length = n := by
    rw [withCpus, length_replicate, Nat.max_eq_left h1, min_eq_left h8]
  refine ⟨h1, hlen.ge, hlen.trans_le h8, fun k b hb => ?_⟩
  rw [eq_of_mem_replicate (mem_of_getElem? hb)]
  exact descending_nil

theorem Wf.modifyBank {cpu : ℕ} {f : CpuBank → CpuBank}
    (hf : ∀ b, g.cpus[cpu]? = some b → Descending b.running → Descending (f b).running) :
    (g.modifyBank cpu f).Wf n := by
  have hlen : (g.modifyBank cpu f).cpus.length = g.cpus.length := length_modify ..
  refine ⟨h.some_cpu, hlen ▸ h.has_cpus, hlen ▸ h.max_cpu, fun k b hb => ?_⟩
  rw [GicV2.modifyBank, getElem?_modify] at hb
  obtain ⟨b₀, hb₀, rfl⟩ := map_eq_some_iff.1 hb
  by_cases hk : cpu = k
  · rw [if_pos hk]
    subst hk
    exact hf b₀ hb₀ (h.stack cpu b₀ hb₀)
  · rw [if_neg hk]
    exact h.stack k b₀ hb₀

/-- A change of the per-INTID arrays leaves every running stack. -/
theorem Wf.put (cpu : ℕ) (i : Intid) (f : {n : ℕ} → Fin n → Lines n → Lines n) :
    (g.put cpu i f).Wf n := by
  unfold GicV2.put
  split_ifs
  · exact h.modifyBank fun b _ hb => hb
  · exact ⟨h.some_cpu, h.has_cpus, h.max_cpu, h.stack⟩

theorem Wf.sgir (cpu v : ℕ) : (g.sgir cpu v).Wf n := by
  have hlen : (g.sgir cpu v).cpus.length = g.cpus.length := length_mapIdx ..
  refine ⟨h.some_cpu, hlen ▸ h.has_cpus, hlen ▸ h.max_cpu, fun k b hb => ?_⟩
  rw [GicV2.sgir, getElem?_mapIdx] at hb
  obtain ⟨b₀, hb₀, rfl⟩ := map_eq_some_iff.1 hb
  split_ifs
  · exact h.stack k b₀ hb₀
  · exact h.stack k b₀ hb₀

theorem Wf.distWrite (cpu off size val : ℕ) : (g.distWrite cpu off size val).Wf n :=
  distWrite_keep (P := Wf n) (fun _ _ f hg => hg.put cpu _ f)
    (fun _ _ hg => ⟨hg.some_cpu, hg.has_cpus, hg.max_cpu, hg.stack⟩)
    ⟨h.some_cpu, h.has_cpus, h.max_cpu, h.stack⟩ (fun _ => h.sgir cpu _) h

theorem Wf.setLevel (cpu intid : ℕ) (high : Bool) :
    (g.setLevel cpu intid high).Wf n := by
  unfold GicV2.setLevel
  split_ifs
  · exact h.put cpu _ _
  · exact h

/-! ## Acknowledging -/

omit h in
/-- A change of the arrays leaves the rest of every bank. -/
theorem interface_put {γ : Type} {O : CpuBank → γ} (hO : ∀ b l, O { b with toLines := l } = O b)
    (g : GicV2) (cpu k : ℕ) (i : Intid) (f : {n : ℕ} → Fin n → Lines n → Lines n) :
    O ((g.put cpu i f).bank k) = O (g.bank k) := by
  unfold GicV2.put
  split_ifs
  · simp only [bank, GicV2.modifyBank, getD_eq_getElem?_getD, getElem?_modify]
    cases g.cpus[k]? with
    | none => rfl
    | some b =>
      split_ifs
      · exact hO b _
      · rfl
  · rfl

theorem Wf.acknowledge (cpu : ℕ) : (g.acknowledge cpu).1.Wf n := by
  unfold GicV2.acknowledge
  cases hp : g.highestPending cpu with
  | none => exact h
  | some best =>
    obtain ⟨i, p⟩ := best
    refine (h.put cpu i _).modifyBank fun b hb hdesc => hdesc.push ?_
    -- the stack is still the one the priority was compared with
    have hrun := interface_put (O := CpuBank.running) (fun _ _ => rfl) g cpu cpu i fun j l =>
      { l with
        active := Function.update l.active j true
        pending := if l.edge j then Function.update l.pending j false else l.pending }
    rw [bank, getD_eq_getElem?_getD, hb, getD_some] at hrun
    rw [hrun]
    exact highestPending_lt hp

theorem Wf.endOfInterrupt (cpu intid : ℕ) : (g.endOfInterrupt cpu intid).Wf n := by
  refine Wf.modifyBank ?_ fun b _ hb => hb.pop
  split_ifs
  · exact h.put cpu _ _
  · exact h

omit h in
/-- A read of the CPU interface changes nothing, unless it acknowledges. -/
theorem cpuRead_fst (g : GicV2) (c off size : ℕ) : (g.cpuRead c off size).1 =
    if align4 off = Gicc.iar then (g.acknowledge c).1 else g := by
  by_cases hiar : align4 off = Gicc.iar
  · rw [if_pos hiar, cpuRead, hiar]
    rfl
  · simp [cpuRead, if_neg hiar, apply_ite Prod.fst]

theorem Wf.cpuRead (cpu off size : ℕ) : (g.cpuRead cpu off size).1.Wf n := by
  rw [cpuRead_fst]
  split_ifs
  · exact h.acknowledge cpu
  · exact h

theorem Wf.cpuWrite (cpu off val : ℕ) : (g.cpuWrite cpu off val).Wf n := by
  unfold GicV2.cpuWrite
  dsimp only
  split_ifs
  · exact h.modifyBank fun b _ hb => hb
  · exact h.modifyBank fun b _ hb => hb
  · exact h.endOfInterrupt cpu _
  · exact h

omit h

/-! ## Reachable controllers -/

/-- What can happen to a controller besides a restore.  Reads of the distributor leave it. -/
inductive Access
  | distRead (cpu off size : ℕ)
  | distWrite (cpu off size val : ℕ)
  | cpuRead (cpu off size : ℕ)
  | cpuWrite (cpu off size val : ℕ)
  | setLevel (cpu intid : ℕ) (high : Bool)

def Access.cpu : Access → ℕ
  | .distRead cpu _ _ => cpu
  | .distWrite cpu _ _ _ => cpu
  | .cpuRead cpu _ _ => cpu
  | .cpuWrite cpu _ _ _ => cpu
  | .setLevel cpu _ _ => cpu

def access (g : GicV2) : Access → GicV2
  | .distRead _ _ _ => g
  | .distWrite cpu off size val => g.distWrite cpu off size val
  | .cpuRead cpu off size => (g.cpuRead cpu off size).1
  | .cpuWrite cpu off _ val => g.cpuWrite cpu off val
  | .setLevel cpu intid high => g.setLevel cpu intid high

/-- The states of a controller configured for `n` CPUs.  A blob may come from any controller,
with any number of CPUs. -/
inductive Reachable : ℕ → GicV2 → Prop
  | withCpus {n : ℕ} : 1 ≤ n → n ≤ maxCpus → Reachable n (withCpus n)
  | access {n : ℕ} {g : GicV2} (a : Access) : Reachable n g → a.cpu < g.cpus.length →
      Reachable n (g.access a)
  | restore {n m : ℕ} {g g' : GicV2} : Reachable n g → Reachable m g' →
      Reachable n (g.restore g'.capture)

theorem Wf.access (h : g.Wf n) (a : Access) : (g.access a).Wf n := by
  cases a with
  | distRead cpu off size => exact h
  | distWrite cpu off size val => exact h.distWrite cpu off size val
  | cpuRead cpu off size => exact h.cpuRead cpu off size
  | cpuWrite cpu off size val => exact h.cpuWrite cpu off val
  | setLevel cpu intid high => exact h.setLevel cpu intid high

theorem Wf.padded {m : ℕ} {g' : GicV2} (h : g.Wf n) (h' : g'.Wf m) :
    (g'.padded g.cpus.length).Wf n := by
  have hlen : (g'.padded g.cpus.length).cpus.length =
      g'.cpus.length + (g.cpus.length - g'.cpus.length) := by
    rw [GicV2.padded, length_append, length_replicate]
  have hhas := h.has_cpus
  have hmax := h.max_cpu
  have hmax' := h'.max_cpu
  refine ⟨h.some_cpu, by omega, by omega, fun k b hb => ?_⟩
  rcases mem_append.1 (mem_of_getElem? hb) with hmem | hmem
  · obtain ⟨k', hk'⟩ := mem_iff_getElem?.1 hmem
    exact h'.stack k' b hk'
  · rw [eq_of_mem_replicate hmem]
    exact descending_nil

theorem Reachable.wf (h : Reachable n g) : g.Wf n := by
  induction h with
  | withCpus h1 h8 => exact withCpus_wf h1 h8
  | access a _ _ ih => exact ih.access a
  | restore _ _ ih ih' =>
    rw [restore_capture_of_fits ih'.fits]
    exact ih.padded ih'

theorem Reachable.accesses {l : List Access} (hl : ∀ a ∈ l, a.cpu < n) :
    ∀ {g : GicV2}, Reachable n g → Reachable n (l.foldl GicV2.access g) := by
  induction l with
  | nil => exact fun h => h
  | cons a l ih =>
    intro g h
    rw [forall_mem_cons] at hl
    exact ih hl.2 (.access a h (hl.1.trans_le h.wf.has_cpus))

/-- **Software-GIC snapshots are lossless.**  Whatever accesses and restores have led to, the
blob of it restores it exactly, into any controller that has no more CPUs than it was
configured for. -/
theorem restore_capture {n : ℕ} {g : GicV2} (hg : Reachable n g) {h : GicV2}
    (hcpus : h.cpus.length ≤ n) : h.restore g.capture = g := by
  rw [restore_capture_of_fits hg.wf.fits, padded_of_le (hcpus.trans hg.wf.has_cpus)]

/-- SGI 5 is posted to CPU 1, which takes it. -/
def ipiTaken : List Access :=
  [.distWrite 0 Gicd.ctlr 4 1, .cpuWrite 1 Gicc.pmr 4 0xff,
    .distWrite 1 (Gicd.ipriorityr + 5) 1 0x80, .distWrite 1 Gicd.isenabler 4 0x20,
    .distWrite 0 Gicd.sgir 4 0x20005, .cpuRead 1 Gicc.iar 4]

/-- With the SGI running on CPU 1 of two, the blob goes into a controller with one CPU. -/
theorem restore_capture_ipiTaken :
    let g := ipiTaken.foldl access (withCpus 2)
    g.cpus.map (·.running) = [[], [0x80]] ∧ (withCpus 1).restore g.capture = g := by
  refine ⟨by decide +kernel, restore_capture (n := 2) (Reachable.accesses ?_ ?_) (by decide)⟩
  · decide
  · exact .withCpus (by decide) (by decide)

end GicV2
end Amber.Hvf
