import Mathlib.Data.Nat.Digits.Defs
import Amber.Hvf.GicCells

/-!
# The distributor registers as a table of attributes

What a driver programs in the distributor is a table: for each INTID whether it is enabled and
active, its priority, its target CPUs and its trigger mode.  The INTIDs below 32 have a row for
each CPU, the others one row that all CPUs share.  The registers pack this table at one, two and
eight bits per INTID, and some of them only add to it or only remove from it.

* `Table`, `Table.write`, `Table.read` — the table, and what the registers mean in its terms.
* `gather_eq` — the loops that put a register together are a number in a base.
* `Represents.write` — a write to the distributor changes the table it stands for.
* `registers_refine` — after any writes by any CPUs, every read of these registers is a read of
  the table, and what a write does not name keeps its attributes.
-/

namespace Amber.Hvf

open List Runs

/-! ## The table -/

/-- What is kept of an INTID. -/
@[ext]
structure Attributes where
  enabled : Bool
  active : Bool
  priority : UInt8
  targets : UInt8
  edge : Bool
deriving DecidableEq

/-- The register blocks that show attributes. -/
inductive Block
  | isenabler
  | icenabler
  | isactiver
  | icactiver
  | ipriorityr
  | itargetsr
  | icfgr
deriving DecidableEq

namespace Block

def start : Block → ℕ
  | isenabler => Gicd.isenabler
  | icenabler => Gicd.icenabler
  | isactiver => Gicd.isactiver
  | icactiver => Gicd.icactiver
  | ipriorityr => Gicd.ipriorityr
  | itargetsr => Gicd.itargetsr
  | icfgr => Gicd.icfgr

/-- The registers of 32 bits in the block. -/
def count : Block → ℕ
  | isenabler | icenabler | isactiver | icactiver => 32
  | ipriorityr | itargetsr => 64
  | icfgr => 16

/-- The bits an INTID has in a register. -/
def width : Block → ℕ
  | isenabler | icenabler | isactiver | icactiver => 1
  | ipriorityr | itargetsr => 8
  | icfgr => 2

/-- The INTIDs that have a field in one register. -/
def fields (b : Block) : ℕ := 32 / b.width

variable (b : Block)

theorem width_pos : 0 < b.width := by cases b <;> decide

theorem start_mod : b.start % 4 = 0 := by cases b <;> rfl

/-- The fields fill a register. -/
theorem width_mul_fields : b.width * b.fields = 32 := by cases b <;> rfl

/-- The field of an INTID. -/
def field : Block → Attributes → ℕ
  | isenabler, a => a.enabled.toNat
  | icenabler, a => a.enabled.toNat
  | isactiver, a => a.active.toNat
  | icactiver, a => a.active.toNat
  | ipriorityr, a => a.priority.toNat
  | itargetsr, a => a.targets.toNat
  | icfgr, a => if a.edge then 0b10 else 0

theorem field_lt (a : Attributes) : b.field a < 2 ^ b.width := by
  cases b with
  | isenabler | icenabler | isactiver | icactiver => exact Bool.toNat_lt _
  | ipriorityr => exact a.priority.toNat_lt
  | itargetsr => exact a.targets.toNat_lt
  | icfgr =>
    show (if a.edge then 2 else 0) < 4
    split_ifs
    · decide
    · decide

/-- What field `d` of a written value does to INTID `i`, where there are `cpus` CPUs. -/
def store (cpus : ℕ) (i : Intid) (d val : ℕ) : Block → Attributes → Attributes
  | isenabler, a => { a with enabled := a.enabled || val.testBit d }
  | icenabler, a => { a with enabled := a.enabled && !val.testBit d }
  | isactiver, a => { a with active := a.active || val.testBit d }
  | icactiver, a => { a with active := a.active && !val.testBit d }
  | ipriorityr, a => { a with priority := UInt8.ofNat (val / 2 ^ (8 * d)) }
  | itargetsr, a =>
    if i.val < privateIntids then a
    else { a with targets := UInt8.ofNat (val / 2 ^ (8 * d)) &&& UInt8.ofNat (2 ^ cpus - 1) }
  | icfgr, a => if i.val < 16 then a else { a with edge := val.testBit (2 * d + 1) }

end Block

/-- A driver's write: four bytes at a register, or one byte of IPRIORITYR or ITARGETSR. -/
inductive Write
  | word (cpu : ℕ) (block : Block) (n : Fin block.count) (val : ℕ)
  | priority (cpu : ℕ) (i : Intid) (val : ℕ)
  | targets (cpu : ℕ) (i : Intid) (val : ℕ)

namespace Write

def cpu : Write → ℕ
  | word cpu _ _ _ => cpu
  | priority cpu _ _ => cpu
  | targets cpu _ _ => cpu

def block : Write → Block
  | word _ block _ _ => block
  | priority .. => .ipriorityr
  | targets .. => .itargetsr

def val : Write → ℕ
  | word _ _ _ val => val
  | priority _ _ val => val
  | targets _ _ val => val

/-- The first INTID that the write has a field for, and how many there are. -/
def first : Write → ℕ
  | word _ block n _ => n * block.fields
  | priority _ i _ => i
  | targets _ i _ => i

def fields : Write → ℕ
  | word _ block _ _ => block.fields
  | priority .. => 1
  | targets .. => 1

/-- The offset and the size of the access. -/
def off : Write → ℕ
  | word _ block n _ => block.start + 4 * n
  | priority _ i _ => Gicd.ipriorityr + i
  | targets _ i _ => Gicd.itargetsr + i

def size : Write → ℕ
  | word .. => 4
  | priority .. => 1
  | targets .. => 1

/-- The write has a field for INTID `i`, in the row of CPU `t`. -/
def Names (w : Write) (t : ℕ) (i : Intid) : Prop :=
  (w.first ≤ i.val ∧ i.val < w.first + w.fields) ∧ (i.val < privateIntids → w.cpu = t)

instance (w : Write) (t : ℕ) (i : Intid) : Decidable (w.Names t i) :=
  inferInstanceAs (Decidable (_ ∧ _))

end Write

/-- The fields of `count` INTIDs from `base` on, zero where there is no INTID. -/
def fieldsFrom (base : ℕ) (f : Intid → ℕ) (count : ℕ) : List ℕ :=
  (List.range count).map fun d => if h : base + d < numIntid then f ⟨base + d, h⟩ else 0

theorem ofDigits_fieldsFrom_lt {width : ℕ} (hw : 0 < width) {f : Intid → ℕ}
    (hf : ∀ i, f i < 2 ^ width) (base count : ℕ) :
    Nat.ofDigits (2 ^ width) (fieldsFrom base f count) < 2 ^ (width * count) := by
  have hlt := Nat.ofDigits_lt_base_pow_length (Nat.one_lt_two_pow hw.ne')
    (l := fieldsFrom base f count) ?_
  · rwa [fieldsFrom, length_map, length_range, ← pow_mul] at hlt
  · intro x hx
    obtain ⟨d, -, rfl⟩ := mem_map.1 hx
    split_ifs
    · exact hf _
    · exact Nat.two_pow_pos width

theorem privateIntids_le : privateIntids ≤ numIntid := by decide

/-- The table: a row of the private INTIDs for each CPU and one of the others. -/
structure Table where
  cpus : ℕ
  own : ℕ → Fin privateIntids → Attributes
  spi : Intid → Attributes

namespace Table

def row (T : Table) (c : ℕ) (i : Intid) : Attributes :=
  if h : i.val < privateIntids then T.own c ⟨i, h⟩ else T.spi i

/-- Apply `f` to the attributes of every INTID, as CPU `c` sees them. -/
def change (T : Table) (c : ℕ) (f : Intid → Attributes → Attributes) : Table :=
  { T with
    own := fun c' k => if c = c' then f (k.castLE privateIntids_le) (T.own c' k) else T.own c' k
    spi := fun i => f i (T.spi i) }

def write (T : Table) (w : Write) : Table :=
  T.change w.cpu fun i a =>
    if w.first ≤ i.val ∧ i.val < w.first + w.fields then
      w.block.store T.cpus i (i.val - w.first) w.val a
    else a

/-- Register `n` of a block as CPU `c` reads it: the fields as digits of one number. -/
def read (T : Table) (c : ℕ) (b : Block) (n : ℕ) : ℕ :=
  Nat.ofDigits (2 ^ b.width)
    (fieldsFrom (n * b.fields) (fun i => b.field (T.row c i)) b.fields)

variable (T : Table)

theorem read_lt (c : ℕ) (b : Block) (n : ℕ) : T.read c b n < 2 ^ 32 := by
  have hlt := ofDigits_fieldsFrom_lt b.width_pos (fun i => b.field_lt (T.row c i)) (n * b.fields)
    b.fields
  rwa [b.width_mul_fields] at hlt

/-- The bytes `j` to `j + size - 1` of a register. -/
def bytes (v j size : ℕ) : ℕ := v / 2 ^ (8 * j) % 2 ^ (8 * size)

theorem row_change (c : ℕ) (f : Intid → Attributes → Attributes) (t : ℕ) (i : Intid) :
    (T.change c f).row t i =
      if i.val < privateIntids → c = t then f i (T.row t i) else T.row t i := by
  unfold row change
  by_cases hi : i.val < privateIntids
  · simp only [hi, dif_pos, true_imp_iff]
    rfl
  · simp [hi]

theorem row_write (w : Write) (t : ℕ) (i : Intid) :
    (T.write w).row t i =
      if w.Names t i then w.block.store T.cpus i (i.val - w.first) w.val (T.row t i)
      else T.row t i := by
  rw [write, row_change]
  split_ifs with h₁ h₂ h₃ h₃ h₃
  · rfl
  · exact absurd ⟨h₂, h₁⟩ h₃
  · exact absurd h₃.1 h₂
  · rfl
  · exact absurd h₃.2 h₁
  · rfl

end Table

theorem Gicd.offsets : Gicd.ctlr = 0x000 ∧ Gicd.typer = 0x004 ∧ Gicd.iidr = 0x008 ∧
    Gicd.igroupr = 0x080 ∧ Gicd.isenabler = 0x100 ∧ Gicd.icenabler = 0x180 ∧
    Gicd.ispendr = 0x200 ∧ Gicd.icpendr = 0x280 ∧ Gicd.isactiver = 0x300 ∧
    Gicd.icactiver = 0x380 ∧ Gicd.ipriorityr = 0x400 ∧ Gicd.itargetsr = 0x800 ∧
    Gicd.icfgr = 0xc00 := by decide

namespace GicV2

/-! ## Registers as numbers -/

theorem gather_succ (count width base : ℕ) (f : Intid → ℕ) :
    gather (count + 1) width base f =
      if h : base + count < numIntid then
        gather count width base f ||| (f ⟨base + count, h⟩ <<< (count * width))
      else gather count width base f := by
  rw [gather, range_succ, foldl_concat]
  rfl

/-- The fields of a register are the digits of its value. -/
theorem gather_eq {width : ℕ} (hw : 0 < width) {f : Intid → ℕ} (hf : ∀ i, f i < 2 ^ width)
    (count base : ℕ) :
    gather count width base f = Nat.ofDigits (2 ^ width) (fieldsFrom base f count) := by
  induction count with
  | zero => rfl
  | succ count ih =>
    have hlt := ofDigits_fieldsFrom_lt hw hf base count
    rw [gather_succ, ih]
    rw [fieldsFrom] at hlt ⊢
    rw [fieldsFrom, range_succ, map_append, Nat.ofDigits_append, length_map,
      length_range, ← pow_mul, map_singleton, Nat.ofDigits_singleton]
    split_ifs with hin
    · rw [Nat.or_comm, mul_comm count width, ← Nat.shiftLeft_add_eq_or_of_lt hlt, Nat.shiftLeft_eq]
      ring
    · rw [mul_zero, add_zero]

/-- The bytes that an access wants. -/
theorem extract_eq {reg : ℕ} (hreg : reg < 2 ^ 32) (off : ℕ) {size : ℕ}
    (hsize : size ∈ [1, 2, 4, 8]) : extract reg off size = Table.bytes reg (off % 4) size := by
  have hlt : reg / 2 ^ (8 * (off % 4)) < 2 ^ 32 := (Nat.div_le_self _ _).trans_lt hreg
  have hmask : ∀ n, reg >>> (off % 4 * 8) &&& (2 ^ n - 1) = reg / 2 ^ (8 * (off % 4)) % 2 ^ n := by
    intro n
    rw [Nat.and_two_pow_sub_one_eq_mod, Nat.shiftRight_eq_div_pow, mul_comm]
  simp only [mem_cons, not_mem_nil, or_false] at hsize
  rcases hsize with rfl | rfl | rfl | rfl
  · exact hmask 8
  · exact hmask 16
  · exact hmask 32
  · refine (hmask 32).trans ?_
    rw [Table.bytes, Nat.mod_eq_of_lt hlt, Nat.mod_eq_of_lt (hlt.trans (by decide))]

/-! ## The table a controller stands for -/

/-- The targets of an INTID as CPU `c` sees them: for a private one, the CPU. -/
def targetsAt (g : GicV2) (c : ℕ) (i : Intid) : UInt8 :=
  if i.val < privateIntids then UInt8.ofNat (2 ^ c) else g.targets i

variable {g : GicV2} {n t : ℕ}

theorem targetsAt_congr {g' : GicV2} (h : g'.targets = g.targets) (c : ℕ) (i : Intid) :
    g'.targetsAt c i = g.targetsAt c i := by
  rw [targetsAt, targetsAt, h]

def attributes (g : GicV2) (c : ℕ) (i : Intid) : Attributes where
  enabled := g.enabledAt c i
  active := g.activeAt c i
  priority := g.priorityAt c i
  targets := g.targetsAt c i
  edge := g.edgeAt c i

/-- The table stands for what the CPUs there are see. -/
structure Represents (g : GicV2) (T : Table) : Prop where
  cpus : T.cpus = g.cpus.length
  row : ∀ c < g.cpus.length, ∀ i, g.attributes c i = T.row c i

def table (g : GicV2) : Table where
  cpus := g.cpus.length
  own c k := g.attributes c (k.castLE privateIntids_le)
  spi i := g.attributes 0 i

theorem represents_table (g : GicV2) : g.Represents g.table := by
  refine ⟨rfl, fun c _ i => ?_⟩
  unfold Table.row
  split_ifs with hi
  · rfl
  · show g.attributes c i = g.attributes 0 i
    simp only [attributes, enabledAt, activeAt, priorityAt, targetsAt, edgeAt, get_shared hi,
      if_neg hi]

/-! ## Reads -/

theorem align4_start (b : Block) (n : ℕ) {j : ℕ} (hj : j < 4) :
    align4 (b.start + 4 * n + j) = b.start + 4 * n := by
  have hstart := b.start_mod
  unfold align4
  omega

theorem range_iff {off start count : ℕ} :
    range off start count = true ↔ start ≤ off ∧ off < start + count * 4 := decide_eq_true_iff

theorem align4_sub_start (start n : ℕ) : align4 (start + 4 * n - start) = n * 4 := by
  unfold align4
  omega

theorem baseIndex_start (start n : ℕ) : baseIndex (start + 4 * n) start = n * 32 := by
  unfold baseIndex align4
  omega

/-- The target of a private INTID is the CPU that reads it. -/
theorem toNat_ownTarget (c : ℕ) : (UInt8.ofNat (2 ^ c)).toNat = (1 <<< c) &&& 0xff := by
  rw [UInt8.toNat_ofNat', Nat.one_shiftLeft]
  exact (Nat.and_two_pow_sub_one_eq_mod (2 ^ c) 8).symm

/-- The offset of a register of a block is in the range of this block and no other. -/
theorem ranges_start {b : Block} (hn : n < b.count) {off : ℕ} (hoff : off = b.start + 4 * n) :
    (off ≠ Gicd.ctlr ∧ off ≠ Gicd.typer ∧ off ≠ Gicd.iidr ∧ range off Gicd.igroupr 32 = false) ∧
    (range off Gicd.isenabler 32 = decide (b = .isenabler) ∧
      range off Gicd.icenabler 32 = decide (b = .icenabler)) ∧
    (range off Gicd.ispendr 32 = false ∧ range off Gicd.icpendr 32 = false) ∧
    (range off Gicd.isactiver 32 = decide (b = .isactiver) ∧
      range off Gicd.icactiver 32 = decide (b = .icactiver)) ∧
    range off Gicd.ipriorityr 64 = decide (b = .ipriorityr) ∧
    range off Gicd.itargetsr 64 = decide (b = .itargetsr) ∧
    range off Gicd.icfgr 16 = decide (b = .icfgr) := by
  have hreg := Gicd.offsets
  unfold range
  cases b <;> simp only [Block.start, Block.count] at hoff hn <;>
    simp only [reduceCtorEq, decide_eq_decide, decide_eq_false_iff_not, iff_true, iff_false] <;>
    omega

/-- A register of a block is gathered from the attributes. -/
theorem distRead32_block (g : GicV2) (c : ℕ) {b : Block} (hn : n < b.count) :
    g.distRead32 c (b.start + 4 * n) =
      gather b.fields b.width (n * b.fields) fun i => b.field (g.attributes c i) := by
  have hreg := Gicd.offsets
  generalize hoff : b.start + 4 * n = off
  obtain ⟨⟨h₁, h₂, h₃, h₄⟩, ⟨h₅, h₆⟩, ⟨h₇, h₈⟩, ⟨h₉, h₁₀⟩, h₁₁, h₁₂, h₁₃⟩ :=
    ranges_start hn hoff.symm
  simp only [distRead32, if_neg h₁, if_neg h₂, if_neg h₃, h₄, h₅, h₆, h₇, h₈, h₉, h₁₀, h₁₁, h₁₂,
    h₁₃]
  cases b <;> simp only [Block.start, Block.count] at hoff hn <;>
    simp only [reduceCtorEq, decide_true, decide_false, Bool.or_self, Bool.true_or, Bool.or_true,
      Bool.false_eq_true, if_true, if_false]
  case isenabler | isactiver =>
    rw [if_pos (by omega), ← hoff, baseIndex_start]
    rfl
  case icenabler | icactiver =>
    rw [if_neg (by omega), ← hoff, baseIndex_start]
    rfl
  case ipriorityr =>
    rw [← hoff, align4_sub_start]
    rfl
  case itargetsr =>
    rw [← hoff, align4_sub_start]
    refine congrArg (gather 4 8 (n * 4)) (funext fun i => ?_)
    show _ = (g.targetsAt c i).toNat
    unfold targetsAt
    split_ifs
    · exact (toNat_ownTarget c).symm
    · rfl
  case icfgr =>
    rw [← hoff, baseIndexCfg, align4_sub_start, mul_assoc]
    rfl

/-- **A read is a read of the table.** -/
theorem distRead_block {T : Table} (hT : g.Represents T) {c : ℕ}
    (hc : c < g.cpus.length) {b : Block} (hn : n < b.count) {j size : ℕ} (hj : j < 4)
    (hsize : size ∈ [1, 2, 4, 8]) :
    g.distRead c (b.start + 4 * n + j) size = Table.bytes (T.read c b n) j size := by
  have hreg : g.distRead32 c (b.start + 4 * n) = T.read c b n := by
    rw [distRead32_block g c hn, gather_eq b.width_pos fun i => b.field_lt _]
    simp only [hT.row c hc]
    rfl
  have hoff : (b.start + 4 * n + j) % 4 = j := by
    have := b.start_mod
    omega
  have hlt : T.read c b n < 2 ^ 32 := T.read_lt c b n
  rw [distRead, align4_start b n hj, hreg, extract_eq hlt _ hsize, hoff]

/-! ## Writes -/

section Writes

variable {g : GicV2} {c t : ℕ} {i : Intid} {off size w : ℕ}

/-- What a write of four bytes to a register of a block does. -/
def writeWord (g : GicV2) (c off w : ℕ) : Block → GicV2
  | .isenabler => g.bitsSet c off Gicd.isenabler (w % 2 ^ 32) (setEnabled true)
  | .icenabler => g.bitsSet c off Gicd.icenabler (w % 2 ^ 32) (setEnabled false)
  | .isactiver => g.bitsSet c off Gicd.isactiver (w % 2 ^ 32) (setActive true)
  | .icactiver => g.bitsSet c off Gicd.icactiver (w % 2 ^ 32) (setActive false)
  | .ipriorityr => g.writePriority c off 4 w
  | .itargetsr => g.writeTargets off 4 w
  | .icfgr => g.writeConfig c off (w % 2 ^ 32)

theorem distWrite_ipriorityr {n : ℕ} (hn : n < 256) :
    g.distWrite c (Gicd.ipriorityr + n) size w =
      g.writePriority c (Gicd.ipriorityr + n) size w := by
  rw [distWrite, if_pos]
  rw [range_iff]
  omega

theorem distWrite_itargetsr {n : ℕ} (hn : n < 256) :
    g.distWrite c (Gicd.itargetsr + n) size w = g.writeTargets (Gicd.itargetsr + n) size w := by
  have hoff := Gicd.offsets
  rw [distWrite, if_neg, if_pos]
  all_goals
    rw [range_iff]
    omega

theorem distWrite_word {b : Block} {n : ℕ} (hn : n < b.count) :
    g.distWrite c (b.start + 4 * n) 4 w = g.writeWord c (b.start + 4 * n) w b := by
  have halign : align4 (b.start + 4 * n) = b.start + 4 * n := align4_start b n (by decide : 0 < 4)
  obtain ⟨⟨h₁, -⟩, ⟨h₅, h₆⟩, ⟨h₇, h₈⟩, ⟨h₉, h₁₀⟩, h₁₁, h₁₂, h₁₃⟩ := ranges_start hn rfl
  simp only [distWrite, halign, if_neg h₁, h₅, h₆, h₇, h₈, h₉, h₁₀, h₁₁, h₁₂, h₁₃]
  cases b <;> rfl

/-- A bit that is written to a register of one bit per INTID. -/
theorem bitAt_start {start n : ℕ} : BitAt (start + 4 * n) start (w % 2 ^ 32) t i c ↔
    ((n * 32 ≤ i.val ∧ i.val < n * 32 + 32) ∧ (i.val < privateIntids → c = t)) ∧
      w.testBit (i.val - n * 32) = true := by
  unfold BitAt
  rw [baseIndex_start, Nat.testBit_mod_two_pow, Bool.and_eq_true, decide_eq_true_eq]
  constructor
  · rintro ⟨h₁, h₂, ⟨-, h₃⟩, h₄⟩
    exact ⟨⟨⟨h₁, h₂⟩, h₄⟩, h₃⟩
  · rintro ⟨⟨⟨h₁, h₂⟩, h₄⟩, h₃⟩
    exact ⟨h₁, h₂, ⟨by omega, h₃⟩, h₄⟩

section Attributes

variable (ht : t < g.cpus.length)

include ht

omit ht in
/-- A register of one bit per INTID has no part in priorities and trigger modes. -/
theorem attributes_bitsSet {f : {n : ℕ} → Fin n → Lines n → Lines n} {start : ℕ} {e a : Bool}
    (hpriority : ∀ {n : ℕ} (k : Fin n) (l : Lines n), (f k l).priority = l.priority)
    (hedge : ∀ {n : ℕ} (k : Fin n) (l : Lines n), (f k l).edge = l.edge)
    (he : (g.bitsSet c off start w f).enabledAt t i = e)
    (ha : (g.bitsSet c off start w f).activeAt t i = a) :
    (g.bitsSet c off start w f).attributes t i =
      { g.attributes t i with enabled := e, active := a } := by
  have hp : (g.bitsSet c off start w f).priorityAt t i = g.priorityAt t i :=
    get_bitsSet_keep hpriority
  have hedge : (g.bitsSet c off start w f).edgeAt t i = g.edgeAt t i := get_bitsSet_keep hedge
  rw [attributes, he, ha, hp, hedge, targetsAt_congr (targets_bitsSet ..)]
  rfl

theorem attributes_setEnabled (start n : ℕ) (on : Bool) :
    (g.bitsSet c (start + 4 * n) start (w % 2 ^ 32) (setEnabled on)).attributes t i =
      if (n * 32 ≤ i.val ∧ i.val < n * 32 + 32) ∧ (i.val < privateIntids → c = t) then
        { g.attributes t i with
          enabled := if w.testBit (i.val - n * 32) then on else g.enabledAt t i }
      else g.attributes t i := by
  rw [attributes_bitsSet (f := setEnabled on) (fun _ _ => rfl) (fun _ _ => rfl)
    (get_bitsSet ht fun _ _ => rfl)
    (get_bitsSet_keep fun _ _ => rfl), if_congr bitAt_start rfl rfl, ite_and]
  split_ifs <;> rfl

theorem attributes_setActive (start n : ℕ) (on : Bool) :
    (g.bitsSet c (start + 4 * n) start (w % 2 ^ 32) (setActive on)).attributes t i =
      if (n * 32 ≤ i.val ∧ i.val < n * 32 + 32) ∧ (i.val < privateIntids → c = t) then
        { g.attributes t i with
          active := if w.testBit (i.val - n * 32) then on else g.activeAt t i }
      else g.attributes t i := by
  rw [attributes_bitsSet (f := setActive on) (fun _ _ => rfl) (fun _ _ => rfl)
    (get_bitsSet_keep fun _ _ => rfl)
    (get_bitsSet ht fun _ _ => rfl), if_congr bitAt_start rfl rfl, ite_and]
  split_ifs <;> rfl

theorem attributes_writePriority : (g.writePriority c off size w).attributes t i =
    if (off - Gicd.ipriorityr ≤ i.val ∧ i.val < off - Gicd.ipriorityr + size) ∧
      (i.val < privateIntids → c = t) then
      { g.attributes t i with priority := byteOf w (i.val - (off - Gicd.ipriorityr)) }
    else g.attributes t i := by
  have henabled : (g.writePriority c off size w).enabledAt t i = g.enabledAt t i :=
    get_writePriority_keep fun _ _ _ => rfl
  have hactive : (g.writePriority c off size w).activeAt t i = g.activeAt t i :=
    get_writePriority_keep fun _ _ _ => rfl
  have hedge : (g.writePriority c off size w).edgeAt t i = g.edgeAt t i :=
    get_writePriority_keep fun _ _ _ => rfl
  rw [attributes, henabled, hactive, priorityAt_writePriority ht, hedge,
    targetsAt_congr (targets_writePriority ..)]
  split_ifs
  · rfl
  · rfl

theorem attributes_writeConfig : (g.writeConfig c off w).attributes t i =
    if (baseIndexCfg off ≤ i.val ∧ i.val < baseIndexCfg off + 16) ∧ 16 ≤ i.val ∧
      (i.val < privateIntids → c = t) then
      { g.attributes t i with edge := w.testBit ((i.val - baseIndexCfg off) * 2 + 1) }
    else g.attributes t i := by
  have henabled : (g.writeConfig c off w).enabledAt t i = g.enabledAt t i :=
    get_writeConfig_keep fun _ _ _ => rfl
  have hactive : (g.writeConfig c off w).activeAt t i = g.activeAt t i :=
    get_writeConfig_keep fun _ _ _ => rfl
  have hpriority : (g.writeConfig c off w).priorityAt t i = g.priorityAt t i :=
    get_writeConfig_keep fun _ _ _ => rfl
  rw [attributes, henabled, hactive, hpriority, edgeAt_writeConfig ht,
    targetsAt_congr (targets_writeConfig ..)]
  split_ifs
  · rfl
  · rfl

end Attributes

theorem attributes_writeTargets : (g.writeTargets off size w).attributes t i =
    if (off - Gicd.itargetsr ≤ i.val ∧ i.val < off - Gicd.itargetsr + size) ∧
      privateIntids ≤ i.val then
      { g.attributes t i with
        targets := byteOf w (i.val - (off - Gicd.itargetsr)) &&&
          UInt8.ofNat (1 <<< g.cpus.length - 1) }
    else g.attributes t i := by
  have henabled : (g.writeTargets off size w).enabledAt t i = g.enabledAt t i := get_writeTargets
  have hactive : (g.writeTargets off size w).activeAt t i = g.activeAt t i := get_writeTargets
  have hpriority : (g.writeTargets off size w).priorityAt t i = g.priorityAt t i :=
    get_writeTargets
  have hedge : (g.writeTargets off size w).edgeAt t i = g.edgeAt t i := get_writeTargets
  rw [attributes, henabled, hactive, hpriority, hedge, targetsAt, targets_writeTargets]
  by_cases hs : (off - Gicd.itargetsr ≤ i.val ∧ i.val < off - Gicd.itargetsr + size) ∧
      privateIntids ≤ i.val
  · rw [if_pos hs, if_pos hs, if_neg (not_lt.2 hs.2)]
    rfl
  · rw [if_neg hs, if_neg hs]
    rfl

/-- The byte of a write of at most eight. -/
theorem byteOf_eq {k : ℕ} (hk : k < 8) : byteOf w k = UInt8.ofNat (w / 2 ^ (8 * k)) := by
  rw [byteOf, Nat.mod_eq_of_lt (by omega), Nat.shiftRight_eq_div_pow, mul_comm]

end Writes

/-- What a driver's write does. -/
def write (g : GicV2) (w : Write) : GicV2 := g.distWrite w.cpu w.off w.size w.val

section Step

variable {g : GicV2} {t : ℕ} (ht : t < g.cpus.length) (cpu : ℕ) {k size : ℕ} (hk : k < 256)
  (hsize : size ≤ 8) (val : ℕ) (i : Intid)

include hk hsize

theorem attributes_priorityBytes (ht : t < g.cpus.length) :
    (g.distWrite cpu (Gicd.ipriorityr + k) size val).attributes t i =
      if (k ≤ i.val ∧ i.val < k + size) ∧ (i.val < privateIntids → cpu = t) then
        Block.ipriorityr.store g.cpus.length i (i.val - k) val (g.attributes t i)
      else g.attributes t i := by
  rw [distWrite_ipriorityr hk, attributes_writePriority ht, Nat.add_sub_cancel_left]
  split_ifs with h
  · rw [byteOf_eq (by omega)]
    rfl
  · rfl

theorem attributes_targetsBytes :
    (g.distWrite cpu (Gicd.itargetsr + k) size val).attributes t i =
      if (k ≤ i.val ∧ i.val < k + size) ∧ (i.val < privateIntids → cpu = t) then
        Block.itargetsr.store g.cpus.length i (i.val - k) val (g.attributes t i)
      else g.attributes t i := by
  rw [distWrite_itargetsr hk, attributes_writeTargets, Nat.add_sub_cancel_left, Block.store]
  by_cases hi : i.val < privateIntids
  · rw [if_neg fun h => absurd hi (not_lt.2 h.2), if_pos hi, ite_self]
  · rw [if_neg hi]
    refine if_ctx_congr ⟨fun h => ⟨h.1, fun h' => absurd h' hi⟩, fun h => ⟨h.1, not_lt.1 hi⟩⟩
      (fun h => ?_) fun _ => rfl
    rw [byteOf_eq (by omega), Nat.one_shiftLeft]

end Step

theorem attributes_configWord (ht : t < g.cpus.length) (cpu : ℕ)
    (hn : n < 16) (val : ℕ) (i : Intid) :
    (g.distWrite cpu (Gicd.icfgr + 4 * n) 4 val).attributes t i =
      if (n * 16 ≤ i.val ∧ i.val < n * 16 + 16) ∧ (i.val < privateIntids → cpu = t) then
        Block.icfgr.store g.cpus.length i (i.val - n * 16) val (g.attributes t i)
      else g.attributes t i := by
  have hbase : baseIndexCfg (Gicd.icfgr + 4 * n) = n * 16 := by
    rw [baseIndexCfg, align4_sub_start]
    omega
  refine (congrArg (attributes · t i) (distWrite_word (b := .icfgr) hn)).trans ?_
  refine (attributes_writeConfig ht).trans ?_
  rw [Block.start, hbase, Block.store]
  by_cases hi : i.val < 16
  · rw [if_neg fun h => absurd hi (not_lt.2 h.2.1), if_pos hi, ite_self]
  · rw [if_neg hi]
    refine if_ctx_congr ⟨fun h => ⟨h.1, h.2.2⟩, fun h => ⟨h.1, not_lt.1 hi, h.2⟩⟩
      (fun h => ?_) fun _ => rfl
    have hbit : (i.val - n * 16) * 2 + 1 < 32 := by omega
    rw [Nat.testBit_mod_two_pow, decide_eq_true hbit, Bool.true_and, mul_comm 2]

/-- What a register write does to the attributes. -/
theorem attributes_word (ht : t < g.cpus.length) (cpu : ℕ) (b : Block)
    (hn : n < b.count) (val : ℕ) (i : Intid) :
    (g.distWrite cpu (b.start + 4 * n) 4 val).attributes t i =
      if (n * b.fields ≤ i.val ∧ i.val < n * b.fields + b.fields) ∧
        (i.val < privateIntids → cpu = t) then
        b.store g.cpus.length i (i.val - n * b.fields) val (g.attributes t i)
      else g.attributes t i := by
  cases b with
  | isenabler =>
    rw [distWrite_word hn]
    refine (attributes_setEnabled ht ..).trans (if_congr Iff.rfl ?_ rfl)
    simp [Block.store, Block.fields, Block.width, attributes, Bool.or_comm]
  | icenabler =>
    rw [distWrite_word hn]
    refine (attributes_setEnabled ht ..).trans (if_congr Iff.rfl ?_ rfl)
    simp [Block.store, Block.fields, Block.width, attributes, Bool.and_comm]
  | isactiver =>
    rw [distWrite_word hn]
    refine (attributes_setActive ht ..).trans (if_congr Iff.rfl ?_ rfl)
    simp [Block.store, Block.fields, Block.width, attributes, Bool.or_comm]
  | icactiver =>
    rw [distWrite_word hn]
    refine (attributes_setActive ht ..).trans (if_congr Iff.rfl ?_ rfl)
    simp [Block.store, Block.fields, Block.width, attributes, Bool.and_comm]
  | ipriorityr =>
    replace hn : n < 64 := hn
    rw [mul_comm 4 n]
    exact attributes_priorityBytes cpu (by omega) (by decide : 4 ≤ 8) val i ht
  | itargetsr =>
    replace hn : n < 64 := hn
    rw [mul_comm 4 n]
    exact attributes_targetsBytes cpu (by omega) (by decide : 4 ≤ 8) val i
  | icfgr => exact attributes_configWord ht cpu hn val i

/-- **A write changes the attributes of what it names**, as its block says, and no others. -/
theorem attributes_write (ht : t < g.cpus.length) (w : Write) (i : Intid) :
    (g.write w).attributes t i =
      if w.Names t i then
        w.block.store g.cpus.length i (i.val - w.first) w.val (g.attributes t i)
      else g.attributes t i := by
  cases w with
  | word cpu b n val => exact attributes_word ht cpu b n.isLt val i
  | priority cpu k val => exact attributes_priorityBytes cpu k.isLt (by decide : 1 ≤ 8) val i ht
  | targets cpu k val => exact attributes_targetsBytes cpu k.isLt (by decide : 1 ≤ 8) val i

theorem length_write (g : GicV2) (w : Write) : (g.write w).cpus.length = g.cpus.length :=
  length_distWrite ..

/-- A step of the controller is a step of the table. -/
theorem Represents.write {g : GicV2} {T : Table} (h : g.Represents T) (w : Write) :
    (g.write w).Represents (T.write w) := by
  refine ⟨h.cpus.trans (length_write g w).symm, fun c hc i => ?_⟩
  rw [length_write] at hc
  rw [attributes_write hc, T.row_write, h.row c hc, h.cpus]

/-- **The distributor registers refine a table of attributes.**  From any controller, after any
sequence of writes to these registers, every read of one of them, of 1, 2, 4 or 8 bytes and by
any CPU, is the read of the table that the writes lead to; and one more write changes the
attributes of no INTID that it does not name. -/
theorem registers_refine (g : GicV2) (l : List Write) :
    (∀ c < g.cpus.length, ∀ (b : Block), ∀ n < b.count, ∀ j < 4, ∀ size ∈ [1, 2, 4, 8],
      (Runs.run write g l).distRead c (b.start + 4 * n + j) size =
        Table.bytes ((Runs.run Table.write g.table l).read c b n) j size) ∧
      ∀ c < g.cpus.length, ∀ (w : Write) (i : Intid), ¬ w.Names c i →
        ((Runs.run write g l).write w).attributes c i = (Runs.run write g l).attributes c i := by
  have heach : Runs.Each write (fun _ _ => True) g l := each_of_forall fun _ _ => trivial
  have hrun : (run write g l).Represents (run Table.write g.table l) :=
    related (fun _ _ w h _ => h.write w) g.represents_table heach
  have hlen : (run write g l).cpus.length = g.cpus.length :=
    invariant_always (I := fun s : GicV2 => s.cpus.length = g.cpus.length)
      (fun s w hs => (length_write s w).trans hs) rfl l
  constructor
  · intro c hc b n hn j hj size hsize
    exact distRead_block hrun (hlen ▸ hc) hn hj hsize
  · intro c hc w i hnot
    rw [attributes_write (hlen ▸ hc), if_neg hnot]

/-- Of two CPUs, CPU 0 enables INTIDs 1 and 33 and gives INTID 33 to every CPU of eight.  CPU 1
reads its own INTID 1 as disabled, and both read 33 as enabled and for CPUs 0 and 1. -/
theorem registers_refine_two :
    let l : List Write := [.word 0 .isenabler ⟨0, by decide⟩ 2, .word 0 .isenabler ⟨1, by decide⟩ 2,
      .targets 0 ⟨33, by decide⟩ 0xff]
    let T := run Table.write (withCpus 2).table l
    let g := run write (withCpus 2) l
    let sgi : Intid := ⟨5, by decide⟩
    (T.read 0 .isenabler 0 = 2 ∧ T.read 1 .isenabler 0 = 0 ∧ T.read 1 .icenabler 1 = 2 ∧
      Table.bytes (T.read 1 .itargetsr 8) 1 1 = 3) ∧
      g.distRead 1 Gicd.isenabler 4 = Table.bytes (T.read 1 .isenabler 0) 0 4 ∧
      g.distRead 1 (Gicd.itargetsr + 33) 1 = Table.bytes (T.read 1 .itargetsr 8) 1 1 ∧
      (g.write (.priority 0 sgi 7)).attributes 1 sgi = g.attributes 1 sgi := by
  intro l T g sgi
  have h := registers_refine (withCpus 2) l
  refine ⟨by decide, h.1 1 (by decide) .isenabler 0 (by decide) 0 (by decide) 4 (by decide),
    h.1 1 (by decide) .itargetsr 8 (by decide) 1 (by decide) 1 (by decide),
    h.2 1 (by decide) (.priority 0 sgi 7) sgi (by decide)⟩

end GicV2
end Amber.Hvf
