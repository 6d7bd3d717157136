import Mathlib.Data.List.Basic
import Mathlib.Data.Nat.Bitwise
import Amber.Lib.ByteReader

/-!
# The software GICv2

`amber-hvf/src/gicv2.rs`: distributor and CPU interface of an interrupt controller that is
plain state, with one bank per CPU for the private INTIDs 0 … 31 and the CPU interface, and
one shared block for the SPIs.

The arrays a bank and the shared block have in common are `Lines`; `get` and `put` pick the
bank or the shared block by INTID, as every accessor of the source does.  Register offsets,
access sizes and values are natural numbers.  An access for a CPU the controller does not have
panics in the source; here it reads a reset bank and writes nothing.

`capture` writes the whole state as one positional byte stream.  `restore` reads such a stream
back, or one of the older single-CPU layout, tolerating a short one.
-/

namespace Amber.Hvf

open ByteReader

def numIntid : ℕ := 256

/-- SGIs and PPIs, banked per CPU. -/
def privateIntids : ℕ := 32

def spurious : ℕ := 1023

/-- The running priority while nothing is active: everything can preempt. -/
def idlePrio : UInt8 := 0xff

def maxCpus : ℕ := 8

abbrev Intid := Fin numIntid

/-! ## Registers -/

namespace Gicd

def ctlr : ℕ := 0x000
def typer : ℕ := 0x004
def iidr : ℕ := 0x008
def igroupr : ℕ := 0x080
def isenabler : ℕ := 0x100
def icenabler : ℕ := 0x180
def ispendr : ℕ := 0x200
def icpendr : ℕ := 0x280
def isactiver : ℕ := 0x300
def icactiver : ℕ := 0x380
def ipriorityr : ℕ := 0x400
def itargetsr : ℕ := 0x800
def icfgr : ℕ := 0xc00
def sgir : ℕ := 0xf00

end Gicd

namespace Gicc

def ctlr : ℕ := 0x00
def pmr : ℕ := 0x04
def bpr : ℕ := 0x08
def iar : ℕ := 0x0c
def eoir : ℕ := 0x10
def rpr : ℕ := 0x14
def hppir : ℕ := 0x18
def iidr : ℕ := 0xfc

end Gicc

/-- `off & !0x3`. -/
def align4 (off : ℕ) : ℕ := off - off % 4

/-- `off` lies in the block of `count` registers beginning at `start`. -/
def range (off start count : ℕ) : Bool := decide (start ≤ off ∧ off < start + count * 4)

/-- First INTID of the register at `off` in a block of one bit per INTID. -/
def baseIndex (off start : ℕ) : ℕ := align4 (off - start) * 8

/-- First INTID of the register at `off` in ICFGR, two bits per INTID. -/
def baseIndexCfg (off : ℕ) : ℕ := align4 (off - Gicd.icfgr) * 4

/-- The bytes an access wants from a 32-bit register. -/
def extract (reg off size : ℕ) : ℕ :=
  let mask := if size = 1 then 0xff else if size = 2 then 0xffff else 0xffffffff
  (reg >>> ((off % 4) * 8)) &&& mask

/-- A register of `count` fields of `width` bits, for the INTIDs from `base` on. -/
def gather (count width base : ℕ) (f : Intid → ℕ) : ℕ :=
  (List.range count).foldl
    (fun v b => if h : base + b < numIntid then v ||| (f ⟨base + b, h⟩ <<< (b * width)) else v) 0

/-! ## State -/

/-- The per-INTID arrays. -/
structure Lines (n : ℕ) where
  enabled : Fin n → Bool
  /-- Latched pending, for edge-triggered INTIDs. -/
  pending : Fin n → Bool
  active : Fin n → Bool
  priority : Fin n → UInt8
  /-- The raw input of a level-triggered INTID. -/
  level : Fin n → Bool
  edge : Fin n → Bool

/-- One CPU's interface and its private INTIDs. -/
structure CpuBank extends Lines privateIntids where
  cpuEnabled : Bool
  pmr : UInt8
  /-- Priorities acknowledged and not yet ended, the innermost last. -/
  running : List UInt8
  /-- The last poster of each SGI. -/
  sgiSrc : Fin 16 → UInt8

def CpuBank.default : CpuBank where
  enabled _ := false
  pending _ := false
  active _ := false
  priority _ := 0
  level _ := false
  edge i := decide (i.val < 16)
  cpuEnabled := false
  pmr := 0
  running := []
  sgiSrc _ := 0

structure GicV2 where
  distEnabled : Bool
  cpus : List CpuBank
  /-- The SPIs; the entries of private INTIDs are unused. -/
  shared : Lines numIntid
  /-- The mask of target CPUs of each SPI. -/
  targets : Intid → UInt8

namespace GicV2

def withCpus (n : ℕ) : GicV2 where
  distEnabled := false
  cpus := List.replicate (min (max n 1) maxCpus) CpuBank.default
  shared :=
    { enabled := fun _ => false
      pending := fun _ => false
      active := fun _ => false
      priority := fun _ => 0
      level := fun _ => false
      edge := fun _ => false }
  targets _ := 1

/-- `self.cpus[cpu]`. -/
def bank (g : GicV2) (cpu : ℕ) : CpuBank := g.cpus.getD cpu CpuBank.default

def modifyBank (g : GicV2) (cpu : ℕ) (f : CpuBank → CpuBank) : GicV2 :=
  { g with cpus := g.cpus.modify cpu f }

/-- A per-INTID array, in the bank of `cpu` for a private INTID. -/
def get {α : Type} (g : GicV2) (cpu : ℕ) (f : {n : ℕ} → Lines n → Fin n → α) (i : Intid) : α :=
  if h : i.val < privateIntids then f (g.bank cpu).toLines ⟨i, h⟩ else f g.shared i

/-- Change the arrays at one INTID, in the bank of `cpu` for a private one. -/
def put (g : GicV2) (cpu : ℕ) (i : Intid) (f : {n : ℕ} → Fin n → Lines n → Lines n) : GicV2 :=
  if h : i.val < privateIntids then
    g.modifyBank cpu fun b => { b with toLines := f ⟨i, h⟩ b.toLines }
  else { g with shared := f i g.shared }

def enabledAt (g : GicV2) (cpu : ℕ) (i : Intid) : Bool := g.get cpu Lines.enabled i
def activeAt (g : GicV2) (cpu : ℕ) (i : Intid) : Bool := g.get cpu Lines.active i
def priorityAt (g : GicV2) (cpu : ℕ) (i : Intid) : UInt8 := g.get cpu Lines.priority i
def edgeAt (g : GicV2) (cpu : ℕ) (i : Intid) : Bool := g.get cpu Lines.edge i

/-! ## Delivery -/

/-- The latched bit for an edge-triggered INTID, the line for a level-triggered one; an SPI
must have the CPU among its targets. -/
def isPending (g : GicV2) (cpu : ℕ) (i : Intid) : Bool :=
  if i.val ≥ privateIntids ∧ (g.targets i).toNat &&& (1 <<< cpu) = 0 then false
  else if g.edgeAt cpu i then g.get cpu Lines.pending i else g.get cpu Lines.level i

def runningPrio (g : GicV2) (cpu : ℕ) : UInt8 := (g.bank cpu).running.getLast?.getD idlePrio

/-- The better of `best` and INTID `i` at priority `p`: lower priorities win, then the INTID
seen first. -/
def better (best : Option (Intid × UInt8)) (i : Intid) (p : UInt8) : Option (Intid × UInt8) :=
  match best with
  | none => some (i, p)
  | some b => if p < b.2 then some (i, p) else some b

/-- The highest-priority INTID deliverable to `cpu`. -/
def highestPending (g : GicV2) (cpu : ℕ) : Option (Intid × UInt8) :=
  if !g.distEnabled then none
  else
    (List.finRange numIntid).foldl
      (fun best i =>
        if !g.enabledAt cpu i || g.activeAt cpu i || !g.isPending cpu i then best
        else if g.priorityAt cpu i ≥ (g.bank cpu).pmr ∨ g.priorityAt cpu i ≥ g.runningPrio cpu then
          best
        else better best i (g.priorityAt cpu i))
      none

def irqPending (g : GicV2) (cpu : ℕ) : Bool :=
  (g.bank cpu).cpuEnabled && (g.highestPending cpu).isSome

/-- Drive a level-triggered line. -/
def setLevel (g : GicV2) (cpu intid : ℕ) (high : Bool) : GicV2 :=
  if h : intid < numIntid then
    g.put cpu ⟨intid, h⟩ fun i l =>
      { l with level := Function.update l.level i high, edge := Function.update l.edge i false }
  else g

/-! ## The distributor -/

def distRead32 (g : GicV2) (cpu off : ℕ) : ℕ :=
  if off = Gicd.ctlr then g.distEnabled.toNat
  else if off = Gicd.typer then
    ((numIntid / 32 - 1) &&& 0x1f) ||| ((g.cpus.length - 1) <<< 5)
  else if off = Gicd.iidr then 0x0200043b
  else if range off Gicd.igroupr 32 then 0
  else if range off Gicd.isenabler 32 || range off Gicd.icenabler 32 then
    let start := if off < Gicd.icenabler then Gicd.isenabler else Gicd.icenabler
    gather 32 1 (baseIndex off start) fun i => (g.enabledAt cpu i).toNat
  else if range off Gicd.ispendr 32 || range off Gicd.icpendr 32 then
    let start := if off < Gicd.icpendr then Gicd.ispendr else Gicd.icpendr
    gather 32 1 (baseIndex off start) fun i => (g.isPending cpu i).toNat
  else if range off Gicd.isactiver 32 || range off Gicd.icactiver 32 then
    let start := if off < Gicd.icactiver then Gicd.isactiver else Gicd.icactiver
    gather 32 1 (baseIndex off start) fun i => (g.activeAt cpu i).toNat
  else if range off Gicd.ipriorityr 64 then
    gather 4 8 (align4 (off - Gicd.ipriorityr)) fun i => (g.priorityAt cpu i).toNat
  else if range off Gicd.itargetsr 64 then
    gather 4 8 (align4 (off - Gicd.itargetsr)) fun i =>
      if i.val < privateIntids then (1 <<< cpu) &&& 0xff else (g.targets i).toNat
  else if range off Gicd.icfgr 16 then
    gather 16 2 (baseIndexCfg off) fun i => if g.edgeAt cpu i then 0b10 else 0
  else 0

def distRead (g : GicV2) (cpu off size : ℕ) : ℕ := extract (g.distRead32 cpu (align4 off)) off size

/-- `f` at every INTID of a 32-bit register whose bit is set. -/
def bitsSet (g : GicV2) (cpu off start val : ℕ) (f : {n : ℕ} → Fin n → Lines n → Lines n) : GicV2 :=
  (List.range 32).foldl
    (fun g b =>
      if h : baseIndex off start + b < numIntid then
        if val.testBit b then g.put cpu ⟨baseIndex off start + b, h⟩ f else g
      else g)
    g

/-- Byte `k` of a written value. -/
def byteOf (val k : ℕ) : UInt8 := UInt8.ofNat (val >>> (k * 8 % 64))

/-- A write to IPRIORITYR, byte by byte. -/
def writePriority (g : GicV2) (cpu off size val : ℕ) : GicV2 :=
  (List.range size).foldl
    (fun g k =>
      if h : off - Gicd.ipriorityr + k < numIntid then
        g.put cpu ⟨off - Gicd.ipriorityr + k, h⟩ fun i l =>
          { l with priority := Function.update l.priority i (byteOf val k) }
      else g)
    g

/-- A write to ITARGETSR, byte by byte: private targets are fixed, those of an SPI are cut to
the CPUs there are. -/
def writeTargets (g : GicV2) (off size val : ℕ) : GicV2 :=
  let cpuMask := UInt8.ofNat (1 <<< g.cpus.length - 1)
  (List.range size).foldl
    (fun g k =>
      if h : off - Gicd.itargetsr + k < numIntid then
        if off - Gicd.itargetsr + k ≥ privateIntids then
          { g with
            targets := Function.update g.targets ⟨off - Gicd.itargetsr + k, h⟩
              (byteOf val k &&& cpuMask) }
        else g
      else g)
    g

/-- A write to ICFGR: SGIs stay edge-triggered. -/
def writeConfig (g : GicV2) (cpu off val : ℕ) : GicV2 :=
  (List.range 16).foldl
    (fun g b =>
      if h : baseIndexCfg off + b < numIntid then
        if baseIndexCfg off + b ≥ 16 then
          g.put cpu ⟨baseIndexCfg off + b, h⟩ fun i l =>
            { l with edge := Function.update l.edge i (val.testBit (b * 2 + 1)) }
        else g
      else g)
    g

/-- The SGI of an SGIR write goes to CPU `t`: the filter is 0 for the target list, 1 for all
but the poster, anything else for the poster alone. -/
def sgiHits (cpu v t : ℕ) : Bool :=
  let filter := (v >>> 24) &&& 0x3
  if filter = 0 then ((v >>> 16) &&& 0xff).testBit t
  else if filter = 1 then t != cpu
  else t == cpu

/-- `v & 0xf`. -/
def sgiOf (v : ℕ) : Fin 16 := ⟨v % 16, Nat.mod_lt v (by decide)⟩

/-- Post a software-generated interrupt. -/
def sgir (g : GicV2) (cpu v : ℕ) : GicV2 :=
  { g with
    cpus := g.cpus.mapIdx fun t b =>
      if sgiHits cpu v t then
        { b with
          pending := Function.update b.pending (Fin.castLE (by decide) (sgiOf v)) true
          sgiSrc := Function.update b.sgiSrc (sgiOf v) (UInt8.ofNat cpu) }
      else b }

/-- Set or clear the enable, pending or active bit. -/
def setEnabled (on : Bool) {n : ℕ} (i : Fin n) (l : Lines n) : Lines n :=
  { l with enabled := Function.update l.enabled i on }
def setPending (on : Bool) {n : ℕ} (i : Fin n) (l : Lines n) : Lines n :=
  { l with pending := Function.update l.pending i on }
def setActive (on : Bool) {n : ℕ} (i : Fin n) (l : Lines n) : Lines n :=
  { l with active := Function.update l.active i on }

def distWrite (g : GicV2) (cpu off size val : ℕ) : GicV2 :=
  -- writes to IPRIORITYR and ITARGETSR are byte-granular, the rest is 32-bit
  if range off Gicd.ipriorityr 64 then g.writePriority cpu off size val
  else if range off Gicd.itargetsr 64 then g.writeTargets off size val
  else
    let v := val % 2 ^ 32
    let o := align4 off
    if o = Gicd.ctlr then { g with distEnabled := v.testBit 0 }
    else if range o Gicd.isenabler 32 then g.bitsSet cpu o Gicd.isenabler v (setEnabled true)
    else if range o Gicd.icenabler 32 then g.bitsSet cpu o Gicd.icenabler v (setEnabled false)
    else if range o Gicd.ispendr 32 then g.bitsSet cpu o Gicd.ispendr v (setPending true)
    else if range o Gicd.icpendr 32 then g.bitsSet cpu o Gicd.icpendr v (setPending false)
    else if range o Gicd.isactiver 32 then g.bitsSet cpu o Gicd.isactiver v (setActive true)
    else if range o Gicd.icactiver 32 then g.bitsSet cpu o Gicd.icactiver v (setActive false)
    else if range o Gicd.icfgr 16 then g.writeConfig cpu o v
    else if o = Gicd.sgir then g.sgir cpu v
    else g

/-! ## The CPU interface -/

/-- A read of IAR: the deliverable INTID becomes active, its latch is consumed and its priority
goes on the running stack.  An SGI carries its poster in bits 10 to 12. -/
def acknowledge (g : GicV2) (cpu : ℕ) : GicV2 × ℕ :=
  match g.highestPending cpu with
  | none => (g, spurious)
  | some (i, prio) =>
    let g := g.put cpu i fun j l =>
      { l with
        active := Function.update l.active j true
        pending := if l.edge j then Function.update l.pending j false else l.pending }
    let g := g.modifyBank cpu fun b => { b with running := b.running ++ [prio] }
    (g, if h : i.val < 16 then i.val ||| (((g.bank cpu).sgiSrc ⟨i, h⟩).toNat <<< 10) else i.val)

/-- A write of EOIR: deactivate the INTID and drop the innermost running priority. -/
def endOfInterrupt (g : GicV2) (cpu intid : ℕ) : GicV2 :=
  (if h : intid < numIntid then g.put cpu ⟨intid, h⟩ (setActive false) else g).modifyBank cpu
    fun b => { b with running := b.running.dropLast }

def cpuRead (g : GicV2) (cpu off size : ℕ) : GicV2 × ℕ :=
  let o := align4 off
  let r : GicV2 × ℕ :=
    if o = Gicc.ctlr then (g, (g.bank cpu).cpuEnabled.toNat)
    else if o = Gicc.pmr then (g, (g.bank cpu).pmr.toNat)
    else if o = Gicc.bpr then (g, 0)
    else if o = Gicc.iar then g.acknowledge cpu
    else if o = Gicc.rpr then (g, (g.runningPrio cpu).toNat)
    else if o = Gicc.hppir then (g, ((g.highestPending cpu).map fun b => b.1.val).getD spurious)
    else if o = Gicc.iidr then (g, 0x0002043b)
    else (g, 0)
  (r.1, extract r.2 off size)

def cpuWrite (g : GicV2) (cpu off val : ℕ) : GicV2 :=
  let v := val % 2 ^ 32
  let o := align4 off
  if o = Gicc.ctlr then g.modifyBank cpu fun b => { b with cpuEnabled := v.testBit 0 }
  else if o = Gicc.pmr then g.modifyBank cpu fun b => { b with pmr := UInt8.ofNat v }
  else if o = Gicc.eoir then g.endOfInterrupt cpu (v &&& 0x3ff)
  else g

end GicV2

/-! ## Snapshots -/

def blobMagic : UInt8 := 0xa2
def blobV2 : UInt8 := 2

def encodeFlags {n : ℕ} (a : Fin n → Bool) : List UInt8 := (List.ofFn a).flatMap fun x => [ofFlag x]
def encodeBytes {n : ℕ} (a : Fin n → UInt8) : List UInt8 := (List.ofFn a).flatMap fun x => [x]

def Lines.encode {n : ℕ} (l : Lines n) : List UInt8 :=
  encodeFlags l.enabled ++ (encodeFlags l.pending ++ (encodeFlags l.active ++
    (encodeFlags l.level ++ (encodeFlags l.edge ++ encodeBytes l.priority))))

/-- A bank: at most 255 entries of the running stack are kept. -/
def CpuBank.encode (b : CpuBank) : List UInt8 :=
  [ofFlag b.cpuEnabled] ++ ([b.pmr] ++ (b.toLines.encode ++ (encodeBytes b.sgiSrc ++
    ([UInt8.ofNat (min b.running.length 255)] ++
      (b.running.take (min b.running.length 255)).flatMap fun x => [x]))))

def readLines (n : ℕ) : Reader (Lines n) := do
  let enabled ← array flag n
  let pending ← array flag n
  let active ← array flag n
  let level ← array flag n
  let edge ← array flag n
  let priority ← array byte n
  return { enabled, pending, active, level, edge, priority }

def readBank : Reader CpuBank := do
  let cpuEnabled ← flag
  let pmr ← byte
  let lines ← readLines privateIntids
  let sgiSrc ← array byte 16
  let count ← byte
  let running ← many byte count.toNat
  return { lines with cpuEnabled, pmr, sgiSrc, running }

/-- The current layout, read into a controller that has `have_` CPUs: the banks the blob holds,
and reset ones up to that count. -/
def readV2 (have_ : ℕ) : Reader GicV2 := do
  let count ← byte
  let distEnabled ← flag
  let banks ← many readBank (min (max count.toNat 1) maxCpus)
  let shared ← readLines numIntid
  let targets ← array byte numIntid
  return { distEnabled
           cpus := banks ++ List.replicate (have_ - banks.length) CpuBank.default
           shared
           targets }

/-- The private INTIDs of the single-CPU layout's flat arrays. -/
def Lines.low (l : Lines numIntid) : Lines privateIntids :=
  let at_ (i : Fin privateIntids) : Intid := Fin.castLE (by decide) i
  { enabled := fun i => l.enabled (at_ i)
    pending := fun i => l.pending (at_ i)
    active := fun i => l.active (at_ i)
    priority := fun i => l.priority (at_ i)
    level := fun i => l.level (at_ i)
    edge := fun i => l.edge (at_ i) }

/-- `l` from the first SPI on, `old` below. -/
def Lines.above (l old : Lines numIntid) : Lines numIntid where
  enabled i := if i.val < privateIntids then old.enabled i else l.enabled i
  pending i := if i.val < privateIntids then old.pending i else l.pending i
  active i := if i.val < privateIntids then old.active i else l.active i
  priority i := if i.val < privateIntids then old.priority i else l.priority i
  level i := if i.val < privateIntids then old.level i else l.level i
  edge i := if i.val < privateIntids then old.edge i else l.edge i

/-- The layout before there were several CPUs: flat arrays over all INTIDs. -/
def readLegacy (old : Lines numIntid) : Reader GicV2 := do
  let distEnabled ← flag
  let cpuEnabled ← flag
  let pmr ← byte
  let flat ← readLines numIntid
  let count ← byte
  let running ← many byte count.toNat
  return { distEnabled
           cpus := [{ flat.low with cpuEnabled, pmr, running, sgiSrc := fun _ => 0 }]
           shared := flat.above old
           targets := fun _ => 1 }

namespace GicV2

def capture (g : GicV2) : List UInt8 :=
  [blobMagic, blobV2] ++ ([UInt8.ofNat g.cpus.length] ++ ([ofFlag g.distEnabled] ++
    (g.cpus.flatMap CpuBank.encode ++ (g.shared.encode ++ encodeBytes g.targets))))

def restoreV2 (g : GicV2) (b : List UInt8) : GicV2 := ((readV2 g.cpus.length).run (b.drop 2)).1

def restoreLegacy (g : GicV2) (b : List UInt8) : GicV2 := ((readLegacy g.shared).run b).1

def restore (g : GicV2) (b : List UInt8) : GicV2 :=
  if b.head? = some blobMagic then g.restoreV2 b else g.restoreLegacy b

end GicV2

end Amber.Hvf
