import Amber.Core.DeviceSet
import Amber.Hvf.DataAbort

/-!
# Device accesses from any vcpu

`dispatch_mmio` of `amber-core/src/vm.rs` services one trapped access against the console UART and
the virtio devices, and hands a read's value back to the backend.  It is the same code for every
backend: what a backend does with the value, and how it steps past the instruction, are the two
operations of `MmioVcpu`.

* `Pl011` — the UART of `amber-core/src/bus.rs`.
* `dispatchMmio` — the access; `loadValue` is what a read of an address is answered.
* `dispatchMmio_load` — a read hands back exactly that value and steps on.
-/

namespace Amber

open Devices

/-! ## The PL011 UART -/

/-- The PL011.  `out` is what has been written to the host sink. -/
structure Pl011 where
  out : List UInt8
  rx : List UInt8
  cr : BitVec 32
  imsc : BitVec 32
  ris : BitVec 32
  ibrd : BitVec 32
  fbrd : BitVec 32
  lcrH : BitVec 32
  ifls : BitVec 32
  /-- The console-output trigger, and the last bytes of output it is compared with. -/
  marker : List UInt8
  txTail : List UInt8
  marked : Bool

namespace Pl011

def regDr : ℕ := 0x000
def regFr : ℕ := 0x018
def regIbrd : ℕ := 0x024
def regFbrd : ℕ := 0x028
def regLcrH : ℕ := 0x02c
def regCr : ℕ := 0x030
def regIfls : ℕ := 0x034
def regImsc : ℕ := 0x038
def regRis : ℕ := 0x03c
def regMis : ℕ := 0x040
def regIcr : ℕ := 0x044

/-- The receive FIFO is empty, the transmit FIFO is empty. -/
def frRxfe : ℕ := 1 <<< 4
def frTxfe : ℕ := 1 <<< 7

def intRx : BitVec 32 := 1 <<< 4
def intRt : BitVec 32 := 1 <<< 6

/-- PrimeCell identification, low byte of each word. -/
def idBytes : List (ℕ × UInt8) :=
  [(0xfe0, 0x11), (0xfe4, 0x10), (0xfe8, 0x14), (0xfec, 0x00),
    (0xff0, 0x0d), (0xff4, 0xf0), (0xff8, 0x05), (0xffc, 0xb1)]

def new : Pl011 where
  out := []
  rx := []
  cr := 0
  imsc := 0
  ris := 0
  ibrd := 0
  fbrd := 0
  lcrH := 0
  ifls := 0
  marker := []
  txTail := []
  marked := false

/-- Any unmasked status bit is set. -/
def irqLevel (p : Pl011) : Bool := p.ris &&& p.imsc != 0

/-- The first received byte is taken; the interrupt goes with the last one. -/
def takeRx (p : Pl011) : Pl011 :=
  { p with
    rx := p.rx.tail
    ris := if p.rx.tail.isEmpty then p.ris &&& ~~~(intRx ||| intRt) else p.ris }

/-- A read of any size. -/
def read (p : Pl011) (offset : ℕ) : Pl011 × ℕ :=
  match idBytes.find? (·.1 == offset) with
  | some x => (p, x.2.toNat)
  | none =>
    if offset = regDr then (p.takeRx, (p.rx.headD 0).toNat)
    else if offset = regFr then (p, frTxfe ||| if p.rx.isEmpty then frRxfe else 0)
    else if offset = regRis then (p, p.ris.toNat)
    else if offset = regMis then (p, (p.ris &&& p.imsc).toNat)
    else if offset = regImsc then (p, p.imsc.toNat)
    else if offset = regCr then (p, p.cr.toNat)
    else if offset = regIbrd then (p, p.ibrd.toNat)
    else if offset = regFbrd then (p, p.fbrd.toNat)
    else if offset = regLcrH then (p, p.lcrH.toNat)
    else if offset = regIfls then (p, p.ifls.toNat)
    else (p, 0)

/-- A byte of output; the trigger latches when the output ends with the marker. -/
def transmit (p : Pl011) (byte : UInt8) : Pl011 :=
  let p := { p with out := p.out ++ [byte] }
  if p.marker ≠ [] ∧ p.marked = false then
    let tail := p.txTail ++ [byte]
    let tail := tail.drop (tail.length - p.marker.length)
    { p with txTail := tail, marked := tail == p.marker }
  else p

/-- A write of any size. -/
def write (p : Pl011) (offset : ℕ) (value : BitVec 64) : Pl011 :=
  let v := value.setWidth 32
  if offset = regDr then p.transmit (UInt8.ofNat value.toNat)
  else if offset = regImsc then { p with imsc := v }
  else if offset = regCr then { p with cr := v }
  else if offset = regIbrd then { p with ibrd := v }
  else if offset = regFbrd then { p with fbrd := v }
  else if offset = regLcrH then { p with lcrH := v }
  else if offset = regIfls then { p with ifls := v }
  else if offset = regIcr then { p with ris := p.ris &&& ~~~v }
  else p

end Pl011

/-! ## The bus -/

namespace Mmio

open Hvf

def pl011Base : ℕ := 0x09000000
def pl011Size : ℕ := 0x1000

variable {σ : Type} [VirtioDevice σ]

/-- The device covers the address. -/
def contains (d : VirtioDev σ) (ipa : ℕ) : Bool :=
  decide (d.base ≤ ipa) && decide (ipa < d.base + d.size)

/-- The devices that all vcpus share. -/
structure Bus (σ : Type) where
  pl011 : Pl011
  pl011Intid : ℕ
  virtio : List (VirtioDev σ)

/-- What an access comes to: the devices afterwards, the value of a read, and the interrupt line it
set, if any. -/
structure Serviced (σ : Type) where
  bus : Bus σ
  value : Option ℕ
  line : Option (ℕ × Bool)

/-- The console. -/
def Bus.console (b : Bus σ) (off : ℕ) (write : Option (BitVec 64)) : Serviced σ :=
  let r : Pl011 × Option ℕ :=
    match write with
    | some value => (b.pl011.write off value, none)
    | none => ((b.pl011.read off).1, some (b.pl011.read off).2)
  ⟨{ b with pl011 := r.1 }, r.2, some (b.pl011Intid, r.1.irqLevel)⟩

/-- The virtio device at position `i` of the list. -/
def Bus.device (b : Bus σ) (i : ℕ) (d : VirtioDev σ) (off : ℕ) (write : Option (BitVec 64)) :
    Serviced σ :=
  let r : VirtioMmio σ × Option ℕ :=
    match write with
    | some value => (d.mmio.write off value.toNat, none)
    | none => (d.mmio, some (d.mmio.read off))
  ⟨{ b with virtio := b.virtio.set i { d with mmio := r.1 } }, r.2, some (d.intid, r.1.irqLevel)⟩

/-- Service one access.  An address with no device reads as zero, and writes are dropped. -/
def Bus.service (b : Bus σ) (a : MmioAccess) : Serviced σ :=
  let ipa := a.ipa.toNat
  if pl011Base ≤ ipa ∧ ipa < pl011Base + pl011Size then b.console (ipa - pl011Base) a.write
  else
    match b.virtio.findIdx? (contains · ipa) with
    | some i =>
      match b.virtio[i]? with
      | some d => b.device i d (ipa - d.base) a.write
      | none => ⟨b, none, none⟩ -- not reached: `find` gives a device of the list
    | none => ⟨b, if a.write.isSome then none else some 0, none⟩

/-- What a read of `ipa` is answered. -/
def Bus.loadValue (b : Bus σ) (ipa : BitVec 64) : BitVec 64 :=
  BitVec.ofNat 64 ((b.service ⟨ipa, 0, none⟩).value.getD 0)

/-! ## The access of a vcpu -/

/-- The operations of a backend's vcpu on a trapped access. -/
class MmioVcpu (V : Type) where
  /-- Deliver the value a device computed for the last read. -/
  completeMmioRead : V → BitVec 64 → Option V
  /-- Advance past the faulting instruction. -/
  advanceMmio : V → Option V

variable {V : Type} [MmioVcpu V]

/-- `dispatch_mmio`; `none` is an error of the backend. -/
def dispatchMmio (b : Bus σ) (vcpu : V) (a : MmioAccess) : Option (Serviced σ × V) := do
  let s := b.service a
  let vcpu ← match s.value with
    | some v => MmioVcpu.completeMmioRead vcpu (BitVec.ofNat 64 v)
    | none => some vcpu
  let vcpu ← MmioVcpu.advanceMmio vcpu
  return (s, vcpu)

/-- A read is always answered. -/
theorem isSome_value (b : Bus σ) (ipa : BitVec 64) (size : ℕ) :
    (b.service ⟨ipa, size, none⟩).value.isSome = true := by
  unfold Bus.service
  by_cases hconsole : pl011Base ≤ ipa.toNat ∧ ipa.toNat < pl011Base + pl011Size
  · rw [if_pos hconsole]
    rfl
  · rw [if_neg hconsole]
    cases hi : b.virtio.findIdx? (contains · ipa.toNat) with
    | none => rfl
    | some i =>
      obtain ⟨hlt, -⟩ := List.findIdx?_eq_some_iff_getElem.1 hi
      dsimp only
      rw [List.getElem?_eq_getElem hlt]
      rfl

/-- **A read hands its value back and steps on.** -/
theorem dispatchMmio_load (b : Bus σ) (vcpu : V) (ipa : BitVec 64) (size : ℕ) :
    dispatchMmio b vcpu ⟨ipa, size, none⟩ =
      ((MmioVcpu.completeMmioRead vcpu (b.loadValue ipa)).bind MmioVcpu.advanceMmio).map
        fun vcpu => (b.service ⟨ipa, size, none⟩, vcpu) := by
  have hsize : (b.service ⟨ipa, 0, none⟩).value = (b.service ⟨ipa, size, none⟩).value := rfl
  obtain ⟨v, hv⟩ := Option.isSome_iff_exists.1 (isSome_value b ipa size)
  have hload : b.loadValue ipa = BitVec.ofNat 64 v := by
    rw [Bus.loadValue, hsize, hv, Option.getD_some]
  rw [hload]
  simp only [dispatchMmio, hv]
  cases MmioVcpu.completeMmioRead vcpu (BitVec.ofNat 64 v) with
  | none => rfl
  | some vcpu' =>
    rw [Option.map_eq_bind]
    rfl

end Mmio
end Amber
