import Mathlib.Data.BitVec
import Amber.Lib.LittleEndian

/-!
# Trapped device accesses: from the syndrome to the device model

A load or store to an unbacked guest-physical address traps to the backend.  On
Hypervisor.framework (`amber-hvf`) the backend gets the raw syndrome and turns it
into an `MmioAccess` with `decodeDataAbort` (`amber-core/src/hypervisor.rs`),
fetching the value of a store through `getX`; on KVM (`amber-kvm`) the exit
record carries the bytes already.

* `mmioAccess_store_iff` — exactly when the value that reaches the device model is
  the one the architecture stores: the transfer register is one of `x0 … x30` and
  its value fits the access width, or it is the zero register and the program
  counter happens to be zero.
* `mmioAccess_store_wrong` — a plain store of the zero register to a device hands
  the device the program counter.
-/

namespace Amber
namespace Hvf

/-! ## The syndrome -/

/-- `ESR_EL2.EC`, bits 31 to 26. -/
def ec (esr : BitVec 64) : BitVec 64 := (esr >>> 26) &&& 0x3f

/-- `ESR_EL2.ISS`, bits 24 to 0. -/
def iss (esr : BitVec 64) : BitVec 64 := esr &&& 0x1ffffff

/-- `ISS.ISV`: the rest of the syndrome describes the access. -/
def isv (esr : BitVec 64) : BitVec 64 := (iss esr >>> 24) &&& 1

/-- `ISS.SAS`: the base-2 logarithm of the access width. -/
def sas (esr : BitVec 64) : BitVec 64 := (iss esr >>> 22) &&& 0b11

/-- `ISS.SRT`: the transfer register. -/
def srt (esr : BitVec 64) : ℕ := ((iss esr >>> 16) &&& 0x1f).toNat

/-- `ISS.WnR`: set for a store. -/
def wnr (esr : BitVec 64) : BitVec 64 := (iss esr >>> 6) &&& 1

/-- The access width in bytes: 1, 2, 4 or 8. -/
def accessSize (esr : BitVec 64) : ℕ := 1 <<< (sas esr).toNat

/-- A data abort from a lower exception level. -/
def ecDataAbortLowerEl : BitVec 64 := 0x24

theorem srt_lt (esr : BitVec 64) : srt esr < 32 := by
  rw [srt, BitVec.toNat_and]
  exact lt_of_le_of_lt Nat.and_le_right (by decide)

/-! ## The decoder -/

/-- One trapped access, as the run loop sees it. -/
structure MmioAccess where
  /-- The faulting guest-physical address. -/
  ipa : BitVec 64
  /-- Access width in bytes. -/
  size : ℕ
  /-- The value of a guest write, or `none` for a read. -/
  write : Option (BitVec 64)
  deriving DecidableEq

/-- Decode a data-abort syndrome.  Returns the access and the transfer register, or
`none` when the exception is no data abort or its syndrome is not valid. -/
def decodeDataAbort (esr ipa : BitVec 64) (getX : ℕ → BitVec 64) : Option (MmioAccess × ℕ) :=
  if ec esr ≠ ecDataAbortLowerEl then none
  else if isv esr = 0 then none -- would need instruction decode
  else
    let write := if wnr esr = 1 then some (getX (srt esr)) else none
    some (⟨ipa, accessSize esr, write⟩, srt esr)

/-! ## The register file of a Hypervisor.framework vcpu -/

/-- The registers `hv_vcpu_get_reg` serves. -/
structure Regs where
  x : Fin 31 → BitVec 64
  pc : BitVec 64
  fpcr : BitVec 64
  fpsr : BitVec 64
  cpsr : BitVec 64

def hvRegX0 : ℕ := 0
def hvRegPc : ℕ := 31
def hvRegFpcr : ℕ := 32
def hvRegFpsr : ℕ := 33
def hvRegCpsr : ℕ := 34

/-- `hv_vcpu_get_reg`: `X0 … X30` are numbered from 0, and the number after `X30`
is the program counter.  An unknown number is refused. -/
def hvVcpuGetReg (r : Regs) (reg : ℕ) : Option (BitVec 64) :=
  if h : reg < 31 then some (r.x ⟨reg, h⟩)
  else if reg = hvRegPc then some r.pc
  else if reg = hvRegFpcr then some r.fpcr
  else if reg = hvRegFpsr then some r.fpsr
  else if reg = hvRegCpsr then some r.cpsr
  else none

/-- `HvfVcpu::get_x`. -/
def getX (r : Regs) (idx : ℕ) : Option (BitVec 64) := hvVcpuGetReg r (hvRegX0 + idx)

/-- The data-abort arm of `HvfVcpu::run`: the access it hands to the device model,
with the transfer register it stashes. -/
def mmioAccess (r : Regs) (esr ipa : BitVec 64) : Option (MmioAccess × ℕ) :=
  decodeDataAbort esr ipa fun i => (getX r i).getD 0

/-! ## What the architecture stores -/

/-- The general register a load/store names: number 31 is the zero register. -/
def xOrZero (r : Regs) (n : ℕ) : BitVec 64 := if h : n < 31 then r.x ⟨n, h⟩ else 0

/-- The value a store of `size` bytes puts on the bus: the low `8 * size` bits of the
transfer register. -/
def archStoreValue (r : Regs) (n size : ℕ) : BitVec 64 :=
  ((xOrZero r n).setWidth (8 * size)).setWidth 64

/-- The stores for which the value needs no adjustment: the transfer register is a
real one whose value fits the width, or it is number 31 and the program counter is
zero. -/
def StoreExact (r : Regs) (esr : BitVec 64) : Prop :=
  if h : srt esr < 31 then (r.x ⟨srt esr, h⟩).toNat < 2 ^ (8 * accessSize esr) else r.pc = 0

/-- Cutting a register to a width leaves it alone exactly when it fits. -/
theorem setWidth_setWidth_eq_self_iff (v : BitVec 64) {w : ℕ} :
    (v.setWidth w).setWidth 64 = v ↔ v.toNat < 2 ^ w := by
  rw [← BitVec.toNat_inj, BitVec.toNat_setWidth, BitVec.toNat_setWidth]
  constructor
  · intro h
    rw [← h]
    exact lt_of_le_of_lt (Nat.mod_le _ _) (Nat.mod_lt _ (Nat.two_pow_pos w))
  · intro h
    rw [Nat.mod_eq_of_lt h, Nat.mod_eq_of_lt v.isLt]

theorem mmioAccess_store {r : Regs} {esr : BitVec 64} (ipa : BitVec 64)
    (hec : ec esr = ecDataAbortLowerEl) (hisv : isv esr = 1) (hwnr : wnr esr = 1) :
    mmioAccess r esr ipa =
      some (⟨ipa, accessSize esr, some ((getX r (srt esr)).getD 0)⟩, srt esr) := by
  have h0 : isv esr ≠ 0 := by rw [hisv]; decide
  rw [mmioAccess, decodeDataAbort, if_neg (by simpa using hec), if_neg h0]
  simp [hwnr]

theorem getX_of_lt {r : Regs} {n : ℕ} (h : n < 31) : getX r n = some (r.x ⟨n, h⟩) := by
  rw [getX, hvRegX0, zero_add, hvVcpuGetReg, dif_pos h]

theorem getX_pc (r : Regs) : getX r 31 = some r.pc := rfl

/-- **When a store reaches the device unharmed.**  For every trapped store the value
handed to the device model is the low `8 * size` bits of the transfer register, with
number 31 read as zero, exactly when the store is a `StoreExact` one. -/
theorem mmioAccess_store_iff (r : Regs) (esr ipa : BitVec 64)
    (hec : ec esr = ecDataAbortLowerEl) (hisv : isv esr = 1) (hwnr : wnr esr = 1) :
    (∃ a, mmioAccess r esr ipa = some (a, srt esr) ∧
        a.write = some (archStoreValue r (srt esr) (accessSize esr))) ↔
      StoreExact r esr := by
  rw [mmioAccess_store ipa hec hisv hwnr]
  simp only [Option.some.injEq, Prod.mk.injEq, and_true, exists_eq_left', archStoreValue]
  by_cases h : srt esr < 31
  · rw [StoreExact, dif_pos h, getX_of_lt h, xOrZero, dif_pos h, Option.getD_some, eq_comm]
    exact setWidth_setWidth_eq_self_iff _
  · -- register number 31: `hv_vcpu_get_reg` answers with the program counter
    have h31 : srt esr = 31 := by
      have := srt_lt esr
      omega
    rw [StoreExact, dif_neg h, xOrZero, dif_neg h, h31, getX_pc]
    simp

/-- The syndrome of a 32-bit store of `x1`. -/
def strW1 : BitVec 64 := 0x93810040

/-- The syndrome of a 32-bit store of the zero register. -/
def strWzr : BitVec 64 := 0x939f0040

/-- A vcpu about to execute at the usual kernel load address. -/
def bootRegs : Regs := ⟨fun _ => 7, 0x40080000, 0, 0, 0x3c5⟩

theorem mmioAccess_store_iff_strW1 :
    (∃ a, mmioAccess bootRegs strW1 0xa000050 = some (a, srt strW1) ∧
        a.write = some (archStoreValue bootRegs (srt strW1) (accessSize strW1))) ↔
      StoreExact bootRegs strW1 :=
  mmioAccess_store_iff bootRegs strW1 0xa000050 (by decide) (by decide) (by decide)

/-- A store of the zero register to a virtio queue-notify register delivers the
program counter, not zero. -/
theorem mmioAccess_store_wrong :
    ec strWzr = ecDataAbortLowerEl ∧ isv strWzr = 1 ∧ wnr strWzr = 1 ∧
      ¬ ∃ a, mmioAccess bootRegs strWzr 0xa000050 = some (a, srt strWzr) ∧
        a.write = some (archStoreValue bootRegs (srt strWzr) (accessSize strWzr)) := by
  refine ⟨by decide, by decide, by decide, ?_⟩
  rintro ⟨a, ha, hw⟩
  obtain ⟨rfl, -⟩ := Prod.mk.inj (Option.some.inj ha)
  revert hw
  decide

end Hvf

/-! ## The KVM exit -/

namespace Kvm

open Hvf LittleEndian

/-- The MMIO part of a `kvm_run` exit record. -/
structure MmioExit where
  physAddr : BitVec 64
  /-- The data buffer of the record, eight bytes. -/
  data : List UInt8
  len : ℕ
  isWrite : Bool

/-- The `KVM_EXIT_MMIO` arm of `KvmVcpu::run`: a write's value is built from the first
`len` bytes of the buffer, the others read as zero. -/
def mmioAccess (e : MmioExit) : MmioAccess :=
  if e.isWrite then
    ⟨e.physAddr, e.len, some (BitVec.ofNat 64 (fromLe (e.data.take e.len)))⟩
  else ⟨e.physAddr, e.len, none⟩

end Kvm
end Amber
