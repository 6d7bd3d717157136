import Amber.Core.MmioBus
import Amber.Hvf.Vcpu

/-!
# Trapped loads: from the device model to the register

A load from a device traps, the run loop asks the device, and the value goes back to the vcpu.  On
Hypervisor.framework `complete_mmio_read` writes it to the transfer register and `advance_mmio`
steps over the instruction; on KVM `complete_mmio_read` puts it in the exit record and the kernel
does the rest when the vcpu is run again.

* `hvfLoad_iff` — exactly when the registers end up as the architecture and KVM have them: the
  transfer register is the zero register, or the device's value fits the width of the access.
* `kvmLoad_eq` — KVM always gets it right, since only the bytes of the access are taken over.
* `byte_load_wide` — a byte load of a virtio register puts all of the register in the destination.
-/

namespace Amber.Hvf

open Mmio LittleEndian

/-! ## The syndrome of a load -/

/-- `ISS.SSE`: the value is sign-extended. -/
def sse (esr : BitVec 64) : BitVec 64 := (iss esr >>> 21) &&& 1

/-- `ISS.SF`: the transfer register is used with 64 bits. -/
def sf (esr : BitVec 64) : BitVec 64 := (iss esr >>> 15) &&& 1

theorem sas_lt (esr : BitVec 64) : (sas esr).toNat < 4 := by
  rw [sas, BitVec.toNat_and]
  exact lt_of_le_of_lt Nat.and_le_right (by decide)

theorem accessSize_le (esr : BitVec 64) : accessSize esr ≤ 8 := by
  have hsas := sas_lt esr
  rw [accessSize, Nat.one_shiftLeft]
  exact (Nat.pow_le_pow_right (by decide) (Nat.le_of_lt_succ hsas)).trans (by decide)

/-! ## What the architecture loads -/

/-- The value of a load from the value `v` on the bus: its low bytes, extended. -/
def archLoadValue (esr v : BitVec 64) : BitVec 64 :=
  let cut := v.setWidth (8 * accessSize esr)
  if sse esr = 0 then cut.setWidth 64
  else if sf esr = 1 then cut.signExtend 64
  else (cut.signExtend 32).setWidth 64

/-- The registers after a load that the bus answers with `v`. -/
def archLoad (r : Regs) (esr v : BitVec 64) : Regs :=
  { r with
    x := fun i => if i.val = srt esr then archLoadValue esr v else r.x i
    pc := r.pc + 4 }

/-! ## Hypervisor.framework -/

/-- What a trapped access uses of an `HvfVcpu`: its registers, and the transfer register of the read
being serviced. -/
structure TrappedVcpu where
  regs : Regs
  pendingReadReg : ℕ

/-- `HvfVcpu::set_reg`. -/
def TrappedVcpu.setReg (c : TrappedVcpu) (reg : ℕ) (v : BitVec 64) : Option TrappedVcpu :=
  (hvVcpuSetReg c.regs reg v).map fun regs => { c with regs }

instance : MmioVcpu TrappedVcpu where
  completeMmioRead c value :=
    -- x31 as the transfer register means the zero register
    if c.pendingReadReg ≠ 31 then c.setReg (hvRegX0 + c.pendingReadReg) value else some c
  advanceMmio c := (hvVcpuGetReg c.regs hvRegPc).bind fun pc => c.setReg hvRegPc (pc + 4)

variable {σ : Type} [VirtioDevice σ]

/-- The data-abort arm of `run` and the run loop's service of the access. -/
def hvfLoad (b : Bus σ) (r : Regs) (esr ipa : BitVec 64) : Option Regs := do
  let (access, reg) ← mmioAccess r esr ipa
  let (_, vcpu) ← dispatchMmio b (⟨r, reg⟩ : TrappedVcpu) access
  return vcpu.regs

theorem mmioAccess_load {r : Regs} {esr : BitVec 64} (ipa : BitVec 64)
    (hec : ec esr = ecDataAbortLowerEl) (hisv : isv esr = 1) (hwnr : wnr esr = 0) :
    mmioAccess r esr ipa = some (⟨ipa, accessSize esr, none⟩, srt esr) := by
  have h0 : isv esr ≠ 0 := by rw [hisv]; decide
  have h1 : ¬ wnr esr = 1 := by rw [hwnr]; decide
  rw [mmioAccess, decodeDataAbort, if_neg (by simpa using hec), if_neg h0]
  simp only [if_neg h1]

/-- The value goes to the transfer register as it is, and the program counter moves on. -/
theorem hvfLoad_eq (b : Bus σ) (r : Regs) {esr : BitVec 64} (ipa : BitVec 64)
    (hec : ec esr = ecDataAbortLowerEl) (hisv : isv esr = 1) (hwnr : wnr esr = 0) :
    hvfLoad b r esr ipa = some
      { r with
        x := fun i => if i.val = srt esr then b.loadValue ipa else r.x i
        pc := r.pc + 4 } := by
  have hsrt := srt_lt esr
  rw [hvfLoad, mmioAccess_load ipa hec hisv hwnr]
  show (dispatchMmio b (⟨r, srt esr⟩ : TrappedVcpu) ⟨ipa, accessSize esr, none⟩).bind
    (fun p => some p.2.regs) = _
  rw [dispatchMmio_load]
  by_cases h : srt esr < 31
  · have hcomplete : MmioVcpu.completeMmioRead (⟨r, srt esr⟩ : TrappedVcpu) (b.loadValue ipa) =
        some ⟨{ r with x := Function.update r.x ⟨srt esr, h⟩ (b.loadValue ipa) }, srt esr⟩ := by
      show (if srt esr ≠ 31 then _ else _) = _
      rw [if_pos h.ne, TrappedVcpu.setReg, hvVcpuSetReg, hvRegX0, zero_add, dif_pos h]
      rfl
    rw [hcomplete]
    refine congrArg some (congrArg (fun x => { r with x := x, pc := r.pc + 4 }) ?_)
    funext i
    show Function.update r.x ⟨srt esr, h⟩ _ i = _
    rw [Function.update_apply]
    exact if_congr Fin.ext_iff rfl rfl
  · have h31 : srt esr = 31 := by omega
    have hcomplete : MmioVcpu.completeMmioRead (⟨r, srt esr⟩ : TrappedVcpu) (b.loadValue ipa) =
        some ⟨r, srt esr⟩ := if_neg (not_not.2 h31)
    rw [hcomplete]
    refine congrArg some (congrArg (fun x => { r with x := x, pc := r.pc + 4 }) ?_)
    funext i
    exact (if_neg fun hi => absurd i.isLt (by omega)).symm

end Hvf

/-! ## KVM -/

namespace Kvm

open Hvf Mmio LittleEndian

/-- A vcpu between two runs: the registers the kernel holds, the exit record both sides map, and the
width of the read being serviced. -/
structure KvmVcpu where
  regs : Regs
  exit : MmioExit
  mmioLen : ℕ

instance : MmioVcpu KvmVcpu where
  completeMmioRead c value :=
    let len := min c.mmioLen 8
    some { c with
      exit := { c.exit with data := (toLe 8 value.toNat).take len ++ c.exit.data.drop len } }
  advanceMmio c := some c

/-- The registers after a load whose bytes are in the exit record. -/
def resume (esr : BitVec 64) (c : KvmVcpu) : Regs :=
  archLoad c.regs esr (BitVec.ofNat 64 (fromLe (c.exit.data.take c.exit.len)))

/-- What is assumed of `KVM_RUN` after a load: the bytes of the access go to the transfer register,
extended as the syndrome says, and the program counter moves on. -/
def CompletesLoads (kvmRun : BitVec 64 → KvmVcpu → Regs) : Prop :=
  ∀ esr c, kvmRun esr c = resume esr c

variable {σ : Type} [VirtioDevice σ]

/-- The `KVM_EXIT_MMIO` arm of `run` for a load, the run loop's service of the access and the next
`KVM_RUN`; `data` is what the exit record holds before. -/
def kvmLoad (kvmRun : BitVec 64 → KvmVcpu → Regs) (b : Bus σ) (r : Regs) (esr ipa : BitVec 64)
    (data : List UInt8) : Option Regs :=
  let exit : MmioExit := ⟨ipa, data, accessSize esr, false⟩
  (dispatchMmio b (⟨r, exit, accessSize esr⟩ : KvmVcpu) (Kvm.mmioAccess exit)).map
    fun p => kvmRun esr p.2

/-- Only the low bytes of the value on the bus matter. -/
theorem archLoadValue_mod (esr v : BitVec 64) :
    archLoadValue esr (BitVec.ofNat 64 (v.toNat % 256 ^ accessSize esr)) = archLoadValue esr v := by
  have hcut : (BitVec.ofNat 64 (v.toNat % 256 ^ accessSize esr)).setWidth (8 * accessSize esr) =
      v.setWidth (8 * accessSize esr) := by
    have hpow : (256 : ℕ) ^ accessSize esr = 2 ^ (8 * accessSize esr) := by rw [Nat.pow_mul]
    have hlt : v.toNat % 2 ^ (8 * accessSize esr) < 2 ^ 64 :=
      (Nat.mod_le _ _).trans_lt v.isLt
    rw [← BitVec.toNat_inj, BitVec.toNat_setWidth, BitVec.toNat_setWidth, BitVec.toNat_ofNat, hpow,
      Nat.mod_eq_of_lt hlt, Nat.mod_mod]
  simp only [archLoadValue, hcut]

/-- **The KVM backend loads what the architecture loads**, whatever the exit record held. -/
theorem kvmLoad_eq {kvmRun : BitVec 64 → KvmVcpu → Regs} (hrun : CompletesLoads kvmRun) (b : Bus σ)
    (r : Regs) (esr ipa : BitVec 64) (data : List UInt8) :
    kvmLoad kvmRun b r esr ipa data = some (archLoad r esr (b.loadValue ipa)) := by
  have hsize := accessSize_le esr
  have hbytes : fromLe (((toLe 8 (b.loadValue ipa).toNat).take (min (accessSize esr) 8) ++
      data.drop (min (accessSize esr) 8)).take (accessSize esr)) =
      (b.loadValue ipa).toNat % 256 ^ accessSize esr := by
    rw [min_eq_left hsize, take_toLe hsize, List.take_append_of_le_length (by simp),
      List.take_of_length_le (by simp), fromLe_toLe]
  have hload : kvmLoad kvmRun b r esr ipa data = some (archLoad r esr
      (BitVec.ofNat 64 ((b.loadValue ipa).toNat % 256 ^ accessSize esr))) := by
    have haccess : Kvm.mmioAccess ⟨ipa, data, accessSize esr, false⟩ =
        ⟨ipa, accessSize esr, none⟩ := rfl
    rw [kvmLoad, haccess, dispatchMmio_load, ← hbytes]
    exact congrArg some (hrun esr _)
  rw [hload]
  simp only [archLoad, archLoadValue_mod]

end Kvm

/-! ## When a load is exact -/

namespace Hvf

open Mmio Kvm

variable {σ : Type} [VirtioDevice σ]

/-- The loads whose value needs no cutting: those to the zero register, and those for which the
value of the device fits the width. -/
def LoadExact (b : Bus σ) (esr ipa : BitVec 64) : Prop :=
  srt esr = 31 ∨ (b.loadValue ipa).toNat < 2 ^ (8 * accessSize esr)

/-- **When a load reaches the register unharmed.**  For every trapped load without sign extension,
whatever the devices, the registers and the address, the vcpu ends up with the architectural
registers, which are those it has under KVM, exactly when the load is a `LoadExact` one. -/
theorem hvfLoad_iff {kvmRun : BitVec 64 → KvmVcpu → Regs} (hrun : CompletesLoads kvmRun)
    (b : Bus σ) (r : Regs) (esr ipa : BitVec 64)
    (hec : ec esr = ecDataAbortLowerEl) (hisv : isv esr = 1) (hwnr : wnr esr = 0)
    (hsse : sse esr = 0) :
    (hvfLoad b r esr ipa = some (archLoad r esr (b.loadValue ipa)) ∧
        ∀ data, kvmLoad kvmRun b r esr ipa data = hvfLoad b r esr ipa) ↔
      LoadExact b esr ipa := by
  have hkvm (h : hvfLoad b r esr ipa = some (archLoad r esr (b.loadValue ipa)))
      (data : List UInt8) : kvmLoad kvmRun b r esr ipa data = hvfLoad b r esr ipa := by
    rw [kvmLoad_eq hrun, h]
  have hvalue : archLoadValue esr (b.loadValue ipa) =
      ((b.loadValue ipa).setWidth (8 * accessSize esr)).setWidth 64 := if_pos hsse
  rw [and_iff_left_of_imp hkvm, hvfLoad_eq b r ipa hec hisv hwnr, archLoad, hvalue,
    Option.some.injEq, LoadExact, ← setWidth_setWidth_eq_self_iff]
  constructor
  · intro h
    by_cases h31 : srt esr = 31
    · exact .inl h31
    · have hlt : srt esr < 31 := by
        have := srt_lt esr
        omega
      have hx := congrFun (congrArg Regs.x h) ⟨srt esr, hlt⟩
      dsimp only at hx
      rw [if_pos rfl, if_pos rfl] at hx
      exact .inr hx.symm
  · rintro (h31 | hfits)
    · have hno : ∀ i : Fin 31, ¬ i.val = srt esr := fun i hi => absurd i.isLt (by omega)
      simp [hno]
    · rw [hfits]

/-- The syndromes of a byte load and of a 32-bit load to `x1`. -/
def ldrbW1 : BitVec 64 := 0x93010000
def ldrW1 : BitVec 64 := 0x93810000

/-- One entropy device, in the first virtio slot. -/
def rngBus : Bus Devices.DeviceKind := ⟨Pl011.new, 33, [Devices.VirtioDev.new 0 .rng]⟩

theorem hvfLoad_iff_ldrW1 :
    (hvfLoad rngBus bootRegs ldrW1 0xc000000 =
        some (archLoad bootRegs ldrW1 (rngBus.loadValue 0xc000000)) ∧
      ∀ data, kvmLoad resume rngBus bootRegs ldrW1 0xc000000 data =
        hvfLoad rngBus bootRegs ldrW1 0xc000000) ∧
      rngBus.loadValue 0xc000000 = 0x74726976 :=
  ⟨(hvfLoad_iff (fun _ _ => rfl) rngBus bootRegs ldrW1 0xc000000 (by decide) (by decide)
    (by decide) (by decide)).2 (.inr (by decide)), by decide⟩

/-- A byte load of the magic value of a virtio device leaves the whole word in the register, where
the architecture and KVM have its low byte. -/
theorem byte_load_wide :
    ec ldrbW1 = ecDataAbortLowerEl ∧ isv ldrbW1 = 1 ∧ wnr ldrbW1 = 0 ∧ sse ldrbW1 = 0 ∧
      accessSize ldrbW1 = 1 ∧ srt ldrbW1 = 1 ∧
      (hvfLoad rngBus bootRegs ldrbW1 0xc000000).map (·.x 1) = some 0x74726976 ∧
      (kvmLoad resume rngBus bootRegs ldrbW1 0xc000000 (List.replicate 8 0)).map (·.x 1) =
        some 0x76 ∧
      (archLoad bootRegs ldrbW1 (rngBus.loadValue 0xc000000)).x 1 = 0x76 := by
  decide

end Amber.Hvf
