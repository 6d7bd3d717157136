import Mathlib.Data.List.Nodup
import Mathlib.Data.List.Range
import Amber.Lib.LittleEndian

/-!
# Snapshots of the in-kernel vGICv3

`amber-kvm/src/gic.rs` saves the interrupt controller that KVM emulates, register by register,
through device attributes.  The blob holds the values only: `capture` and `restore` each build the
list of addresses, from the number of interrupts and of vcpus, and go through it in the same order.

The attributes are taken as a register file, in which a set stores its value.  A slice outside the
blob is a panic, and so is told apart from a blob that is turned down.

* `nodup_addrList` — no register is listed twice: along the distributor the addresses grow, and a
  vcpu's registers are told apart from another's by the upper half of the address.
* `addr_mem_addrList` — every field of every shared interrupt is in a register of the list.
* `restore_capture_eq` — a register file restored from a blob has the captured value in every
  register of the list and is unchanged elsewhere.
* `restore_cases` — a blob is turned down before the first set, or holds all that is read.
* `vgic_blobs_restore` — all of it together.
-/

namespace Amber.Kvm

open LittleEndian List

/-! ## Addresses -/

/-- The attribute groups: distributor, redistributors and CPU interfaces. -/
inductive AttrGroup
  | dist
  | redist
  | sysregs
  deriving DecidableEq

abbrev Addr := AttrGroup × ℕ

/-- ICC system register attr encoding. -/
def icc (op0 op1 crn crm op2 : ℕ) : ℕ :=
  (op0 <<< 14) ||| (op1 <<< 11) ||| (crn <<< 7) ||| (crm <<< 3) ||| op2

/-- `ICC_PMR`, `ICC_BPR0`, `ICC_AP0R0`, `ICC_AP1R0`, `ICC_BPR1`, `ICC_CTLR`, `ICC_SRE`,
`ICC_IGRPEN0` and `ICC_IGRPEN1`. -/
def iccRegs : List ℕ :=
  [icc 3 0 4 6 0, icc 3 0 12 8 3, icc 3 0 12 8 4, icc 3 0 12 9 0, icc 3 0 12 12 3, icc 3 0 12 12 4,
    icc 3 0 12 12 5, icc 3 0 12 12 6, icc 3 0 12 12 7]

/-- The registers `base + stride * k` of the distributor for `k` in `lo..hi`. -/
def bank (base stride lo hi : ℕ) : List Addr :=
  (List.range' lo (hi - lo)).map fun k => (.dist, base + stride * k)

/-- The distributor's part of the list: `GICD_CTLR`, then group, enable, pending and active bits,
priorities, configuration and routes of the shared interrupts. -/
def distAddrs (nrIrqs : ℕ) : List Addr :=
  (.dist, 0x0000) ::
    ([0x0080, 0x0100, 0x0200, 0x0300].flatMap (fun base => bank base 4 1 (nrIrqs / 32)) ++
      bank 0x0400 4 8 (nrIrqs / 4) ++ bank 0x0C00 4 2 (nrIrqs / 16) ++ bank 0x6000 8 32 nrIrqs)

/-- One vcpu's part: `GICR_CTLR`, `STATUSR` and `WAKER`, the banks of the private interrupts, and
the CPU interface. -/
def vcpuAddrs (cpu : ℕ) : List Addr :=
  let v := cpu <<< 32
  [0x0000, 0x0010, 0x0014].map (fun off => (.redist, v ||| off)) ++
    [(.redist, v ||| 0x10080), (.redist, v ||| 0x10100), (.redist, v ||| 0x10200),
      (.redist, v ||| 0x10300)] ++
    (List.range 8).map (fun word => (.redist, v ||| (0x10400 + 4 * word))) ++
    [(.redist, v ||| 0x10C00), (.redist, v ||| 0x10C04)] ++
    iccRegs.map fun reg => (.sysregs, v ||| reg)

def addrList (nrIrqs vcpus : ℕ) : List Addr :=
  distAddrs nrIrqs ++ (List.range vcpus).flatMap vcpuAddrs

/-! ## Blobs -/

abbrev RegFile := Addr → UInt64

def getAttr (f : RegFile) (a : Addr) : UInt64 := f a

def setAttr (f : RegFile) (a : Addr) (val : UInt64) : RegFile := Function.update f a val

/-- `b"AGIC"`. -/
def gicMagic : List UInt8 := [0x41, 0x47, 0x49, 0x43]

def capture (f : RegFile) (nrIrqs vcpus : ℕ) : List UInt8 :=
  let addrs := addrList nrIrqs vcpus
  gicMagic ++ toLe 4 1 ++ toLe 4 nrIrqs ++ toLe 4 vcpus ++ toLe 4 addrs.length ++
    addrs.flatMap fun a => toLe 8 (getAttr f a).toNat

/-- How a restore fails: with an error, or by a slice outside the blob. -/
inductive RestoreFault
  | snapshot (message : String)
  | panic
  deriving DecidableEq

/-- `from_le_bytes(blob[o..o + n])`. -/
def readLe (blob : List UInt8) (o n : ℕ) : Option ℕ :=
  if o + n ≤ blob.length then some (field blob o n) else none

/-- The loop of `restore`, at byte `o` of the blob. -/
def setAttrs (blob : List UInt8) : ℕ → List Addr → RegFile → Except RestoreFault Unit × RegFile
  | _, [], f => (.ok (), f)
  | o, a :: addrs, f =>
    match readLe blob o 8 with
    | none => (.error .panic, f)
    | some val => setAttrs blob (o + 8) addrs (setAttr f a (UInt64.ofNat val))

def restore (f : RegFile) (nrIrqs vcpus : ℕ) (blob : List UInt8) :
    Except RestoreFault Unit × RegFile :=
  if blob.length < 20 ∨ blob.take 4 ≠ gicMagic then
    (.error (.snapshot "gic blob: bad magic/length"), f)
  else
    match readLe blob 8 4, readLe blob 12 4, readLe blob 16 4 with
    | some irqs, some cpus, some count =>
      if irqs ≠ nrIrqs ∨ cpus ≠ vcpus then
        (.error (.snapshot
          s!"gic blob shape mismatch: irqs {irqs}/{nrIrqs} vcpus {cpus}/{vcpus}"), f)
      else if count ≠ (addrList nrIrqs vcpus).length ∨ blob.length < 20 + count * 8 then
        (.error (.snapshot "gic blob: register count mismatch"), f)
      else setAttrs blob 20 (addrList nrIrqs vcpus) f
    | _, _, _ => (.error .panic, f)

/-! ## The list -/

variable {nrIrqs vcpus : ℕ} (f : RegFile) (pre : List (ℕ × ℕ))

theorem mem_bank {base stride lo hi : ℕ} {a : Addr} :
    a ∈ bank base stride lo hi ↔ ∃ k, lo ≤ k ∧ k < hi ∧ a = (.dist, base + stride * k) := by
  simp only [bank, mem_map, mem_range'_1, eq_comm (b := a), and_assoc]
  refine exists_congr fun k => ?_
  constructor <;> rintro ⟨h1, h2, rfl⟩ <;> exact ⟨h1, by omega, rfl⟩

theorem nodup_bank (base : ℕ) {stride : ℕ} (hs : 0 < stride) (lo hi : ℕ) :
    (bank base stride lo hi).Nodup := by
  refine List.Nodup.map (fun j k hjk => ?_) nodup_range'
  exact Nat.eq_of_mul_eq_mul_left hs (add_left_cancel (congrArg Prod.snd hjk))

/-- The banks of the distributor: base, stride, first and last register. -/
def banks (nrIrqs : ℕ) : List (ℕ × ℕ × ℕ × ℕ) :=
  [(0x0000, 4, 0, 1), (0x0080, 4, 1, nrIrqs / 32), (0x0100, 4, 1, nrIrqs / 32),
    (0x0200, 4, 1, nrIrqs / 32), (0x0300, 4, 1, nrIrqs / 32), (0x0400, 4, 8, nrIrqs / 4),
    (0x0C00, 4, 2, nrIrqs / 16), (0x6000, 8, 32, nrIrqs)]

theorem distAddrs_eq (nrIrqs : ℕ) :
    distAddrs nrIrqs = (banks nrIrqs).flatMap fun b => bank b.1 b.2.1 b.2.2.1 b.2.2.2 := by
  have hctlr : bank 0x0000 4 0 1 = [(.dist, 0x0000)] := rfl
  simp only [distAddrs, banks, flatMap_cons, flatMap_nil, append_nil,
    append_assoc, hctlr, singleton_append]

/-- Every bank ends before the next one begins. -/
theorem nodup_distAddrs (h : nrIrqs ≤ 992) : (distAddrs nrIrqs).Nodup := by
  have hs : ∀ b ∈ banks nrIrqs, 0 < b.2.1 := by simp [banks]
  have hends : (banks nrIrqs).Pairwise fun b c => b.1 + b.2.1 * b.2.2.2 ≤ c.1 := by
    simp [banks]
    omega
  rw [distAddrs_eq, nodup_flatMap]
  refine ⟨fun b hb => nodup_bank _ (hs b hb) _ _, hends.imp_of_mem fun hb _ hle a ha ha' => ?_⟩
  obtain ⟨j, -, hj, rfl⟩ := mem_bank.1 ha
  obtain ⟨k, -, -, heq⟩ := mem_bank.1 ha'
  have hlt := Nat.mul_lt_mul_of_pos_left hj (hs _ hb)
  have heq := congrArg Prod.snd heq
  dsimp only at heq
  omega

theorem group_of_mem_distAddrs {a : Addr} (ha : a ∈ distAddrs nrIrqs) : a.1 = .dist := by
  rw [distAddrs_eq] at ha
  obtain ⟨b, -, ha⟩ := mem_flatMap.1 ha
  obtain ⟨k, -, -, rfl⟩ := mem_bank.1 ha
  rfl

/-- What every vcpu has, without the number of the vcpu. -/
def vcpuOffsets : List Addr := vcpuAddrs 0

theorem vcpuAddrs_eq (cpu : ℕ) :
    vcpuAddrs cpu = vcpuOffsets.map fun a => (a.1, cpu * 2 ^ 32 + a.2) := by
  have hoff : ∀ a ∈ vcpuOffsets, a.2 < 2 ^ 32 := by decide
  have hmap : vcpuAddrs cpu = vcpuOffsets.map fun a => (a.1, cpu <<< 32 ||| a.2) := by
    simp [vcpuAddrs, vcpuOffsets, iccRegs]
  rw [hmap]
  refine map_congr_left fun a ha => ?_
  rw [← Nat.shiftLeft_add_eq_or_of_lt (hoff a ha), Nat.shiftLeft_eq]

theorem nodup_addrList (h : nrIrqs ≤ 992) (vcpus : ℕ) : (addrList nrIrqs vcpus).Nodup := by
  have hoff : ∀ a ∈ vcpuOffsets, a.2 < 2 ^ 32 ∧ a.1 ≠ .dist := by decide
  have hinj : ∀ {c d : ℕ} {a b : Addr}, a ∈ vcpuOffsets → b ∈ vcpuOffsets →
      (a.1, c * 2 ^ 32 + a.2) = (b.1, d * 2 ^ 32 + b.2) → c = d ∧ a = b := by
    intro c d a b ha hb heq
    have ha := (hoff a ha).1
    have hb := (hoff b hb).1
    obtain ⟨hgroup, hattr⟩ := Prod.mk.inj heq
    exact ⟨by omega, Prod.ext hgroup (by omega)⟩
  refine nodup_append.2 ⟨nodup_distAddrs h, nodup_flatMap.2 ⟨fun c _ => ?_, ?_⟩, ?_⟩
  · rw [vcpuAddrs_eq]
    exact List.Nodup.map_on (fun a ha b hb heq => (hinj ha hb heq).2) (by decide)
  · refine nodup_range.imp fun hne a ha ha' => ?_
    rw [vcpuAddrs_eq] at ha ha'
    obtain ⟨b, hb, rfl⟩ := mem_map.1 ha
    obtain ⟨b', hb', heq⟩ := mem_map.1 ha'
    exact hne (hinj hb hb' heq.symm).1
  · intro a ha b hb heq
    obtain ⟨c, -, hb⟩ := mem_flatMap.1 hb
    rw [vcpuAddrs_eq] at hb
    obtain ⟨b', hb', rfl⟩ := mem_map.1 hb
    exact (hoff b' hb').2 (by rw [← group_of_mem_distAddrs ha, heq])

theorem length_addrList_lt (h : nrIrqs ≤ 992) (hcpus : vcpus ≤ 512) :
    (addrList nrIrqs vcpus).length < 2 ^ 32 := by
  have hcpu : ∀ c, (vcpuAddrs c).length = 26 := fun _ => rfl
  have hdist : (distAddrs nrIrqs).length ≤ 3 * nrIrqs + 1 := by
    simp [distAddrs, bank]
    omega
  simp only [addrList, length_append, length_flatMap, hcpu, map_const',
    length_range, sum_replicate_nat]
  omega

/-- The fields an interrupt has in the distributor. -/
inductive IrqField
  | group
  | enable
  | pending
  | active
  | priority
  | config
  | route

/-- Base and stride of the field's registers, and how many interrupts share one. -/
def IrqField.layout : IrqField → ℕ × ℕ × ℕ
  | group => (0x0080, 4, 32)
  | enable => (0x0100, 4, 32)
  | pending => (0x0200, 4, 32)
  | active => (0x0300, 4, 32)
  | priority => (0x0400, 4, 4)
  | config => (0x0C00, 4, 16)
  | route => (0x6000, 8, 1)

/-- The register that holds the field of interrupt `i`. -/
def IrqField.addr (field : IrqField) (i : ℕ) : Addr :=
  (.dist, field.layout.1 + field.layout.2.1 * (i / field.layout.2.2))

theorem addr_mem_addrList (hdvd : 32 ∣ nrIrqs) {i : ℕ} (hlo : 32 ≤ i) (hhi : i < nrIrqs)
    (field : IrqField) : field.addr i ∈ addrList nrIrqs vcpus := by
  have hbank : (field.layout.1, field.layout.2.1, 32 / field.layout.2.2,
      nrIrqs / field.layout.2.2) ∈ banks nrIrqs := by
    cases field <;> simp [banks, IrqField.layout]
  have hper : field.layout.2.2 ∣ 32 := by cases field <;> decide
  refine mem_append_left _ ?_
  rw [distAddrs_eq]
  exact mem_flatMap.2 ⟨_, hbank, mem_bank.2 ⟨i / field.layout.2.2, Nat.div_le_div_right hlo,
    Nat.div_lt_div_of_lt_of_dvd (hper.trans hdvd) hhi, rfl⟩⟩

/-! ## Round trip -/

/-- The blob as a record of numbers. -/
theorem capture_eq (nrIrqs vcpus : ℕ) :
    capture f nrIrqs vcpus =
      record ([(4, 0x43494741), (4, 1), (4, nrIrqs), (4, vcpus),
        (4, (addrList nrIrqs vcpus).length)] ++
          (addrList nrIrqs vcpus).map fun a => (8, (f a).toNat)) := by
  have hmagic : gicMagic = toLe 4 0x43494741 := by decide
  simp only [capture, hmagic, record, flatMap_append, flatMap_cons, flatMap_nil,
    append_nil, append_assoc, flatMap_map, getAttr]

theorem readLe_record (n v : ℕ) (post : List (ℕ × ℕ)) :
    readLe (record (pre ++ (n, v) :: post)) (width pre) n = some (v % 256 ^ n) := by
  have hfit : width pre + n ≤ (record (pre ++ (n, v) :: post)).length := by
    simp only [length_record, width, map_append, map_cons, sum_append, sum_cons]
    omega
  have hval := field_record pre n v post []
  rw [append_nil] at hval
  rw [readLe, if_pos hfit, hval]

/-- The loop stores every value of the blob, whatever stands before them. -/
theorem setAttrs_record (addrs : List Addr) (g : RegFile) :
    setAttrs (record (pre ++ addrs.map fun a => (8, (f a).toNat))) (width pre) addrs g =
      (.ok (), fun a => if a ∈ addrs then f a else g a) := by
  induction addrs generalizing pre g with
  | nil => simp [setAttrs]
  | cons b addrs ih =>
    have hwidth : width pre + 8 = width (pre ++ [(8, (f b).toNat)]) := by
      simp [width]
    have hval : (f b).toNat % 256 ^ 8 = (f b).toNat := Nat.mod_eq_of_lt (f b).toNat_lt
    rw [setAttrs, map_cons, readLe_record, hval]
    dsimp only
    rw [append_cons, hwidth, ih, UInt64.ofNat_toNat]
    refine congrArg (Prod.mk _) (funext fun a => ?_)
    by_cases hab : a = b
    · subst hab
      simp [setAttr]
    · simp [setAttr, hab]

/-- **A restored blob.**  Every register of the list has its captured value, and no other register
changes. -/
theorem restore_capture_eq (hirqs : nrIrqs < 2 ^ 32) (hcpus : vcpus < 2 ^ 32)
    (hlen : (addrList nrIrqs vcpus).length < 2 ^ 32) (f g : RegFile) :
    restore g nrIrqs vcpus (capture f nrIrqs vcpus) =
      (.ok (), fun a => if a ∈ addrList nrIrqs vcpus then f a else g a) := by
  have hlong : (capture f nrIrqs vcpus).length = 20 + (addrList nrIrqs vcpus).length * 8 := by
    rw [capture_eq, length_record]
    simp [width, Function.comp_def]
    omega
  have hmagic : (capture f nrIrqs vcpus).take 4 = gicMagic := by
    simp [capture, gicMagic]
  have hread8 : readLe (capture f nrIrqs vcpus) 8 4 = some nrIrqs := by
    rw [capture_eq]
    exact (readLe_record [(4, 0x43494741), (4, 1)] 4 nrIrqs _).trans
      (congrArg some (Nat.mod_eq_of_lt hirqs))
  have hread12 : readLe (capture f nrIrqs vcpus) 12 4 = some vcpus := by
    rw [capture_eq]
    exact (readLe_record [(4, 0x43494741), (4, 1), (4, nrIrqs)] 4 vcpus _).trans
      (congrArg some (Nat.mod_eq_of_lt hcpus))
  have hread16 : readLe (capture f nrIrqs vcpus) 16 4 = some (addrList nrIrqs vcpus).length := by
    rw [capture_eq]
    exact (readLe_record [(4, 0x43494741), (4, 1), (4, nrIrqs), (4, vcpus)] 4 _ _).trans
      (congrArg some (Nat.mod_eq_of_lt hlen))
  rw [restore, if_neg (by rw [hmagic, hlong]; simp), hread8, hread12, hread16]
  dsimp only
  rw [if_neg (by simp), if_neg (by rw [hlong]; simp), capture_eq]
  exact setAttrs_record f [_, _, _, _, _] _ g

/-! ## Any blob -/

theorem setAttrs_ok {blob : List UInt8} {addrs : List Addr} {o : ℕ}
    (hfit : o + addrs.length * 8 ≤ blob.length) (f : RegFile) :
    (setAttrs blob o addrs f).1 = .ok () := by
  induction addrs generalizing o f with
  | nil => rfl
  | cons a addrs ih =>
    rw [length_cons] at hfit
    rw [setAttrs, readLe, if_pos (by omega)]
    exact ih (by omega) _

/-- Of any bytes, `restore` turns them down before the first set, or reads only inside them. -/
theorem restore_cases (nrIrqs vcpus : ℕ) (blob : List UInt8) :
    (∃ message, restore f nrIrqs vcpus blob = (.error (.snapshot message), f)) ∨
      (restore f nrIrqs vcpus blob).1 = .ok () := by
  rw [restore]
  split_ifs with hhead
  · exact .inl ⟨_, rfl⟩
  obtain ⟨hlen, -⟩ := not_or.1 hhead
  simp only [readLe, if_pos (show 8 + 4 ≤ blob.length by omega),
    if_pos (show 12 + 4 ≤ blob.length by omega), if_pos (show 16 + 4 ≤ blob.length by omega)]
  split_ifs with hshape hcount
  · exact .inl ⟨_, rfl⟩
  · exact .inl ⟨_, rfl⟩
  · obtain ⟨heq, hfit⟩ := not_or.1 hcount
    exact .inr (setAttrs_ok (by omega) f)

/-- **vGICv3 blobs restore what they captured.**  The list has no address twice and holds every
field of the shared interrupts; a captured blob restores into any register file; and any other
blob is turned down with nothing written, or is read only inside. -/
theorem vgic_blobs_restore (h992 : nrIrqs ≤ 992) (h32 : 32 ∣ nrIrqs) (hcpus : vcpus ≤ 512) :
    (addrList nrIrqs vcpus).Nodup ∧
      (∀ i, 32 ≤ i → i < nrIrqs → ∀ field : IrqField,
        field.addr i ∈ addrList nrIrqs vcpus) ∧
      (∀ f g : RegFile, (restore g nrIrqs vcpus (capture f nrIrqs vcpus)).1 = .ok () ∧
        ∀ a, (restore g nrIrqs vcpus (capture f nrIrqs vcpus)).2 a =
          if a ∈ addrList nrIrqs vcpus then f a else g a) ∧
      ∀ (f : RegFile) (blob : List UInt8),
        (∃ message, restore f nrIrqs vcpus blob = (.error (.snapshot message), f)) ∨
          (restore f nrIrqs vcpus blob).1 = .ok () := by
  refine ⟨nodup_addrList h992 vcpus, fun i hlo hhi => addr_mem_addrList h32 hlo hhi,
    fun f g => ?_, fun f blob => restore_cases f nrIrqs vcpus blob⟩
  rw [restore_capture_eq (by omega) (by omega) (length_addrList_lt h992 hcpus)]
  exact ⟨rfl, fun a => rfl⟩

/-- The controller of a machine of two vcpus and 64 interrupts, all of it set to one. -/
theorem vgic_blobs_restore_pair :
    (addrList 64 2).length = 99 ∧ IrqField.route.addr 33 ∈ addrList 64 2 ∧
      (restore (fun _ => 0) 64 2 (capture (fun _ => 1) 64 2)).2 (.dist, 0x6108) = 1 ∧
      (restore (fun _ => 0) 64 2 []).1 ≠ .ok () := by
  obtain ⟨-, hmem, htrip, -⟩ :=
    @vgic_blobs_restore 64 2 (by decide) (by decide) (by decide)
  refine ⟨by decide, hmem 33 (by decide) (by decide) .route, ?_, by decide⟩
  rw [(htrip _ _).2, if_pos (by decide)]

end Amber.Kvm
