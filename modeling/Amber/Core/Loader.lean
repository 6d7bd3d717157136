import Mathlib.Order.CompletePartialOrder
import Mathlib.Order.Interval.Set.Disjoint
import Amber.Core.Memory
import Amber.Lib.Failing

/-!
# Placing the boot images

`amber-core/src/loader.rs` copies the kernel and the initramfs into guest RAM, and `run` the device
tree once it is built.  The three places are computed apart: the kernel goes where its header says
or to a fixed offset, the device tree to a fixed offset, the initramfs to three quarters of RAM.
Each write is checked against the end of RAM, and against nothing else.

* `boot_ok` — what an accepted boot leaves: three writes, one after the other, each inside RAM.
* `boot_images_iff` — the images lie apart and are all there at the end exactly when header, sizes
  and RAM are such that they are `Clear`.
* `old_kernel_overwritten` — a kernel of a megabyte with the text offset of an older one is
  accepted and then overwritten by the device tree.
-/

namespace Amber

open GuestRam LittleEndian Option

/-! ## Ranges of guest memory -/

namespace GuestRam

variable {a n : ℕ}

theorem disjoint_Ico_iff {b m : ℕ} :
    Disjoint (Set.Ico a (a + n)) (Set.Ico b (b + m)) ↔
      a + n ≤ b ∨ b + m ≤ a ∨ n = 0 ∨ m = 0 := by
  rw [Set.Ico_disjoint_Ico]
  omega

/-- A write does not reach a range that is disjoint from its own. -/
theorem read_write_of_disjoint {r : GuestRam} {b : ℕ} {bs : List UInt8}
    (h : Disjoint (Set.Ico a (a + n)) (Set.Ico b (b + bs.length))) :
    (r.write b bs).read a n = r.read a n :=
  (changesOnly_write r b bs).read_eq fun _ hlo hhi hin => Set.disjoint_left.1 h ⟨hlo, hhi⟩ hin

theorem inRange_write (r : GuestRam) (b : ℕ) (bs : List UInt8) (a n : ℕ) :
    (r.write b bs).inRange a n = r.inRange a n :=
  (changesOnly_write r b bs).inRange_eq a n

theorem subset_of_inRange {r : GuestRam} (h : r.inRange a n = true) :
    Set.Ico a (a + n) ⊆ Set.Ico r.base (r.base + r.len) := by
  obtain ⟨hlo, hhi⟩ := inRange_iff.1 h
  exact Set.Ico_subset_Ico hlo hhi

end GuestRam

namespace Loader

open Failing

/-! ## The loader -/

def ramBase : ℕ := 0x40000000
def kernelOffset : ℕ := 0x200000
def dtbOffset : ℕ := 0x100000

/-- `"ARM\x64"`, at offset 0x38 of the header. -/
def arm64Magic : ℕ := 0x644d5241

/-- `{:#x}`. -/
def hex (n : ℕ) : String := "0x" ++ String.ofList (Nat.toDigits 16 n)

/-- `GuestMemory::new`: fresh RAM is zero. -/
def newMemory (base len : ℕ) : GuestRam := ⟨base, len, fun _ => 0⟩

/-- `GuestMemory::write`. -/
def write (mem : GuestRam) (gpa : ℕ) (bytes : List UInt8) : Except String GuestRam :=
  if mem.inRange gpa bytes.length then .ok (mem.write gpa bytes)
  else
    let gpa := hex gpa
    let len := bytes.length
    .error s!"write {gpa}+{len} out of range"

/-- `text_offset` of the header. -/
def textOffset (image : List UInt8) : ℕ := field image 0x08 8

/-- Where in RAM the kernel goes. -/
def loadOffset (image : List UInt8) : ℕ :=
  if textOffset image = 0 then kernelOffset else textOffset image

/-- `load_kernel`: the memory and the entry point. -/
def loadKernel (mem : GuestRam) (image : List UInt8) : Except String (GuestRam × ℕ) :=
  if image.length < 64 then .error "image shorter than header"
  else if field image 0x38 4 ≠ arm64Magic then
    let magic := hex (field image 0x38 4)
    .error s!"bad arm64 magic {magic}"
  else do
    let entry := (mem.base + loadOffset image) % 2 ^ 64
    let mem ← write mem entry image
    return (mem, entry)

/-- `load_initramfs`: the memory, and the range for the device tree to advertise. -/
def loadInitramfs (mem : GuestRam) (initrd : Option (List UInt8)) :
    Except String (GuestRam × Option (ℕ × ℕ)) :=
  match initrd with
  | none => .ok (mem, none)
  | some data => do
    let start := mem.base + mem.len / 4 * 3
    let start := (start + 0xfff) / 0x1000 * 0x1000
    let mem ← write mem start data
    return (mem, some (start, start + data.length))

/-- What `prepare` hands to `run`. -/
structure Prepared where
  mem : GuestRam
  entry : ℕ
  dtbAddr : ℕ
  initrd : Option (ℕ × ℕ)

/-- `Vm::prepare`, as far as it places images. -/
def prepare (memSize : ℕ) (kernel : List UInt8) (initrd : Option (List UInt8)) :
    Except String Prepared := do
  let mem := newMemory ramBase memSize
  let (mem, entry) ← loadKernel mem kernel
  let (mem, initrd) ← loadInitramfs mem initrd
  return { mem, entry, dtbAddr := mem.base + dtbOffset, initrd }

/-- `prepare`, and the write of the device tree in `run`. -/
def boot (memSize : ℕ) (kernel : List UInt8) (initrd : Option (List UInt8)) (blob : List UInt8) :
    Except String (Prepared × GuestRam) := do
  let p ← prepare memSize kernel initrd
  let mem ← write p.mem p.dtbAddr blob
  return (p, mem)

/-! ## What each step leaves -/

variable {mem mem' : GuestRam} {entry memSize : ℕ} {initrd : Option (List UInt8)}
  {kernel : List UInt8} {range : Option (ℕ × ℕ)}

theorem write_ok {gpa : ℕ} {bytes : List UInt8}
    (h : write mem gpa bytes = .ok mem') :
    mem.inRange gpa bytes.length = true ∧ mem' = mem.write gpa bytes := by
  unfold write at h
  split_ifs at h with hin
  exact ⟨hin, (Except.ok.inj h).symm⟩

/-- A text offset that makes the entry point wrap around is refused. -/
theorem entry_eq {off n : ℕ} (hbase : mem.base < 2 ^ 64) (hoff : off < 2 ^ 64)
    (h : mem.inRange ((mem.base + off) % 2 ^ 64) n = true) :
    (mem.base + off) % 2 ^ 64 = mem.base + off := by
  have hlo := (inRange_iff.1 h).1
  omega

theorem loadOffset_lt (image : List UInt8) : loadOffset image < 2 ^ 64 := by
  unfold loadOffset
  split_ifs
  · decide
  · exact field_lt image 0x08 8

/-- An accepted kernel is written where its header says. -/
theorem loadKernel_ok {image : List UInt8}
    (hbase : mem.base < 2 ^ 64) (h : loadKernel mem image = .ok (mem', entry)) :
    64 ≤ image.length ∧ entry = mem.base + loadOffset image ∧
      mem.inRange entry image.length = true ∧ mem' = mem.write entry image := by
  unfold loadKernel at h
  split_ifs at h with hshort
  obtain ⟨mem₁, hwrite, heq⟩ := bind_eq_ok h
  obtain ⟨hin, rfl⟩ := write_ok hwrite
  obtain ⟨rfl, rfl⟩ := Prod.mk.inj (Except.ok.inj heq)
  exact ⟨not_lt.1 hshort, entry_eq hbase (loadOffset_lt image) hin, hin, rfl⟩

/-- Where in RAM the initramfs goes: at three quarters, rounded up to a page. -/
def initramfsOffset (memSize : ℕ) : ℕ := (memSize / 4 * 3 + 0xfff) / 0x1000 * 0x1000

/-- The memory with the initramfs written to it, if there is one. -/
def withInitramfs (mem : GuestRam) (start : ℕ) : Option (List UInt8) → GuestRam
  | none => mem
  | some data => mem.write start data

theorem withInitramfs_base (mem : GuestRam) (start : ℕ) (initrd : Option (List UInt8)) :
    (withInitramfs mem start initrd).base = mem.base := by
  cases initrd with
  | none => rfl
  | some data => exact mem.write_base start data

theorem inRange_withInitramfs (mem : GuestRam) (start : ℕ) (initrd : Option (List UInt8))
    (a n : ℕ) : (withInitramfs mem start initrd).inRange a n = mem.inRange a n := by
  cases initrd with
  | none => rfl
  | some data => exact mem.inRange_write start data a n

theorem loadInitramfs_ok (hbase : mem.base = ramBase)
    (h : loadInitramfs mem initrd = .ok (mem', range)) :
    let start := ramBase + initramfsOffset mem.len
    range = initrd.map (fun data => (start, start + data.length)) ∧
      (∀ data ∈ initrd, mem.inRange start data.length = true) ∧
      mem' = withInitramfs mem start initrd := by
  cases initrd with
  | none =>
    obtain ⟨rfl, rfl⟩ := Prod.mk.inj (Except.ok.inj h)
    exact ⟨rfl, fun _ hd => absurd hd (not_mem_none _), rfl⟩
  | some data =>
    have hstart : (mem.base + mem.len / 4 * 3 + 0xfff) / 0x1000 * 0x1000 =
        ramBase + initramfsOffset mem.len := by
      rw [hbase, ramBase, initramfsOffset]
      omega
    obtain ⟨mem₁, hwrite, heq⟩ := bind_eq_ok h
    rw [hstart] at hwrite heq
    obtain ⟨hin, rfl⟩ := write_ok hwrite
    obtain ⟨rfl, rfl⟩ := Prod.mk.inj (Except.ok.inj heq)
    refine ⟨rfl, fun d hd => ?_, rfl⟩
    rw [← mem_some.1 hd]
    exact hin

theorem read_withInitramfs {start a n : ℕ}
    (h : ∀ data ∈ initrd, Disjoint (Set.Ico a (a + n)) (Set.Ico start (start + data.length))) :
    (withInitramfs mem start initrd).read a n = mem.read a n := by
  cases initrd with
  | none => rfl
  | some data => exact read_write_of_disjoint (h data rfl)

/-! ## What an accepted boot leaves -/

/-- The three images in their places: each range is in RAM, and the writes follow one another. -/
structure Placed (memSize : ℕ) (kernel : List UInt8) (initrd : Option (List UInt8))
    (blob : List UInt8) (p : Prepared) (mem : GuestRam) : Prop where
  kernel_len : 64 ≤ kernel.length
  entry_eq : p.entry = ramBase + loadOffset kernel
  dtbAddr_eq : p.dtbAddr = ramBase + dtbOffset
  initrd_eq : p.initrd = initrd.map fun data =>
    (ramBase + initramfsOffset memSize, ramBase + initramfsOffset memSize + data.length)
  kernel_in : (newMemory ramBase memSize).inRange p.entry kernel.length = true
  initrd_in : ∀ data ∈ initrd,
    (newMemory ramBase memSize).inRange (ramBase + initramfsOffset memSize) data.length = true
  dtb_in : (newMemory ramBase memSize).inRange p.dtbAddr blob.length = true
  mem_eq : mem = (withInitramfs ((newMemory ramBase memSize).write p.entry kernel)
    (ramBase + initramfsOffset memSize) initrd).write p.dtbAddr blob

/-- **An accepted boot** is three writes inside RAM. -/
theorem boot_ok {blob : List UInt8} {p : Prepared}
    (h : boot memSize kernel initrd blob = .ok (p, mem)) :
    Placed memSize kernel initrd blob p mem := by
  obtain ⟨p', hprepare, h⟩ := bind_eq_ok h
  obtain ⟨mem', hwrite, heq⟩ := bind_eq_ok h
  obtain ⟨rfl, rfl⟩ := Prod.mk.inj (Except.ok.inj heq)
  obtain ⟨hdtb, rfl⟩ := write_ok hwrite
  obtain ⟨⟨mem₁, entry⟩, hkernel, hrest⟩ := bind_eq_ok hprepare
  obtain ⟨⟨mem₂, range⟩, hinitrd, heq⟩ := bind_eq_ok hrest
  obtain rfl := Except.ok.inj heq
  obtain ⟨hlen, hentry, hkernel_in, rfl⟩ :=
    loadKernel_ok (show ramBase < 2 ^ 64 by decide) hkernel
  obtain ⟨hrange, hinitrd_in, rfl⟩ := loadInitramfs_ok (write_base _ _ _) hinitrd
  simp only [write_len, inRange_write] at hrange hinitrd_in hdtb ⊢
  rw [inRange_withInitramfs, inRange_write] at hdtb
  refine ⟨hlen, hentry, ?_, hrange, hkernel_in, hinitrd_in, hdtb, rfl⟩
  rw [withInitramfs_base, write_base]
  rfl

/-- Without an initramfs, a kernel that is accepted is all there is to `prepare`. -/
theorem prepare_none (h : loadKernel (newMemory ramBase memSize) kernel = .ok (mem, entry)) :
    prepare memSize kernel none = .ok ⟨mem, entry, mem.base + dtbOffset, none⟩ := by
  rw [prepare, h]
  rfl

theorem boot_eq {dtbAddr : ℕ} {blob : List UInt8}
    (hprepare : prepare memSize kernel initrd = .ok ⟨mem, entry, dtbAddr, range⟩)
    (hwrite : write mem dtbAddr blob = .ok mem') :
    boot memSize kernel initrd blob = .ok (⟨mem, entry, dtbAddr, range⟩, mem') := by
  rw [boot, hprepare]
  show (write mem dtbAddr blob >>= fun mem' => pure (_, mem')) = _
  rw [hwrite]
  rfl

/-! ## When the images are apart -/

/-- The addresses of an image of `n` bytes at `a`. -/
def span (a n : ℕ) : Set ℕ := Set.Ico a (a + n)

/-- What is wanted of the three images: they lie in RAM, no two share an address, and each can be
read back at the end. -/
structure Images (memSize : ℕ) (kernel : List UInt8) (initrd : Option (List UInt8))
    (blob : List UInt8) (p : Prepared) (mem : GuestRam) : Prop where
  kernel_in : span p.entry kernel.length ⊆ span ramBase memSize
  dtb_in : span p.dtbAddr blob.length ⊆ span ramBase memSize
  initrd_in : ∀ r ∈ p.initrd, Set.Ico r.1 r.2 ⊆ span ramBase memSize
  kernel_dtb : Disjoint (span p.entry kernel.length) (span p.dtbAddr blob.length)
  kernel_initrd : ∀ r ∈ p.initrd, Disjoint (span p.entry kernel.length) (Set.Ico r.1 r.2)
  dtb_initrd : ∀ r ∈ p.initrd, Disjoint (span p.dtbAddr blob.length) (Set.Ico r.1 r.2)
  kernel_read : mem.read p.entry kernel.length = kernel
  dtb_read : mem.read p.dtbAddr blob.length = blob
  initrd_read : ∀ r ∈ p.initrd, ∀ data ∈ initrd, mem.read r.1 data.length = data

/-- The kernel and the device tree are apart: the header leaves the place open, or names one below
or above the device tree. -/
def KernelClear (kernel blob : List UInt8) : Prop :=
  textOffset kernel = 0 ∨ textOffset kernel + kernel.length ≤ dtbOffset ∨
    dtbOffset + blob.length ≤ textOffset kernel ∨ blob.length = 0

/-- The initramfs is apart from both: three quarters of RAM are more than either reaches to, or so
little that the initramfs ends below it. -/
def InitramfsClear (memSize : ℕ) (kernel data blob : List UInt8) : Prop :=
  data.length = 0 ∨
    (loadOffset kernel + kernel.length ≤ initramfsOffset memSize ∨
      initramfsOffset memSize + data.length ≤ loadOffset kernel) ∧
    (dtbOffset + blob.length ≤ initramfsOffset memSize ∨
      initramfsOffset memSize + data.length ≤ dtbOffset ∨ blob.length = 0)

/-- The sizes and the header are such that no image reaches into another. -/
def Clear (memSize : ℕ) (kernel : List UInt8) (initrd : Option (List UInt8)) (blob : List UInt8) :
    Prop :=
  KernelClear kernel blob ∧ ∀ data ∈ initrd, InitramfsClear memSize kernel data blob

instance (memSize : ℕ) (kernel : List UInt8) (initrd : Option (List UInt8)) (blob : List UInt8) :
    Decidable (Clear memSize kernel initrd blob) := by
  unfold Clear KernelClear InitramfsClear
  infer_instance

section Boot

variable {memSize : ℕ} {kernel : List UInt8} {initrd : Option (List UInt8)} {blob : List UInt8}
  {p : Prepared} {mem : GuestRam}

variable (h : Placed memSize kernel initrd blob p mem)

include h

theorem Placed.kernel_dtb_iff
    (hblob : blob.length ≤ 0x100000) :
    Disjoint (span p.entry kernel.length) (span p.dtbAddr blob.length) ↔
      KernelClear kernel blob := by
  have hlen := h.kernel_len
  rw [span, span, disjoint_Ico_iff, h.entry_eq, h.dtbAddr_eq, KernelClear, loadOffset]
  by_cases hzero : textOffset kernel = 0
  · rw [if_pos hzero, kernelOffset, dtbOffset]
    omega
  · rw [if_neg hzero]
    omega

theorem Placed.initrd_iff {data : List UInt8} :
    (Disjoint (span p.entry kernel.length)
        (span (ramBase + initramfsOffset memSize) data.length) ∧
      Disjoint (span p.dtbAddr blob.length)
        (span (ramBase + initramfsOffset memSize) data.length)) ↔
      InitramfsClear memSize kernel data blob := by
  have hlen := h.kernel_len
  rw [span, span, span, disjoint_Ico_iff, disjoint_Ico_iff, h.entry_eq,
    h.dtbAddr_eq, InitramfsClear]
  omega

/-- The range of the initramfs, whenever there is one. -/
theorem Placed.forall_initrd_iff {P : Set ℕ → Prop} :
    (∀ r ∈ p.initrd, P (Set.Ico r.1 r.2)) ↔
      ∀ data ∈ initrd, P (span (ramBase + initramfsOffset memSize) data.length) := by
  rw [h.initrd_eq]
  cases initrd with
  | none => simp
  | some data => simp [span]

/-- Images that are apart are not overwritten. -/
theorem Placed.images
    (hkd : Disjoint (span p.entry kernel.length) (span p.dtbAddr blob.length))
    (hinitrd : ∀ data ∈ initrd,
      Disjoint (span p.entry kernel.length)
          (span (ramBase + initramfsOffset memSize) data.length) ∧
        Disjoint (span p.dtbAddr blob.length)
          (span (ramBase + initramfsOffset memSize) data.length)) :
    Images memSize kernel initrd blob p mem where
  kernel_in := subset_of_inRange h.kernel_in
  dtb_in := subset_of_inRange h.dtb_in
  initrd_in := (h.forall_initrd_iff (P := fun r => r ⊆ span ramBase memSize)).2 fun data hd =>
    subset_of_inRange (h.initrd_in data hd)
  kernel_dtb := hkd
  kernel_initrd := h.forall_initrd_iff.2 fun data hd => (hinitrd data hd).1
  dtb_initrd := h.forall_initrd_iff.2 fun data hd => (hinitrd data hd).2
  kernel_read := by
    rw [h.mem_eq, read_write_of_disjoint hkd,
      read_withInitramfs fun data hd => (hinitrd data hd).1, read_write_self h.kernel_in]
  dtb_read := by
    rw [h.mem_eq, read_write_self]
    rw [inRange_withInitramfs, inRange_write]
    exact h.dtb_in
  initrd_read := by
    intro r hr data hd
    have hstart : r.1 = ramBase + initramfsOffset memSize := by
      rw [h.initrd_eq, mem_def.1 hd] at hr
      rw [← mem_some.1 hr]
    rw [hstart, h.mem_eq, read_write_of_disjoint (hinitrd data hd).2.symm, mem_def.1 hd]
    refine read_write_self ?_
    rw [inRange_write]
    exact h.initrd_in data hd

omit h

/-- **When the boot images are apart.**  For every size of RAM, every kernel, initramfs and device
tree of at most a megabyte that are accepted: the images lie in RAM without sharing an address, and
none is overwritten, exactly when they are `Clear`. -/
theorem boot_images_iff (hboot : boot memSize kernel initrd blob = .ok (p, mem))
    (hblob : blob.length ≤ 0x100000) :
    Images memSize kernel initrd blob p mem ↔ Clear memSize kernel initrd blob := by
  have h := boot_ok hboot
  constructor
  · intro himages
    refine ⟨(h.kernel_dtb_iff hblob).1 himages.kernel_dtb, fun data hd => h.initrd_iff.1 ⟨?_, ?_⟩⟩
    · exact h.forall_initrd_iff.1 himages.kernel_initrd data hd
    · exact h.forall_initrd_iff.1 himages.dtb_initrd data hd
  · rintro ⟨hkernel, hinitrd⟩
    exact h.images ((h.kernel_dtb_iff hblob).2 hkernel) fun data hd =>
      h.initrd_iff.2 (hinitrd data hd)

end Boot

/-- The header of an `Image` with this text offset. -/
def imageHeader (text : ℕ) : List UInt8 :=
  record [(8, 0), (8, text), (40, 0), (4, arm64Magic), (4, 0)]

/-- A small kernel that leaves its place open, with an initramfs, in 16 MiB of RAM. -/
theorem boot_images_iff_modern :
    ∃ p mem, boot 0x1000000 (imageHeader 0) (some [1, 2, 3]) [0xd0, 0x0d] = .ok (p, mem) ∧
      Images 0x1000000 (imageHeader 0) (some [1, 2, 3]) [0xd0, 0x0d] p mem :=
  ⟨_, _, rfl, (boot_images_iff rfl (by decide)).2 (by decide)⟩

/-- A kernel of a megabyte with the text offset of older kernels, 512 KiB. -/
def oldKernel : List UInt8 := imageHeader 0x80000 ++ List.replicate 0x100000 0

theorem length_oldKernel : oldKernel.length = 0x100040 := by
  rw [oldKernel, List.length_append, List.length_replicate]
  rfl

theorem field_oldKernel (pre : List (ℕ × ℕ)) (n v : ℕ) (post : List (ℕ × ℕ))
    (h : [(8, 0), (8, 0x80000), (40, 0), (4, arm64Magic), (4, 0)] = pre ++ (n, v) :: post) :
    field oldKernel (width pre) n = v % 256 ^ n := by
  rw [oldKernel, imageHeader, h]
  exact field_record pre n v post _

/-- RAM of 512 MiB, with the kernel in it. -/
def oldKernelRam : GuestRam := (newMemory ramBase 0x20000000).write 0x40080000 oldKernel

theorem loadKernel_oldKernel :
    loadKernel (newMemory ramBase 0x20000000) oldKernel = .ok (oldKernelRam, 0x40080000) := by
  have hmagic : field oldKernel 0x38 4 = arm64Magic :=
    field_oldKernel [(8, 0), (8, 0x80000), (40, 0)] 4 arm64Magic _ rfl
  have hentry : ((newMemory ramBase 0x20000000).base + loadOffset oldKernel) % 2 ^ 64 =
      0x40080000 := by
    rfl
  have hin : (newMemory ramBase 0x20000000).inRange 0x40080000 oldKernel.length = true := by
    rw [length_oldKernel]
    decide
  have hlen : ¬ oldKernel.length < 64 := by
    rw [length_oldKernel]
    decide
  rw [loadKernel, if_neg hlen, if_neg (not_not.2 hmagic)]
  dsimp only
  rw [hentry, write, if_pos hin]
  rfl

/-- The first word of a device tree. -/
def fdtMagic : List UInt8 := [0xd0, 0x0d, 0xfe, 0xed]

/-- **The device tree overwrites an older kernel.**  In 512 MiB of RAM it is accepted at
`0x40080000` and reaches beyond the device tree, whose first byte is then read in its place. -/
theorem old_kernel_overwritten :
    ∃ p mem, boot 0x20000000 oldKernel none fdtMagic = .ok (p, mem) ∧
      p.entry = 0x40080000 ∧ p.dtbAddr = 0x40100000 ∧
      p.dtbAddr < p.entry + oldKernel.length ∧ mem.read p.entry oldKernel.length ≠ oldKernel := by
  have hbase : oldKernelRam.base = 0x40000000 := write_base _ _ _
  have hlen : oldKernelRam.len = 0x20000000 := write_len _ _ _
  have hin : oldKernelRam.inRange 0x40100000 fdtMagic.length = true := by
    rw [inRange_iff, hbase, hlen]
    decide
  have hprepare := prepare_none loadKernel_oldKernel
  rw [hbase, show 0x40000000 + dtbOffset = 0x40100000 by norm_num [dtbOffset]] at hprepare
  have hwrite : write oldKernelRam 0x40100000 fdtMagic =
      .ok (oldKernelRam.write 0x40100000 fdtMagic) := if_pos hin
  have hboot := boot_eq hprepare hwrite
  have hkernel : oldKernel[0x80000]? = some 0 := by
    have hheader : (imageHeader 0x80000).length = 64 := rfl
    rw [oldKernel, List.getElem?_append_right (by rw [hheader]; norm_num), hheader,
      List.getElem?_replicate, if_pos (by norm_num)]
  have hfdt : (oldKernelRam.write 0x40100000 fdtMagic).byteAt (0x40100000 + 0) = 0xd0 :=
    byteAt_write hin (by decide)
  refine ⟨_, _, hboot, rfl, rfl, ?_, fun hread => ?_⟩
  · rw [length_oldKernel]
    norm_num
  · have hrange : (oldKernelRam.write 0x40100000 fdtMagic).inRange 0x40080000 oldKernel.length =
        true := by
      rw [inRange_iff, write_base, write_len, hbase, hlen,
        length_oldKernel]
      decide
    have hbyte := getElem?_read (i := 0x80000) hrange (by rw [length_oldKernel]; decide)
    rw [hread, hkernel, show 0x40080000 + 0x80000 = 0x40100000 + 0 by norm_num, hfdt] at hbyte
    exact absurd hbyte (by decide)

end Loader
end Amber
