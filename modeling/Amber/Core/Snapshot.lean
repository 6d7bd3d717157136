import Mathlib.Tactic.DeriveCountable
import Amber.Lib.TornWrites

/-!
# The snapshot directory

`amber-core/src/snapshot.rs`: a snapshot is a directory of files, RAM and the GIC blob raw, the
rest JSON.  `write` puts them there one after another, in place; `read` takes each file for
itself, and `from_snapshot_cow` of `amber-core/src/memory.rs` maps `mem.bin` at the length it
finds.  `restore` is the two together, as `Vm::restore_from` begins.

JSON is a parameter (`Codecs`): decoding undoes encoding, and a torn document does not decode.
Errors of a read are those of the operating system and of the JSON library, so `none` here.

* `read_eq` — what `read` makes of a directory that holds a capture, up to its device state.
* `restore_holds` — a complete directory restores to what was captured.
-/

namespace Amber.Snapshot

open TornWrites

/-! ## The captured state -/

/-- Captured vcpu state. -/
structure CpuSnapshot where
  x : List (BitVec 64)
  pc : BitVec 64
  cpsr : BitVec 64
  fpcr : BitVec 64
  fpsr : BitVec 64
  vtimerOffset : BitVec 64
  /-- The host's monotonic clock at capture. -/
  mono : BitVec 64
  sysregs : List (BitVec 16 × BitVec 64)
  fp : List (Vector UInt8 16)
  kvmRegs : List (BitVec 64 × List UInt8)
  deriving DecidableEq, Countable

structure Meta where
  memBase : ℕ
  memSize : ℕ
  disk : Option String
  gicKind : Option String
  net : Bool
  vsock : Bool
  vcpus : ℕ
  deriving DecidableEq, Countable

/-- Host-side state of a virtio transport; each queue is
`[num, ready, desc, avail, used, last_avail]`. -/
structure VirtioDevState where
  status : ℕ
  interruptStatus : ℕ
  queues : List (Vector ℕ 6)
  deriving DecidableEq, Countable

structure DevState where
  pl011 : List (BitVec 32)
  virtio : List VirtioDevState
  deriving DecidableEq, Countable

/-- `DevState::default()`. -/
def DevState.default : DevState := ⟨[], []⟩

inductive GicKind
  | v2
  | v3
  deriving DecidableEq

def GicKind.asStr : GicKind → String
  | .v2 => "v2"
  | .v3 => "v3"

/-- Guest RAM: the guest-physical base and the bytes. -/
structure GuestMemory where
  base : ℕ
  bytes : List UInt8
  deriving DecidableEq

/-- Everything `write` is given.  A VM that takes a snapshot has loaded a kernel, whose header
alone is 64 bytes. -/
structure Capture where
  mem : GuestMemory
  cpu : CpuSnapshot
  cpus : List CpuSnapshot
  gic : List UInt8
  disk : Option String
  gicKind : Option GicKind
  dev : DevState
  net : Bool
  vsock : Bool
  kernel_le : 64 ≤ mem.bytes.length

/-- Everything a snapshot directory holds except the bulk RAM. -/
structure Loaded where
  info : Meta
  cpu : CpuSnapshot
  cpus : List CpuSnapshot
  gic : List UInt8
  dev : DevState
  deriving DecidableEq

/-- `serde_json` on the three kinds of documents. -/
structure Codecs where
  info : PrefixCodec Meta
  cpu : PrefixCodec CpuSnapshot
  dev : PrefixCodec DevState

theorem codecs_nonempty : Nonempty Codecs := by
  obtain ⟨info⟩ : Nonempty (PrefixCodec Meta) := PrefixCodec.nonempty
  obtain ⟨cpu⟩ : Nonempty (PrefixCodec CpuSnapshot) := PrefixCodec.nonempty
  obtain ⟨dev⟩ : Nonempty (PrefixCodec DevState) := PrefixCodec.nonempty
  exact ⟨⟨info, cpu, dev⟩⟩

/-! ## Writing -/

open List

/-- The file of a secondary vcpu. -/
def cpuFile (i : ℕ) : String := s!"cpu{i}.json"

def cpuName (i : ℕ) : String := if i = 0 then "cpu.json" else cpuFile i

namespace Capture

/-- The contents of `meta.json`. -/
def info (c : Capture) : Meta where
  memBase := c.mem.base
  memSize := c.mem.bytes.length
  disk := c.disk
  gicKind := c.gicKind.map GicKind.asStr
  net := c.net
  vsock := c.vsock
  vcpus := max (c.cpu :: c.cpus).length 1

def cpuFiles (codecs : Codecs) (c : Capture) : List (String × List UInt8) :=
  (c.cpu :: c.cpus).zipIdx.map fun p => (cpuName p.2, codecs.cpu.encode p.1)

/-- The files in the order they are written. -/
def files (codecs : Codecs) (c : Capture) : List (String × List UInt8) :=
  [("dev.json", codecs.dev.encode c.dev), ("mem.bin", c.mem.bytes), ("gic.bin", c.gic),
    ("meta.json", codecs.info.encode c.info)] ++ c.cpuFiles codecs

end Capture

/-- `snapshot::write`, with the file whose write fails and how.  A directory that cannot be
created is a first file that cannot. -/
def write (codecs : Codecs) (d : Dir) (c : Capture) (k : ℕ) (fault : Fault) :
    Dir × Except String Unit :=
  writeFiles d (c.files codecs) k fault

/-! ## Reading -/

/-- `dev.json` may be missing, but not corrupt. -/
def readDev (codecs : Codecs) (d : Dir) : Option DevState :=
  match d "dev.json" with
  | some bytes => codecs.dev.decode bytes
  | none => some .default

def readCpu (codecs : Codecs) (d : Dir) (name : String) : Option CpuSnapshot :=
  (d name).bind codecs.cpu.decode

/-- `snapshot::read`. -/
def read (codecs : Codecs) (d : Dir) : Option Loaded := do
  let info ← (d "meta.json").bind codecs.info.decode
  let cpu ← readCpu codecs d "cpu.json"
  let cpus ← (List.range' 1 (info.vcpus - 1)).mapM fun i => readCpu codecs d (cpuFile i)
  let gic ← d "gic.bin"
  let dev ← readDev codecs d
  some ⟨info, cpu, cpus, gic, dev⟩

/-- `GuestMemory::from_snapshot_cow`: the file is mapped at its length, and an empty mapping is
refused. -/
def fromSnapshotCow (base : ℕ) (d : Dir) : Option GuestMemory :=
  match d "mem.bin" with
  | none => none
  | some [] => none
  | some (b :: bytes) => some ⟨base, b :: bytes⟩

/-- What `Vm::restore_from` takes from the directory. -/
def restore (codecs : Codecs) (d : Dir) : Option (Loaded × GuestMemory) := do
  let loaded ← read codecs d
  let mem ← fromSnapshotCow loaded.info.memBase d
  some (loaded, mem)

/-- What is to be restored. -/
def Capture.image (c : Capture) : Loaded × GuestMemory :=
  (⟨c.info, c.cpu, c.cpus, c.gic, c.dev⟩, c.mem)

/-- The directory has every file of the capture, in full. -/
def Holds (codecs : Codecs) (d : Dir) (c : Capture) : Prop :=
  ∀ f ∈ c.files codecs, d f.1 = some f.2

/-! ## The names -/

variable (i : ℕ)

theorem cpuFile_toList :
    (cpuFile i).toList = "cpu".toList ++ (i.repr.toList ++ ".json".toList) := by
  rw [cpuFile, ← String.toList_append, ← String.toList_append]
  congr 1

theorem cpuFile_injective : Function.Injective cpuFile := by
  intro i j h
  have hl := congrArg String.toList h
  rw [cpuFile_toList, cpuFile_toList] at hl
  have hdigits := append_cancel_right (append_cancel_left hl)
  rw [Nat.repr_eq_ofList_toDigits, Nat.repr_eq_ofList_toDigits, String.toList_ofList,
    String.toList_ofList] at hdigits
  have hnum := congrArg (fun ds => Nat.ofDigitChars 10 ds 0) hdigits
  simpa only [Nat.ofDigitChars_toDigits (show 1 < 10 by decide) (show 10 ≤ 10 by decide)] using hnum

theorem cpuFile_ne : cpuFile i ≠ "cpu.json" := by
  intro h
  have hlen := congrArg (fun s => s.toList.length) h
  simp only [cpuFile_toList, length_append, String.length_toList] at hlen
  have hpos : i.repr.length ≠ 0 := fun h0 => Nat.repr_ne_empty (String.length_eq_zero_iff.1 h0)
  have : "cpu".length = 3 := rfl
  have : ".json".length = 5 := rfl
  have : "cpu.json".length = 8 := rfl
  omega

theorem cpuName_injective : Function.Injective cpuName := by
  intro i j h
  unfold cpuName at h
  split_ifs at h with hi hj hj
  · rw [hi, hj]
  · exact absurd h.symm (cpuFile_ne j)
  · exact absurd h (cpuFile_ne i)
  · exact cpuFile_injective h

/-- The files of the vcpus begin differently from the others. -/
theorem cpuName_head : (cpuName i).toList.head? = some 'c' := by
  unfold cpuName
  split_ifs
  · rfl
  · rw [cpuFile_toList]
    rfl

variable {codecs : Codecs} {d : Dir} {c : Capture}

theorem cpuFiles_names (codecs : Codecs) (c : Capture) :
    (c.cpuFiles codecs).map Prod.fst = (List.range (c.cpus.length + 1)).map cpuName := by
  rw [Capture.cpuFiles, map_map, range_eq_range', ← length_cons (a := c.cpu),
    ← zipIdx_map_snd, map_map]
  rfl

/-- The files that are always there. -/
def fixedNames : List String := ["dev.json", "mem.bin", "gic.bin", "meta.json"]

theorem files_names (codecs : Codecs) (c : Capture) : (c.files codecs).map Prod.fst =
    fixedNames ++ (List.range (c.cpus.length + 1)).map cpuName := by
  rw [Capture.files, map_append, cpuFiles_names]
  rfl

theorem cpuName_notMem_fixedNames : cpuName i ∉ fixedNames := by
  have hfixed : ∀ name ∈ fixedNames, name.toList.head? ≠ some 'c' := by decide
  exact fun h => hfixed _ h (cpuName_head i)

theorem files_nodup (codecs : Codecs) (c : Capture) :
    ((c.files codecs).map Prod.fst).Nodup := by
  rw [files_names, nodup_append]
  refine ⟨by decide, nodup_range.map cpuName_injective, ?_⟩
  rintro name hname name' hname' rfl
  obtain ⟨i, _, rfl⟩ := mem_map.1 hname'
  exact cpuName_notMem_fixedNames i hname

theorem mem_cpuFiles (codecs : Codecs) {i : ℕ} {cpu : CpuSnapshot}
    (h : (c.cpu :: c.cpus)[i]? = some cpu) :
    (cpuName i, codecs.cpu.encode cpu) ∈ c.cpuFiles codecs :=
  mem_map.2 ⟨(cpu, i), mem_zipIdx_iff_getElem?.2 h, rfl⟩

/-! ## What a read makes of a directory -/

theorem mapM_eq_some_of_forall₂ {α β : Type} {f : α → Option β} {l : List α} {l' : List β}
    (h : List.Forall₂ (fun a b => f a = some b) l l') : l.mapM f = some l' := by
  induction h with
  | nil => rfl
  | cons hab _ ih =>
    rw [mapM_cons, hab, ih]
    rfl

theorem exists_of_mapM {α β : Type} {f : α → Option β} {l : List α} {l' : List β}
    (h : l.mapM f = some l') {a : α} (ha : a ∈ l) : ∃ b, f a = some b := by
  induction l generalizing l' with
  | nil => cases ha
  | cons a' l ih =>
    rw [mapM_cons, Option.bind_eq_bind, Option.bind_eq_some_iff] at h
    obtain ⟨b, hb, h⟩ := h
    rw [Option.bind_eq_bind, Option.bind_eq_some_iff] at h
    obtain ⟨bs, hbs, _⟩ := h
    rcases mem_cons.1 ha with rfl | ha
    · exact ⟨b, hb⟩
    · exact ih hbs ha

theorem readCpu_of_file {name : String} {cpu : CpuSnapshot}
    (h : d name = some (codecs.cpu.encode cpu)) : readCpu codecs d name = some cpu := by
  rw [readCpu, h, Option.bind_some, codecs.cpu.decode_encode]

/-- The registers of the secondaries, file by file. -/
theorem readCpus_of_files
    (h : ∀ i cpu, (c.cpu :: c.cpus)[i]? = some cpu →
      d (cpuName i) = some (codecs.cpu.encode cpu)) :
    ((List.range' 1 (c.info.vcpus - 1)).mapM fun i => readCpu codecs d (cpuFile i)) =
      some c.cpus := by
  refine mapM_eq_some_of_forall₂ (forall₂_iff_get.2 ⟨?_, ?_⟩)
  · rw [length_range']
    show max (c.cpus.length + 1) 1 - 1 = c.cpus.length
    omega
  · intro k hk hk'
    rw [get_eq_getElem, get_eq_getElem, getElem_range']
    have hcpu : (c.cpu :: c.cpus)[1 + 1 * k]? = some c.cpus[k] := by
      rw [Nat.one_mul, Nat.add_comm, getElem?_cons_succ]
      exact getElem?_eq_getElem hk'
    have hname : cpuName (1 + 1 * k) = cpuFile (1 + 1 * k) := if_neg (by omega)
    exact readCpu_of_file (hname ▸ h _ _ hcpu)

/-- A directory that holds a capture, but for RAM and with some other device state. -/
theorem read_eq (h : ∀ f ∈ c.files codecs, f.1 ≠ "dev.json" → f.1 ≠ "mem.bin" → d f.1 = some f.2)
    {dev : DevState} (hdev : d "dev.json" = some (codecs.dev.encode dev)) :
    read codecs d = some ⟨c.info, c.cpu, c.cpus, c.gic, dev⟩ := by
  have hinfo : d "meta.json" = some (codecs.info.encode c.info) :=
    h ("meta.json", _) (by simp [Capture.files]) (of_decide_eq_true rfl) (of_decide_eq_true rfl)
  have hgic : d "gic.bin" = some c.gic :=
    h ("gic.bin", _) (by simp [Capture.files]) (of_decide_eq_true rfl) (of_decide_eq_true rfl)
  have hcpus : ∀ i cpu, (c.cpu :: c.cpus)[i]? = some cpu →
      d (cpuName i) = some (codecs.cpu.encode cpu) := by
    intro i cpu hcpu
    have hne : ∀ name ∈ fixedNames, cpuName i ≠ name := fun name hname heq =>
      cpuName_notMem_fixedNames i (heq ▸ hname)
    exact h _ (mem_append_right _ (mem_cpuFiles codecs hcpu)) (hne _ (by decide))
      (hne _ (by decide))
  have hcpu : readCpu codecs d "cpu.json" = some c.cpu := readCpu_of_file (hcpus 0 c.cpu rfl)
  have hdev' : readDev codecs d = some dev := by
    rw [readDev, hdev]
    exact codecs.dev.decode_encode dev
  simp [read, hinfo, codecs.info.decode_encode, hcpu, readCpus_of_files hcpus, hgic, hdev']

/-- **A complete directory restores to what was captured.** -/
theorem restore_holds (h : Holds codecs d c) : restore codecs d = some c.image := by
  have hdev : d "dev.json" = some (codecs.dev.encode c.dev) :=
    h ("dev.json", _) (by simp [Capture.files])
  have hread := read_eq (fun f hf _ _ => h f hf) hdev
  have hmem : d "mem.bin" = some c.mem.bytes := h ("mem.bin", _) (by simp [Capture.files])
  have hcow : fromSnapshotCow c.info.memBase d = some c.mem := by
    unfold fromSnapshotCow
    rw [hmem]
    cases hbytes : c.mem.bytes with
    | nil => exact absurd c.kernel_le (by rw [hbytes]; decide)
    | cons b bytes =>
      show some (GuestMemory.mk c.mem.base (b :: bytes)) = some c.mem
      rw [← hbytes]
  simp only [restore, hread, hcow, Option.bind_eq_bind, Option.bind_some]
  rfl

/-- What a read that succeeds has found. -/
theorem of_read {loaded : Loaded} (h : read codecs d = some loaded) :
    (∃ bytes, d "meta.json" = some bytes ∧ codecs.info.decode bytes = some loaded.info) ∧
    ∀ i, i = 0 ∨ i < loaded.info.vcpus →
      ∃ bytes cpu, d (cpuName i) = some bytes ∧ codecs.cpu.decode bytes = some cpu := by
  simp only [read, Option.bind_eq_bind, Option.bind_eq_some_iff, Option.some.injEq] at h
  obtain ⟨info, ⟨bytes, hbytes, hinfo⟩, cpu, hcpu, cpus, hcpus, gic, _, dev, _, rfl⟩ := h
  refine ⟨⟨bytes, hbytes, hinfo⟩, fun i hi => ?_⟩
  obtain ⟨cpu', hcpu'⟩ : ∃ cpu', readCpu codecs d (cpuName i) = some cpu' := by
    by_cases h0 : i = 0
    · rw [h0]
      exact ⟨cpu, hcpu⟩
    · have hname : cpuName i = cpuFile i := if_neg h0
      rw [hname]
      refine exists_of_mapM hcpus (mem_range'_1.2 ?_)
      dsimp only at hi
      omega
  obtain ⟨bytes', hbytes', hdec⟩ := Option.bind_eq_some_iff.1 hcpu'
  exact ⟨bytes', cpu', hbytes', hdec⟩

end Amber.Snapshot
