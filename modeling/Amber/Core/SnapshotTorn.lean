import Amber.Core.Snapshot

/-!
# Snapshots that fail half way

What `restore` makes of a directory in which a `write` has failed at any file, before creating
it or after any part of it.  In an empty directory nothing can go wrong: the last file `read`
needs is the last one written.  Over an older snapshot there is no such commit point, and the
length of `mem.bin` is not compared with `mem_size`.

* `restore_whole_iff` — a failed write never shows, exactly when the directory was empty.
* `restore_torn` — a snapshot with one byte of RAM, from the two together.
-/

namespace Amber.Snapshot

open TornWrites List Option

variable {codecs : Codecs} {d : Dir} {c : Capture}

/-- One single snapshot in full: what is being written, or what the directory held before, with
a RAM image of the size `meta.json` gives. -/
def Whole (codecs : Codecs) (d : Dir) (c : Capture) (image : Loaded × GuestMemory) : Prop :=
  (∃ c', (c' = c ∨ Holds codecs d c') ∧ image = c'.image) ∧
    image.2.bytes.length = image.1.info.memSize

theorem whole_image {c' : Capture} (h : c' = c ∨ Holds codecs d c') :
    Whole codecs d c c'.image := ⟨⟨c', h, rfl⟩, rfl⟩

/-! ## An empty directory -/

theorem files_getLast (codecs : Codecs) (c : Capture) : ∃ cpu,
    (c.cpu :: c.cpus)[c.cpus.length]? = some cpu ∧
      (c.files codecs).getLast? = some (cpuName c.cpus.length, codecs.cpu.encode cpu) := by
  obtain ⟨cpu, hcpu⟩ : ∃ cpu, (c.cpu :: c.cpus)[c.cpus.length]? = some cpu :=
    ⟨_, getElem?_eq_getElem (by rw [length_cons]; omega)⟩
  refine ⟨cpu, hcpu, ?_⟩
  have hlast : (c.cpuFiles codecs).getLast? =
      some (cpuName c.cpus.length, codecs.cpu.encode cpu) := by
    rw [Capture.cpuFiles, getLast?_map, getLast?_eq_getElem?, length_zipIdx,
      length_cons, Nat.add_sub_cancel, getElem?_zipIdx, hcpu, Nat.zero_add]
    rfl
  rw [Capture.files, getLast?_append, hlast, some_or]

variable {fault : Fault} {k : ℕ}

/-- A file that decodes was written in full. -/
theorem decoded_full {α : Type} (codec : PrefixCodec α) {name : String}
    {a b : α} (hfile : (name, codec.encode a) ∈ c.files codecs) {bytes : List UInt8}
    (hbytes : (write codecs .empty c k fault).1 name = some bytes)
    (hdec : codec.decode bytes = some b) : bytes = codec.encode a ∧ b = a :=
  codec.of_decode (writeFiles_torn (files_nodup codecs c) (fun _ _ => rfl) hfile hbytes) hdec

/-- If the new directory can be read at all, everything is there. -/
theorem holds_of_read {loaded : Loaded}
    (h : read codecs (write codecs .empty c k fault).1 = some loaded) :
    Holds codecs (write codecs .empty c k fault).1 c := by
  obtain ⟨⟨bytes, hbytes, hinfo⟩, hcpus⟩ := of_read h
  have hmeta : ("meta.json", codecs.info.encode c.info) ∈ c.files codecs := by
    simp [Capture.files]
  obtain ⟨-, heq⟩ := decoded_full codecs.info hmeta hbytes hinfo
  obtain ⟨last, hlast, hfiles⟩ := files_getLast codecs c
  -- `meta.json` asks for the file that was written last
  have hneeded : c.cpus.length = 0 ∨ c.cpus.length < loaded.info.vcpus := by
    rw [heq]
    exact .inr (lt_of_lt_of_le (Nat.lt_succ_self _) (le_max_left _ _))
  obtain ⟨bytes', cpu', hbytes', hdec⟩ := hcpus _ hneeded
  have hfile := mem_append_right
    [("dev.json", codecs.dev.encode c.dev), ("mem.bin", c.mem.bytes), ("gic.bin", c.gic),
      ("meta.json", codecs.info.encode c.info)] (mem_cpuFiles codecs hlast)
  obtain ⟨hfull, -⟩ := decoded_full codecs.cpu hfile hbytes' hdec
  rw [hfull] at hbytes'
  exact writeFiles_of_last (files_nodup codecs c) (fun _ _ => rfl) hfiles hbytes'

theorem whole_of_empty {image : Loaded × GuestMemory}
    (h : restore codecs (write codecs .empty c k fault).1 = some image) :
    Whole codecs .empty c image := by
  obtain ⟨loaded, hread, -⟩ := bind_eq_some_iff.1 h
  rw [restore_holds (holds_of_read hread)] at h
  rw [← some.inj h]
  exact whole_image (.inl rfl)

/-! ## Over an older snapshot -/

/-- One byte of `mem.bin` has been written. -/
def oneByte : Fault := ⟨"No space left on device (os error 28)", some 1⟩

theorem write_oneByte (codecs : Codecs) (d : Dir) (c : Capture) :
    (write codecs d c 1 oneByte).1 =
      (d.put "dev.json" (codecs.dev.encode c.dev)).put "mem.bin" (c.mem.bytes.take 1) := rfl

/-- The older registers, GIC and metadata, the new device state, and one byte of RAM. -/
theorem restore_oneByte {old : Capture} (h : Holds codecs d old) :
    restore codecs (write codecs d c 1 oneByte).1 =
      some (⟨old.info, old.cpu, old.cpus, old.gic, c.dev⟩,
        ⟨old.mem.base, c.mem.bytes.take 1⟩) := by
  rw [write_oneByte]
  have hread : read codecs ((d.put "dev.json" (codecs.dev.encode c.dev)).put "mem.bin"
      (c.mem.bytes.take 1)) = some ⟨old.info, old.cpu, old.cpus, old.gic, c.dev⟩ := by
    refine read_eq (fun f hf hdev hmem => ?_) ?_
    · rw [put_of_ne hmem, put_of_ne hdev]
      exact h f hf
    · rw [put_of_ne (by decide), put_self]
  have hcow : fromSnapshotCow old.info.memBase ((d.put "dev.json" (codecs.dev.encode c.dev)).put
      "mem.bin" (c.mem.bytes.take 1)) = some ⟨old.mem.base, c.mem.bytes.take 1⟩ := by
    unfold fromSnapshotCow
    cases hbytes : c.mem.bytes with
    | nil => exact absurd c.kernel_le (by rw [hbytes]; decide)
    | cons b bytes => rfl
  simp [restore, hread, hcow]

theorem not_whole_oneByte (old : Capture) {loaded : Loaded} {base : ℕ}
    (hinfo : loaded.info = old.info) :
    ¬ Whole codecs d c (loaded, ⟨base, c.mem.bytes.take 1⟩) := by
  rintro ⟨-, hlen⟩
  have h1 : (c.mem.bytes.take 1).length ≤ 1 := length_take_le 1 _
  have h64 : 64 ≤ loaded.info.memSize := by
    rw [hinfo]
    exact old.kernel_le
  have hlen' : (c.mem.bytes.take 1).length = loaded.info.memSize := hlen
  omega

/-- **When a failed write never shows.**  Of a directory that was empty or held a complete older
snapshot: whatever write fails and however much of that file is written, what can be restored is
one snapshot in full, exactly when the directory was empty. -/
theorem restore_whole_iff (codecs : Codecs) (c : Capture) (d : Dir)
    (hd : d = .empty ∨ ∃ old, Holds codecs d old) :
    (∀ k fault image, restore codecs (write codecs d c k fault).1 = some image →
      Whole codecs d c image) ↔ d = .empty := by
  constructor
  · intro h
    rcases hd with hempty | ⟨old, hold⟩
    · exact hempty
    · exact absurd (h 1 oneByte _ (restore_oneByte hold)) (not_whole_oneByte old rfl)
  · rintro rfl k fault image himage
    exact whole_of_empty himage

/-- A small machine with `n` zero bytes of RAM above the header, and some GIC state. -/
def small (n : ℕ) (gic : List UInt8) : Capture where
  mem := ⟨0x40000000, List.replicate (64 + n) 0⟩
  cpu := ⟨[], 0, 0, 0, 0, 0, 0, [], [], []⟩
  cpus := []
  gic := gic
  disk := none
  gicKind := some .v2
  dev := .default
  net := false
  vsock := false
  kernel_le := by rw [List.length_replicate]; omega

/-- A first snapshot of a small machine. -/
theorem restore_whole_first : Nonempty Codecs ∧ ∀ codecs k fault image,
    restore codecs (write codecs .empty (small 0 [7]) k fault).1 = some image →
      Whole codecs .empty (small 0 [7]) image :=
  ⟨codecs_nonempty, fun codecs =>
    (restore_whole_iff codecs (small 0 [7]) .empty (.inl rfl)).2 rfl⟩

/-- The directory after a whole write. -/
def written (codecs : Codecs) (c : Capture) : Dir := (write codecs .empty c 5 oneByte).1

/-- **A torn snapshot.**  A second snapshot stops after the first byte of `mem.bin`; the restore
succeeds, with the registers of the first and one byte of RAM. -/
theorem restore_torn : Nonempty Codecs ∧ ∀ codecs,
    ∃ image, restore codecs (write codecs (written codecs (small 0 [7])) (small 64 [8]) 1
      oneByte).1 = some image ∧ image.1.gic = [7] ∧ image.1.info.memSize = 64 ∧
      image.2.bytes = [0] ∧
      ¬ Whole codecs (written codecs (small 0 [7])) (small 64 [8]) image := by
  refine ⟨codecs_nonempty, fun codecs => ?_⟩
  have hold : Holds codecs (written codecs (small 0 [7])) (small 0 [7]) :=
    writeFiles_all (files_nodup codecs _) (le_refl 5)
  exact ⟨_, restore_oneByte hold, rfl, rfl, rfl, not_whole_oneByte (small 0 [7]) rfl⟩

end Amber.Snapshot
