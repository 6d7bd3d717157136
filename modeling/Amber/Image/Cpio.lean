import Amber.Lib.Newc

/-!
# The initramfs archive

`amber-image/src/cpio.rs`: the archive from which a VM boots is written in memory, one call per
directory, file, symlink and device node, and closed with a trailer before it is compressed.
The numbers of the headers are cut to 32 bits, and every name and every content is padded to a
multiple of four bytes from the start of the archive.

* `pad4_spec` — the padding loop goes up to the next multiple of four.
* `readEntry_record` — a record is read back where it was written.
* `archive_reads_back` — the archive of any calls is read as those calls, with inode numbers of
  their own, up to the trailer at its end, if the names and contents have sizes a header can hold.
* `longest_name_lost` — a name that is one byte longer than that spoils the archive.
-/

namespace Amber.Image

open Newc List

/-! ## Writing -/

def sIfdir : UInt32 := 0o040000
def sIfreg : UInt32 := 0o100000
def sIflnk : UInt32 := 0o120000
def sIfchr : UInt32 := 0o020000

structure Cpio where
  buf : List UInt8
  ino : UInt32

/-- The sizes are cut to 32 bits. -/
def header (ino mode : UInt32) (filesize namesize : ℕ) (rdev : UInt32 × UInt32)
    (nlink : UInt32) : List UInt8 :=
  let fields : List UInt32 :=
    [ino, mode,
      0, -- uid
      0, -- gid
      nlink,
      0, -- mtime
      UInt32.ofNat filesize,
      0, -- devmajor
      0, -- devminor
      rdev.1, rdev.2, UInt32.ofNat namesize,
      0 -- check
      ]
  ascii "070701".toList ++ fields.flatMap hexText

def pad4 (buf : List UInt8) : List UInt8 :=
  if buf.length % 4 = 0 then buf else pad4 (buf ++ [0])
termination_by (4 - buf.length % 4) % 4
decreasing_by
  simp only [List.length_append, List.length_singleton]
  omega

namespace Cpio

def new : Cpio := ⟨[], 0⟩

def record (c : Cpio) (name : List UInt8) (mode : UInt32) (data : List UInt8)
    (rdev : UInt32 × UInt32) : Cpio :=
  let ino := c.ino + 1
  let nameZ := name ++ [0]
  let hdr := header ino mode data.length nameZ.length rdev 1
  ⟨pad4 (pad4 (c.buf ++ hdr ++ nameZ) ++ data), ino⟩

def dir (c : Cpio) (name : List UInt8) (mode : UInt32) : Cpio :=
  c.record name (sIfdir ||| mode) [] (0, 0)

def file (c : Cpio) (name data : List UInt8) (mode : UInt32) : Cpio :=
  c.record name (sIfreg ||| mode) data (0, 0)

def symlink (c : Cpio) (name target : List UInt8) : Cpio :=
  c.record name (sIflnk ||| 0o777) target (0, 0)

def charDev (c : Cpio) (name : List UInt8) (mode major minor : UInt32) : Cpio :=
  c.record name (sIfchr ||| mode) [] (major, minor)

/-- The bytes `finish_gz` compresses. -/
def finish (c : Cpio) : List UInt8 :=
  let name := trailer ++ [0]
  pad4 (c.buf ++ header 0 0 0 name.length (0, 0) 1 ++ name)

end Cpio

/-! ## Calls -/

inductive CpioCall
  | dir (name : List UInt8) (mode : UInt32)
  | file (name data : List UInt8) (mode : UInt32)
  | symlink (name target : List UInt8)
  | charDev (name : List UInt8) (mode major minor : UInt32)
  deriving DecidableEq

namespace CpioCall

def apply (c : Cpio) : CpioCall → Cpio
  | dir name mode => c.dir name mode
  | file name data mode => c.file name data mode
  | symlink name target => c.symlink name target
  | charDev name mode major minor => c.charDev name mode major minor

/-- What the call asks for. -/
def content : CpioCall → Content
  | dir name mode => ⟨name, sIfdir ||| mode, [], (0, 0)⟩
  | file name data mode => ⟨name, sIfreg ||| mode, data, (0, 0)⟩
  | symlink name target => ⟨name, sIflnk ||| 0o777, target, (0, 0)⟩
  | charDev name mode major minor => ⟨name, sIfchr ||| mode, [], (major, minor)⟩

theorem apply_eq (c : Cpio) (call : CpioCall) :
    call.apply c =
      c.record call.content.name call.content.mode call.content.data call.content.rdev := by
  cases call <;> rfl

end CpioCall

/-- The sizes fit a header, and the name is a name. -/
structure Storable (content : Content) : Prop where
  no_nul : 0 ∉ content.name
  not_trailer : content.name ≠ trailer
  name_short : content.name.length + 1 < 2 ^ 32
  data_short : content.data.length < 2 ^ 32

/-! ## Records -/

theorem pad4_spec (buf : List UInt8) :
    ∃ pad, pad4 buf = buf ++ pad ∧ (pad4 buf).length = align4 buf.length := by
  fun_induction pad4 buf with
  | case1 buf h =>
    refine ⟨[], (append_nil _).symm, ?_⟩
    rw [align4]
    omega
  | case2 buf h ih =>
    obtain ⟨pad, hpad, hlength⟩ := ih
    refine ⟨0 :: pad, by rw [hpad, append_assoc, singleton_append], ?_⟩
    rw [hlength, length_append, length_singleton, align4, align4]
    omega

variable (ino : UInt32)

theorem length_header (mode : UInt32) (filesize namesize : ℕ) (rdev : UInt32 × UInt32)
    (nlink : UInt32) : (header ino mode filesize namesize rdev nlink).length = 110 := by
  simp [header, ascii]

theorem readHeader_header (mode : UInt32) (filesize namesize : ℕ) (rdev : UInt32 × UInt32)
    (nlink : UInt32) :
    readHeader (header ino mode filesize namesize rdev nlink) =
      some ⟨ino, mode, UInt32.ofNat filesize, rdev, UInt32.ofNat namesize⟩ := by
  have hsix : (ascii "070701".toList).length = 6 := rfl
  have hmagic : ascii "070701".toList = magic := rfl
  rw [readHeader, header, take_left' hsix, if_pos hmagic, drop_left' hsix, readFields_hexText]
  rfl

theorem align4_align4 (n : ℕ) : align4 (align4 n) = align4 n := by
  unfold align4
  omega

/-- The header of a record. -/
def Cpio.recordHeader (c : Cpio) (content : Content) : List UInt8 :=
  header (c.ino + 1) content.mode content.data.length (content.name ++ [0]).length content.rdev 1

/-- A call's record. -/
def Cpio.add (c : Cpio) (content : Content) : Cpio :=
  c.record content.name content.mode content.data content.rdev

variable (c : Cpio)

/-- What a record adds to the buffer. -/
theorem add_laid (content : Content) :
    let front := c.buf ++ c.recordHeader content ++ (content.name ++ [0])
    ∃ pad pad', (c.add content).buf = front ++ pad ++ content.data ++ pad' ∧
      (front ++ pad).length = align4 front.length ∧
      (c.add content).buf.length = align4 (front ++ pad ++ content.data).length := by
  intro front
  obtain ⟨pad, hpad, hlength⟩ := pad4_spec front
  have hbuf : (c.add content).buf = pad4 (front ++ pad ++ content.data) := by
    rw [← hpad]
    rfl
  obtain ⟨pad', hpad', hlength'⟩ := pad4_spec (front ++ pad ++ content.data)
  exact ⟨pad, pad', hbuf.trans hpad', by rw [← hpad, hlength], by rw [hbuf, hlength']⟩

/-- A record is read back where it was written. -/
theorem readEntry_record {content : Content} (hfits : Storable content) (after : List UInt8) :
    readEntry ((c.add content).buf ++ after) c.buf.length =
      some (⟨content, c.ino + 1⟩, (c.add content).buf.length) := by
  obtain ⟨pad, pad', hbuf, hpad, hlength⟩ := add_laid c content
  have hname : (UInt32.ofNat (content.name ++ [0]).length).toNat = (content.name ++ [0]).length :=
    UInt32.toNat_ofNat_of_lt' (by simpa using hfits.name_short)
  have hdata : (UInt32.ofNat content.data.length).toNat = content.data.length :=
    UInt32.toNat_ofNat_of_lt' hfits.data_short
  rw [hlength, hbuf, append_assoc _ pad' after]
  exact readEntry_laid (length_header _ _ _ _ _ _) (readHeader_header _ _ _ _ _ _) hname
    (readName_append hfits.no_nul) hpad hdata

/-- The header of the trailer. -/
def trailerHeader : List UInt8 := header 0 0 0 (trailer ++ [0]).length (0, 0) 1

/-- What the trailer adds to the buffer. -/
theorem finish_laid :
    ∃ pad, c.finish = c.buf ++ trailerHeader ++ (trailer ++ [0]) ++ pad ∧
      c.finish.length = align4 (c.buf ++ trailerHeader ++ (trailer ++ [0])).length :=
  pad4_spec (c.buf ++ trailerHeader ++ (trailer ++ [0]))

/-- The trailer is read where the last record ended, and ends the archive. -/
theorem readEntry_finish :
    readEntry c.finish c.buf.length = some (⟨⟨trailer, 0, [], (0, 0)⟩, 0⟩, c.finish.length) := by
  obtain ⟨pad, hpad, hlength⟩ := finish_laid c
  have hend : c.finish.length =
      align4 (c.buf ++ trailerHeader ++ (trailer ++ [0]) ++ pad ++ []).length := by
    rw [append_nil, ← hpad, hlength, align4_align4]
  have hsplit : c.finish = c.buf ++ trailerHeader ++ (trailer ++ [0]) ++ pad ++ [] ++ [] := by
    rw [append_nil, append_nil, hpad]
  rw [hend, hsplit]
  exact readEntry_laid (length_header _ _ _ _ _ _) (readHeader_header _ _ _ _ _ _) rfl
    (readName_append (by decide)) (hpad ▸ hlength) rfl

/-! ## Whole archives -/

theorem add_extends (content : Content) : c.buf <+: (c.add content).buf := by
  obtain ⟨pad, pad', hbuf, -, -⟩ := add_laid c content
  rw [hbuf]
  simp

theorem finish_extends : c.buf <+: c.finish := by
  obtain ⟨pad, hpad, -⟩ := finish_laid c
  rw [hpad]
  simp

/-- All the calls, in order. -/
def Cpio.run (c : Cpio) (calls : List CpioCall) : Cpio := calls.foldl CpioCall.apply c

theorem Cpio.run_cons (call : CpioCall) (calls : List CpioCall) :
    c.run (call :: calls) = (c.add call.content).run calls := by
  rw [Cpio.run, foldl_cons, CpioCall.apply_eq]
  rfl

variable (calls : List CpioCall)

theorem run_extends : c.buf <+: (c.run calls).finish := by
  induction calls generalizing c with
  | nil => exact finish_extends c
  | cons call calls ih =>
    rw [Cpio.run_cons]
    exact (add_extends c call.content).trans (ih _)

/-- The entries of the calls, numbered on from `ino`. -/
def numbered : UInt32 → List CpioCall → List Entry
  | _, [] => []
  | ino, call :: calls => ⟨call.content, ino + 1⟩ :: numbered (ino + 1) calls

/-- From where a call starts to write, the archive is read as the calls from there on. -/
theorem readFrom_run {calls : List CpioCall} (hfits : ∀ call ∈ calls, Storable call.content) :
    readFrom (c.run calls).finish c.buf.length =
      some (numbered c.ino calls, (c.run calls).finish.length) := by
  induction calls generalizing c with
  | nil => exact readFrom_trailer (readEntry_finish c) rfl
  | cons call calls ih =>
    have hcall := hfits call mem_cons_self
    rw [Cpio.run_cons]
    obtain ⟨after, hafter⟩ := run_extends (c.add call.content) calls
    have hentry := readEntry_record c hcall after
    rw [hafter] at hentry
    rw [readFrom_entry hentry hcall.not_trailer,
      ih (c.add call.content) fun call h => hfits call (mem_cons_of_mem _ h)]
    rfl

/-! ## Inode numbers -/

theorem numbered_content :
    (numbered ino calls).map Entry.toContent = calls.map CpioCall.content := by
  induction calls generalizing ino with
  | nil => rfl
  | cons call calls ih => rw [numbered, map_cons, map_cons, ih]

/-- The numbers grow as long as they do not wrap. -/
theorem numbered_inos (h : ino.toNat + calls.length < 2 ^ 32) :
    ((numbered ino calls).map Entry.ino).Pairwise (· < ·) ∧
      ∀ e ∈ numbered ino calls, ino < e.ino := by
  induction calls generalizing ino with
  | nil => exact ⟨List.Pairwise.nil, by simp [numbered]⟩
  | cons call calls ih =>
    rw [length_cons] at h
    have hnext : (ino + 1).toNat = ino.toNat + 1 := by
      rw [UInt32.toNat_add, UInt32.toNat_one, Nat.mod_eq_of_lt (by omega)]
    have hlt : ino < ino + 1 := by
      rw [UInt32.lt_iff_toNat_lt, hnext]
      exact Nat.lt_succ_self _
    obtain ⟨hpairs, hmore⟩ := ih (ino + 1) (by omega)
    refine ⟨pairwise_cons.2 ⟨?_, hpairs⟩, ?_⟩
    · intro other hother
      obtain ⟨e, he, rfl⟩ := mem_map.1 hother
      exact hmore e he
    · rintro e (_ | ⟨_, he⟩)
      · exact hlt
      · exact UInt32.lt_trans hlt (hmore e he)

/-- **The archive is read as what was added.** -/
theorem archive_reads_back (calls : List CpioCall) (hcount : calls.length < 2 ^ 32)
    (hfits : ∀ call ∈ calls, Storable call.content) :
    ∃ entries,
      readArchive (Cpio.new.run calls).finish =
        some (entries, (Cpio.new.run calls).finish.length) ∧
      entries.map Entry.toContent = calls.map CpioCall.content ∧
      (entries.map Entry.ino).Nodup := by
  refine ⟨numbered 0 calls, readFrom_run Cpio.new hfits, numbered_content 0 calls, ?_⟩
  refine (numbered_inos 0 calls ?_).1.imp fun h => ?_
  · simpa using hcount
  · exact UInt32.ne_of_lt h

/-- A directory, a file of five bytes in it, a link to it and the console. -/
def bootCalls : List CpioCall :=
  [.dir (ascii "dev".toList) 0o755, .file (ascii "init".toList) (ascii "#!/sh".toList) 0o755,
    .symlink (ascii "sh".toList) (ascii "init".toList),
    .charDev (ascii "dev/console".toList) 0o600 5 1]

theorem archive_reads_back_boot :
    ∃ entries,
      readArchive (Cpio.new.run bootCalls).finish =
        some (entries, (Cpio.new.run bootCalls).finish.length) ∧
      entries.map Entry.toContent = bootCalls.map CpioCall.content ∧
      (entries.map Entry.ino).Nodup := by
  refine archive_reads_back bootCalls (by decide) fun call hcall => ?_
  have hall : ∀ call ∈ bootCalls, 0 ∉ call.content.name ∧ call.content.name ≠ trailer ∧
      call.content.name.length + 1 < 2 ^ 32 ∧ call.content.data.length < 2 ^ 32 := by decide
  obtain ⟨hnul, htrailer, hname, hdata⟩ := hall call hcall
  exact ⟨hnul, htrailer, hname, hdata⟩

/-! ## The longest name -/

/-- With its zero byte, the name's size is written as zero. -/
theorem readArchive_longest {name : List UInt8} (hname : name.length + 1 = 2 ^ 32)
    (mode : UInt32) : readArchive (Cpio.new.run [.file name [] mode]).finish = none := by
  have hrun : Cpio.new.run [.file name [] mode] =
      Cpio.new.add (CpioCall.file name [] mode).content := rfl
  have hsize : (UInt32.ofNat (name ++ [0]).length).toNat = 0 := by
    rw [UInt32.toNat_ofNat', length_append, length_singleton, hname, Nat.mod_self]
  obtain ⟨after, hafter⟩ := finish_extends (Cpio.new.add (CpioCall.file name [] mode).content)
  obtain ⟨pad, pad', hbuf, -, -⟩ := add_laid Cpio.new (CpioCall.file name [] mode).content
  rw [hrun, ← hafter, hbuf]
  simp only [append_assoc]
  rw [← append_assoc Cpio.new.buf]
  exact readFrom_none
    (readEntry_of_namesize_zero (length_header _ _ _ _ _ _) (readHeader_header _ _ _ _ _ _) hsize)

/-- **A name of 2^32 - 1 bytes makes the archive unreadable**, though nothing else is wrong
with it. -/
theorem longest_name_lost :
    ∃ name : List UInt8, 0 ∉ name ∧ name ≠ trailer ∧ name.length < 2 ^ 32 ∧
      readArchive (Cpio.new.run [.file name [] 0o644]).finish = none := by
  have hlength : (replicate (2 ^ 32 - 1) (97 : UInt8)).length = 2 ^ 32 - 1 :=
    length_replicate
  refine ⟨replicate (2 ^ 32 - 1) 97, ?_, ?_, ?_, ?_⟩
  · intro h
    exact absurd (eq_of_mem_replicate h) (by decide)
  · intro h
    have htrailer : trailer.length = 10 := rfl
    rw [← h, hlength] at htrailer
    exact absurd htrailer (by decide)
  · rw [hlength]
    decide
  · exact readArchive_longest (by rw [hlength, Nat.sub_add_cancel (by decide)]) 0o644

end Amber.Image
