import Amber.Lib.Digits
import Mathlib.Data.List.Basic

/-!
# Reading a newc cpio archive

The archive format of Linux initramfs images.  An entry is a header of 110 bytes (a magic number and
13 fields of eight hexadecimal digits), its name with a zero byte behind it, and its data; the
data and the next entry start at the next multiple of four, counted from the start of the archive.
An entry with the name `TRAILER!!!` is the end.

A reader keeps its place in the archive.

* `readFields_hexText` — fields written as eight digits are read back.
* `readEntry_laid` — what is laid out as an entry is read as that entry.
* `readFrom_entry`, `readFrom_trailer` — an archive is read entry by entry, up to the trailer.
-/

namespace Newc

open Digits List

/-! ## Fields -/

def ascii (text : List Char) : List UInt8 := text.map fun c => UInt8.ofNat c.toNat

def ofAscii (bytes : List UInt8) : List Char := bytes.map fun b => Char.ofNat b.toNat

/-- A number of 32 bits in eight hexadecimal digits. -/
def hexText (n : UInt32) : List UInt8 := ascii (fixed 16 8 n.toNat)

/-- The number in a field, if all of it is digits. -/
def hexField (bytes : List UInt8) : Option UInt32 :=
  if ∀ c ∈ ofAscii bytes, IsDigit 16 c then some (UInt32.ofNat (value 16 (ofAscii bytes)))
  else none

@[simp] theorem length_hexText (n : UInt32) : (hexText n).length = 8 := by
  rw [hexText, ascii, length_map, length_fixed]

theorem ofAscii_ascii {text : List Char} (h : ∀ c ∈ text, c.toNat < 256) :
    ofAscii (ascii text) = text := by
  rw [ofAscii, ascii, map_map]
  refine (map_congr_left fun c hc => ?_).trans (map_id text)
  have hbyte : (UInt8.ofNat c.toNat).toNat = c.toNat := UInt8.toNat_ofNat_of_lt' (h c hc)
  rw [Function.comp_apply, hbyte, Char.ofNat_toNat, id]

theorem hexField_hexText (n : UInt32) : hexField (hexText n) = some n := by
  have hchars : ∀ c ∈ fixed 16 8 n.toNat, c.toNat < 256 := by
    intro c hc
    obtain ⟨d, hd, rfl⟩ := mem_fixed (by decide) hc
    have hall : ∀ d < 16, (Nat.digitChar d).toNat < 256 := by decide
    exact hall d hd
  have hlt : n.toNat < 16 ^ 8 := n.toNat_lt
  rw [hexField, hexText, ofAscii_ascii hchars, if_pos (isDigit_fixed (by decide) (by decide) _ _),
    value_fixed (by decide) (by decide), Nat.mod_eq_of_lt hlt, UInt32.ofNat_toNat]

/-- A run of fields. -/
def readFields : ℕ → List UInt8 → Option (List UInt32)
  | 0, _ => some []
  | n + 1, bytes =>
    (hexField (bytes.take 8)).bind fun field =>
      (readFields n (bytes.drop 8)).map fun fields => field :: fields

theorem readFields_hexText {n : ℕ} (fields : List UInt32) (h : fields.length = n) :
    readFields n (fields.flatMap hexText) = some fields := by
  induction fields generalizing n with
  | nil =>
    subst h
    rfl
  | cons field fields ih =>
    subst h
    rw [length_cons, readFields, flatMap_cons, take_left' (length_hexText field),
      drop_left' (length_hexText field), hexField_hexText, ih rfl]
    rfl

/-! ## Entries -/

/-- What an entry says about a file. -/
structure Content where
  name : List UInt8
  mode : UInt32
  data : List UInt8
  rdev : UInt32 × UInt32
  deriving DecidableEq

structure Entry extends Content where
  ino : UInt32
  deriving DecidableEq

/-- The fields of a header that matter. -/
structure Header where
  ino : UInt32
  mode : UInt32
  filesize : UInt32
  rdev : UInt32 × UInt32
  namesize : UInt32

def magic : List UInt8 := ascii "070701".toList

def trailer : List UInt8 := ascii "TRAILER!!!".toList

def readHeader (bytes : List UInt8) : Option Header :=
  if bytes.take 6 = magic then
    match readFields 13 (bytes.drop 6) with
    | some [ino, mode, _, _, _, _, filesize, _, _, rmajor, rminor, namesize, _] =>
      some ⟨ino, mode, filesize, (rmajor, rminor), namesize⟩
    | _ => none
  else none

/-- A name up to its zero byte. -/
def readName (bytes : List UInt8) : Option (List UInt8) :=
  if bytes.getLast? = some 0 then some (bytes.takeWhile fun b => b ≠ 0) else none

theorem readName_append {name : List UInt8} (h : 0 ∉ name) :
    readName (name ++ [0]) = some name := by
  have hall : ∀ b ∈ name, decide (b ≠ 0) = true := fun b hb =>
    decide_eq_true (ne_of_mem_of_not_mem hb h)
  rw [readName, if_pos getLast?_concat, takeWhile_append_of_pos hall]
  simp

/-- `n` bytes from `pos` on, if they are there. -/
def slice (bytes : List UInt8) (pos n : ℕ) : Option (List UInt8) :=
  if pos + n ≤ bytes.length then some ((bytes.drop pos).take n) else none

/-- The next multiple of four. -/
def align4 (n : ℕ) : ℕ := (n + 3) / 4 * 4

/-- The entry at `pos`, and where the next one starts. -/
def readEntry (archive : List UInt8) (pos : ℕ) : Option (Entry × ℕ) :=
  (slice archive pos 110).bind fun head =>
    (readHeader head).bind fun h =>
      ((slice archive (pos + 110) h.namesize.toNat).bind readName).bind fun name =>
        let start := align4 (pos + 110 + h.namesize.toNat)
        (slice archive start h.filesize.toNat).map fun data =>
          (⟨⟨name, h.mode, data, h.rdev⟩, h.ino⟩, align4 (start + h.filesize.toNat))

theorem le_align4 (n : ℕ) : n ≤ align4 n := by
  unfold align4
  omega

theorem slice_append (a b c : List UInt8) : slice (a ++ b ++ c) a.length b.length = some b := by
  rw [slice, if_pos (by simp), append_assoc, drop_left, take_left]

variable {pos next : ℕ} {archive : List UInt8} {e : Entry}

theorem slice_bound {bytes piece : List UInt8} {n : ℕ} (h : slice bytes pos n = some piece) :
    pos + n ≤ bytes.length := by
  rw [slice] at h
  split_ifs at h with hle
  exact hle

theorem readEntry_advances (h : readEntry archive pos = some (e, next)) :
    pos < next ∧ pos < archive.length := by
  obtain ⟨head, hhead, h⟩ := Option.bind_eq_some_iff.1 h
  obtain ⟨header, -, h⟩ := Option.bind_eq_some_iff.1 h
  obtain ⟨name, -, h⟩ := Option.bind_eq_some_iff.1 h
  obtain ⟨data, -, h⟩ := Option.map_eq_some_iff.1 h
  cases h
  have hbound := slice_bound hhead
  have hname := le_align4 (pos + 110 + header.namesize.toNat)
  have hnext := le_align4 (align4 (pos + 110 + header.namesize.toNat) + header.filesize.toNat)
  omega

/-- **What is laid out as an entry is read as that entry.** -/
theorem readEntry_laid {before head nameZ pad data after name : List UInt8} {h : Header}
    (hlength : head.length = 110) (hhead : readHeader head = some h)
    (hsize : h.namesize.toNat = nameZ.length) (hname : readName nameZ = some name)
    (hpad : (before ++ head ++ nameZ ++ pad).length = align4 (before ++ head ++ nameZ).length)
    (hdata : h.filesize.toNat = data.length) :
    readEntry (before ++ head ++ nameZ ++ pad ++ data ++ after) before.length =
      some (⟨⟨name, h.mode, data, h.rdev⟩, h.ino⟩,
        align4 (before ++ head ++ nameZ ++ pad ++ data).length) := by
  have hnamePos : before.length + 110 = (before ++ head).length := by
    rw [length_append, hlength]
  have hheadSlice : slice (before ++ head ++ nameZ ++ pad ++ data ++ after) before.length 110 =
      some head := by
    have := slice_append before head (nameZ ++ pad ++ data ++ after)
    simpa only [append_assoc, hlength] using this
  have hnameSlice : slice (before ++ head ++ nameZ ++ pad ++ data ++ after)
      (before ++ head).length nameZ.length = some nameZ := by
    have := slice_append (before ++ head) nameZ (pad ++ data ++ after)
    simpa only [append_assoc] using this
  have hstart : align4 ((before ++ head).length + nameZ.length) =
      (before ++ head ++ nameZ ++ pad).length := by
    rw [hpad, ← length_append]
  rw [readEntry, hheadSlice, Option.bind_some, hhead, Option.bind_some, hsize, hnamePos, hnameSlice,
    Option.bind_some, hname, Option.bind_some, hdata, hstart]
  dsimp only
  rw [slice_append, Option.map_some, ← length_append]

/-- A name is never without its zero byte. -/
theorem readEntry_of_namesize_zero {before head after : List UInt8} {h : Header}
    (hlength : head.length = 110) (hhead : readHeader head = some h)
    (hsize : h.namesize.toNat = 0) : readEntry (before ++ head ++ after) before.length = none := by
  have hslice := slice_append before head after
  rw [hlength] at hslice
  have hname : (slice (before ++ head ++ after) (before.length + 110) 0).bind readName = none := by
    rw [slice, if_pos (by simp only [length_append]; omega)]
    rfl
  rw [readEntry, hslice, Option.bind_some, hhead, Option.bind_some, hsize, hname, Option.bind_none]

/-! ## Archives -/

/-- The entries from `pos` up to the trailer, and where the trailer ends. -/
def readFrom (archive : List UInt8) (pos : ℕ) : Option (List Entry × ℕ) :=
  match hentry : readEntry archive pos with
  | none => none
  | some (e, next) =>
    if e.name = trailer then some ([], next)
    else
      have := readEntry_advances hentry
      (readFrom archive next).map fun r => (e :: r.1, r.2)
termination_by archive.length - pos
decreasing_by omega

/-- The entries of an archive. -/
def readArchive (archive : List UInt8) : Option (List Entry × ℕ) := readFrom archive 0

theorem readFrom_entry (h : readEntry archive pos = some (e, next)) (hname : e.name ≠ trailer) :
    readFrom archive pos = (readFrom archive next).map fun r => (e :: r.1, r.2) := by
  rw [readFrom]
  split <;> cases h.symm.trans ‹_›
  exact if_neg hname

theorem readFrom_trailer (h : readEntry archive pos = some (e, next)) (hname : e.name = trailer) :
    readFrom archive pos = some ([], next) := by
  rw [readFrom]
  split <;> cases h.symm.trans ‹_›
  exact if_pos hname

theorem readFrom_none (h : readEntry archive pos = none) :
    readFrom archive pos = none := by
  rw [readFrom]
  split <;> cases h.symm.trans ‹_›
  rfl

end Newc
