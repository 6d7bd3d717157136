import Amber.Lib.ByteMem
import Amber.Lib.LittleEndian

/-!
# Guest RAM as the devices see it

`GuestRam` is the window into guest memory that `amber-core/src/memory.rs` hands to the
devices.  Every access is bounds-checked: a read outside RAM leaves the zeroed buffer of
the caller alone, and a write outside RAM does nothing.

`ChangesOnly P r r'` is the frame relation the device proofs use: going from `r` to `r'`
nothing outside the addresses in `P` has changed.
-/

namespace Amber

open ByteMem LittleEndian Option

/-- A window into guest RAM: the guest-physical base, the length, and the bytes. -/
structure GuestRam where
  base : ℕ
  len : ℕ
  host : ℕ → UInt8

namespace GuestRam

/-- The host offset of `[gpa, gpa + n)`, if the range lies in RAM. -/
def offset (r : GuestRam) (gpa n : ℕ) : Option ℕ :=
  if r.base ≤ gpa ∧ gpa - r.base + n ≤ r.len then some (gpa - r.base) else none

def inRange (r : GuestRam) (gpa n : ℕ) : Bool := (r.offset gpa n).isSome

/-- Read into a zeroed buffer of `n` bytes. -/
def read (r : GuestRam) (gpa n : ℕ) : List UInt8 :=
  match r.offset gpa n with
  | some off => load r.host off n
  | none => List.replicate n 0

def write (r : GuestRam) (gpa : ℕ) (bs : List UInt8) : GuestRam :=
  match r.offset gpa bs.length with
  | some off => { r with host := store r.host off bs }
  | none => r

/-- How many bytes a write stores: all of them, or none. -/
def stores (r : GuestRam) (gpa : ℕ) (bs : List UInt8) : ℕ :=
  if r.inRange gpa bs.length then bs.length else 0

def readU16 (r : GuestRam) (gpa : ℕ) : ℕ := fromLe (r.read gpa 2)

def readU32 (r : GuestRam) (gpa : ℕ) : ℕ := fromLe (r.read gpa 4)

def readU64 (r : GuestRam) (gpa : ℕ) : ℕ := fromLe (r.read gpa 8)

def writeU16 (r : GuestRam) (gpa v : ℕ) : GuestRam := r.write gpa (toLe 2 v)

def writeU32 (r : GuestRam) (gpa v : ℕ) : GuestRam := r.write gpa (toLe 4 v)

/-- The byte at a guest-physical address. -/
def byteAt (r : GuestRam) (gpa : ℕ) : UInt8 := r.host (gpa - r.base)

variable {r r' r'' : GuestRam} {gpa n : ℕ} {bs : List UInt8}

@[simp] theorem length_read (r : GuestRam) (gpa n : ℕ) : (r.read gpa n).length = n := by
  unfold read
  split <;> simp

theorem offset_eq_some_iff {off : ℕ} :
    r.offset gpa n = some off ↔ r.base ≤ gpa ∧ gpa + n ≤ r.base + r.len ∧ off = gpa - r.base := by
  unfold offset
  split
  · rename_i h
    simp only [some.injEq]
    constructor
    · rintro rfl
      exact ⟨h.1, by omega, rfl⟩
    · rintro ⟨-, -, rfl⟩
      rfl
  · rename_i h
    simp only [reduceCtorEq, false_iff]
    rintro ⟨h1, h2, -⟩
    exact h ⟨h1, by omega⟩

theorem inRange_iff : r.inRange gpa n = true ↔ r.base ≤ gpa ∧ gpa + n ≤ r.base + r.len := by
  rw [inRange, isSome_iff_exists]
  constructor
  · rintro ⟨off, h⟩
    obtain ⟨h1, h2, -⟩ := offset_eq_some_iff.1 h
    exact ⟨h1, h2⟩
  · rintro ⟨h1, h2⟩
    exact ⟨_, offset_eq_some_iff.2 ⟨h1, h2, rfl⟩⟩

theorem readU16_lt (r : GuestRam) (gpa : ℕ) : r.readU16 gpa < 65536 :=
  fromLe_lt_of_length (n := 2) (r.length_read gpa 2)

@[simp] theorem write_base (r : GuestRam) (gpa : ℕ) (bs : List UInt8) :
    (r.write gpa bs).base = r.base := by
  unfold write
  split <;> rfl

@[simp] theorem write_len (r : GuestRam) (gpa : ℕ) (bs : List UInt8) :
    (r.write gpa bs).len = r.len := by
  unfold write
  split <;> rfl

/-! ## The frame relation -/

/-- From `r` to `r'` only bytes at addresses in `P` may have changed. -/
structure ChangesOnly (P : ℕ → Prop) (r r' : GuestRam) : Prop where
  base_eq : r'.base = r.base
  len_eq : r'.len = r.len
  same : ∀ g, r.base ≤ g → ¬ P g → r'.byteAt g = r.byteAt g

namespace ChangesOnly

variable {P Q : ℕ → Prop}

theorem refl (P : ℕ → Prop) (r : GuestRam) : ChangesOnly P r r := ⟨rfl, rfl, fun _ _ _ => rfl⟩

variable (h : ChangesOnly P r r')

include h

theorem trans (h' : ChangesOnly P r' r'') : ChangesOnly P r r'' := by
  refine ⟨h'.base_eq.trans h.base_eq, h'.len_eq.trans h.len_eq, ?_⟩
  intro g hg hP
  rw [h'.same g (h.base_eq ▸ hg) hP, h.same g hg hP]

theorem mono (hPQ : ∀ g, P g → Q g) : ChangesOnly Q r r' :=
  ⟨h.base_eq, h.len_eq, fun g hg hQ => h.same g hg fun hP => hQ (hPQ g hP)⟩

theorem offset_eq (gpa n : ℕ) : r'.offset gpa n = r.offset gpa n := by
  rw [offset, offset, h.base_eq, h.len_eq]

theorem inRange_eq (gpa n : ℕ) :
    r'.inRange gpa n = r.inRange gpa n := by
  rw [inRange, inRange, h.offset_eq]

/-- A read that meets none of the changed addresses is unchanged. -/
theorem read_eq (hdis : ∀ g, gpa ≤ g → g < gpa + n → ¬ P g) :
    r'.read gpa n = r.read gpa n := by
  unfold read
  rw [h.offset_eq]
  cases hoff : r.offset gpa n with
  | none => rfl
  | some off =>
    obtain ⟨hb, -, rfl⟩ := offset_eq_some_iff.1 hoff
    refine load_congr ?_
    intro i hi hin
    have hs := h.same (i + r.base) (by omega) (hdis _ (by omega) (by omega))
    simpa [byteAt, h.base_eq] using hs

theorem readU16_eq (hdis : ∀ g, gpa ≤ g → g < gpa + 2 → ¬ P g) :
    r'.readU16 gpa = r.readU16 gpa := by
  rw [readU16, h.read_eq hdis, readU16]

theorem readU32_eq (hdis : ∀ g, gpa ≤ g → g < gpa + 4 → ¬ P g) :
    r'.readU32 gpa = r.readU32 gpa := by
  rw [readU32, h.read_eq hdis, readU32]

theorem readU64_eq (hdis : ∀ g, gpa ≤ g → g < gpa + 8 → ¬ P g) :
    r'.readU64 gpa = r.readU64 gpa := by
  rw [readU64, h.read_eq hdis, readU64]

end ChangesOnly

/-- A write changes its own interval only. -/
theorem changesOnly_write (r : GuestRam) (gpa : ℕ) (bs : List UInt8) :
    ChangesOnly (fun g => gpa ≤ g ∧ g < gpa + bs.length) r (r.write gpa bs) := by
  refine ⟨write_base r gpa bs, write_len r gpa bs, ?_⟩
  intro g hg hout
  unfold byteAt
  rw [write_base, write]
  cases hoff : r.offset gpa bs.length with
  | none => rfl
  | some off =>
    obtain ⟨hb, -, rfl⟩ := offset_eq_some_iff.1 hoff
    exact store_outside (by omega)

theorem stores_of_inRange (h : bs.length ≠ 0 → r.inRange gpa bs.length = true) :
    r.stores gpa bs = bs.length := by
  unfold stores
  by_cases hlen : bs.length = 0
  · rw [hlen, ite_self]
  · rw [if_pos (h hlen)]

/-- A write that does not lie in RAM does nothing. -/
theorem write_of_not_inRange (h : r.inRange gpa bs.length = false) : r.write gpa bs = r := by
  have hoff : r.offset gpa bs.length = none := by rwa [inRange, isSome_eq_false_iff,
    isNone_iff_eq_none] at h
  rw [write, hoff]

theorem byteAt_write {i : ℕ} (h : r.inRange gpa bs.length = true) (hi : i < bs.length) :
    (r.write gpa bs).byteAt (gpa + i) = bs[i] := by
  obtain ⟨off, hoff⟩ := isSome_iff_exists.1 h
  obtain ⟨hb, -, rfl⟩ := offset_eq_some_iff.1 hoff
  have hpos : gpa + i - r.base = gpa - r.base + i := by omega
  simp only [byteAt, write, hoff, hpos]
  exact store_inside hi

theorem getElem?_read {i : ℕ} (h : r.inRange gpa n = true) (hi : i < n) :
    (r.read gpa n)[i]? = some (r.byteAt (gpa + i)) := by
  obtain ⟨off, hoff⟩ := isSome_iff_exists.1 h
  obtain ⟨hb, -, rfl⟩ := offset_eq_some_iff.1 hoff
  have hpos : gpa + i - r.base = gpa - r.base + i := by omega
  simp [read, hoff, load, byteAt, hpos, List.getElem?_map, List.getElem?_range hi]

/-- A read of what was just written inside RAM. -/
theorem read_write_self (h : r.inRange gpa bs.length = true) :
    (r.write gpa bs).read gpa bs.length = bs := by
  obtain ⟨off, hoff⟩ := isSome_iff_exists.1 h
  have hsame := (changesOnly_write r gpa bs).offset_eq gpa bs.length
  unfold read
  rw [hsame, hoff]
  simp only [write, hoff]
  exact load_store_self r.host off bs

theorem readU16_writeU16 {v : ℕ} (h : r.inRange gpa 2 = true) (hv : v < 65536) :
    (r.writeU16 gpa v).readU16 gpa = v := by
  have hrw : (r.write gpa (toLe 2 v)).read gpa (toLe 2 v).length = toLe 2 v :=
    read_write_self (by simpa using h)
  rw [length_toLe] at hrw
  rw [readU16, writeU16, hrw, fromLe_toLe_of_lt hv]

theorem readU32_writeU32 {v : ℕ} (h : r.inRange gpa 4 = true) (hv : v < 2 ^ 32) :
    (r.writeU32 gpa v).readU32 gpa = v := by
  have hrw : (r.write gpa (toLe 4 v)).read gpa (toLe 4 v).length = toLe 4 v :=
    read_write_self (by simpa using h)
  rw [length_toLe] at hrw
  rw [readU32, writeU32, hrw, fromLe_toLe_of_lt hv]

theorem changesOnly_writeU16 (r : GuestRam) (gpa v : ℕ) :
    ChangesOnly (fun g => gpa ≤ g ∧ g < gpa + 2) r (r.writeU16 gpa v) := by
  have h := changesOnly_write r gpa (toLe 2 v)
  rwa [length_toLe] at h

theorem changesOnly_writeU32 (r : GuestRam) (gpa v : ℕ) :
    ChangesOnly (fun g => gpa ≤ g ∧ g < gpa + 4) r (r.writeU32 gpa v) := by
  have h := changesOnly_write r gpa (toLe 4 v)
  rwa [length_toLe] at h

end GuestRam
end Amber
