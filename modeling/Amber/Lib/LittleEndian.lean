import Mathlib.Data.List.Basic
import Mathlib.Tactic.Linarith

/-!
# Fixed-width little-endian numbers

Byte strings are lists of `UInt8`.  `toLe n v` writes the low `n` bytes of `v`,
least significant first, and `fromLe` reads a byte string back as a number.

* `fromLe_toLe` — reading back what was written gives the value modulo `256 ^ n`.
* `fromLe_lt` — a string of `n` bytes denotes a number below `256 ^ n`.
* `field_record` — in a record of numbers of given widths, each is found at the sum of the
  widths before it.
-/

namespace LittleEndian

open List

/-- The `n` low bytes of `v`, least significant first. -/
def toLe : ℕ → ℕ → List UInt8
  | 0, _ => []
  | n + 1, v => UInt8.ofNat v :: toLe n (v / 256)

/-- The number a byte string denotes, least significant byte first. -/
def fromLe : List UInt8 → ℕ
  | [] => 0
  | b :: bs => b.toNat + 256 * fromLe bs

@[simp] theorem length_toLe (n v : ℕ) : (toLe n v).length = n := by
  induction n generalizing v with
  | zero => rfl
  | succ n ih => rw [toLe, length_cons, ih]

@[simp] theorem fromLe_nil : fromLe [] = 0 := rfl

theorem fromLe_cons (b : UInt8) (bs : List UInt8) :
    fromLe (b :: bs) = b.toNat + 256 * fromLe bs := rfl

/-- Reading back the bytes of `v` gives `v` cut to the width. -/
theorem fromLe_toLe (n v : ℕ) : fromLe (toLe n v) = v % 256 ^ n := by
  induction n generalizing v with
  | zero => simp [toLe, Nat.mod_one]
  | succ n ih =>
    rw [toLe, fromLe_cons, ih, pow_succ, mul_comm _ 256, Nat.mod_mul]
    simp

/-- The first bytes of a number are those of a narrower one. -/
theorem take_toLe {m n : ℕ} (h : m ≤ n) (v : ℕ) : (toLe n v).take m = toLe m v := by
  induction m generalizing n v with
  | zero => rfl
  | succ m ih =>
    obtain ⟨k, rfl⟩ := Nat.exists_eq_add_of_le' h
    exact congrArg (UInt8.ofNat v :: ·) (ih (Nat.le_add_left m k) (v / 256))

theorem fromLe_toLe_of_lt {n v : ℕ} (h : v < 256 ^ n) : fromLe (toLe n v) = v := by
  rw [fromLe_toLe, Nat.mod_eq_of_lt h]

theorem toLe_inj {n v w : ℕ} (hv : v < 256 ^ n) (hw : w < 256 ^ n) (h : toLe n v = toLe n w) :
    v = w := by
  rw [← fromLe_toLe_of_lt hv, h, fromLe_toLe_of_lt hw]

/-- A byte string denotes a number below the power its length allows. -/
theorem fromLe_lt (bs : List UInt8) : fromLe bs < 256 ^ bs.length := by
  induction bs with
  | nil => simp
  | cons b bs ih =>
    have hb := b.toNat_lt
    rw [fromLe_cons, length_cons, pow_succ]
    omega

theorem fromLe_lt_of_length {bs : List UInt8} {n : ℕ} (h : bs.length = n) :
    fromLe bs < 256 ^ n := h ▸ fromLe_lt bs

/-! ## Records -/

/-- Numbers of given widths, one after the other; each entry is a width and a value. -/
def record (fs : List (ℕ × ℕ)) : List UInt8 := fs.flatMap fun f => toLe f.1 f.2

/-- The number of bytes of a record. -/
def width (fs : List (ℕ × ℕ)) : ℕ := (fs.map Prod.fst).sum

/-- The `n`-byte number at byte `a` of a string. -/
def field (bs : List UInt8) (a n : ℕ) : ℕ := fromLe ((bs.drop a).take n)

@[simp] theorem length_record (fs : List (ℕ × ℕ)) : (record fs).length = width fs := by
  induction fs with
  | nil => rfl
  | cons f fs ih =>
    rw [record, flatMap_cons, length_append, length_toLe, ← record, ih, width, width,
      map_cons, sum_cons]

theorem field_lt (bs : List UInt8) (a n : ℕ) : field bs a n < 256 ^ n :=
  (fromLe_lt _).trans_le (Nat.pow_le_pow_right (by decide) (length_take_le n _))

/-- A number of a record, read back from its place. -/
theorem field_record (pre : List (ℕ × ℕ)) (n v : ℕ) (post : List (ℕ × ℕ)) (rest : List UInt8) :
    field (record (pre ++ (n, v) :: post) ++ rest) (width pre) n = v % 256 ^ n := by
  have hsplit : record (pre ++ (n, v) :: post) ++ rest =
      record pre ++ (toLe n v ++ (record post ++ rest)) := by
    simp [record]
  rw [field, hsplit, ← length_record pre, drop_left, take_left' (length_toLe n v), fromLe_toLe]

end LittleEndian
