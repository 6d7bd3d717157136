import Mathlib.Data.List.GetD
import Mathlib.Tactic.Ring

/-!
# Big-endian fields of a byte buffer

Network headers are numbers laid out in a buffer, most significant byte first.  `be b i n` reads
the `n`-byte number at offset `i`, `putBe b i n v` writes one in place and `putOpt` writes one
when there is one to write.

* `be_putBe_self` — a field that was just written, cut to its width.
* `be_putBe_disjoint` — a write leaves every other field alone.
* `drop_putBe`, `take_putBe` — a write seen from a part of the buffer.
-/

namespace ByteBuf

open List

/-- The byte at an offset; a buffer reads as zero past its end. -/
def byteAt (b : List UInt8) (i : ℕ) : ℕ := (b.getD i 0).toNat

/-- The `n`-byte number at offset `i`. -/
def be (b : List UInt8) (i : ℕ) : ℕ → ℕ
  | 0 => 0
  | n + 1 => be b i n * 256 + byteAt b (i + n)

/-- Write `v` as an `n`-byte number at offset `i`. -/
def putBe (b : List UInt8) (i : ℕ) : ℕ → ℕ → List UInt8
  | 0, _ => b
  | n + 1, v => (putBe b i n (v / 256)).set (i + n) (UInt8.ofNat v)

/-- Write a number if there is one. -/
def putOpt (b : List UInt8) (i n : ℕ) : Option ℕ → List UInt8
  | some v => putBe b i n v
  | none => b

variable {b b' : List UInt8} {i j n m v : ℕ}

theorem be_congr (h : ∀ k < n, byteAt b' (i + k) = byteAt b (i + k)) : be b' i n = be b i n := by
  induction n with
  | zero => rfl
  | succ n ih => rw [be, be, ih fun k hk => h k (by omega), h n (Nat.lt_succ_self n)]

theorem byteAt_lt (b : List UInt8) (i : ℕ) : byteAt b i < 256 := (b.getD i 0).toNat_lt

theorem be_lt (b : List UInt8) (i n : ℕ) : be b i n < 256 ^ n := by
  induction n with
  | zero => exact one_pos
  | succ n ih =>
    have := byteAt_lt b (i + n)
    rw [be, pow_succ]
    omega

@[simp] theorem length_putBe (b : List UInt8) (i n v : ℕ) : (putBe b i n v).length = b.length := by
  induction n generalizing v with
  | zero => rfl
  | succ n ih => rw [putBe, length_set, ih]

@[simp] theorem length_putOpt (b : List UInt8) (i n : ℕ) (v : Option ℕ) :
    (putOpt b i n v).length = b.length := by
  cases v with
  | none => rfl
  | some v => exact length_putBe b i n v

theorem byteAt_set_self {x : UInt8} (h : i < b.length) : byteAt (b.set i x) i = x.toNat := by
  rw [byteAt, getD_eq_getElem _ _ (by rwa [length_set]), getElem_set_self]

theorem byteAt_set_ne {x : UInt8} (h : i ≠ j) : byteAt (b.set i x) j = byteAt b j := by
  rw [byteAt, byteAt, getD_eq_getElem?_getD, getD_eq_getElem?_getD, getElem?_set_ne h]

theorem byteAt_putBe (h : j < i ∨ i + n ≤ j) : byteAt (putBe b i n v) j = byteAt b j := by
  induction n generalizing v with
  | zero => rfl
  | succ n ih => rw [putBe, byteAt_set_ne (by omega), ih (by omega)]

/-- **A write leaves every other field alone.** -/
theorem be_putBe_disjoint (h : j + m ≤ i ∨ i + n ≤ j) : be (putBe b i n v) j m = be b j m :=
  be_congr fun k hk => byteAt_putBe (by omega)

/-- **A field that was just written** holds what was written, cut to its width. -/
theorem be_putBe_self (h : i + n ≤ b.length) : be (putBe b i n v) i n = v % 256 ^ n := by
  induction n generalizing v with
  | zero => exact (Nat.mod_one v).symm
  | succ n ih =>
    have hlast : byteAt (putBe b i (n + 1) v) (i + n) = v % 256 := by
      rw [putBe, byteAt_set_self (by rw [length_putBe]; omega), UInt8.toNat_ofNat']
    have hfirst : be (putBe b i (n + 1) v) i n = v / 256 % 256 ^ n := by
      rw [← ih (by omega)]
      exact be_congr fun k hk => by rw [putBe, byteAt_set_ne (by omega)]
    rw [be, hfirst, hlast, pow_succ, mul_comm (256 ^ n), Nat.mod_mul]
    ring

theorem be_putOpt_disjoint {v : Option ℕ} (h : j + m ≤ i ∨ i + n ≤ j) :
    be (putOpt b i n v) j m = be b j m := by
  cases v with
  | none => rfl
  | some v => exact be_putBe_disjoint h

theorem be_putOpt_self {v : Option ℕ} (h : i + n ≤ b.length) :
    be (putOpt b i n v) i n = (v.map (· % 256 ^ n)).getD (be b i n) := by
  cases v with
  | none => rfl
  | some v => exact be_putBe_self h

/-! ## Parts of a buffer -/

variable (b v)

theorem drop_putBe (h : m ≤ i) :
    (putBe b i n v).drop m = putBe (b.drop m) (i - m) n v := by
  induction n generalizing v with
  | zero => rfl
  | succ n ih =>
    rw [putBe, drop_set, if_neg (by omega), ih, putBe, Nat.sub_add_comm h]

theorem drop_putBe_of_le (h : i + n ≤ m) : (putBe b i n v).drop m = b.drop m := by
  induction n generalizing v with
  | zero => rfl
  | succ n ih => rw [putBe, drop_set_of_lt (by omega), ih _ (by omega)]

theorem take_putBe : (putBe b i n v).take m = putBe (b.take m) i n v := by
  induction n generalizing v with
  | zero => rfl
  | succ n ih => rw [putBe, take_set, ih, putBe]

theorem take_putBe_of_le (h : m ≤ i) : (putBe b i n v).take m = b.take m := by
  induction n generalizing v with
  | zero => rfl
  | succ n ih =>
    rw [putBe, take_set, ih, set_eq_of_length_le]
    exact (length_take_le m b).trans (by omega)

/-- A write after a part of the buffer is not seen from it. -/
theorem slice_putBe_of_le (h : j + m ≤ i) :
    ((putBe b i n v).drop j).take m = (b.drop j).take m := by
  rw [drop_putBe b v (by omega), take_putBe_of_le _ v (by omega)]

theorem slice_putOpt_of_le (v : Option ℕ) (h : j + m ≤ i) :
    ((putOpt b i n v).drop j).take m = (b.drop j).take m := by
  cases v with
  | none => rfl
  | some v => exact slice_putBe_of_le b v h

theorem drop_putOpt_of_le (v : Option ℕ) (h : i + n ≤ m) :
    (putOpt b i n v).drop m = b.drop m := by
  cases v with
  | none => rfl
  | some v => exact drop_putBe_of_le b v h

end ByteBuf
