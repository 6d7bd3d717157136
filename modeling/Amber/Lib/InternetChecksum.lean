import Amber.Lib.ByteBuf

/-!
# The Internet checksum

The 16-bit ones' complement sum of network headers: the bytes are taken two at a time as numbers,
most significant byte first, a byte left over is the high half of a number, and carries out of the
16 bits are added back in.  A header carries the complement of its own sum, so that the sum over the
header with the checksum in place is `0xffff`.

* `carry_eq_top_iff` — a sum comes out as `0xffff` exactly when it is a positive multiple of
  `0xffff`.
* `words_append` — the sum of a buffer in two parts; an odd first part shifts the second by a
  byte.
* `words_putBe` — filling in a 16-bit field at an even place adds its value to the sum.
* `data_fill` — a checksum that was filled in verifies.
-/

namespace InternetChecksum

open ByteBuf List

/-- The sum of the 16-bit numbers of a buffer. -/
def words : List UInt8 → ℕ
  | [] => 0
  | [a] => a.toNat * 256
  | a :: b :: bs => a.toNat * 256 + b.toNat + words bs

/-- A sum with its carries added back into 16 bits. -/
def carry (s : ℕ) : ℕ := if s = 0 then 0 else (s - 1) % 0xffff + 1

/-- The ones' complement sum of a buffer. -/
def data (bs : List UInt8) : ℕ := carry (words bs)

/-- … and of several sums. -/
def combine (sums : List ℕ) : ℕ := carry sums.sum

variable {l bs cs : List UInt8} {i k n m s v : ℕ}

theorem carry_le (s : ℕ) : carry s ≤ 0xffff := by
  unfold carry
  split_ifs <;> omega

theorem carry_mod (s : ℕ) : carry s % 0xffff = s % 0xffff := by
  unfold carry
  split_ifs <;> omega

theorem carry_eq_top_iff : carry s = 0xffff ↔ 0 < s ∧ s % 0xffff = 0 := by
  rcases Nat.eq_zero_or_pos s with rfl | hs
  · exact ⟨fun h => absurd h (by decide), fun h => absurd h.1 (by decide)⟩
  · rw [carry, if_neg hs.ne']
    omega

theorem carry_pos (h : 0 < s) : 0 < carry s := by
  rw [carry, if_neg h.ne']
  omega

/-- **A buffer in two parts.** -/
theorem words_append (bs cs : List UInt8) :
    words (bs ++ cs) = words bs + words (if bs.length % 2 = 0 then cs else 0 :: cs) := by
  induction bs using words.induct with
  | case1 => exact (zero_add _).symm
  | case2 a =>
    have hzero : (0 : UInt8).toNat = 0 := rfl
    rw [length_singleton, if_neg (by decide)]
    cases cs with
    | nil =>
      rw [append_nil, words, words, hzero]
      omega
    | cons c cs =>
      rw [singleton_append, words, words, words, hzero]
      omega
  | case3 a b bs ih =>
    have hlen : (a :: b :: bs).length % 2 = bs.length % 2 := by
      rw [length_cons, length_cons]
      omega
    rw [hlen, cons_append, cons_append, words, words, ih]
    omega

/-- Two bytes of a number, put together again. -/
theorem toNat_ofNat_pair (v : ℕ) :
    (UInt8.ofNat (v / 256)).toNat * 256 + (UInt8.ofNat v).toNat = v % 65536 := by
  rw [UInt8.toNat_ofNat', UInt8.toNat_ofNat']
  omega

/-- **A 16-bit field at an even place counts with its value.** -/
theorem words_putBe (v : ℕ) (hi : i % 2 = 0) (hl : i + 2 ≤ l.length) :
    words (putBe l i 2 v) = words (putBe l i 2 0) + v % 65536 := by
  induction l using words.induct generalizing i with
  | case1 => exact absurd hl (by simp)
  | case2 a => exact absurd hl (by simp)
  | case3 a b bs ih =>
    rcases i with _ | _ | i
    · have hput : ∀ v, words (putBe (a :: b :: bs) 0 2 v) = v % 65536 + words bs := by
        intro v
        rw [← toNat_ofNat_pair]
        rfl
      rw [hput, hput]
      omega
    · exact absurd hi (by decide)
    · have hput : ∀ v, words (putBe (a :: b :: bs) (i + 2) 2 v) =
          a.toNat * 256 + b.toNat + words (putBe bs i 2 v) := fun v => rfl
      have hlen : i + 2 ≤ bs.length := by
        rw [length_cons, length_cons] at hl
        omega
      rw [hput, hput, ih (by omega) hlen]
      omega

/-- **A filled-in checksum verifies.**  The complement of the sum over a buffer with a zero in its
place makes the sum come out as `0xffff`. -/
theorem data_fill (hi : i % 2 = 0) (hl : i + 2 ≤ l.length) :
    data (putBe l i 2 (0xffff - data (putBe l i 2 0))) = 0xffff := by
  have hle := carry_le (words (putBe l i 2 0))
  have hmod := carry_mod (words (putBe l i 2 0))
  have hle' : carry (words (putBe l i 2 0)) ≤ words (putBe l i 2 0) := by
    unfold carry
    split_ifs
    · exact Nat.zero_le _
    · omega
  unfold data
  rw [words_putBe _ hi hl, carry_eq_top_iff]
  omega

end InternetChecksum
