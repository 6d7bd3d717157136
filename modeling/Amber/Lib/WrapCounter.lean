import Mathlib.Data.Int.ModEq

/-!
# Wrapping counters

A counter that wraps at `w` holds a true count modulo `w`.  As long as the true counts lie
within `w` of each other the wrapped ones still tell them apart, and their wrapping
difference is the true one.
-/

namespace WrapCounter

/-- Counts less than `w` apart have different residues. -/
theorem mod_ne_mod_of_lt {a b w : ℕ} (h : a < b) (hb : b < a + w) : a % w ≠ b % w := by
  intro heq
  have hdvd : w ∣ b - a := (Nat.modEq_iff_dvd' h.le).1 heq
  have := Nat.le_of_dvd (by omega) hdvd
  omega

/-- The wrapping difference of two counters, the second below `w`. -/
def wsub (w a b : ℕ) : ℕ := (a + (w - b)) % w

/-- The wrapping difference of the residues is the true difference, when that fits. -/
theorem wsub_mod_mod {a b w : ℕ} (hle : b ≤ a) (hlt : a < b + w) :
    wsub w (a % w) (b % w) = a - b := by
  have hw : 0 < w := by omega
  have hbw : b % w < w := Nat.mod_lt b hw
  have hdiv := Nat.div_add_mod b w
  have hsum : a + (w - b % w) = (a - b) + w * (b / w + 1) := by
    rw [mul_add, mul_one]
    omega
  rw [wsub, Nat.mod_add_mod, hsum, Nat.add_mul_mod_self_left, Nat.mod_eq_of_lt (by omega)]

/-- Counting the second up brings it one closer to the first. -/
theorem wsub_succ {a b w : ℕ} (ha : a < w) (hb : b < w) (hne : a ≠ b) :
    wsub w a ((b + 1) % w) + 1 = wsub w a b := by
  unfold wsub
  rcases Nat.lt_or_ge (b + 1) w with hlt | hge
  · rw [Nat.mod_eq_of_lt hlt]
    rcases Nat.lt_or_gt_of_ne hne with hab | hab
    · rw [Nat.mod_eq_of_lt (by omega), Nat.mod_eq_of_lt (by omega)]
      omega
    · rw [Nat.mod_eq_sub_mod (by omega), Nat.mod_eq_sub_mod (by omega : w ≤ a + (w - b)),
        Nat.mod_eq_of_lt (by omega), Nat.mod_eq_of_lt (by omega)]
      omega
  · obtain rfl : w = b + 1 := by omega
    rw [Nat.mod_self, Nat.sub_zero, Nat.add_mod_right, Nat.mod_eq_of_lt ha,
      Nat.mod_eq_of_lt (by omega)]
    omega

end WrapCounter
