import Mathlib.Data.List.Basic
import Mathlib.Data.List.GetD
import Mathlib.Tactic.Linarith

/-!
# Flat byte memories

A memory is a function from addresses to bytes.  `load` reads a run of bytes, `store`
overwrites one, and the lemmas are the frame rules the two obey: a load sees what was
stored at its own addresses and nothing else.
-/

namespace ByteMem

open List

/-- The `n` bytes from address `a` on. -/
def load (m : ℕ → UInt8) (a n : ℕ) : List UInt8 := (List.range n).map fun i => m (a + i)

/-- Overwrite the bytes from address `a` on with `bs`. -/
def store (m : ℕ → UInt8) (a : ℕ) (bs : List UInt8) : ℕ → UInt8 :=
  fun i => if a ≤ i then bs.getD (i - a) (m i) else m i

variable {m m' : ℕ → UInt8} {a b n : ℕ} {bs : List UInt8}

@[simp] theorem length_load (m : ℕ → UInt8) (a n : ℕ) : (load m a n).length = n := by
  simp [load]

/-- Two memories that agree on an interval give the same load there. -/
theorem load_congr (h : ∀ i, a ≤ i → i < a + n → m' i = m i) : load m' a n = load m a n := by
  refine map_congr_left ?_
  intro i hi
  exact h _ (Nat.le_add_right a i) (Nat.add_lt_add_left (mem_range.1 hi) a)

theorem store_inside {i : ℕ} (h : i < bs.length) : store m a bs (a + i) = bs[i] := by
  rw [store, if_pos (Nat.le_add_right a i), Nat.add_sub_cancel_left, getD_eq_getElem _ _ h]

/-- A store changes nothing outside its interval. -/
theorem store_outside {i : ℕ} (h : i < a ∨ a + bs.length ≤ i) : store m a bs i = m i := by
  rw [store]
  split
  · rw [getD_eq_default]
    omega
  · rfl

/-- A load of what was just stored. -/
theorem load_store_self (m : ℕ → UInt8) (a : ℕ) (bs : List UInt8) :
    load (store m a bs) a bs.length = bs := by
  refine ext_getElem (by simp) ?_
  intro i hi hbs
  simp [load, store_inside hbs]

end ByteMem
