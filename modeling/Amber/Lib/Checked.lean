import Mathlib.Algebra.Ring.Nat

/-!
# Machine operations that can fail

The operations at which a program with checked arithmetic stops: sums and products that do not
fit their width, differences below zero, a division by zero, an index or a range outside a list.
Each one returns its result or the `Fault`, and each has one rule that says when it succeeds.
-/

namespace Checked

inductive Fault
  | index
  | divZero
  | overflow
deriving DecidableEq, Repr

variable {α β : Type}

def add (w a b : ℕ) : Except Fault ℕ := if a + b < 2 ^ w then .ok (a + b) else .error .overflow

def sub (a b : ℕ) : Except Fault ℕ := if b ≤ a then .ok (a - b) else .error .overflow

def mul (w a b : ℕ) : Except Fault ℕ := if a * b < 2 ^ w then .ok (a * b) else .error .overflow

def rem (a b : ℕ) : Except Fault ℕ := if b = 0 then .error .divZero else .ok (a % b)

def index (l : List α) (i : ℕ) : Except Fault α :=
  match l[i]? with
  | some a => .ok a
  | none => .error .index

/-- `l[i..j]`. -/
def slice (l : List α) (i j : ℕ) : Except Fault (List α) :=
  if i ≤ j ∧ j ≤ l.length then .ok ((l.take j).drop i) else .error .index

/-- The sum of a list, added up from the left. -/
def sum (w : ℕ) (l : List ℕ) : Except Fault ℕ := l.foldlM (add w) 0

@[simp] theorem ok_bind (a : α) (f : α → Except Fault β) : (Except.ok a >>= f) = f a := rfl

variable {w a b : ℕ}

theorem add_of_lt (h : a + b < 2 ^ w) : add w a b = .ok (a + b) := if_pos h

theorem sub_of_le (h : b ≤ a) : sub a b = .ok (a - b) := if_pos h

theorem mul_of_lt (h : a * b < 2 ^ w) : mul w a b = .ok (a * b) := if_pos h

theorem rem_of_pos (h : 0 < b) : rem a b = .ok (a % b) := if_neg (ne_of_gt h)

theorem index_of_some {l : List α} {i : ℕ} {x : α} (h : l[i]? = some x) : index l i = .ok x := by
  rw [index, h]

theorem slice_of_le {l : List α} {i n : ℕ} (h : i + n ≤ l.length) :
    slice l i (i + n) = .ok ((l.drop i).take n) := by
  rw [slice, if_pos ⟨Nat.le_add_right i n, h⟩, List.drop_take, Nat.add_sub_cancel_left]

theorem foldlM_add_of_lt (l : List ℕ) {a : ℕ} (h : a + l.sum < 2 ^ w) :
    l.foldlM (add w) a = .ok (a + l.sum) := by
  induction l generalizing a with
  | nil => rfl
  | cons x l ih =>
    rw [List.sum_cons, ← add_assoc] at h ⊢
    rw [List.foldlM_cons, add_of_lt (by omega), ok_bind, ih h]

theorem sum_of_lt {l : List ℕ} (h : l.sum < 2 ^ w) : sum w l = .ok l.sum := by
  have hzero := foldlM_add_of_lt l (w := w) (a := 0) (by rwa [zero_add])
  rwa [zero_add] at hzero

end Checked
