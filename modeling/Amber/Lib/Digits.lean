import Mathlib.Tactic.Ring

/-!
# Numbers in digits

Reading and writing numbers as runs of digits, to a radix of at most 16.  A reader takes digits as
long as there are any, up to a given count; a writer either pads to a width or leaves no zero
in front.

* `readDigits_append` — a run of digits in front of something else is read as its value.
* `readDigits_consumes` — and nothing but digits is ever read.
* `value_fixed` — a number padded to a width has its own value, as far as it fits.
-/

namespace Digits

open List Option

/-! ## Digits and values -/

/-- The value of a letter or digit as a digit; either case will do. -/
def rank (c : Char) : Option ℕ :=
  if c.isDigit then some (c.toNat - 48)
  else if 'a' ≤ c ∧ c ≤ 'z' then some (c.toNat - 87)
  else if 'A' ≤ c ∧ c ≤ 'Z' then some (c.toNat - 55)
  else none

/-- The value of a digit, if it is one to this radix. -/
def toDigit (radix : ℕ) (c : Char) : Option ℕ := (rank c).filter fun d => decide (d < radix)

def IsDigit (radix : ℕ) (c : Char) : Prop := (toDigit radix c).isSome

instance (radix : ℕ) (c : Char) : Decidable (IsDigit radix c) :=
  inferInstanceAs (Decidable ((toDigit radix c).isSome = true))

instance decidableDigits (radix : ℕ) (text : List Char) : Decidable (∀ c ∈ text, IsDigit radix c) :=
  List.decidableBAll (IsDigit radix) text

/-- The value of a run of digits behind a number already read. -/
def valueFrom (radix r : ℕ) (text : List Char) : ℕ :=
  text.foldl (fun r c => r * radix + (toDigit radix c).getD 0) r

def value (radix : ℕ) (text : List Char) : ℕ := valueFrom radix 0 text

@[simp] theorem valueFrom_nil (radix r : ℕ) : valueFrom radix r [] = r := rfl

@[simp] theorem valueFrom_cons (radix r : ℕ) (c : Char) (text : List Char) :
    valueFrom radix r (c :: text) =
      valueFrom radix (r * radix + (toDigit radix c).getD 0) text := rfl

theorem valueFrom_append (radix r : ℕ) (a b : List Char) :
    valueFrom radix r (a ++ b) = valueFrom radix (valueFrom radix r a) b :=
  foldl_append

variable {c : Char} {radix : ℕ}

theorem toDigit_lt {d : ℕ} (h : toDigit radix c = some d) : d < radix :=
  of_decide_eq_true (filter_eq_some_iff.1 h).2

theorem getD_toDigit_lt (hradix : 0 < radix) (c : Char) :
    (toDigit radix c).getD 0 < radix := by
  cases h : toDigit radix c with
  | none => exact hradix
  | some d => exact toDigit_lt h

/-- A run of `n` digits is worth less than the `n`-th power of the radix. -/
theorem valueFrom_lt (hradix : 0 < radix) (r : ℕ) (text : List Char) :
    valueFrom radix r text < (r + 1) * radix ^ text.length := by
  induction text generalizing r with
  | nil => simp
  | cons c text ih =>
    have hdigit := getD_toDigit_lt hradix c
    calc valueFrom radix r (c :: text)
        < (r * radix + (toDigit radix c).getD 0 + 1) * radix ^ text.length := ih _
      _ ≤ ((r + 1) * radix) * radix ^ text.length :=
        Nat.mul_le_mul_right _ (by rw [Nat.add_mul, Nat.one_mul]; omega)
      _ = (r + 1) * radix ^ (c :: text).length := by rw [length_cons]; ring

/-! ## Reading -/

/-- Reads digits as long as there are any: the value, how many, and what is left.  Too many are an
error. -/
def readDigits (radix max : ℕ) : ℕ → ℕ → List Char → Option (ℕ × ℕ × List Char)
  | r, count, [] => some (r, count, [])
  | r, count, c :: text =>
    match toDigit radix c with
    | none => some (r, count, c :: text)
    | some d =>
      if max < count + 1 then none else readDigits radix max (r * radix + d) (count + 1) text

/-- What follows does not go on with a digit. -/
def Ends (radix : ℕ) (rest : List Char) : Prop := ∀ c ∈ rest.head?, toDigit radix c = none

theorem ends_nil (radix : ℕ) : Ends radix [] := by simp [Ends]

theorem ends_cons (h : toDigit radix c = none) (rest : List Char) :
    Ends radix (c :: rest) := by simp [Ends, h]

/-- **A run of digits is read as its value.** -/
theorem readDigits_append {max : ℕ} {text rest : List Char} (r count : ℕ)
    (hdigits : ∀ c ∈ text, IsDigit radix c) (hmax : count + text.length ≤ max)
    (hrest : Ends radix rest) :
    readDigits radix max r count (text ++ rest) =
      some (valueFrom radix r text, count + text.length, rest) := by
  induction text generalizing r count with
  | nil =>
    cases rest with
    | nil => rfl
    | cons c rest =>
      have hc : toDigit radix c = none := hrest c rfl
      simp [readDigits, hc]
  | cons c text ih =>
    obtain ⟨d, hd⟩ := isSome_iff_exists.1 (hdigits c mem_cons_self)
    rw [length_cons] at hmax
    have hrun := ih (r * radix + d) (count + 1) (fun x hx => hdigits x (mem_cons_of_mem _ hx))
      (by omega)
    rw [cons_append, readDigits, hd]
    dsimp only
    rw [if_neg (by omega), hrun, valueFrom_cons, hd, length_cons, getD_some,
      add_assoc, add_comm 1]

/-- **Nothing but digits is read**, and all of them. -/
theorem readDigits_consumes {max r count v n : ℕ} {text rest : List Char}
    (h : readDigits radix max r count text = some (v, n, rest)) :
    ∃ ds, text = ds ++ rest ∧ (∀ c ∈ ds, IsDigit radix c) ∧ Ends radix rest := by
  induction text generalizing r count with
  | nil =>
    cases h
    exact ⟨[], rfl, by simp, ends_nil radix⟩
  | cons c text ih =>
    rw [readDigits] at h
    split at h
    · rename_i hc
      cases h
      exact ⟨[], rfl, by simp, ends_cons hc text⟩
    · rename_i d hd
      split_ifs at h
      obtain ⟨ds, rfl, hds, hrest⟩ := ih h
      refine ⟨c :: ds, rfl, ?_, hrest⟩
      rintro x (_ | ⟨_, hx⟩)
      · exact isSome_iff_exists.2 ⟨d, hd⟩
      · exact hds x hx

/-! ## Writing -/

/-- The last `width` digits of a number, zeros in front. -/
def fixed (radix : ℕ) : ℕ → ℕ → List Char
  | 0, _ => []
  | width + 1, n => fixed radix width (n / radix) ++ [Nat.digitChar (n % radix)]

@[simp] theorem length_fixed (radix width n : ℕ) : (fixed radix width n).length = width := by
  induction width generalizing n with
  | zero => rfl
  | succ width ih => rw [fixed, length_append, ih, length_singleton]

theorem toDigit_digitChar {d : ℕ} (hradix : radix ≤ 16) (hd : d < radix) :
    toDigit radix (Nat.digitChar d) = some d := by
  have hall : ∀ d < 16, rank (Nat.digitChar d) = some d := by decide
  rw [toDigit, hall d (hd.trans_le hradix), filter_some, if_pos (decide_eq_true hd)]

theorem mem_fixed {width n : ℕ} (hpos : 0 < radix)
    (h : c ∈ fixed radix width n) : ∃ d < radix, c = Nat.digitChar d := by
  induction width generalizing n with
  | zero => cases h
  | succ width ih =>
    rcases mem_append.1 h with h | h
    · exact ih h
    · exact ⟨n % radix, Nat.mod_lt _ hpos, mem_singleton.1 h⟩

theorem isDigit_fixed (hradix : radix ≤ 16) (hpos : 0 < radix) (width n : ℕ) :
    ∀ c ∈ fixed radix width n, IsDigit radix c := by
  intro c hc
  obtain ⟨d, hd, rfl⟩ := mem_fixed hpos hc
  rw [IsDigit, toDigit_digitChar hradix hd]
  rfl

/-- **A number that fits the width is read back.** -/
theorem value_fixed (hradix : radix ≤ 16) (hpos : 0 < radix) (width n : ℕ) :
    value radix (fixed radix width n) = n % radix ^ width := by
  induction width generalizing n with
  | zero => rw [pow_zero, Nat.mod_one]; rfl
  | succ width ih =>
    rw [fixed, value, valueFrom_append, ← value, ih, valueFrom_cons, valueFrom_nil,
      toDigit_digitChar hradix (Nat.mod_lt _ hpos), getD_some, pow_succ,
      mul_comm (radix ^ width), Nat.mod_mul, mul_comm radix, add_comm]

end Digits
