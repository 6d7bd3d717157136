import Amber.Lib.ByteMem

/-!
# A host file with positioned reads and writes

The backing file of a block device, as `pread` and `pwrite` see it: a length, bytes, and the
answers the host is going to give.  Each call takes one answer: an error, or the number of
bytes the host moves before it stops; once the list is used up the host moves all it can.
Offsets are `off_t`: one of 2^63 or more is refused, and no file is longer than 2^63 - 1.
-/

namespace Amber

open List

/-- The largest file an `off_t` can address. -/
def maxFileLen : ℕ := 2 ^ 63 - 1

/-- One sector is not too long for a file. -/
theorem sector_le_maxFileLen : 512 ≤ maxFileLen := by decide

structure HostFile where
  len : ℕ
  data : ℕ → UInt8
  answers : List (Option ℕ)
  fits : len ≤ maxFileLen

namespace HostFile

/-- The byte at a position, if the file reaches that far. -/
def get? (f : HostFile) (i : ℕ) : Option UInt8 := if i < f.len then some (f.data i) else none

/-- How much of an `n`-byte transfer the host performs; `none` is an error. -/
def moves (f : HostFile) (n : ℕ) : Option ℕ :=
  match f.answers with
  | [] => some n
  | none :: _ => none
  | some k :: _ => some (min k n)

def nextAnswer (f : HostFile) : HostFile := { f with answers := f.answers.tail }

/-- `read_at` on a buffer of `n` bytes. -/
def readAt (f : HostFile) (offset n : ℕ) : Option (List UInt8) :=
  if 2 ^ 63 ≤ offset then none
  else (f.moves n).map fun k => ByteMem.load f.data offset (min k (f.len - offset))

/-- Store `d` at `offset`; a hole before it reads as zeros. -/
def storeAt (f : HostFile) (offset : ℕ) (d : List UInt8)
    (hd : d ≠ [] → offset + d.length ≤ maxFileLen) : HostFile :=
  if h : d = [] then f
  else
    { f with
      len := max f.len (offset + d.length)
      data := ByteMem.store (fun i => if i < f.len then f.data i else 0) offset d
      fits := max_le f.fits (hd h) }

/-- The leading part of `d` that the host stores when asked to write it at `offset`. -/
def stores (f : HostFile) (offset : ℕ) (d : List UInt8) : List UInt8 :=
  if offset < 2 ^ 63 then d.take (min ((f.moves d.length).getD 0) (maxFileLen - offset)) else []

theorem stores_fits (f : HostFile) (offset : ℕ) (d : List UInt8) (h : f.stores offset d ≠ []) :
    offset + (f.stores offset d).length ≤ maxFileLen := by
  unfold stores at h ⊢
  split at h
  · rw [if_pos ‹_›, length_take]
    simp only [maxFileLen]
    omega
  · exact absurd rfl h

/-- `write_all_at`: an empty buffer needs no system call; otherwise the host stores what it
can, and the call fails unless that was everything. -/
def writeAllAt (f : HostFile) (offset : ℕ) (d : List UInt8) : HostFile × Bool :=
  if d = [] then (f, true)
  else (f.nextAnswer.storeAt offset (f.stores offset d) (f.stores_fits offset d),
    (f.stores offset d).length == d.length)

/-- `sync_all`. -/
def syncAll (f : HostFile) : HostFile × Bool := (f.nextAnswer, (f.moves 0).isSome)

section Lemmas

variable {f : HostFile} {offset i : ℕ} {d : List UInt8}

theorem stores_isPrefix (f : HostFile) (offset : ℕ) (d : List UInt8) : f.stores offset d <+: d := by
  unfold stores
  split
  · exact take_prefix _ _
  · exact nil_prefix

theorem stores_length_le (f : HostFile) (offset : ℕ) (d : List UInt8) :
    (f.stores offset d).length ≤ d.length := (f.stores_isPrefix offset d).length_le

theorem ne_nil_of_inside (h1 : offset ≤ i) (h2 : i < offset + d.length) : d ≠ [] := by
  rintro rfl
  rw [length_nil] at h2
  omega

@[simp] theorem get?_nextAnswer (i : ℕ) : f.nextAnswer.get? i = f.get? i := rfl

/-- A willing host stays willing. -/
theorem nextAnswer_of_willing (ha : f.answers = []) : f.nextAnswer = f := by
  cases f
  simp_all [nextAnswer]

section Store

variable {hd : d ≠ [] → offset + d.length ≤ maxFileLen}

theorem len_le_storeAt (f : HostFile) (hd : d ≠ [] → offset + d.length ≤ maxFileLen) :
    f.len ≤ (f.storeAt offset d hd).len := by
  unfold storeAt
  split
  · exact le_refl _
  · exact le_max_left _ _

@[simp] theorem answers_storeAt : (f.storeAt offset d hd).answers = f.answers := by
  unfold storeAt
  split <;> rfl

theorem get?_storeAt_inside (h1 : offset ≤ i) (h2 : i < offset + d.length) :
    (f.storeAt offset d hd).get? i = d[i - offset]? := by
  obtain ⟨k, rfl⟩ := Nat.exists_eq_add_of_le h1
  have hk : k < d.length := by omega
  have hin : offset + k < max f.len (offset + d.length) := by omega
  simp only [storeAt, dif_neg (ne_nil_of_inside h1 h2), get?, if_pos hin,
    ByteMem.store_inside hk, Nat.add_sub_cancel_left, getElem?_eq_getElem hk]

/-- A store changes its own range and, past the end of the file, the hole before it. -/
theorem get?_storeAt_outside (h : i < offset ∨ offset + d.length ≤ i)
    (hi : i < f.len ∨ offset + d.length ≤ i) :
    (f.storeAt offset d hd).get? i = f.get? i := by
  unfold storeAt
  split
  · rfl
  · simp only [get?, ByteMem.store_outside h]
    by_cases hlen : i < f.len
    · rw [if_pos (by omega), if_pos hlen, if_pos hlen]
    · rw [if_neg (by omega), if_neg hlen]

end Store

/-! ## What one write can do -/

@[simp] theorem writeAllAt_nil : f.writeAllAt offset [] = (f, true) := rfl

theorem len_le_writeAllAt (f : HostFile) (offset : ℕ) (d : List UInt8) :
    f.len ≤ (f.writeAllAt offset d).1.len := by
  unfold writeAllAt
  split
  · exact le_refl _
  · exact len_le_storeAt f.nextAnswer (f.stores_fits offset d)

/-- An offset the host cannot represent: the write fails and nothing is stored. -/
theorem writeAllAt_refused (hd : d ≠ []) (h : 2 ^ 63 ≤ offset) :
    f.writeAllAt offset d = (f.nextAnswer, false) := by
  have hs : f.stores offset d = [] := if_neg (by omega)
  have hlen : ¬ (0 = d.length) := fun h0 => hd (eq_nil_of_length_eq_zero h0.symm)
  rw [writeAllAt, if_neg hd, storeAt, dif_pos hs, hs, length_nil, beq_eq_false_iff_ne.2 hlen]

/-- A write leaves everything outside its range alone, as far as the file reaches. -/
theorem get?_writeAllAt_outside (h : i < offset ∨ offset + d.length ≤ i)
    (hi : i < f.len ∨ offset + d.length ≤ i) :
    (f.writeAllAt offset d).1.get? i = f.get? i := by
  have hle := f.stores_length_le offset d
  unfold writeAllAt
  split
  · rfl
  · have hlen : f.nextAnswer.len = f.len := rfl
    rw [get?_storeAt_outside (by omega) (by omega), get?_nextAnswer]

/-- A willing host stores every byte the file can hold. -/
theorem stores_of_willing (ha : f.answers = []) (h : offset < 2 ^ 63) :
    f.stores offset d = d.take (maxFileLen - offset) := by
  rw [stores, if_pos h, moves, ha]
  simp only [Option.getD_some]
  rcases le_total d.length (maxFileLen - offset) with hle | hle
  · rw [min_eq_left hle, take_length, take_of_length_le hle]
  · rw [min_eq_right hle]

theorem answers_writeAllAt (f : HostFile) (offset : ℕ) (d : List UInt8) :
    (f.writeAllAt offset d).1.answers = if d = [] then f.answers else f.answers.tail := by
  unfold writeAllAt
  split_ifs
  · rfl
  · rw [answers_storeAt]
    rfl

theorem get?_writeAllAt_inside (ha : f.answers = []) (h1 : offset ≤ i)
    (h2 : i < offset + d.length) (hi : i < maxFileLen) :
    (f.writeAllAt offset d).1.get? i = d[i - offset]? := by
  have hoff : offset < 2 ^ 63 := by simp only [maxFileLen] at hi; omega
  have hst := stores_of_willing (d := d) ha hoff
  simp only [writeAllAt, if_neg (ne_nil_of_inside h1 h2)]
  rw [get?_storeAt_inside h1 (by rw [hst, length_take]; omega), hst, getElem?_take_of_lt (by omega)]

theorem moves_le {n k : ℕ} (h : f.moves n = some k) : k ≤ n := by
  unfold moves at h
  split at h <;> cases h
  · exact le_rfl
  · exact min_le_right _ _

/-- A write succeeds if it ends inside what a file can hold and the host moves all of it. -/
theorem writeAllAt_ok_iff (hd : d ≠ []) : (f.writeAllAt offset d).2 = true ↔
    offset + d.length ≤ maxFileLen ∧ f.moves d.length = some d.length := by
  have hpos := length_pos_of_ne_nil hd
  simp only [writeAllAt, if_neg hd, beq_iff_eq, stores]
  split_ifs with hoff
  · rw [length_take]
    cases hm : f.moves d.length with
    | none =>
      refine iff_of_false ?_ fun h => by cases h.2
      simp only [Option.getD_none]
      omega
    | some k =>
      have hk := moves_le hm
      simp only [Option.getD_some, Option.some.injEq, maxFileLen]
      omega
  · simp only [length_nil, maxFileLen]
    omega

/-- A write that succeeds has stored every byte, whatever the host. -/
theorem get?_writeAllAt_of_ok (h : (f.writeAllAt offset d).2 = true) (h1 : offset ≤ i)
    (h2 : i < offset + d.length) : (f.writeAllAt offset d).1.get? i = d[i - offset]? := by
  simp only [writeAllAt, if_neg (ne_nil_of_inside h1 h2), beq_iff_eq] at h ⊢
  have hall : f.stores offset d = d := (f.stores_isPrefix offset d).eq_of_length h
  rw [get?_storeAt_inside h1 (by omega), hall]

end Lemmas

end HostFile
end Amber
