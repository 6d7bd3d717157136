import Mathlib.Data.List.Basic
import Mathlib.Tactic.Set

/-!
# Streams that are read in pieces

A read call fills part of the buffer it is given: at least one byte, unless the stream has ended
or there is no room, and at most what has arrived.  How much has arrived at each call is not up to
the reader.

* `fill_spec` — reading until the buffer is full gives the same bytes however they arrive.
-/

namespace ShortReads

open List

structure Stream where
  bytes : List UInt8
  /-- How much has arrived when the next reads are made. -/
  sizes : ℕ → ℕ

/-- One read, into a buffer with `room` bytes left. -/
def Stream.read (s : Stream) (room : ℕ) : List UInt8 × Stream :=
  let n := min room (max 1 (s.sizes 0))
  (s.bytes.take n, ⟨s.bytes.drop n, fun i => s.sizes (i + 1)⟩)

/-- Reads, one after the other, until `n` bytes are there or a read returns nothing. -/
def Stream.fill (s : Stream) : ℕ → List UInt8 × Stream
  | 0 => ([], s)
  | n + 1 =>
    match s.read (n + 1) with
    | ([], s') => ([], s')
    | (b :: bs, s') =>
      let rest := s'.fill (n - bs.length)
      (b :: bs ++ rest.1, rest.2)

variable (s : Stream)

/-- **However the bytes arrive**, the buffer is filled with the next ones. -/
theorem fill_spec (n : ℕ) :
    (s.fill n).1 = s.bytes.take n ∧ (s.fill n).2.bytes = s.bytes.drop n := by
  induction n using Nat.strongRecOn generalizing s with
  | ind n ih =>
    cases n with
    | zero =>
      rw [Stream.fill]
      exact ⟨rfl, rfl⟩
    | succ n =>
      rw [Stream.fill]
      set k := min (n + 1) (max 1 (s.sizes 0))
      have hread : s.read (n + 1) = (s.bytes.take k, ⟨s.bytes.drop k, fun i => s.sizes (i + 1)⟩) :=
        rfl
      have hle : k ≤ n + 1 := by omega
      rw [hread]
      cases htake : s.bytes.take k with
      | nil =>
        have hnil : s.bytes = [] := by
          rcases take_eq_nil_iff.1 htake with h | h
          · omega
          · exact h
        simp [hnil]
      | cons b bs =>
        have hlen : bs.length + 1 = min k s.bytes.length := by
          rw [← length_take, htake, length_cons]
        obtain ⟨hfst, hsnd⟩ := ih (n - bs.length) (by omega)
          ⟨s.bytes.drop k, fun i => s.sizes (i + 1)⟩
        simp only [hfst, hsnd]
        have hall : n - bs.length = n + 1 - k ∨ s.bytes.drop k = [] := by
          by_cases hshort : k ≤ s.bytes.length
          · exact .inl (by omega)
          · exact .inr (drop_eq_nil_of_le (by omega))
        have hsum : k + (n + 1 - k) = n + 1 := by omega
        rw [← htake]
        rcases hall with hcount | hend
        · rw [hcount, ← take_add, drop_drop, hsum]
          exact ⟨rfl, rfl⟩
        · have hwhole : s.bytes.length ≤ k := drop_eq_nil_iff.1 hend
          have hfits : s.bytes.length ≤ n + 1 := Nat.le_trans hwhole hle
          rw [hend, take_nil, drop_nil, append_nil, take_of_length_le hwhole,
            take_of_length_le hfits, drop_eq_nil_of_le hfits]
          exact ⟨rfl, rfl⟩

@[simp] theorem fill_fst (n : ℕ) : (s.fill n).1 = s.bytes.take n := (fill_spec s n).1

@[simp] theorem fill_snd_bytes (n : ℕ) : (s.fill n).2.bytes = s.bytes.drop n :=
  (fill_spec s n).2

end ShortReads
