import Mathlib.Data.Nat.Bitwise
import Amber.Core.Virtqueue

/-!
# What a chain walk returns

`collect_chain` of `amber-core/src/virtio.rs` works on a table that the guest owns: links may lead
out of the table or back into the chain, the table may lie anywhere in the 64-bit address space or
outside RAM, and two tables may share bytes.  The walk is compared here with the chain as a
relation: descriptor `j` is `k` links away from descriptor `i`, by links that stay in the table.

* `collectChain_exact` — the buffer at place `k` is that of the descriptor `k` links away from the
  head, for the first `qsz` places; and what is not empty lies in RAM.
-/

namespace Amber

open GuestRam

/-- A descriptor as the table holds it. -/
structure Descriptor where
  addr : ℕ
  len : ℕ
  flags : ℕ
  next : ℕ

/-- Entry `i` of the table at `desc`, the addresses taken modulo 2^64. -/
def descriptorAt (ram : GuestRam) (desc i : ℕ) : Descriptor :=
  let field := fun n => (desc + 16 * i + n) % 2 ^ 64
  ⟨ram.readU64 (field 0), ram.readU32 (field 8), ram.readU16 (field 12), ram.readU16 (field 14)⟩

/-- Descriptor `j` is `k` links after descriptor `i`, and they all are in the table. -/
inductive Follows (ram : GuestRam) (desc qsz : ℕ) : ℕ → ℕ → ℕ → Prop
  | here {i : ℕ} (hi : i < qsz) : Follows ram desc qsz i 0 i
  | link {i j k : ℕ} (hi : i < qsz) (hnext : (descriptorAt ram desc i).flags.testBit 0 = true)
    (h : Follows ram desc qsz (descriptorAt ram desc i).next k j) : Follows ram desc qsz i (k + 1) j

/-- The whole of `[addr, addr + n)` lies in guest RAM. -/
def Inside (ram : GuestRam) (addr n : ℕ) : Prop :=
  ram.base ≤ addr ∧ addr + n ≤ ram.base + ram.len

instance (ram : GuestRam) (addr n : ℕ) : Decidable (Inside ram addr n) :=
  inferInstanceAs (Decidable (_ ∧ _))

/-- The buffer a descriptor stands for. -/
def Descriptor.buf (ram : GuestRam) (d : Descriptor) : Buf where
  addr := d.addr
  len := if Inside ram d.addr (min d.len maxDescLen) then min d.len maxDescLen else 0
  writable := d.flags.testBit 1

/-! ## One descriptor -/

section Step

variable (ram : GuestRam) (desc i : ℕ)

theorem wadd_wadd (a b c : ℕ) : wadd (wadd a b) c = (a + b + c) % 2 ^ 64 :=
  Nat.mod_add_mod ..

theorem descBuf_eq : descBuf ram desc i = (descriptorAt ram desc i).buf ram := by
  have hwrite : ∀ n : ℕ, (n &&& virtqDescFWrite != 0) = n.testBit 1 := by
    intro n
    have hand : n &&& virtqDescFWrite = (n.testBit 1).toNat * 2 ^ 1 := Nat.and_two_pow n 1
    rw [hand]
    cases n.testBit 1 <;> rfl
  simp only [descBuf, Descriptor.buf, descriptorAt, wadd_wadd, hwrite, inRange_iff, Inside]
  rfl

theorem descNext_eq : descNext ram desc i =
    if (descriptorAt ram desc i).flags.testBit 0 then some (descriptorAt ram desc i).next
    else none := by
  have hnext : ∀ n : ℕ, n &&& virtqDescFNext = 0 ↔ ¬ n.testBit 0 = true := by
    intro n
    have hand : n &&& virtqDescFNext = (n.testBit 0).toNat * 2 ^ 0 := Nat.and_two_pow n 0
    rw [hand]
    cases n.testBit 0 <;> decide
  simp only [descNext, descriptorAt, wadd_wadd, hnext, ite_not]
  rfl

end Step

/-! ## The walk -/

variable {ram : GuestRam} {desc qsz : ℕ}

/-- The induction is on the steps left; the relation does not count them. -/
theorem getElem?_collectFrom (steps : ℕ) : ∀ (i k : ℕ) (b : Buf),
    (collectFrom ram desc qsz steps i)[k]? = some b ↔
      k < steps ∧ ∃ j, Follows ram desc qsz i k j ∧ b = (descriptorAt ram desc j).buf ram := by
  induction steps with
  | zero =>
    intro i k b
    simp [collectFrom]
  | succ steps ih =>
    intro i k b
    rw [collectFrom, descBuf_eq, descNext_eq]
    by_cases hi : i < qsz
    · rw [if_neg (not_le.2 hi)]
      cases k with
      | zero =>
        rw [List.getElem?_cons_zero, Option.some.injEq]
        constructor
        · rintro rfl
          exact ⟨Nat.succ_pos _, i, .here hi, rfl⟩
        · rintro ⟨-, j, hj, rfl⟩
          cases hj
          rfl
      | succ k =>
        rw [List.getElem?_cons_succ]
        constructor
        · intro h
          split at h
          · cases h
          · rename_i next hnext
            split_ifs at hnext with hflag
            cases hnext
            obtain ⟨hk, j, hj, hb⟩ := (ih _ k b).1 h
            exact ⟨Nat.succ_lt_succ hk, j, .link hi hflag hj, hb⟩
        · rintro ⟨hk, j, hj, hb⟩
          cases hj with
          | link _ hflag hj =>
            rw [if_pos hflag]
            exact (ih _ k b).2 ⟨Nat.lt_of_succ_lt_succ hk, j, hj, hb⟩
    · rw [if_pos (not_lt.1 hi)]
      refine iff_of_false (by simp) ?_
      rintro ⟨-, j, hj, -⟩
      cases hj with
      | here h | link h => exact hi h

/-- **A chain walk is exact and confined.**  For every guest RAM, table, head and queue size, place
`k` of the chain is taken exactly when it is one of the first `qsz` and a descriptor follows there
from the head by `k` links inside the table, and it holds the buffer of that descriptor.  So the
walk ends on a cyclic chain too; and every buffer that is not empty lies in RAM. -/
theorem collectChain_exact (ram : GuestRam) (desc head qsz : ℕ) :
    (∀ k b, (collectChain ram desc head qsz)[k]? = some b ↔
      k < qsz ∧ ∃ i, Follows ram desc qsz head k i ∧ b = (descriptorAt ram desc i).buf ram) ∧
    (collectChain ram desc head qsz).length ≤ qsz ∧
    ∀ b ∈ collectChain ram desc head qsz, 0 < b.len → Inside ram b.addr b.len := by
  refine ⟨getElem?_collectFrom qsz head, length_collectFrom_le ram desc qsz qsz head, ?_⟩
  intro b hb hlen
  exact inRange_iff.1 (inRange_of_mem_collectFrom hb hlen.ne')

end Amber
