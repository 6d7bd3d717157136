import Mathlib.Data.List.OfFn

/-!
# Positional byte streams

A reader takes bytes off the front of a stream that never ends: past the last byte it sees
zeros.  There is no error, so a reader that disagrees with the writer about one offset reads
garbage from there on; `Reads r bs a` says that it does not: whatever follows, `r` takes
exactly `bs` and gives `a`.

The rules follow the way readers are put together: `Reads.bind` for one reader after another,
`reads_array` and `reads_many` for the loops.
-/

namespace ByteReader

open List

/-- A reader of bytes. -/
abbrev Reader (α : Type) := StateM (List UInt8) α

/-- The next byte, zero past the end. -/
def byte : Reader UInt8 := fun bs => (bs.headD 0, bs.tail)

/-- A byte read as a truth value. -/
def flag : Reader Bool := do return (← byte) != 0

/-- The byte a truth value is written as. -/
def ofFlag (b : Bool) : UInt8 := if b then 1 else 0

/-- `n` readings, one after the other, into an array. -/
def array {α : Type} (r : Reader α) : (n : ℕ) → Reader (Fin n → α)
  | 0 => pure Fin.elim0
  | n + 1 => do
    let a ← r
    let rest ← array r n
    return Fin.cons a rest

/-- `n` readings, one after the other, into a list. -/
def many {α : Type} (r : Reader α) : ℕ → Reader (List α)
  | 0 => pure []
  | n + 1 => do
    let a ← r
    let rest ← many r n
    return a :: rest

/-- `n` readings, one after the other, into the places of a list from `k` on; `none` if there is
no such place. -/
def fill {α : Type} (r : Reader α) : ℕ → ℕ → List α → Reader (Option (List α))
  | 0, _, cells => pure (some cells)
  | n + 1, k, cells =>
    if k < cells.length then do
      let a ← r
      fill r n (k + 1) (cells.set k a)
    else pure none

/-- Whatever follows, the reader takes exactly `bs` and gives `a`. -/
def Reads {α : Type} (r : Reader α) (bs : List UInt8) (a : α) : Prop :=
  ∀ rest, r.run (bs ++ rest) = (a, rest)

variable {α β : Type} {r : Reader α} {bs cs : List UInt8} {a : α} {b : β} {enc : α → List UInt8}
  {f : α → Reader β}

theorem Reads.pure (a : α) : Reads (pure a) [] a := fun _ => rfl

/-- One reader after another. -/
theorem Reads.bind (h : Reads r bs a) (hf : Reads (f a) cs b) :
    Reads (r >>= f) (bs ++ cs) b := by
  intro rest
  rw [append_assoc, StateT.run_bind, h (cs ++ rest)]
  exact hf rest

/-- What is computed from a reading takes no further bytes. -/
theorem Reads.map {f : α → β} (h : Reads r bs a) :
    Reads (do let a ← r; return f a) bs (f a) := by
  have hbind : Reads (r >>= fun a => Pure.pure (f a)) (bs ++ []) (f a) := h.bind (Reads.pure (f a))
  rwa [append_nil] at hbind

theorem reads_byte (x : UInt8) : Reads byte [x] x := fun _ => rfl

theorem reads_flag (x : Bool) : Reads flag [ofFlag x] x := by
  have hx : (ofFlag x != 0) = x := by cases x <;> rfl
  have h : Reads flag [ofFlag x] (ofFlag x != 0) := (reads_byte (ofFlag x)).map
  rwa [hx] at h

theorem reads_array (hr : ∀ a, Reads r (enc a) a) :
    ∀ {n : ℕ} (f : Fin n → α), Reads (array r n) ((List.ofFn f).flatMap enc) f := by
  intro n
  induction n with
  | zero =>
    intro f
    rw [Subsingleton.elim f Fin.elim0]
    exact Reads.pure _
  | succ n ih =>
    intro f
    rw [ofFn_succ, flatMap_cons]
    have hrest : Reads (do let rest ← array r n; return Fin.cons (f 0) rest)
        ((ofFn fun i => f i.succ).flatMap enc) (Fin.cons (f 0) (Fin.tail f)) :=
      (ih (Fin.tail f)).map
    rw [Fin.cons_self_tail] at hrest
    exact (hr (f 0)).bind hrest

theorem reads_many {l : List α} (hr : ∀ a ∈ l, Reads r (enc a) a) :
    Reads (many r l.length) (l.flatMap enc) l := by
  induction l with
  | nil => exact Reads.pure []
  | cons a l ih =>
    rw [forall_mem_cons] at hr
    exact hr.1.bind (ih hr.2).map

/-! ## What is read, whatever the bytes are -/

/-- Whatever the bytes are, what the reader gives satisfies `P`. -/
def Yields (r : Reader α) (P : α → Prop) : Prop := ∀ bs, P (r.run bs).1

theorem Yields.pure {P : α → Prop} (h : P a) : Yields (Pure.pure a) P := fun _ => h

theorem Yields.bind {P : β → Prop} (h : ∀ a, Yields (f a) P) :
    Yields (r >>= f) P := fun bs => h (r.run bs).1 (r.run bs).2

theorem length_many (r : Reader α) (n : ℕ) : Yields (many r n) fun l => l.length = n := by
  induction n with
  | zero => exact Yields.pure rfl
  | succ n ih => exact fun bs => congrArg (· + 1) (ih (r.run bs).2)

/-- Places that exist are all filled, in order, and the others stay. -/
theorem fill_run (r : Reader α) (n : ℕ) : ∀ (k : ℕ) (cells : List α) (bs : List UInt8),
    k + n ≤ cells.length → (fill r n k cells).run bs =
      (some (cells.take k ++ ((many r n).run bs).1 ++ cells.drop (k + n)),
        ((many r n).run bs).2) := by
  induction n with
  | zero =>
    intro k cells bs _
    have hnil : ((many r 0).run bs).1 = [] := rfl
    rw [hnil, append_nil, Nat.add_zero, take_append_drop]
    rfl
  | succ n ih =>
    intro k cells bs hk
    have hlt : k < cells.length := by omega
    have hloop : (fill r (n + 1) k cells).run bs =
        (fill r n (k + 1) (cells.set k (r.run bs).1)).run (r.run bs).2 := by
      rw [fill, if_pos hlt]
      rfl
    have hmany : (many r (n + 1)).run bs =
        ((r.run bs).1 :: ((many r n).run (r.run bs).2).1, ((many r n).run (r.run bs).2).2) := rfl
    have htake : (cells.set k (r.run bs).1).take (k + 1) = cells.take k ++ [(r.run bs).1] := by
      rw [take_add_one, take_set_of_le (le_refl k), getElem?_set_self hlt]
      rfl
    have hdrop : (cells.set k (r.run bs).1).drop (k + 1 + n) = cells.drop (k + (n + 1)) := by
      rw [drop_set_of_lt (by omega), Nat.add_assoc, Nat.add_comm 1 n]
    rw [hloop, ih (k + 1) _ _ (by rw [length_set]; omega), hmany, htake, hdrop]
    simp

end ByteReader
