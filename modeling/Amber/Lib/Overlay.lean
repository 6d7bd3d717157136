import Amber.Lib.Runs

/-!
# Stacked trees

A tree is a partial function on paths.  A layer is a list of operations: `put` places something at a
path, in directories that are made for it where there are none; `drop` takes away what lower layers
have at a path and below it, `clear` what they have below it.

There are two ways to bring a layer onto a tree.  `stack` is what layers are for: first everything
goes that the layer takes away, then everything comes that it places.  The other is to apply the
operations one after the other as they are listed.

* `run_apply` — what happens at a path depends on what is at this path, and on nothing else.
* `run_eq_stack_iff` — the two agree exactly if what the layer places at a path, before it takes
  away what is there, makes no difference to what it places afterwards.  This does not depend on the
  tree below.
* `orderly_of_deletions_first` — so it is for a layer that takes away first.
-/

namespace Overlay

open List Runs

variable {N V : Type}

/-- What a layer says about the tree. -/
inductive Op (N V : Type)
  /-- Something stands at a path. -/
  | put (path : List N) (v : V)
  /-- Nothing of what is below the layer is left at a path and below it. -/
  | drop (path : List N)
  /-- Nothing of what is below the layer is left below a path. -/
  | clear (path : List N)

abbrev Tree (N V : Type) := List N → Option V

namespace Op

def isPut : Op N V → Bool
  | .put _ _ => true
  | _ => false

/-- The operation takes away what is at `q`. -/
def Covers (q : List N) : Op N V → Prop
  | .put _ _ => False
  | .drop path => path <+: q
  | .clear path => path <+: q ∧ path ≠ q

theorem not_covers_of_isPut {q : List N} {op : Op N V} (h : op.isPut = true) : ¬ op.Covers q := by
  cases op with
  | put path v => exact id
  | drop path | clear path => cases h

end Op

def puts (ops : List (Op N V)) : List (Op N V) := ops.filter Op.isPut

def deletions (ops : List (Op N V)) : List (Op N V) := ops.filter fun op => !op.isPut

theorem puts_append (l m : List (Op N V)) : puts (l ++ m) = puts l ++ puts m :=
  filter_append l m

theorem puts_cons_of_covers {q : List N} {op : Op N V} (h : op.Covers q) (ops : List (Op N V)) :
    puts (op :: ops) = puts ops :=
  filter_cons_of_neg fun hput => Op.not_covers_of_isPut hput h

variable [DecidableEq N] (isDir : V → Bool) (made : V)

/-- What an operation makes of what is at `q`; `made` is a directory that is made on the way. -/
def Op.act (q : List N) (x : Option V) : Op N V → Option V
  | .put path v =>
    if q = path then some v
    else if path <+: q then if isDir v then x else none
    else if q <+: path then if x.any isDir then x else some made
    else x
  | .drop path => if path <+: q then none else x
  | .clear path => if path <+: q ∧ path ≠ q then none else x

/-- An operation on the tree. -/
def apply (T : Tree N V) (op : Op N V) : Tree N V := fun q => op.act isDir made q (T q)

/-- **A layer on a tree**: what it takes away goes first, then what it places comes. -/
def stack (T : Tree N V) (ops : List (Op N V)) : Tree N V :=
  Runs.run (apply isDir made) (Runs.run (apply isDir made) T (deletions ops)) (puts ops)

/-- The operation meets no file where it needs a directory: on the way to what it places, where it
places a directory, and where it clears one. -/
def Op.Unblocked (T : Tree N V) : Op N V → Prop
  | .put path v =>
    (∀ a x, a <+: path → a ≠ path → T a = some x → isDir x = true) ∧
      (isDir v = true → ∀ x, T path = some x → isDir x = true)
  | .drop _ => True
  | .clear path => ∀ x, T path = some x → isDir x = true

/-! ## At one path -/

section At

variable {isDir made} {q : List N}

/-- What the operations of a list make of what is at `q`. -/
def settle (isDir : V → Bool) (made : V) (q : List N) (x : Option V) (ops : List (Op N V)) :
    Option V :=
  Runs.run (Op.act isDir made q) x ops

/-- **Operations act on each path by itself.** -/
theorem run_apply (T : Tree N V) (ops : List (Op N V)) (q : List N) :
    run (apply isDir made) T ops q = settle isDir made q (T q) ops := by
  induction ops generalizing T with
  | nil => rfl
  | cons op ops ih => exact ih (apply isDir made T op)

theorem act_of_covers {op : Op N V} (h : op.Covers q) (x : Option V) :
    op.act isDir made q x = none := by
  cases op with
  | put path v => exact h.elim
  | drop path | clear path => exact if_pos h

theorem act_of_not_covers {op : Op N V} (hput : op.isPut = false) (h : ¬ op.Covers q)
    (x : Option V) : op.act isDir made q x = x := by
  cases op with
  | put path v => cases hput
  | drop path | clear path => exact if_neg h

/-- Where nothing is taken away, only what is placed matters. -/
theorem settle_puts {ops : List (Op N V)} (h : ∀ op ∈ ops, ¬ op.Covers q) (x : Option V) :
    settle isDir made q x ops = settle isDir made q x (puts ops) := by
  induction ops generalizing x with
  | nil => rfl
  | cons op ops ih =>
    rw [forall_mem_cons] at h
    cases hput : op.isPut with
    | true =>
      rw [puts, filter_cons_of_pos hput]
      exact ih h.2 _
    | false =>
      rw [puts, filter_cons_of_neg (by simp [hput])]
      exact (congrArg (settle isDir made q · ops) (act_of_not_covers hput h.1 x)).trans (ih h.2 x)

variable (isDir made) in
/-- What was there is gone once it has been taken away. -/
theorem settle_deletions (ops : List (Op N V)) (x : Option V) :
    (∀ op ∈ ops, ¬ op.Covers q) ∧ settle isDir made q x (deletions ops) = x ∨
      (∃ op ∈ ops, op.Covers q) ∧ settle isDir made q x (deletions ops) = none := by
  induction ops generalizing x with
  | nil => exact .inl ⟨by simp, rfl⟩
  | cons op ops ih =>
    cases hput : op.isPut with
    | true =>
      rw [deletions, filter_cons_of_neg (by simp [hput])]
      refine (ih x).imp (fun h => ⟨?_, h.2⟩) fun h => ⟨?_, h.2⟩
      · exact forall_mem_cons.2 ⟨Op.not_covers_of_isPut hput, h.1⟩
      · exact exists_mem_cons_of_exists h.1
    | false =>
      rw [deletions, filter_cons_of_pos (by simp [hput])]
      by_cases hop : op.Covers q
      · have hnone : settle isDir made q none (deletions ops) = none := by
          rcases ih none with h | h
          · exact h.2
          · exact h.2
        refine .inr ⟨⟨op, mem_cons_self, hop⟩, ?_⟩
        exact (congrArg (settle isDir made q · (deletions ops)) (act_of_covers hop x)).trans hnone
      · have hx : op.act isDir made q x = x := act_of_not_covers hput hop x
        have hstep : settle isDir made q x (op :: deletions ops) =
            settle isDir made q x (deletions ops) :=
          congrArg (settle isDir made q · (deletions ops)) hx
        refine (ih x).imp (fun h => ⟨?_, hstep.trans h.2⟩) fun h => ⟨?_, hstep.trans h.2⟩
        · exact forall_mem_cons.2 ⟨hop, h.1⟩
        · exact exists_mem_cons_of_exists h.1

end At

/-! ## The order of a layer -/

/-- At every path, what the layer places before the last operation that takes away what is there
makes no difference to what it places afterwards. -/
def Orderly (ops : List (Op N V)) : Prop :=
  ∀ q before op after, ops = before ++ op :: after → op.Covers q →
    (∀ op' ∈ after, ¬ op'.Covers q) →
    settle isDir made q none (puts before ++ puts after) = settle isDir made q none (puts after)

/-- The last of the members of a list that have a property. -/
theorem exists_last {α : Type} {P : α → Prop} {l : List α} (h : ∃ a ∈ l, P a) :
    ∃ before a after, l = before ++ a :: after ∧ P a ∧ ∀ b ∈ after, ¬ P b := by
  induction l with
  | nil => simp at h
  | cons b l ih =>
    by_cases hl : ∃ a ∈ l, P a
    · obtain ⟨before, a, after, rfl, ha, hafter⟩ := ih hl
      exact ⟨b :: before, a, after, rfl, ha, hafter⟩
    · rw [exists_mem_cons_iff] at h
      exact ⟨[], b, l, rfl, h.resolve_right hl, fun a ha hP => hl ⟨a, ha, hP⟩⟩

section Order

variable {isDir made} {T : Tree N V} {q : List N}

theorem stack_at (T : Tree N V) (ops : List (Op N V)) (q : List N) :
    stack isDir made T ops q =
      settle isDir made q (settle isDir made q (T q) (deletions ops)) (puts ops) := by
  rw [stack, run_apply, run_apply]

/-- A path from which nothing is taken away. -/
theorem run_eq_stack_of_not_covers {ops : List (Op N V)} (h : ∀ op ∈ ops, ¬ op.Covers q) :
    run (apply isDir made) T ops q = stack isDir made T ops q := by
  rw [run_apply, stack_at, settle_puts h]
  rcases settle_deletions isDir made (q := q) ops (T q) with hd | ⟨⟨op, hop, hc⟩, -⟩
  · rw [hd.2]
  · exact absurd hc (h op hop)

/-- A path from which something is taken away, for the last time by `op`. -/
theorem run_eq_stack_iff_of_last {before after : List (Op N V)} {op : Op N V} (hop : op.Covers q)
    (hafter : ∀ op' ∈ after, ¬ op'.Covers q) :
    run (apply isDir made) T (before ++ op :: after) q =
        stack isDir made T (before ++ op :: after) q ↔
      settle isDir made q none (puts before ++ puts after) =
        settle isDir made q none (puts after) := by
  have hrun : run (apply isDir made) T (before ++ op :: after) q =
      settle isDir made q none (puts after) := by
    rw [run_apply, settle, run_append, run_cons, act_of_covers hop, ← settle,
      settle_puts hafter]
  have hstack : stack isDir made T (before ++ op :: after) q =
      settle isDir made q none (puts before ++ puts after) := by
    have hmem : op ∈ before ++ op :: after := mem_append_right _ mem_cons_self
    rw [stack_at, puts_append, puts_cons_of_covers hop]
    rcases settle_deletions isDir made (q := q) (before ++ op :: after) (T q)
      with hd | hd
    · exact absurd hop (hd.1 op hmem)
    · rw [hd.2]
  rw [hrun, hstack]
  exact eq_comm

/-- **When the order does not matter.**  Applying the operations of a layer as they are listed
stacks the layer exactly if the layer is orderly. -/
theorem run_eq_stack_iff (T : Tree N V) (ops : List (Op N V)) :
    run (apply isDir made) T ops = stack isDir made T ops ↔ Orderly isDir made ops := by
  constructor
  · rintro h q before op after rfl hop hafter
    exact (run_eq_stack_iff_of_last hop hafter).1 (congrFun h q)
  · intro h
    funext q
    by_cases hcov : ∃ op ∈ ops, op.Covers q
    · obtain ⟨before, op, after, rfl, hop, hafter⟩ := exists_last hcov
      exact (run_eq_stack_iff_of_last hop hafter).2 (h q before op after rfl hop hafter)
    · exact run_eq_stack_of_not_covers fun op hop hc => hcov ⟨op, hop, hc⟩

/-- A layer that takes away first and places afterwards is orderly. -/
theorem orderly_of_deletions_first (del : List (Op N V)) {add : List (Op N V)}
    (hdel : ∀ op ∈ del, op.isPut = false) (hadd : ∀ op ∈ add, op.isPut = true) :
    Orderly isDir made (del ++ add) := by
  intro q before op after heq hop _
  rcases append_eq_append_iff.1 heq with ⟨mid, rfl, hmid⟩ | ⟨mid, rfl, -⟩
  · have hmem : op ∈ add := hmid ▸ mem_append_right mid mem_cons_self
    exact absurd hop (Op.not_covers_of_isPut (hadd op hmem))
  · have hnil : puts before = [] := filter_eq_nil_iff.2 fun op' hop' => by
      rw [hdel op' (mem_append_left mid hop')]
      exact Bool.false_ne_true
    rw [hnil, nil_append]

end Order

end Overlay
