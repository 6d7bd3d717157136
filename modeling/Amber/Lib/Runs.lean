import Mathlib.Data.List.Basic

/-!
# Runs of a deterministic step function

A system is a step function `step : σ → α → σ`; a run is a list of actions applied
one after the other.  Conditions on the environment are relations between the state
an action is taken in and the action, and `Each step ok s l` says every action of the
run meets the condition in the state it meets.

* `invariant` — what holds at the start and is kept by every permitted step holds at
  the end of every permitted run.
* `invariant_always` — the same for a property that every step keeps.
* `each_iff` — a condition on every step, spelled out over the prefixes of the run.
* `always_iff_each` — a property that a step keeps exactly under a condition holds all along a run
  exactly when every step meets the condition.
* `end_iff_each` — the same for the end of the run, where what is lost stays lost.
* `each_take` — a prefix of a permitted run is permitted.
* `related` — two systems that a step keeps in a relation are in it after every run.
* `trace_eq_of_sim` — systems that answer every action alike, from related states to related
  states, give the same answers along every run.
-/

namespace Runs

open List

variable {σ α : Type*} (step : σ → α → σ) (s : σ)

/-- The state a list of actions leads to. -/
def run (s : σ) (l : List α) : σ := l.foldl step s

/-- Every action of the run meets `ok` in the state it is taken in. -/
def Each (ok : σ → α → Prop) : σ → List α → Prop
  | _, [] => True
  | s, a :: l => ok s a ∧ Each ok (step s a) l

/-- A condition that can be tested can be tested along a run. -/
instance decidableEach (ok : σ → α → Prop) [∀ s a, Decidable (ok s a)] :
    ∀ (s : σ) (l : List α), Decidable (Each step ok s l)
  | _, [] => inferInstanceAs (Decidable True)
  | s, a :: l =>
    have := decidableEach ok (step s a) l
    inferInstanceAs (Decidable (ok s a ∧ Each step ok (step s a) l))

@[simp] theorem run_nil : run step s [] = s := rfl

@[simp] theorem run_cons (a : α) (l : List α) :
    run step s (a :: l) = run step (step s a) l := rfl

theorem run_append (l m : List α) :
    run step s (l ++ m) = run step (run step s l) m := foldl_append

theorem run_concat (l : List α) (a : α) :
    run step s (l ++ [a]) = step (run step s l) a := by
  rw [run_append, run_cons, run_nil]

variable {step} {ok : σ → α → Prop}

variable {l : List α} {s : σ} {I : σ → Prop} {L : σ → α → Prop}

theorem each_append {m : List α} :
    Each step ok s (l ++ m) ↔ Each step ok s l ∧ Each step ok (run step s l) m := by
  induction l generalizing s with
  | nil => simp [Each]
  | cons a l ih =>
    rw [cons_append, Each, ih, Each, run_cons, and_assoc]

/-- **The invariant rule.**  A property of the starting state that every permitted
step keeps holds at the end of every permitted run. -/
theorem invariant (hstep : ∀ s a, I s → ok s a → I (step s a))
    (h0 : I s) (hl : Each step ok s l) : I (run step s l) := by
  induction l generalizing s with
  | nil => exact h0
  | cons a l ih => exact ih (hstep s a h0 hl.1) hl.2

/-- What every step keeps holds at the end of every run. -/
theorem invariant_always (hstep : ∀ s a, I s → I (step s a)) (h0 : I s)
    (l : List α) : I (run step s l) := by
  induction l generalizing s with
  | nil => exact h0
  | cons a l ih => exact ih (hstep s a h0)

/-- The condition on every step, over the prefixes of the run. -/
theorem each_iff :
    Each step ok s l ↔ ∀ pre a post, l = pre ++ a :: post → ok (run step s pre) a := by
  constructor
  · rintro h pre a post rfl
    exact (each_append.1 h).2.1
  · intro h
    induction l generalizing s with
    | nil => trivial
    | cons a l ih =>
      refine ⟨h [] a l rfl, ih ?_⟩
      rintro pre b post rfl
      exact h (a :: pre) b post rfl

/-- A condition on the actions alone. -/
theorem each_of_forall {P : α → Prop} (h : ∀ a ∈ l, P a) :
    Each step (fun _ a => P a) s l := by
  induction l generalizing s with
  | nil => trivial
  | cons a l ih =>
    rw [forall_mem_cons] at h
    exact ⟨h.1, ih h.2⟩

theorem each_and {ok' : σ → α → Prop} :
    Each step (fun s a => ok s a ∧ ok' s a) s l ↔ Each step ok s l ∧ Each step ok' s l := by
  induction l generalizing s with
  | nil => simp [Each]
  | cons a l ih =>
    rw [Each, Each, Each, ih]
    exact and_and_and_comm

theorem each_take (h : Each step ok s l) (n : ℕ) :
    Each step ok s (l.take n) := by
  rw [← take_append_drop n l] at h
  exact (each_append.1 h).1

/-- **When a property holds all along a run.**  If a step from a good state leads to a good state
exactly when it meets `ok`, every state of the run is good exactly when every step meets `ok`.
`I` and `L` are what the steps may count on. -/
theorem always_iff_each {P : σ → Prop} (hI : ∀ s a, I s → L s a → I (step s a))
    (hP : ∀ s a, I s → L s a → P s → (P (step s a) ↔ ok s a)) (h0 : I s) (hgood : P s)
    (hl : Each step L s l) :
    (∀ pre, pre <+: l → P (run step s pre)) ↔ Each step ok s l := by
  induction l generalizing s with
  | nil =>
    refine ⟨fun _ => trivial, fun _ pre hpre => ?_⟩
    rw [prefix_nil.1 hpre]
    exact hgood
  | cons a l ih =>
    have hnext := hP s a h0 hl.1 hgood
    constructor
    · intro h
      have hstep : P (step s a) := h [a] ⟨l, rfl⟩
      exact ⟨hnext.1 hstep, (ih (hI s a h0 hl.1) hstep hl.2).1 fun pre hpre =>
        h (a :: pre) (cons_prefix_cons.2 ⟨rfl, hpre⟩)⟩
    · rintro ⟨hok, hrest⟩ pre hpre
      rcases prefix_cons_iff.1 hpre with rfl | ⟨pre', rfl, hpre'⟩
      · exact hgood
      · exact (ih (hI s a h0 hl.1) (hnext.2 hok) hl.2).2 hrest pre' hpre'

/-- **When a run ends well.**  If moreover no step leads from a bad state to a good one, the end of
the run is good exactly when every step meets `ok`. -/
theorem end_iff_each {P : σ → Prop} (hI : ∀ s a, I s → L s a → I (step s a))
    (hP : ∀ s a, I s → L s a → P s → (P (step s a) ↔ ok s a))
    (hbad : ∀ s a, I s → L s a → ¬ P s → ¬ P (step s a)) (h0 : I s) (hgood : P s)
    (hl : Each step L s l) : P (run step s l) ↔ Each step ok s l := by
  induction l generalizing s with
  | nil => exact ⟨fun _ => trivial, fun _ => hgood⟩
  | cons a l ih =>
    have hnext := hP s a h0 hl.1 hgood
    have h1 := hI s a h0 hl.1
    by_cases hstep : P (step s a)
    · rw [run_cons, ih h1 hstep hl.2, Each, and_iff_right (hnext.1 hstep)]
    · refine iff_of_false ?_ fun h => hstep (hnext.2 h.1)
      exact (invariant (I := fun s => I s ∧ ¬ P s)
        (fun s a h ha => ⟨hI s a h.1 ha, hbad s a h.1 ha h.2⟩) ⟨h1, hstep⟩ hl.2).2

/-! ## Two systems -/

section Trace

variable {τ β : Type*} {R : σ → τ → Prop}

/-- **Two runs.**  If a permitted step keeps two systems in a relation, so does a permitted run. -/
theorem related {step' : τ → α → τ} (hstep : ∀ s t a, R s t → ok s a → R (step s a) (step' t a))
    {s : σ} {t : τ} {l : List α} (h : R s t) (hl : Each step ok s l) :
    R (run step s l) (run step' t l) := by
  induction l generalizing s t with
  | nil => exact h
  | cons a l ih => exact ih (hstep s t a h hl.1) hl.2

/-- The answers of a system whose steps answer. -/
def trace (act : σ → α → σ × β) : σ → List α → List β
  | _, [] => []
  | s, a :: l => (act s a).2 :: trace act (act s a).1 l

/-- **Simulation.**  Related states give the same answer to every action and stay related, so
they give the same answers for good. -/
theorem trace_eq_of_sim {f : σ → α → σ × β} {g : τ → α → τ × β}
    (hstep : ∀ s t a, R s t → (f s a).2 = (g t a).2 ∧ R (f s a).1 (g t a).1) {s : σ} {t : τ}
    (h : R s t) (l : List α) : trace f s l = trace g t l := by
  induction l generalizing s t with
  | nil => rfl
  | cons a l ih =>
    obtain ⟨hans, hnext⟩ := hstep s t a h
    rw [trace, trace, hans, ih hnext]

end Trace

end Runs
