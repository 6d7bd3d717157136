/-!
# Programs that may fail

Rules for taking apart programs in `Except` and in `EStateM`.

* `bind_eq_ok` — a program that returns has returned at every step.
* `bind_ok`, `bind_error` — a program with state goes on after a step that succeeds and stops at
  one that fails.
* `final` — the state it stops in, either way.
-/

namespace Failing

variable {ε σ α β : Type}

theorem bind_eq_ok {x : Except ε α} {f : α → Except ε β} {b : β} (h : x >>= f = .ok b) :
    ∃ a, x = .ok a ∧ f a = .ok b := by
  cases x with
  | error e => cases h
  | ok a => exact ⟨a, rfl, h⟩

/-- The state a program stops in. -/
def final : EStateM.Result ε σ α → σ
  | .ok _ s => s
  | .error _ s => s

section State

variable {x : EStateM ε σ α} {f : α → EStateM ε σ β} {s s' : σ}

theorem bind_ok {a : α} (h : x s = .ok a s') : (x >>= f) s = f a s' := by
  show EStateM.bind x f s = f a s'
  rw [EStateM.bind, h]

theorem bind_error {e : ε} (h : x s = .error e s') : (x >>= f) s = .error e s' := by
  show EStateM.bind x f s = .error e s'
  rw [EStateM.bind, h]

theorem bind_modify {x : EStateM ε σ α} {g : σ → σ} :
    (modify g >>= fun _ : PUnit => x) s = x (g s) := rfl

theorem final_map (g : α → β) (x : EStateM ε σ α) : final ((g <$> x) s) = final (x s) := by
  show final (EStateM.map g x s) = final (x s)
  unfold EStateM.map
  cases x s <;> rfl

end State
end Failing
