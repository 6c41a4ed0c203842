/-
Faults: the ways an operation can be left without any answer. A fault is no error that a caller
could handle; a run that meets one ends there. And what steps that may fail come to when one follows
the other.
-/

namespace ProcessNet

/-- Why an operation has no answer at all. -/
inductive Fault where
  /-- A token count would pass the largest count. -/
  | countOverflow
  /-- An adjacency row or a slot was addressed that does not exist. -/
  | missingSlot
  /-- The rows of the incidence and the slots of the net have fallen out of step. -/
  | slotMismatch
  /-- A text would be longer than any text can be. -/
  | textTooLong
  /-- The state space has more states than can be numbered. -/
  | tooManyStates
deriving DecidableEq, Repr

/-! ## Steps that may fail, one after the other -/

variable {ε σ α β : Type}

theorem bind_of_ok {m : EStateM ε σ α} {f : α → EStateM ε σ β} {s s' : σ} {a : α}
    (h : m s = .ok a s') : (m >>= f) s = f a s' := by
  simp only [bind, EStateM.bind, h]

theorem bind_of_error {m : EStateM ε σ α} {f : α → EStateM ε σ β} {s s' : σ} {e : ε}
    (h : m s = .error e s') : (m >>= f) s = .error e s' := by
  simp only [bind, EStateM.bind, h]

theorem get_bind {f : σ → EStateM ε σ β} {s : σ} : (get >>= f) s = f s s := rfl

theorem pure_apply {a : α} {s : σ} : (pure a : EStateM ε σ α) s = .ok a s := rfl

theorem bind_eq_ok {m : EStateM ε σ α} {f : α → EStateM ε σ β} {s s' : σ} {b : β} :
    (m >>= f) s = .ok b s' ↔ ∃ a s₁, m s = .ok a s₁ ∧ f a s₁ = .ok b s' := by
  constructor
  · intro h
    cases hm : m s with
    | ok a s₁ =>
      rw [bind_of_ok hm] at h
      exact ⟨a, s₁, rfl, h⟩
    | error e s₁ =>
      rw [bind_of_error hm] at h
      cases h
  · rintro ⟨a, s₁, hm, h⟩
    rw [bind_of_ok hm]
    exact h

end ProcessNet
