/-!
# Outcomes

An outcome is a value or an error. Behind a success of two steps is a success of each, and what can be evaluated of a value, or of
an error, can be evaluated of the outcome that has it.
-/

namespace NavCheck

variable {ε α β : Type}

/-- A run that goes on behind another run was preceded by a success of it. -/
theorem of_bind_eq_ok {x : Except ε α} {f : α → Except ε β} {b : β} (h : (x >>= f) = .ok b) :
    ∃ a, x = .ok a ∧ f a = .ok b := by
  cases x with
  | error e => cases h
  | ok a => exact ⟨a, rfl, h⟩

/-- A result of two steps is a result of the second from a result of the first. -/
theorem Except.bind_eq_ok_iff {x : Except ε α} {f : α → Except ε β} {b : β} :
    (x >>= f) = .ok b ↔ ∃ a, x = .ok a ∧ f a = .ok b := by
  refine ⟨of_bind_eq_ok, ?_⟩
  rintro ⟨a, rfl, h⟩
  exact h

instance Except.decidableOk (x : Except ε α) (p : α → Prop) [DecidablePred p] : Decidable (∃ a, x = .ok a ∧ p a) :=
  match x with
  | .ok a => decidable_of_iff (p a) (by simp)
  | .error _ => isFalse (by simp)

instance Except.decidableError (x : Except ε α) (p : ε → Prop) [DecidablePred p] : Decidable (∃ e, x = .error e ∧ p e) :=
  match x with
  | .ok _ => isFalse (by simp)
  | .error e => decidable_of_iff (p e) (by simp)

end NavCheck
