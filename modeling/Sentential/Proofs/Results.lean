/-!
# Results

Peeling steps that may fail off a computation.
-/

namespace Sentential

variable {ε α β : Type} {e : ε} {a : α} {b : β} {x : Except ε α} {f : α → Except ε β}

@[simp] theorem ok_bind : (Except.ok a >>= f : Except ε β) = f a := rfl

@[simp] theorem error_bind : (Except.error e >>= f : Except ε β) = .error e := rfl

@[simp] theorem pure_eq_ok : (pure a : Except ε α) = .ok a := rfl

@[simp] theorem throw_eq_error : (throw e : Except ε α) = .error e := rfl

theorem bind_eq_ok : x >>= f = .ok b ↔ ∃ a, x = .ok a ∧ f a = .ok b := by
  cases x <;> simp

theorem bind_eq_error : x >>= f = .error e ↔ x = .error e ∨ ∃ a, x = .ok a ∧ f a = .error e := by
  cases x <;> simp

end Sentential
