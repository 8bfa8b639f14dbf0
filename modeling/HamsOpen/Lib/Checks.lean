/-!
# Checks, one after the other

What is known when a computation that may fail has succeeded: every step of it has, and every check
on the way was passed.
-/

namespace Except

variable {ε α β : Type} {x : Except ε α} {a : α}

theorem ok_of_bind {f : α → Except ε β} {b : β} (h : x >>= f = .ok b) :
    ∃ a, x = .ok a ∧ f a = .ok b := by
  cases x with
  | error e => cases h
  | ok a => exact ⟨a, rfl, h⟩

/-- A check that passes. -/
theorem ok_of_check {p : Prop} [Decidable p] {e : ε} (h : (if p then .error e else x) = .ok a) :
    ¬ p ∧ x = .ok a := by
  split at h
  · cases h
  · exact ⟨‹_›, h⟩

end Except
