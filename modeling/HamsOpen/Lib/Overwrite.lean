import Mathlib.Data.List.Induction

/-!
# What is written last

When every event either writes a part of the state or leaves it, the part is after a run what was
written last, or what it was at the start.
-/

namespace Overwrite

variable {σ α β : Type*} {step : σ → α → σ} {part : σ → β} {write : α → Option β}

/-- The last value that the events write, or the one from before them. -/
def last (write : α → Option β) (l : List α) (before : β) : β :=
  (l.filterMap write).getLast?.getD before

@[simp] theorem last_nil {b : β} : last write [] b = b := rfl

@[simp] theorem last_concat {l : List α} {a : α} {b : β} :
    last write (l ++ [a]) b = (write a).getD (last write l b) := by
  unfold last
  rw [List.filterMap_append]
  cases hwrite : write a with
  | none => simp [hwrite]
  | some c => simp [hwrite]

/-- What one event does to the part is all that a run of them does. -/
theorem foldl_eq_last (hstep : ∀ s a, part (step s a) = (write a).getD (part s)) (l : List α)
    (s : σ) : part (l.foldl step s) = last write l (part s) := by
  induction l using List.reverseRecOn with
  | nil => rfl
  | append_singleton l a ih =>
    rw [List.foldl_append, last_concat, ← ih]
    exact hstep _ a

end Overwrite
