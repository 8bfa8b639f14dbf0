import Mathlib.Data.List.Basic
import Mathlib.Data.Nat.Init

/-!
# Intervals that join

A table of half-open intervals in which each begins where the one before it ends leaves no gap and
has no overlap: what lies between its ends lies in exactly one of them.
-/

namespace Tiles

variable {α : Type*} (lo hi : α → ℕ)

def covers (x : ℕ) (a : α) : Bool := lo a ≤ x && x < hi a

/-- The intervals join from the start to the stop. -/
def joined (start : ℕ) (l : List α) (stop : ℕ) : Bool :=
  match l with
  | [] => start = stop
  | a :: l => lo a = start && lo a ≤ hi a && joined (hi a) l stop

variable {lo hi} {start stop x : ℕ} {l : List α}

theorem joined_cons {a : α} : joined lo hi start (a :: l) stop = true ↔
    lo a = start ∧ lo a ≤ hi a ∧ joined lo hi (hi a) l stop = true := by
  simp [joined, and_assoc]

theorem filter_of_lt (h : joined lo hi start l stop = true) (hx : x < start) :
    l.filter (covers lo hi x) = [] := by
  induction l generalizing start with
  | nil => rfl
  | cons a l ih =>
    obtain ⟨hlo, hle, hrest⟩ := joined_cons.mp h
    have hout : ¬ covers lo hi x a = true := by
      simp only [covers, Bool.and_eq_true, decide_eq_true_eq]
      omega
    rw [List.filter_cons_of_neg hout]
    exact ih hrest (by omega)

/-- Between the ends, exactly one interval has the number. -/
theorem filter_covers (h : joined lo hi start l stop = true) (hstart : start ≤ x)
    (hstop : x < stop) : ∃ a, l.filter (covers lo hi x) = [a] := by
  induction l generalizing start with
  | nil =>
    have heq : start = stop := of_decide_eq_true h
    omega
  | cons a l ih =>
    obtain ⟨hlo, hle, hrest⟩ := joined_cons.mp h
    rcases Nat.lt_or_ge x (hi a) with hin | hout
    · have hcovers : covers lo hi x a = true := by
        simp only [covers, Bool.and_eq_true, decide_eq_true_eq]
        omega
      refine ⟨a, ?_⟩
      rw [List.filter_cons_of_pos hcovers, filter_of_lt hrest hin]
    · have hcovers : ¬ covers lo hi x a = true := by
        simp only [covers, Bool.and_eq_true, decide_eq_true_eq]
        omega
      rw [List.filter_cons_of_neg hcovers]
      exact ih hrest hout

theorem find_of_filter {p : α → Bool} {a : α} (h : l.filter p = [a]) : l.find? p = some a := by
  rw [← List.head?_filter, h]
  rfl

end Tiles
