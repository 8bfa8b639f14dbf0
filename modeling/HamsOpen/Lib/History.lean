import Mathlib.Data.List.Basic

/-!
# Histories

A history is the list of the events so far, newest first, so that a step adds to its front. What it
tells about an event is told by the part that came after it.
-/

namespace History

variable {α β : Type*} [DecidableEq α] {a : α} {f : α → Option β} {es log : List α}

/-- What happened after the latest `a`, newest first; everything, if it never happened. -/
def since (a : α) (log : List α) : List α := log.takeWhile (· != a)

theorem since_append (h : a ∉ es) : since a (es ++ log) = es ++ since a log :=
  List.takeWhile_append_of_pos fun e he => by
    rw [bne_iff_ne]
    rintro rfl
    exact h he

@[simp] theorem since_cons_self : since a (a :: log) = [] := by
  simp [since]

theorem since_of_append_cons (h : a ∉ es) : since a (es ++ a :: log) = es := by
  rw [since_append h, since_cons_self, List.append_nil]

/-- The first value that `f` gives of what happened after the latest `a`. -/
def firstSince (a : α) (f : α → Option β) (log : List α) : Option β :=
  ((since a log).filterMap f).getLast?

@[simp] theorem firstSince_cons_self : firstSince a f (a :: log) = none := by
  simp [firstSince]

/-- What happens later counts only when there is no first value yet. -/
theorem firstSince_append (h : a ∉ es) :
    firstSince a f (es ++ log) = (firstSince a f log).or (es.filterMap f).getLast? := by
  unfold firstSince
  rw [since_append h, List.filterMap_append, List.getLast?_append]

theorem firstSince_append_of_some {b : β} (h : a ∉ es) (hb : firstSince a f log = some b) :
    firstSince a f (es ++ log) = some b := by
  rw [firstSince_append h, hb]
  rfl

theorem firstSince_append_of_none (h : a ∉ es) (hnone : firstSince a f log = none) :
    firstSince a f (es ++ log) = (es.filterMap f).getLast? := by
  rw [firstSince_append h, hnone]
  rfl

/-! ### Conditions on a whole history -/

section Throughout

variable {γ : Type*} {P Q R : γ → List γ → Prop} {g : γ} {history : List γ}

/-- Every event meets the condition, with what came before it. -/
def Throughout (P : γ → List γ → Prop) : List γ → Prop
  | [] => True
  | g :: earlier => P g earlier ∧ Throughout P earlier

instance decidableThroughout [∀ g earlier, Decidable (P g earlier)] :
    ∀ history, Decidable (Throughout P history)
  | [] => .isTrue trivial
  | g :: earlier =>
    have := decidableThroughout earlier
    inferInstanceAs (Decidable (P g earlier ∧ Throughout P earlier))

/-- Conditions that agree all along a history are met together. -/
theorem Throughout.congr (h : Throughout (fun g earlier => P g earlier ↔ Q g earlier) history) :
    Throughout P history ↔ Throughout Q history := by
  induction history with
  | nil => exact Iff.rfl
  | cons g earlier ih => exact and_congr h.1 (ih h.2)

theorem Throughout.imp (himp : ∀ g earlier, P g earlier → Q g earlier)
    (h : Throughout P history) : Throughout Q history := by
  induction history with
  | nil => trivial
  | cons g earlier ih => exact ⟨himp _ _ h.1, ih h.2⟩

theorem Throughout.and (hP : Throughout P history) (hQ : Throughout Q history) :
    Throughout (fun g earlier => P g earlier ∧ Q g earlier) history := by
  induction history with
  | nil => trivial
  | cons g earlier ih => exact ⟨⟨hP.1, hQ.1⟩, ih hP.2 hQ.2⟩

end Throughout

end History
