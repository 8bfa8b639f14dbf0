import Mathlib

/-!
# Priority queues

A queue gives back a greatest of its elements; which one of several it gives is its own affair.
-/

/-- A way to take a greatest element, by some key, from the elements that are queued. -/
structure PriorityQueue {α M : Type*} [LinearOrder M] (key : α → M) where
  pop : List α → Option (α × List α)
  pop_isSome : ∀ x xs, (pop (x :: xs)).isSome = true
  perm : ∀ {xs y rest}, pop xs = some (y, rest) → xs.Perm (y :: rest)
  greatest : ∀ {xs y rest}, pop xs = some (y, rest) → ∀ x ∈ xs, key x ≤ key y

namespace PriorityQueue

variable {α M : Type*} [LinearOrder M] {key : α → M} {xs others rest : List α} {best : α}

/-- An element with a greater key than all others is taken, and the others are left. -/
theorem pop_best (q : PriorityQueue key) (h : xs.Perm (best :: others))
    (hlow : ∀ x ∈ others, key x < key best) :
    ∃ rest, q.pop xs = some (best, rest) ∧ rest.Perm others := by
  obtain ⟨x, xs', rfl⟩ : ∃ x xs', xs = x :: xs' := by
    cases xs with
    | nil => exact absurd h.nil_eq (List.cons_ne_nil _ _).symm
    | cons x xs' => exact ⟨x, xs', rfl⟩
  obtain ⟨⟨y, rest⟩, hpop⟩ := Option.isSome_iff_exists.mp (q.pop_isSome x xs')
  have hperm := h.symm.trans (q.perm hpop)
  have hy : y = best := by
    rcases List.mem_cons.mp (hperm.mem_iff.mpr List.mem_cons_self) with heq | hother
    · exact heq
    · exact absurd (q.greatest hpop best (h.mem_iff.mpr List.mem_cons_self))
        (not_le.mpr (hlow y hother))
  subst hy
  exact ⟨rest, hpop, (List.perm_cons y).mp hperm.symm⟩

/-- The first greatest element, and the others in their order. -/
def popFirst (key : α → M) : List α → Option (α × List α)
  | [] => none
  | x :: xs =>
    match popFirst key xs with
    | none => some (x, [])
    | some (y, rest) => if key x < key y then some (y, x :: rest) else some (x, y :: rest)

theorem popFirst_isSome (x : α) (xs : List α) : (popFirst key (x :: xs)).isSome = true := by
  unfold popFirst
  split
  · exact rfl
  · split <;> rfl

/-- Only an empty queue has no first element. -/
theorem eq_nil_of_popFirst (h : popFirst key xs = none) : xs = [] := by
  cases xs with
  | nil => rfl
  | cons x xs =>
    have hsome : (popFirst key (x :: xs)).isSome = true := popFirst_isSome x xs
    rw [h] at hsome
    cases hsome

theorem popFirst_perm {y : α} (h : popFirst key xs = some (y, rest)) : xs.Perm (y :: rest) := by
  induction xs generalizing y rest with
  | nil => cases h
  | cons x xs ih =>
    unfold popFirst at h
    split at h
    next hnone =>
      obtain ⟨rfl, rfl⟩ := Prod.mk.inj (Option.some.inj h)
      rw [eq_nil_of_popFirst hnone]
    next z rest' hsome =>
      split at h
      · obtain ⟨rfl, rfl⟩ := Prod.mk.inj (Option.some.inj h)
        exact ((ih hsome).cons x).trans (.swap _ _ _)
      · obtain ⟨rfl, rfl⟩ := Prod.mk.inj (Option.some.inj h)
        exact (ih hsome).cons x

theorem popFirst_greatest {y : α} (h : popFirst key xs = some (y, rest)) :
    ∀ x ∈ xs, key x ≤ key y := by
  induction xs generalizing y rest with
  | nil => cases h
  | cons x xs ih =>
    intro x' hx'
    unfold popFirst at h
    split at h
    next hnone =>
      obtain ⟨rfl, rfl⟩ := Prod.mk.inj (Option.some.inj h)
      rw [eq_nil_of_popFirst hnone] at hx'
      rw [List.mem_singleton.mp hx']
    next z rest' hsome =>
      split at h
      next hlt =>
        obtain ⟨rfl, rfl⟩ := Prod.mk.inj (Option.some.inj h)
        rcases List.mem_cons.mp hx' with rfl | hin
        · exact le_of_lt hlt
        · exact ih hsome x' hin
      next hle =>
        obtain ⟨rfl, rfl⟩ := Prod.mk.inj (Option.some.inj h)
        rcases List.mem_cons.mp hx' with rfl | hin
        · exact le_rfl
        · exact le_trans (ih hsome x' hin) (not_lt.mp hle)

/-- The queue that gives the first greatest element. -/
def first (key : α → M) : PriorityQueue key where
  pop := popFirst key
  pop_isSome := popFirst_isSome
  perm := popFirst_perm
  greatest := popFirst_greatest

end PriorityQueue
