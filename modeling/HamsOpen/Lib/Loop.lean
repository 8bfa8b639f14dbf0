import Mathlib.Data.Nat.Init

/-!
# Loops that end

A loop of a program: a body that goes on with a new state or breaks with a result, and a size that
every round makes smaller. The size travels with the loop, so a loop of this kind has a result in
every state and no fuel shows in what is said about it.
-/

universe u v

/-- A loop whose every round that goes on makes its state smaller. -/
structure Loop (σ : Type u) (ρ : Type v) where
  /-- One round: the next state, or the result the loop breaks with. -/
  body : σ → σ ⊕ ρ
  /-- How large a state is. -/
  size : σ → ℕ
  shrinks : ∀ {s t : σ}, body s = .inl t → size t < size s

namespace Loop

variable {σ : Type u} {ρ : Type v} (L : Loop σ ρ)

/-- What the loop gives within `n` rounds, if it breaks in one of them. -/
def within : ℕ → σ → Option ρ
  | 0, _ => none
  | n + 1, s => match L.body s with
    | .inl t => within n t
    | .inr r => some r

theorem within_isSome {n : ℕ} {s : σ} (h : L.size s < n) : (L.within n s).isSome := by
  induction n generalizing s with
  | zero => omega
  | succ n ih =>
    unfold within
    cases hbody : L.body s with
    | inl t =>
      apply ih
      have hless := L.shrinks hbody
      omega
    | inr r => exact rfl

/-- More rounds than enough change nothing. -/
theorem within_mono {n k : ℕ} {s : σ} {r : ρ} (h : L.within n s = some r) (hle : n ≤ k) :
    L.within k s = some r := by
  induction n generalizing s k with
  | zero => cases h
  | succ n ih =>
    obtain ⟨k, rfl⟩ : ∃ j, k = j + 1 := ⟨k - 1, by omega⟩
    unfold within at h ⊢
    cases hbody : L.body s with
    | inl t =>
      rw [hbody] at h
      exact ih h (by omega)
    | inr r' =>
      rw [hbody] at h
      exact h

/-- What the loop gives. -/
def run (s : σ) : ρ := (L.within (L.size s + 1) s).get (L.within_isSome (Nat.lt_succ_self _))

/-- The loop is over within any number of rounds larger than its state. -/
theorem within_eq {n : ℕ} {s : σ} (h : L.size s < n) : L.within n s = some (L.run s) :=
  L.within_mono (Option.some_get _).symm h

variable {L}

theorem run_of_break {s : σ} {r : ρ} (h : L.body s = .inr r) : L.run s = r := by
  have hrun := L.within_eq (Nat.lt_succ_self (L.size s))
  unfold within at hrun
  rw [h] at hrun
  exact (Option.some.inj hrun).symm

theorem run_of_next {s t : σ} (h : L.body s = .inl t) : L.run s = L.run t := by
  have hrun := L.within_eq (Nat.lt_succ_self (L.size s))
  unfold within at hrun
  rw [h] at hrun
  exact (Option.some.inj ((L.within_eq (L.shrinks h)).symm.trans hrun)).symm

/-- What holds where the loop breaks, and of a state whenever it holds of the next one, holds of
every run. -/
theorem induct {P : σ → ρ → Prop} (hbreak : ∀ s r, L.body s = .inr r → P s r)
    (hnext : ∀ s t r, L.body s = .inl t → P t r → P s r) (s : σ) : P s (L.run s) := by
  induction h : L.size s using Nat.strongRecOn generalizing s with
  | ind n ih =>
    cases hbody : L.body s with
    | inl t =>
      rw [run_of_next hbody]
      have hless := L.shrinks hbody
      exact hnext s t _ hbody (ih (L.size t) (by omega) t rfl)
    | inr r =>
      rw [run_of_break hbody]
      exact hbreak s r hbody

end Loop
