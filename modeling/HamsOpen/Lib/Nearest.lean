import Mathlib.InformationTheory.Hamming

/-! # Decoding to the nearest code word

Words are functions into an alphabet, and their distance is the number of places they differ at.
When the code words are far from one another, a received word close to one of them is farther
from every other one, and a search that keeps the first best candidate finds it. -/

namespace HamsOpen.Nearest

section Separated

variable {ι κ β : Type*} [Fintype κ] [DecidableEq β] {code : ι → κ → β} {t : ℕ}

/-- A word within half the distance of the code is nearer to its own code word. -/
theorem lt_of_separated (hcode : ∀ m n, m ≠ n → 2 * t < hammingDist (code m) (code n))
    {m n : ι} {r : κ → β} (hne : n ≠ m) (hnear : hammingDist (code m) r ≤ t) :
    hammingDist (code m) r < hammingDist (code n) r := by
  have hfar := hcode m n (Ne.symm hne)
  have htriangle := hammingDist_triangle (code m) r (code n)
  rw [hammingDist_comm r (code n)] at htriangle
  omega

end Separated

section Search

variable {α : Type*} (distance : α → ℕ)

/-- One candidate of the search: it replaces the best one so far only when it is nearer. -/
def keep (best : α × ℕ) (candidate : α) : α × ℕ :=
  if distance candidate < best.2 then (candidate, distance candidate) else best

/-- The best of the candidates, tried in order. -/
def search (start : α × ℕ) (candidates : List α) : α × ℕ := candidates.foldl (keep distance) start

variable {distance}

/-- Once the nearest candidate is held, it stays. -/
theorem search_of_le {m : α} {candidates : List α}
    (hbest : ∀ m' ∈ candidates, distance m ≤ distance m') :
    search distance (m, distance m) candidates = (m, distance m) := by
  induction candidates with
  | nil => rfl
  | cons candidate candidates ih =>
    have hkeep : keep distance (m, distance m) candidate = (m, distance m) :=
      if_neg (Nat.not_lt.mpr (hbest candidate List.mem_cons_self))
    have hstep : search distance (m, distance m) (candidate :: candidates) =
        search distance (keep distance (m, distance m) candidate) candidates := rfl
    rw [hstep, hkeep]
    exact ih fun m' hm' => hbest m' (List.mem_cons_of_mem _ hm')

/-- The search finds the one candidate nearer than all the others. -/
theorem search_eq {m : α} {candidates : List α} {start : α × ℕ} (hm : m ∈ candidates)
    (hstart : distance m < start.2)
    (hbest : ∀ m' ∈ candidates, m' ≠ m → distance m < distance m') :
    search distance start candidates = (m, distance m) := by
  induction candidates generalizing start with
  | nil => exact absurd hm List.not_mem_nil
  | cons candidate candidates ih =>
    have hstep : search distance start (candidate :: candidates) =
        search distance (keep distance start candidate) candidates := rfl
    rw [hstep]
    have hrest : ∀ m' ∈ candidates, m' ≠ m → distance m < distance m' :=
      fun m' hm' => hbest m' (List.mem_cons_of_mem _ hm')
    by_cases hcandidate : candidate = m
    · -- the nearest one is met now: nothing after it is nearer
      subst hcandidate
      have hkeep : keep distance start candidate = (candidate, distance candidate) :=
        if_pos hstart
      rw [hkeep]
      apply search_of_le
      intro m' hm'
      by_cases hne : m' = candidate
      · rw [hne]
      · exact (hrest m' hm' hne).le
    · -- some other one is met: it may be kept, and is still farther
      have hfar := hbest candidate List.mem_cons_self hcandidate
      apply ih ((List.mem_cons.mp hm).resolve_left (Ne.symm hcandidate)) _ hrest
      unfold keep
      split
      · exact hfar
      · exact hstart

end Search

end HamsOpen.Nearest
