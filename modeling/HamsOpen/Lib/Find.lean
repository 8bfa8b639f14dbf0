import Mathlib.Data.List.Infix

/-!
# The first place of a pattern
-/

namespace Find

variable {α : Type}

section Infix

variable {pattern before rest : List α}

/-- What is not in a list can be left out of the search. -/
theorem infix_append_iff {a : α} (h : a ∉ before) :
    a :: pattern <:+: before ++ rest ↔ a :: pattern <:+: rest := by
  induction before with
  | nil => rfl
  | cons b before ih =>
    rw [List.cons_append, List.infix_cons_iff, ih fun hb => h (.tail b hb)]
    apply or_iff_right
    intro hprefix
    obtain ⟨rfl, -⟩ := List.cons_prefix_cons.mp hprefix
    exact h (.head _)

/-- A pattern does not occur before its first element does. -/
theorem not_infix_of_not_mem {a : α} (h : a ∉ before) :
    ¬ a :: pattern <:+: before ++ (a :: pattern).dropLast := by
  rw [infix_append_iff h]
  intro hwithin
  have hlength := hwithin.length_le
  rw [List.length_dropLast, List.length_cons] at hlength
  omega

end Infix

variable [DecidableEq α] (pattern : List α)

/-- What comes before the first place of the pattern, and after it. -/
def split : List α → Option (List α × List α)
  | [] => if pattern = [] then some ([], []) else none
  | a :: l =>
    if pattern <+: a :: l then some ([], (a :: l).drop pattern.length)
    else (split l).map fun r => (a :: r.1, r.2)

def contains (l : List α) : Bool := (split pattern l).isSome

variable {pattern} {l before after rest : List α}

theorem split_prefixed (h : pattern <+: l) :
    split pattern l = some ([], l.drop pattern.length) := by
  cases l with
  | nil =>
    obtain rfl := List.prefix_nil.mp h
    rfl
  | cons a l => exact if_pos h

theorem split_cons {a : α} (h : ¬ pattern <+: a :: l) :
    split pattern (a :: l) = (split pattern l).map fun r => (a :: r.1, r.2) := if_neg h

/-- What is found is a place of the pattern. -/
theorem eq_of_split (h : split pattern l = some (before, after)) :
    l = before ++ pattern ++ after := by
  induction l generalizing before with
  | nil =>
    rw [split] at h
    split at h
    next hnil =>
      cases h
      rw [hnil]
      rfl
    · cases h
  | cons a l ih =>
    by_cases hprefix : pattern <+: a :: l
    · rw [split_prefixed hprefix] at h
      cases h
      obtain ⟨t, ht⟩ := hprefix
      rw [← ht, List.drop_left, List.nil_append]
    · rw [split_cons hprefix, Option.map_eq_some_iff] at h
      obtain ⟨⟨before', after'⟩, hsplit, heq⟩ := h
      cases heq
      rw [ih hsplit]
      rfl

/-- A pattern is not found where it does not occur. -/
theorem split_eq_none : split pattern l = none ↔ ¬ pattern <:+: l := by
  constructor
  · intro h hwithin
    induction l with
    | nil =>
      obtain rfl := List.infix_nil.mp hwithin
      cases h
    | cons a l ih =>
      by_cases hprefix : pattern <+: a :: l
      · rw [split_prefixed hprefix] at h
        cases h
      · rw [split_cons hprefix, Option.map_eq_none_iff] at h
        exact ih h ((List.infix_cons_iff.mp hwithin).resolve_left hprefix)
  · intro h
    cases hsplit : split pattern l with
    | none => rfl
    | some r =>
      obtain ⟨before, after⟩ := r
      exact absurd ⟨before, after, (eq_of_split hsplit).symm⟩ h

theorem contains_iff : contains pattern l = true ↔ pattern <:+: l := by
  rw [contains, Option.isSome_iff_ne_none, ne_eq, split_eq_none, not_not]

/-- What does not have the first element of a pattern is passed over. -/
theorem split_append_of_not_mem {a : α} {pattern : List α} (h : a ∉ before) :
    split (a :: pattern) (before ++ rest) =
      (split (a :: pattern) rest).map fun r => (before ++ r.1, r.2) := by
  induction before with
  | nil => exact Option.map_id'.symm
  | cons b before ih =>
    have hprefix : ¬ a :: pattern <+: b :: (before ++ rest) := by
      intro hp
      obtain ⟨rfl, -⟩ := List.cons_prefix_cons.mp hp
      exact h (.head _)
    rw [List.cons_append, split_cons hprefix, ih fun hb => h (.tail b hb), Option.map_map]
    rfl

/-- A pattern that does not occur earlier is found where it is. -/
theorem split_first (hne : pattern ≠ []) (h : ¬ pattern <:+: before ++ pattern.dropLast) :
    split pattern (before ++ pattern ++ rest) = some (before, rest) := by
  induction before with
  | nil =>
    rw [List.nil_append, split_prefixed (List.prefix_append pattern rest), List.drop_left]
  | cons a before ih =>
    have hprefix : ¬ pattern <+: a :: (before ++ pattern ++ rest) := by
      intro hp
      -- such a place would end before the pattern does
      have hlong : pattern <+: a :: before ++ pattern.dropLast := by
        refine List.prefix_of_prefix_length_le hp ?_ ?_
        · refine ⟨[pattern.getLast hne] ++ rest, ?_⟩
          calc (a :: before ++ pattern.dropLast) ++ ([pattern.getLast hne] ++ rest)
              = a :: (before ++ (pattern.dropLast ++ [pattern.getLast hne]) ++ rest) := by
                simp only [List.cons_append, List.append_assoc]
            _ = a :: (before ++ pattern ++ rest) := by rw [List.dropLast_append_getLast hne]
        · rw [List.length_append, List.length_dropLast, List.length_cons]
          omega
      exact h hlong.isInfix
    rw [List.cons_append, List.cons_append, split_cons hprefix,
      ih fun hwithin => h (List.infix_cons hwithin)]
    rfl

/-- A pattern that does not occur earlier is not found in what ends before it does. -/
theorem split_take {k : ℕ} (hne : pattern ≠ []) (h : ¬ pattern <:+: before ++ pattern.dropLast)
    (hk : k < before.length + pattern.length) :
    split pattern ((before ++ pattern ++ rest).take k) = none := by
  have hpos := List.length_pos_of_ne_nil hne
  have hwhole : before ++ pattern ++ rest =
      (before ++ pattern.dropLast) ++ ([pattern.getLast hne] ++ rest) :=
    calc before ++ pattern ++ rest
        = before ++ (pattern.dropLast ++ [pattern.getLast hne]) ++ rest := by
          rw [List.dropLast_append_getLast hne]
      _ = _ := by simp only [List.append_assoc]
  rw [hwhole, List.take_append_of_le_length, split_eq_none]
  · intro hwithin
    exact h (hwithin.trans (List.take_prefix _ _).isInfix)
  · rw [List.length_append, List.length_dropLast]
    omega

end Find
