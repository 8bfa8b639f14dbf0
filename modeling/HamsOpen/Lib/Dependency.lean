import Mathlib.Data.Fintype.Card
import Mathlib.Data.Set.Finite.Basic
import Mathlib.Data.List.Nodup
import Mathlib.Logic.Relation
import Mathlib.Order.WellFounded

/-!
# Dependencies and orders

Things depend on others, some of which may be unknown. An order of the known things that puts each
behind all it depends on exists only when no dependencies lead to something unknown or go round a
cycle; and when none of some things can come first, they do.
-/

namespace Dependency

open Relation

variable {α : Type*} {dep : α → α → Prop} {known : α → Prop} {order : List α} {x y : α}

/-- The dependencies of `x` lead to something unknown, or round a cycle. -/
def Blocked (dep : α → α → Prop) (known : α → Prop) (x : α) : Prop :=
  ∃ y, ReflTransGen dep x y ∧ (¬ known y ∨ TransGen dep y y)

/-- Each thing comes once, behind all it depends on. -/
structure Ordered (dep : α → α → Prop) (order : List α) : Prop where
  nodup : order.Nodup
  behind : ∀ x ∈ order, ∀ y, dep x y → [y, x].Sublist order

theorem mem_of_pair (h : [y, x].Sublist order) : y ∈ order :=
  h.subset List.mem_cons_self

/-- What comes before a thing stands in front of it. -/
theorem mem_front {front back : List α} (hnodup : (front ++ x :: back).Nodup)
    (h : [y, x].Sublist (front ++ x :: back)) : y ∈ front := by
  induction front with
  | nil =>
    have hx := (List.nodup_cons.mp hnodup).1
    cases h with
    | cons _ h => exact absurd (h.subset (List.mem_cons_of_mem _ List.mem_cons_self)) hx
    | cons_cons _ h => exact absurd (List.singleton_sublist.mp h) hx
  | cons z front ih =>
    cases h with
    | cons _ h => exact List.mem_cons_of_mem _ (ih (List.nodup_cons.mp hnodup).2 h)
    | cons_cons _ h => exact List.mem_cons_self

/-- Of two things that are in a list in turn, the first one is first found. -/
theorem idxOf_lt [DecidableEq α] (hnodup : order.Nodup) (h : [y, x].Sublist order) :
    order.idxOf y < order.idxOf x := by
  induction order with
  | nil => cases h
  | cons z order ih =>
    obtain ⟨hz, hnodup⟩ := List.nodup_cons.mp hnodup
    cases h with
    | cons _ h =>
      have hy : z ≠ y := fun heq => hz (heq ▸ mem_of_pair h)
      have hx : z ≠ x := fun heq => hz (heq ▸ h.subset (List.mem_cons_of_mem _ List.mem_cons_self))
      rw [List.idxOf_cons_ne _ hy, List.idxOf_cons_ne _ hx]
      exact Nat.succ_lt_succ (ih hnodup h)
    | cons_cons _ h =>
      have hx : y ≠ x := fun heq => hz (heq ▸ List.singleton_sublist.mp h)
      rw [List.idxOf_cons_self, List.idxOf_cons_ne _ hx]
      exact Nat.succ_pos _

namespace Ordered

variable (h : Ordered dep order)

include h

theorem mem_of_reflTransGen (hx : x ∈ order) (hxy : ReflTransGen dep x y) : y ∈ order := by
  induction hxy with
  | refl => exact hx
  | tail _ hstep ih => exact mem_of_pair (h.behind _ ih _ hstep)

theorem idxOf_lt_of_transGen [DecidableEq α] (hx : x ∈ order) (hxy : TransGen dep x y) :
    order.idxOf y < order.idxOf x := by
  induction hxy with
  | single hstep => exact idxOf_lt h.nodup (h.behind x hx _ hstep)
  | tail hxz hstep ih =>
    have hz := h.mem_of_reflTransGen hx hxz.to_reflTransGen
    exact (idxOf_lt h.nodup (h.behind _ hz _ hstep)).trans ih

theorem irrefl (hx : x ∈ order) : ¬ TransGen dep x x := by
  classical
  intro hcycle
  exact Nat.lt_irrefl _ (h.idxOf_lt_of_transGen hx hcycle)

/-- What is ordered is not blocked. -/
theorem not_blocked (hx : x ∈ order) : ¬ Blocked dep (· ∈ order) x := by
  rintro ⟨y, hxy, hunknown | hcycle⟩
  · exact hunknown (h.mem_of_reflTransGen hx hxy)
  · exact h.irrefl (h.mem_of_reflTransGen hx hxy) hcycle

/-- Each thing is behind all it depends on, directly or not. -/
theorem behind_of_transGen (hx : x ∈ order) (hxy : TransGen dep x y) : [y, x].Sublist order := by
  induction hxy with
  | single hstep => exact h.behind x hx _ hstep
  | @tail z y hxz hstep ih =>
    have hz := h.mem_of_reflTransGen hx hxz.to_reflTransGen
    have hyz := h.behind z hz _ hstep
    have hnodup := h.nodup
    obtain ⟨front, back, hx⟩ := List.append_of_mem hx
    rw [hx] at ih hyz hnodup ⊢
    obtain ⟨first, rest, hfront⟩ := List.append_of_mem (mem_front hnodup ih)
    rw [hfront, List.append_assoc, List.cons_append] at hyz hnodup
    have hy : y ∈ front := by
      rw [hfront]
      exact List.mem_append_left _ (mem_front hnodup hyz)
    exact (List.singleton_sublist.mpr hy).append (List.singleton_sublist.mpr List.mem_cons_self)

/-- Turned round, an order puts each thing before all that it depends on, also when some are left
out. -/
theorem reverse_filter {p : α → Bool} (hx : x ∈ order.reverse.filter p)
    (hy : y ∈ order.reverse.filter p) (hdep : dep x y) :
    [x, y].Sublist (order.reverse.filter p) := by
  obtain ⟨hxmem, hpx⟩ := List.mem_filter.mp hx
  obtain ⟨-, hpy⟩ := List.mem_filter.mp hy
  have hpair := (h.behind x (List.mem_reverse.mp hxmem) y hdep).reverse.filter p
  rwa [List.reverse_cons, List.reverse_singleton, List.singleton_append,
    List.filter_cons_of_pos hpx, List.filter_cons_of_pos hpy, List.filter_nil] at hpair

end Ordered

/-- Of finitely many things each of which depends on another of them, or on something unknown, one
is blocked. -/
theorem exists_blocked {things : List α} (hne : things ≠ [])
    (h : ∀ x ∈ things, ∃ y, dep x y ∧ (y ∈ things ∨ ¬ known y)) :
    ∃ x ∈ things, Blocked dep known x := by
  by_contra hnone
  have hclear : ∀ x ∈ things, ¬ Blocked dep known x := fun x hx hb => hnone ⟨x, hx, hb⟩
  -- without a cycle one of them is at the end of all dependencies
  let below (a b : {x // x ∈ things}) : Prop := TransGen dep b.1 a.1
  have htrans : IsTrans {x // x ∈ things} below := ⟨fun _ _ _ hab hbc => hbc.trans hab⟩
  have hirrefl : Std.Irrefl below :=
    ⟨fun a hcycle => hclear a.1 a.2 ⟨a.1, .refl, .inr hcycle⟩⟩
  have hfinite : Finite {x // x ∈ things} := (List.finite_toSet things).to_subtype
  have hwf : WellFounded below := Finite.wellFounded_of_trans_of_irrefl below
  obtain ⟨first, hfirst⟩ := List.exists_mem_of_ne_nil _ hne
  obtain ⟨x, -, hmin⟩ := hwf.has_min Set.univ ⟨⟨first, hfirst⟩, trivial⟩
  obtain ⟨y, hdep, hy | hunknown⟩ := h x.1 x.2
  · exact hmin ⟨y, hy⟩ trivial (.single hdep)
  · exact hclear x.1 x.2 ⟨y, .single hdep, .inl hunknown⟩

end Dependency
