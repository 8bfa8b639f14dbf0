import Mathlib.Data.List.Induction
import Mathlib.Logic.Function.Basic

/-!
# Memories

A memory is a function of the address. It is written a cell at a time, so a later cell hides an
earlier one at its address, and where cells do not disagree each of them is found again.
-/

namespace Memory

variable {α β : Type} [DecidableEq α]

/-- The memory after some cells were written, in order. -/
def store (mem : α → β) (cells : List (α × β)) : α → β :=
  cells.foldl (fun m c => Function.update m c.1 c.2) mem

/-- No two cells put different values at one address. -/
def Agree (cells : List (α × β)) : Prop := ∀ c ∈ cells, ∀ c' ∈ cells, c.1 = c'.1 → c = c'

variable {mem : α → β} {cells : List (α × β)} {a : α} {c : α × β}

@[simp] theorem store_nil : store mem [] = mem := rfl

@[simp]
theorem store_cons : store mem (c :: cells) = store (Function.update mem c.1 c.2) cells := rfl

theorem store_append (cells' : List (α × β)) :
    store mem (cells ++ cells') = store (store mem cells) cells' := List.foldl_append

/-- An address that no cell has keeps its value. -/
theorem store_of_forall_ne (h : ∀ c ∈ cells, c.1 ≠ a) : store mem cells a = mem a := by
  induction cells generalizing mem with
  | nil => rfl
  | cons c cells ih =>
    rw [store_cons, ih fun c' hc' => h c' (List.mem_cons_of_mem c hc')]
    exact Function.update_of_ne (h c List.mem_cons_self).symm c.2 mem

/-- Cells that agree are found again. -/
theorem store_of_mem (hagree : Agree cells) (hc : c ∈ cells) : store mem cells c.1 = c.2 := by
  induction cells using List.reverseRecOn with
  | nil => cases hc
  | append_singleton cells last ih =>
    rw [store_append, store_cons, store_nil]
    by_cases hlast : c.1 = last.1
    · -- the last cell at the address is what is found, and it is this one
      have heq : c = last := hagree c hc last (List.mem_append_right _ List.mem_cons_self) hlast
      rw [heq, Function.update_self]
    · rw [Function.update_of_ne hlast]
      apply ih
      · intro d hd d' hd'
        exact hagree d (List.mem_append_left _ hd) d' (List.mem_append_left _ hd')
      · rcases List.mem_append.mp hc with hc | hc
        · exact hc
        · exact absurd (congrArg Prod.fst (List.mem_singleton.mp hc)) hlast

end Memory
