import Mathlib.Algebra.Order.Ring.Nat
import Mathlib.Data.List.Basic
import Mathlib.Data.Nat.Init

/-!
# Numbers in a field of fixed width

A number is written with a fixed number of symbols, the least significant first, each for one digit
of a base. A symbol need not stand for a digit, but no two stand for the same one. The field of a
width then has each number below a power of the base once, and nothing else is read from it.
-/

/-- The digits of a base as symbols. -/
structure Positional (β : Type) where
  base : ℕ
  pos : 0 < base
  write : ℕ → β
  read : β → Option ℕ
  read_write : ∀ {d : ℕ}, d < base → read (write d) = some d
  write_of_read : ∀ {s : β} {d : ℕ}, read s = some d → d < base ∧ write d = s

namespace Positional

variable {β : Type} (P : Positional β)

/-- The low digits of a number, the least significant first. -/
def low : ℕ → ℕ → List β
  | 0, _ => []
  | width + 1, n => P.write (n % P.base) :: low width (n / P.base)

/-- The number that symbols stand for, the least significant first. -/
def value : List β → Option ℕ
  | [] => some 0
  | s :: l => do
    let d ← P.read s
    let n ← value l
    return d + P.base * n

variable {P} {width n : ℕ} {l : List β}

@[simp]
theorem length_low : (P.low width n).length = width := by
  induction width generalizing n with
  | zero => rfl
  | succ width ih => rw [low, List.length_cons, ih]

theorem value_cons {s : β} : P.value (s :: l) = some n ↔
    ∃ d m, P.read s = some d ∧ P.value l = some m ∧ d + P.base * m = n := by
  rw [value]
  cases P.read s with
  | none => exact iff_of_false nofun (by simp)
  | some d =>
    cases P.value l with
    | none => exact iff_of_false nofun (by simp)
    | some m =>
      constructor
      · intro h
        exact ⟨d, m, rfl, rfl, Option.some.inj h⟩
      · rintro ⟨_, _, ⟨rfl⟩, ⟨rfl⟩, rfl⟩
        rfl

/-- What is written in a field is read back, up to what does not fit. -/
theorem value_low : P.value (P.low width n) = some (n % P.base ^ width) := by
  induction width generalizing n with
  | zero => rw [Nat.pow_zero, Nat.mod_one, low, value]
  | succ width ih =>
    have hdigit := P.read_write (Nat.mod_lt n P.pos)
    rw [low, value_cons]
    refine ⟨_, _, hdigit, ih, ?_⟩
    rw [Nat.pow_succ', Nat.mod_mul]

/-- The symbols of a number are its low digits, and all of them. -/
theorem low_of_value (h : P.value l = some n) :
    P.low l.length n = l ∧ n < P.base ^ l.length := by
  induction l generalizing n with
  | nil =>
    obtain rfl := Option.some.inj h
    exact ⟨rfl, Nat.one_pos⟩
  | cons s l ih =>
    obtain ⟨d, m, hd, hm, rfl⟩ := value_cons.mp h
    obtain ⟨hlow, hlt⟩ := ih hm
    obtain ⟨hbase, hwrite⟩ := P.write_of_read hd
    have hmod : (d + P.base * m) % P.base = d := by
      rw [Nat.add_mul_mod_self_left, Nat.mod_eq_of_lt hbase]
    have hdiv : (d + P.base * m) / P.base = m := by
      rw [Nat.add_mul_div_left _ _ P.pos, Nat.div_eq_of_lt hbase, Nat.zero_add]
    constructor
    · rw [List.length_cons, low, hmod, hdiv, hlow, hwrite]
    · calc d + P.base * m
          < P.base * (m + 1) := by rw [Nat.mul_succ]; omega
        _ ≤ P.base * P.base ^ l.length := Nat.mul_le_mul_left _ hlt
        _ = P.base ^ (l.length + 1) := (Nat.pow_succ' ..).symm

theorem value_eq_none : P.value l = none ↔ ∃ s ∈ l, P.read s = none := by
  induction l with
  | nil => exact iff_of_false nofun (by simp)
  | cons s l ih =>
    rw [List.exists_mem_cons_iff, ← ih, value]
    cases P.read s with
    | none => exact iff_of_true rfl (.inl rfl)
    | some d =>
      cases P.value l with
      | none => exact iff_of_true rfl (.inr rfl)
      | some m => exact iff_of_false nofun (by simp)

end Positional
