import HamsOpen.Lib.Bits
import Mathlib.Data.Fin.VecNotation

/-! # What a frame holds

The fundamental frequency index of a frame gives its harmonic count, and the harmonic count gives
the number of voicing bands and the width of every quantizer value. -/

namespace HamsOpen.Ambe

scoped instance neZero_eight : NeZero 8 := ⟨by decide⟩

/-- The largest index in use: the values up to 255 are reserved. -/
def MAX_VALID_B0 : ℕ := 207

/-- The harmonic count of each fundamental frequency index. -/
def L_HAT_FROM_B0 : List ℕ :=
  [9, 9, 9, 9, 10, 10, 10, 10, 11, 11, 11, 11, 12, 12, 12, 12, 12, 12, 12, 12, 13, 13, 13, 13, 14,
   14, 14, 14, 15, 15, 15, 15, 16, 16, 16, 16, 17, 17, 17, 17, 18, 18, 18, 18, 19, 19, 19, 19, 20,
   20, 20, 20, 21, 21, 21, 21, 22, 22, 22, 22, 23, 23, 23, 23, 24, 24, 24, 24, 24, 24, 24, 24, 25,
   25, 25, 25, 26, 26, 26, 26, 27, 27, 27, 27, 28, 28, 28, 28, 29, 29, 29, 29, 30, 30, 30, 30, 31,
   31, 31, 31, 32, 32, 32, 32, 33, 33, 33, 33, 34, 34, 34, 34, 35, 35, 35, 35, 36, 36, 36, 36, 37,
   37, 37, 37, 37, 37, 37, 37, 38, 38, 38, 38, 39, 39, 39, 39, 40, 40, 40, 40, 41, 41, 41, 41, 42,
   42, 42, 42, 43, 43, 43, 43, 44, 44, 44, 44, 45, 45, 45, 45, 46, 46, 46, 46, 47, 47, 47, 47, 48,
   48, 48, 48, 49, 49, 49, 49, 49, 49, 49, 49, 50, 50, 50, 50, 51, 51, 51, 51, 52, 52, 52, 52, 53,
   53, 53, 53, 54, 54, 54, 54, 55, 55, 55, 55, 56, 56, 56, 56]

/-- `harmonics_count_from_b0`. -/
def harmonicsCountFromB0 (b0 : ℕ) : ℕ := L_HAT_FROM_B0.getD (min b0 MAX_VALID_B0) 0

/-- `frequency_bands_count`. -/
def frequencyBandsCount (l : ℕ) : ℕ := if l ≤ 36 then (l + 2) / 3 else 12

/-- The bits of the gain elements 2 to 6, for each harmonic count from 9 to 56. -/
def GAIN_BIT_ALLOCATION : List (List ℕ) :=
  [[10, 9, 9, 9, 9], [9, 9, 8, 8, 8], [8, 8, 8, 7, 7], [8, 7, 7, 7, 7], [7, 7, 7, 6, 6],
   [7, 6, 6, 6, 6], [7, 6, 6, 6, 5], [6, 6, 6, 5, 5], [6, 6, 5, 5, 5], [6, 5, 5, 5, 5],
   [6, 5, 5, 4, 4], [6, 5, 5, 4, 4], [5, 5, 5, 4, 4], [5, 5, 4, 4, 4], [5, 4, 4, 4, 4],
   [5, 4, 4, 4, 4], [5, 4, 4, 4, 3], [5, 4, 4, 3, 3], [5, 4, 4, 3, 3], [4, 4, 4, 3, 3],
   [4, 4, 4, 3, 3], [4, 4, 4, 3, 3], [4, 4, 3, 3, 3], [4, 4, 3, 3, 3], [4, 3, 3, 3, 3],
   [4, 3, 3, 3, 3], [4, 3, 3, 3, 3], [4, 3, 3, 3, 3], [4, 3, 3, 3, 2], [4, 3, 3, 3, 2],
   [4, 3, 3, 3, 2], [4, 3, 3, 3, 2], [4, 3, 3, 2, 2], [4, 3, 3, 2, 2], [4, 3, 3, 2, 2],
   [4, 3, 3, 2, 2], [4, 3, 3, 2, 2], [3, 3, 3, 2, 2], [3, 3, 3, 2, 2], [3, 3, 3, 2, 2],
   [3, 3, 3, 2, 2], [3, 3, 3, 2, 2], [3, 3, 3, 2, 2], [3, 3, 2, 2, 2], [3, 3, 2, 2, 2],
   [3, 3, 2, 2, 2], [3, 3, 2, 2, 2], [3, 3, 2, 2, 2]]

/-- The bits of the higher-order coefficients, for each harmonic count from 9 to 56. -/
def HIGHER_ORDER_BIT_ALLOCATION : List (List ℕ) :=
  [[9, 8, 7], [9, 7, 6, 5], [9, 7, 6, 5, 4], [8, 7, 6, 5, 4, 3], [7, 7, 6, 5, 4, 3, 3],
   [7, 7, 5, 4, 4, 3, 4, 3], [6, 7, 5, 4, 4, 3, 3, 3, 3], [6, 6, 5, 4, 4, 3, 3, 3, 3, 2],
   [5, 5, 5, 4, 4, 4, 3, 3, 2, 3, 2], [5, 4, 5, 5, 4, 3, 3, 3, 3, 2, 2, 2],
   [5, 4, 5, 4, 4, 3, 3, 3, 3, 2, 3, 2, 1], [5, 4, 5, 4, 4, 3, 3, 2, 3, 2, 1, 3, 2, 1],
   [4, 4, 5, 4, 4, 3, 3, 2, 2, 3, 2, 1, 3, 2, 1],
   [4, 4, 4, 4, 4, 3, 2, 3, 2, 2, 3, 2, 1, 2, 2, 1],
   [4, 3, 4, 4, 3, 4, 3, 2, 3, 2, 2, 2, 2, 1, 2, 2, 1],
   [4, 3, 3, 4, 3, 3, 3, 3, 2, 3, 2, 1, 2, 2, 1, 2, 2, 1],
   [4, 3, 3, 4, 3, 3, 3, 3, 2, 3, 2, 1, 2, 2, 1, 2, 1, 1, 1],
   [4, 3, 3, 4, 3, 3, 3, 2, 2, 3, 2, 1, 2, 2, 1, 1, 2, 2, 1, 1],
   [4, 3, 2, 4, 3, 2, 3, 2, 2, 3, 2, 2, 1, 2, 2, 1, 1, 2, 2, 1, 1],
   [4, 3, 2, 4, 3, 2, 3, 2, 2, 2, 3, 2, 1, 1, 2, 2, 1, 1, 2, 1, 1, 1],
   [3, 3, 2, 4, 3, 2, 2, 3, 2, 2, 2, 3, 2, 1, 1, 2, 1, 1, 1, 2, 1, 1, 1],
   [3, 3, 2, 2, 3, 3, 2, 2, 3, 2, 2, 1, 3, 2, 1, 1, 2, 1, 1, 1, 2, 1, 1, 1],
   [3, 3, 2, 2, 3, 3, 2, 2, 3, 2, 2, 1, 2, 2, 1, 1, 2, 1, 1, 1, 2, 1, 1, 1, 1],
   [3, 3, 2, 2, 3, 3, 2, 2, 3, 2, 2, 1, 2, 2, 1, 1, 2, 1, 1, 1, 1, 2, 1, 1, 1, 0],
   [3, 3, 2, 2, 3, 3, 2, 2, 3, 2, 1, 1, 2, 2, 1, 1, 1, 2, 1, 1, 1, 1, 2, 1, 1, 1, 1],
   [3, 2, 2, 2, 3, 2, 2, 2, 3, 2, 2, 1, 1, 2, 2, 1, 1, 1, 2, 1, 1, 1, 1, 2, 1, 1, 1, 0],
   [3, 2, 2, 2, 3, 2, 2, 2, 2, 3, 2, 1, 1, 1, 2, 2, 1, 1, 1, 2, 1, 1, 1, 0, 2, 1, 1, 1, 0],
   [3, 2, 2, 2, 1, 3, 2, 2, 2, 1, 3, 2, 1, 1, 1, 2, 2, 1, 1, 1, 2, 1, 1, 1, 0, 2, 1, 1, 1, 0],
   [3, 2, 2, 2, 1, 3, 2, 2, 2, 2, 3, 2, 1, 1, 1, 2, 1, 1, 1, 1, 2, 1, 1, 1, 0, 2, 1, 1, 1, 1, 0],
   [3, 2, 2, 2, 1, 3, 2, 2, 2, 1, 3, 2, 1, 1, 1, 2, 1, 1, 1, 1, 2, 1, 1, 1, 1, 0, 2, 1, 1, 1, 1,
     0],
   [3, 2, 2, 2, 1, 3, 2, 2, 2, 1, 3, 2, 1, 1, 1, 2, 2, 1, 1, 1, 0, 2, 1, 1, 1, 1, 0, 2, 1, 1, 1,
     0, 0],
   [3, 2, 2, 2, 1, 3, 2, 2, 1, 1, 3, 2, 1, 1, 1, 1, 2, 2, 1, 1, 1, 0, 2, 1, 1, 1, 1, 0, 2, 1, 1,
     1, 0, 0],
   [3, 2, 2, 1, 1, 3, 2, 2, 2, 1, 1, 3, 2, 1, 1, 1, 1, 2, 2, 1, 1, 1, 0, 2, 1, 1, 1, 1, 0, 2, 1,
     1, 1, 0, 0],
   [3, 2, 2, 2, 1, 1, 3, 2, 2, 2, 1, 1, 2, 2, 1, 1, 1, 1, 2, 2, 1, 1, 1, 0, 2, 1, 1, 1, 0, 0, 2,
     1, 1, 1, 0, 0],
   [3, 2, 2, 2, 1, 1, 3, 2, 2, 2, 1, 1, 2, 2, 1, 1, 1, 1, 2, 1, 1, 1, 1, 0, 2, 1, 1, 1, 0, 0, 2,
     1, 1, 1, 1, 0, 0],
   [3, 2, 2, 1, 1, 1, 3, 2, 2, 2, 1, 1, 2, 2, 1, 1, 1, 1, 2, 1, 1, 1, 1, 0, 2, 1, 1, 1, 1, 0, 0,
     2, 1, 1, 1, 1, 0, 0],
   [3, 2, 2, 1, 1, 1, 3, 2, 2, 1, 1, 1, 2, 2, 1, 1, 1, 1, 2, 2, 1, 1, 1, 0, 0, 2, 1, 1, 1, 1, 0,
     0, 2, 1, 1, 1, 1, 0, 0],
   [3, 2, 2, 1, 1, 1, 3, 2, 2, 1, 1, 1, 2, 2, 1, 1, 1, 1, 1, 2, 2, 1, 1, 1, 0, 0, 2, 1, 1, 1, 1,
     0, 0, 2, 1, 1, 1, 1, 0, 0],
   [3, 2, 2, 1, 1, 1, 3, 2, 2, 1, 1, 1, 1, 2, 2, 1, 1, 1, 1, 1, 2, 2, 1, 1, 1, 0, 0, 2, 1, 1, 1,
     1, 0, 0, 2, 1, 1, 1, 0, 0, 0],
   [3, 2, 2, 1, 1, 1, 1, 3, 2, 2, 1, 1, 1, 1, 2, 2, 1, 1, 1, 1, 1, 2, 2, 1, 1, 1, 0, 0, 2, 1, 1,
     1, 0, 0, 0, 2, 1, 1, 1, 0, 0, 0],
   [3, 2, 2, 1, 1, 1, 1, 3, 2, 2, 1, 1, 1, 1, 2, 2, 1, 1, 1, 1, 0, 2, 2, 1, 1, 1, 0, 0, 2, 1, 1,
     1, 0, 0, 0, 2, 1, 1, 1, 1, 0, 0, 0],
   [3, 2, 2, 1, 1, 1, 1, 3, 2, 2, 1, 1, 1, 1, 2, 2, 1, 1, 1, 1, 0, 2, 2, 1, 1, 1, 0, 0, 2, 1, 1,
     1, 1, 0, 0, 0, 2, 1, 1, 1, 0, 0, 0, 0],
   [3, 2, 2, 1, 1, 1, 1, 3, 2, 1, 1, 1, 1, 1, 2, 2, 1, 1, 1, 1, 0, 2, 2, 1, 1, 1, 0, 0, 0, 2, 1,
     1, 1, 1, 0, 0, 0, 2, 1, 1, 1, 1, 0, 0, 0],
   [3, 2, 1, 1, 1, 1, 1, 3, 2, 2, 1, 1, 1, 1, 2, 2, 1, 1, 1, 1, 1, 0, 2, 2, 1, 1, 1, 0, 0, 0, 2,
     1, 1, 1, 1, 0, 0, 0, 2, 1, 1, 1, 1, 0, 0, 0],
   [3, 2, 1, 1, 1, 1, 1, 3, 2, 2, 1, 1, 1, 1, 1, 2, 2, 1, 1, 1, 1, 1, 0, 2, 2, 1, 1, 1, 0, 0, 0,
     2, 1, 1, 1, 1, 0, 0, 0, 2, 1, 1, 1, 0, 0, 0, 0],
   [3, 2, 2, 1, 1, 1, 1, 0, 3, 2, 2, 1, 1, 1, 1, 0, 2, 2, 1, 1, 1, 1, 1, 0, 2, 2, 1, 1, 1, 0, 0,
     0, 2, 1, 1, 1, 1, 0, 0, 0, 2, 1, 1, 1, 0, 0, 0, 0],
   [3, 2, 2, 1, 1, 1, 1, 0, 3, 2, 2, 1, 1, 1, 1, 0, 2, 2, 1, 1, 1, 1, 1, 0, 2, 2, 1, 1, 1, 0, 0,
     0, 2, 1, 1, 1, 0, 0, 0, 0, 2, 1, 1, 1, 1, 0, 0, 0, 0],
   [3, 2, 2, 1, 1, 1, 1, 0, 3, 2, 2, 1, 1, 1, 1, 0, 2, 2, 1, 1, 1, 1, 1, 0, 2, 2, 1, 1, 1, 0, 0,
     0, 2, 1, 1, 1, 1, 0, 0, 0, 0, 2, 1, 1, 1, 0, 0, 0, 0, 0]]

/-- The row of a harmonic count. -/
def rowOf (table : List (List ℕ)) (l : ℕ) : Option (List ℕ) :=
  if 9 ≤ l ∧ l ≤ 56 then table[l - 9]? else none

/-- `gain_vector_bits`, for the five elements at once. -/
def gainVectorBits (l : ℕ) : Option (List ℕ) := rowOf GAIN_BIT_ALLOCATION l

def higherOrderBitAllocation (l : ℕ) : Option (List ℕ) := rowOf HIGHER_ORDER_BIT_ALLOCATION l

/-- The widths that are sent: no bits, no value. -/
def higherWidths (l : ℕ) : Option (List ℕ) :=
  (higherOrderBitAllocation l).map (·.filter (0 < ·))

/-! ## The bit budget -/

/-- Widths that fill a frame: eighty-eight bits, fifteen of which have a fixed place. -/
structure Layout where
  bands : ℕ
  gain : List ℕ
  higher : List ℕ
  length_gain : gain.length = 5
  budget : bands + gain.sum + higher.sum = 73

/-- The tables give a layout for this harmonic count. -/
structure Layout.Of (l : ℕ) (layout : Layout) : Prop where
  bands_eq : layout.bands = frequencyBandsCount l
  gain_eq : gainVectorBits l = some layout.gain
  higher_eq : higherWidths l = some layout.higher

/-- One row of the tables, checked. -/
def checkRow (l : ℕ) : Bool :=
  match gainVectorBits l, higherWidths l with
  | some gain, some higher =>
    gain.length == 5 && frequencyBandsCount l + gain.sum + higher.sum == 73
  | _, _ => false

theorem checkRow_of_count {l : ℕ} (h : 9 ≤ l ∧ l ≤ 56) : checkRow l = true := by
  have hall : ((List.range 57).all fun l => decide (l < 9) || checkRow l) = true := by decide
  have hrow := List.all_eq_true.mp hall l (List.mem_range.mpr (Nat.lt_succ_of_le h.2))
  rwa [decide_eq_false (Nat.not_lt.mpr h.1), Bool.false_or] at hrow

theorem exists_layout {l : ℕ} (h : 9 ≤ l ∧ l ≤ 56) : ∃ layout, Layout.Of l layout := by
  have hrow := checkRow_of_count h
  unfold checkRow at hrow
  split at hrow
  next gain higher hgain hhigher =>
    obtain ⟨hlength, hbudget⟩ := (Bool.and_eq_true _ _).mp hrow
    exact ⟨⟨frequencyBandsCount l, gain, higher, beq_iff_eq.mp hlength, beq_iff_eq.mp hbudget⟩,
      rfl, hgain, hhigher⟩
  next => cases hrow

/-- Every index gives a harmonic count of the tables. -/
theorem harmonicsCountFromB0_mem (b0 : ℕ) :
    9 ≤ harmonicsCountFromB0 b0 ∧ harmonicsCountFromB0 b0 ≤ 56 := by
  have hall : (L_HAT_FROM_B0.all fun l => decide (9 ≤ l ∧ l ≤ 56)) = true := by
    decide
  have hlength : L_HAT_FROM_B0.length = 208 := rfl
  have hlt : min b0 MAX_VALID_B0 < L_HAT_FROM_B0.length := by
    rw [hlength]
    exact lt_of_le_of_lt (Nat.min_le_right _ _) (by decide)
  unfold harmonicsCountFromB0
  rw [List.getD_eq_getElem?_getD, List.getElem?_eq_getElem hlt, Option.getD_some]
  exact of_decide_eq_true (List.all_eq_true.mp hall _ (List.getElem_mem hlt))

end HamsOpen.Ambe
