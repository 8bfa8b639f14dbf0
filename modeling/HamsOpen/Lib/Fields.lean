import Mathlib.Data.Nat.Bitwise

/-! # Fields of a number

A field is so many bits of a number from one of its bits on. Reading one and writing one are shifts
and masks; what is read after a write depends only on where the two fields lie. -/

namespace HamsOpen.Fields

/-- The `width` bits from bit `low` on. -/
def field (value low width : ℕ) : ℕ := (value >>> low) &&& (2 ^ width - 1)

/-- The value with the field replaced, in 64 bits. -/
def put (value low width x : ℕ) : ℕ :=
  (value &&& ((2 ^ 64 - 1) ^^^ ((2 ^ width - 1) <<< low))) |||
    ((x <<< low) &&& ((2 ^ width - 1) <<< low))

variable {value low width x low' width' : ℕ}

theorem testBit_field (value low width i : ℕ) :
    (field value low width).testBit i = (value.testBit (low + i) && decide (i < width)) := by
  unfold field
  rw [Nat.testBit_and, Nat.testBit_shiftRight, Nat.testBit_two_pow_sub_one]

theorem field_lt (value low width : ℕ) : field value low width < 2 ^ width := by
  unfold field
  rw [Nat.and_two_pow_sub_one_eq_mod]
  exact Nat.mod_lt _ (Nat.two_pow_pos width)

theorem testBit_of_lt {n i : ℕ} (h : value < 2 ^ n) (hi : n ≤ i) : value.testBit i = false :=
  Nat.testBit_lt_two_pow (h.trans_le (Nat.pow_le_pow_right Nat.two_pos hi))

theorem testBit_put {i : ℕ} (hi : i < 64) :
    (put value low width x).testBit i =
      if low ≤ i ∧ i < low + width then x.testBit (i - low) else value.testBit i := by
  unfold put
  rw [Nat.testBit_or, Nat.testBit_and, Nat.testBit_xor, Nat.testBit_two_pow_sub_one,
    Nat.testBit_and, Nat.testBit_shiftLeft, Nat.testBit_shiftLeft, Nat.testBit_two_pow_sub_one,
    decide_eq_true hi]
  by_cases hfield : low ≤ i ∧ i < low + width
  · have hwidth : i - low < width := by omega
    rw [if_pos hfield, decide_eq_true hwidth, decide_eq_true (show i ≥ low from hfield.1)]
    cases value.testBit i <;> cases x.testBit (i - low) <;> rfl
  · rw [if_neg hfield]
    have hout : (decide (i ≥ low) && decide (i - low < width)) = false := by
      rw [Bool.and_eq_false_iff, decide_eq_false_iff_not, decide_eq_false_iff_not]
      omega
    rw [hout, Bool.and_false, Bool.or_false, Bool.xor_false, Bool.and_true]

/-- A part of the field just written. -/
theorem field_put (hin : low + width ≤ 64) (hlow : low ≤ low')
    (hhigh : low' + width' ≤ low + width) :
    field (put value low width x) low' width' = field x (low' - low) width' := by
  apply Nat.eq_of_testBit_eq
  intro i
  rw [testBit_field, testBit_field]
  by_cases hi : i < width'
  · rw [testBit_put (by omega), if_pos (by omega)]
    congr 2
    omega
  · rw [decide_eq_false hi, Bool.and_false, Bool.and_false]

/-- A field that the one just written does not touch. -/
theorem field_put_of_disjoint (hin' : low' + width' ≤ 64)
    (h : low + width ≤ low' ∨ low' + width' ≤ low) :
    field (put value low width x) low' width' = field value low' width' := by
  apply Nat.eq_of_testBit_eq
  intro i
  rw [testBit_field, testBit_field]
  by_cases hi : i < width'
  · rw [testBit_put (by omega), if_neg (by omega)]
  · rw [decide_eq_false hi, Bool.and_false, Bool.and_false]

theorem put_lt {n : ℕ} (hn : low + width ≤ n) (h : value < 2 ^ n) :
    put value low width x < 2 ^ n := by
  apply Nat.lt_pow_two_of_testBit
  intro i hi
  by_cases hsmall : i < 64
  · rw [testBit_put hsmall, if_neg (by omega)]
    exact testBit_of_lt h hi
  · unfold put
    have hout : decide (i - low < width) = false := decide_eq_false (by omega)
    have hmask : ((2 ^ width - 1) <<< low).testBit i = false := by
      rw [Nat.testBit_shiftLeft, Nat.testBit_two_pow_sub_one, hout, Bool.and_false]
    rw [Nat.testBit_or, Nat.testBit_and, Nat.testBit_and, testBit_of_lt h hi, hmask,
      Bool.and_false, Bool.false_and, Bool.or_false]

theorem field_of_lt (h : value < 2 ^ width) : field value 0 width = value := by
  unfold field
  rw [Nat.shiftRight_zero, Nat.and_two_pow_sub_one_eq_mod, Nat.mod_eq_of_lt h]

theorem field_xor (value value' low width : ℕ) :
    field (value ^^^ value') low width = field value low width ^^^ field value' low width := by
  apply Nat.eq_of_testBit_eq
  intro i
  rw [Nat.testBit_xor, testBit_field, testBit_field, testBit_field, Nat.testBit_xor]
  cases decide (i < width)
  · rw [Bool.and_false, Bool.and_false, Bool.and_false, Bool.xor_false]
  · rw [Bool.and_true, Bool.and_true, Bool.and_true]

/-- A field of a field. -/
theorem field_field (h : low' + width' ≤ width) :
    field (field value low width) low' width' = field value (low + low') width' := by
  apply Nat.eq_of_testBit_eq
  intro i
  rw [testBit_field, testBit_field, testBit_field, Nat.add_assoc]
  by_cases hi : i < width'
  · have hin : low' + i < width := by omega
    rw [decide_eq_true hin, Bool.and_true]
  · rw [decide_eq_false hi, Bool.and_false, Bool.and_false]

/-- Two fields side by side are one. -/
theorem shiftLeft_or_field (value low k width : ℕ) :
    field value (low + k) width <<< k ||| field value low k = field value low (width + k) := by
  apply Nat.eq_of_testBit_eq
  intro i
  rw [Nat.testBit_or, Nat.testBit_shiftLeft, testBit_field, testBit_field, testBit_field]
  by_cases hi : k ≤ i
  · have hlow : ¬ i < k := by omega
    have hplace : low + k + (i - k) = low + i := by omega
    have hwidth : i - k < width ↔ i < width + k := by omega
    rw [decide_eq_true (show i ≥ k from hi), decide_eq_false hlow, hplace, Bool.and_false,
      Bool.or_false, Bool.true_and, decide_eq_decide.mpr hwidth]
  · have hlow : i < k := by omega
    have hwidth : i < width + k := by omega
    rw [decide_eq_false (show ¬ i ≥ k from hi), decide_eq_true hlow, decide_eq_true hwidth,
      Bool.false_and, Bool.false_or]

/-- The field of the upper of two parts, the lower of which has `n` bits. -/
theorem field_shiftLeft_or {high rest n : ℕ} (h : rest < 2 ^ n) (hle : n ≤ low) :
    field (high <<< n ||| rest) low width = field high (low - n) width := by
  apply Nat.eq_of_testBit_eq
  intro i
  have hplace : low + i - n = low - n + i := by omega
  rw [testBit_field, testBit_field, Nat.testBit_or, Nat.testBit_shiftLeft,
    decide_eq_true (show low + i ≥ n by omega), testBit_of_lt h (by omega), hplace, Bool.true_and,
    Bool.or_false]

/-- The field of the lower of two parts. -/
theorem field_or_low {high rest n : ℕ} (hle : low + width ≤ n) :
    field (high <<< n ||| rest) low width = field rest low width := by
  apply Nat.eq_of_testBit_eq
  intro i
  rw [testBit_field, testBit_field, Nat.testBit_or, Nat.testBit_shiftLeft]
  by_cases hi : i < width
  · rw [decide_eq_false (show ¬ low + i ≥ n by omega), Bool.false_and, Bool.false_or]
  · rw [decide_eq_false hi, Bool.and_false, Bool.and_false]

theorem or_lt {high rest n m : ℕ} (hhigh : high < 2 ^ m) (hrest : rest < 2 ^ n) :
    high <<< n ||| rest < 2 ^ (m + n) := by
  apply Nat.or_lt_two_pow
  · rw [Nat.shiftLeft_eq, pow_add]
    exact Nat.mul_lt_mul_of_pos_right hhigh (Nat.two_pow_pos n)
  · exact hrest.trans_le (Nat.pow_le_pow_right Nat.two_pos (Nat.le_add_left n m))

end HamsOpen.Fields
