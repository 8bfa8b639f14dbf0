import Mathlib

/-!
# Multiplication in Q16.16

The products of `fixed_ops.rs`. A value has 16 fractional bits, so a product is shifted back by 16,
and a half is added before that, away from zero. The shift rounds down, so what is added to a
negative product is lost with what the shift takes, and more.
-/

namespace HamsOpen.Ambe

/-- A product with a half added away from zero, shifted back. -/
def rounded (product : ℤ) : ℤ :=
  (if 0 ≤ product then product + 2 ^ 15 else product - 2 ^ 15) >>> (16 : ℕ)

/-- `mul_q16`. The product of two 32-bit values is taken with 64 bits, and cut to 32. -/
def mulQ16 (a b : Int32) : Int32 := .ofInt (rounded (a.toInt * b.toInt))

/-- `mul_q16_i64`. The product is taken with 128 bits, and cut to 64. -/
def mulQ16I64 (a : Int64) (b : Int32) : Int64 := .ofInt (rounded (a.toInt * b.toInt))

/-- The value is within half a unit of the exact product. -/
def Nearest (product r : ℤ) : Prop := 2 * |65536 * r - product| ≤ 65536

/-- The exact product is within the values from `-M` to `M - 1`. -/
def Fits (M product : ℤ) : Prop := -M * 65536 ≤ product ∧ product ≤ (M - 1) * 65536

/-- A product that is not negative, or in the middle between two values. -/
def Unbiased (product : ℤ) : Prop := 0 ≤ product ∨ product % 65536 = 32768

instance (product r : ℤ) : Decidable (Nearest product r) := inferInstanceAs (Decidable (_ ≤ _))

instance (M product : ℤ) : Decidable (Fits M product) := inferInstanceAs (Decidable (_ ∧ _))

instance (product : ℤ) : Decidable (Unbiased product) := inferInstanceAs (Decidable (_ ∨ _))

/-! ### The exact product -/

variable {p q : ℤ}

theorem rounded_of_nonneg (h : 0 ≤ p) : rounded p = (p + 32768) / 65536 := by
  rw [rounded, if_pos h, Int.shiftRight_eq_div_pow]
  rfl

theorem rounded_of_neg (h : p < 0) : rounded p = (p - 32768) / 65536 := by
  rw [rounded, if_neg (Int.not_le.mpr h), Int.shiftRight_eq_div_pow]
  rfl

theorem nearest_iff {r : ℤ} :
    Nearest p r ↔ -32768 ≤ 65536 * r - p ∧ 65536 * r - p ≤ 32768 := by
  have hhalf : Nearest p r ↔ |65536 * r - p| ≤ 32768 := by
    unfold Nearest
    constructor <;> intro h <;> omega
  rw [hhalf, abs_le]

theorem nearest_rounded_iff : Nearest p (rounded p) ↔ Unbiased p := by
  rw [nearest_iff]
  unfold Unbiased
  by_cases hp : 0 ≤ p
  · rw [rounded_of_nonneg hp]
    omega
  · rw [rounded_of_neg (Int.not_le.mp hp)]
    omega

theorem rounded_mul_one (a : ℤ) : rounded (a * 65536) = if 0 ≤ a then a else a - 1 := by
  split
  next ha =>
    rw [rounded_of_nonneg (by omega)]
    omega
  next ha =>
    rw [rounded_of_neg (by omega)]
    omega

theorem rounded_neg_iff : rounded (-p) = -rounded p ↔ p = 0 ∨ p % 65536 = 32768 := by
  rcases lt_trichotomy p 0 with hp | rfl | hp
  · rw [rounded_of_nonneg (by omega), rounded_of_neg hp]
    omega
  · exact iff_of_true (by decide) (.inl rfl)
  · rw [rounded_of_neg (by omega), rounded_of_nonneg hp.le]
    omega

theorem rounded_mono : Monotone rounded := by
  intro p q hpq
  by_cases hp : 0 ≤ p
  · rw [rounded_of_nonneg hp, rounded_of_nonneg (hp.trans hpq)]
    omega
  · rw [rounded_of_neg (Int.not_le.mp hp)]
    by_cases hq : 0 ≤ q
    · rw [rounded_of_nonneg hq]
      omega
    · rw [rounded_of_neg (Int.not_le.mp hq)]
      omega

/-! ### The product as it is returned

A product that fits is cut only where it is rounded below the least value. -/

section Cut

variable {M : ℤ}

/-- Cut to the values from `-M` to `M - 1`, a product comes out nearest as it does before. -/
theorem nearest_cut_iff (cut : ℤ → ℤ) (hkeep : ∀ r, -M ≤ r → r < M → cut r = r)
    (hwrap : cut (-M - 1) = M - 1) (hM : 1 < M) (h : Fits M p) :
    Nearest p (cut (rounded p)) ↔ Unbiased p := by
  obtain ⟨hlow, hhigh⟩ := h
  have hbelow : rounded p < M := by
    by_cases hp : 0 ≤ p
    · rw [rounded_of_nonneg hp]
      omega
    · rw [rounded_of_neg (Int.not_le.mp hp)]
      omega
  by_cases hmin : -M ≤ rounded p
  · rw [hkeep _ hmin hbelow]
    exact nearest_rounded_iff
  · -- only the least products are rounded below the least value
    have hneg : p < 0 := by
      by_contra hp
      rw [rounded_of_nonneg (Int.not_lt.mp hp)] at hmin
      omega
    rw [rounded_of_neg hneg] at hmin
    have hvalue : rounded p = -M - 1 := by
      rw [rounded_of_neg hneg]
      omega
    rw [hvalue, hwrap, nearest_iff]
    unfold Unbiased
    omega

/-- One is neutral where it is before the cut. -/
theorem cut_mul_one_iff (cut : ℤ → ℤ) (hkeep : ∀ r, -M ≤ r → r < M → cut r = r)
    (hwrap : cut (-M - 1) = M - 1) (hM : 1 < M) {a : ℤ} (hlow : -M ≤ a) (hhigh : a < M) :
    cut (rounded (a * 65536)) = a ↔ 0 ≤ a := by
  rw [rounded_mul_one]
  split
  next ha => exact iff_of_true (hkeep a hlow hhigh) ha
  next ha =>
    by_cases hmin : a = -M
    · rw [hmin, hwrap]
      omega
    · rw [hkeep _ (by omega) (by omega)]
      omega

/-- The sign passes through where it does before the cut. -/
theorem cut_neg_iff (cut : ℤ → ℤ) (hkeep : ∀ r, -M ≤ r → r < M → cut r = r)
    (hlow : -(M - 1) * 65536 ≤ p) (hhigh : p ≤ (M - 1) * 65536) :
    cut (rounded (-p)) = -cut (rounded p) ↔ p = 0 ∨ p % 65536 = 32768 := by
  have hrange {x : ℤ} (hx : -(M - 1) * 65536 ≤ x) (hx' : x ≤ (M - 1) * 65536) :
      -M ≤ rounded x ∧ rounded x < M := by
    by_cases h0 : 0 ≤ x
    · rw [rounded_of_nonneg h0]
      omega
    · rw [rounded_of_neg (Int.not_le.mp h0)]
      omega
  obtain ⟨hmin, hmax⟩ := hrange hlow hhigh
  obtain ⟨hmin', hmax'⟩ := hrange (x := -p) (by omega) (by omega)
  rw [hkeep _ hmin hmax, hkeep _ hmin' hmax']
  exact rounded_neg_iff

end Cut

/-- A value that is cut to 32 bits. -/
def cut32 (r : ℤ) : ℤ := (Int32.ofInt r).toInt

/-- A value that is cut to 64 bits. -/
def cut64 (r : ℤ) : ℤ := (Int64.ofInt r).toInt

theorem cut32_keep (r : ℤ) (h : -2 ^ 31 ≤ r) (h' : r < 2 ^ 31) :
    cut32 r = r := Int32.toInt_ofInt_of_le h h'

theorem cut64_keep (r : ℤ) (h : -2 ^ 63 ≤ r) (h' : r < 2 ^ 63) :
    cut64 r = r := Int64.toInt_ofInt_of_le h h'

/-- A value other than the least one is negated. -/
theorem toInt_neg_of_ne_min {a : Int32} (h : a ≠ .minValue) : (-a).toInt = -a.toInt := by
  have hmin : a.toInt ≠ -2147483648 := fun heq => h (Int32.toInt_inj.mp heq)
  have hle : -2147483648 ≤ a.toInt := a.le_toInt
  have hlt : a.toInt < 2147483648 := a.toInt_lt
  rw [Int32.toInt_neg]
  exact Int.bmod_eq_of_le (by omega) (by omega)

theorem toInt_neg_of_ne_min64 {c : Int64} (h : c ≠ .minValue) : (-c).toInt = -c.toInt := by
  have hmin : c.toInt ≠ -9223372036854775808 := fun heq => h (Int64.toInt_inj.mp heq)
  have hle : -9223372036854775808 ≤ c.toInt := c.le_toInt
  have hlt : c.toInt < 9223372036854775808 := c.toInt_lt
  rw [Int64.toInt_neg]
  exact Int.bmod_eq_of_le (by omega) (by omega)

theorem toInt_mulQ16 (a b : Int32) : (mulQ16 a b).toInt = cut32 (rounded (a.toInt * b.toInt)) :=
  rfl

theorem toInt_mulQ16I64 (c : Int64) (b : Int32) :
    (mulQ16I64 c b).toInt = cut64 (rounded (c.toInt * b.toInt)) := rfl

theorem mulQ16_comm (a b : Int32) : mulQ16 a b = mulQ16 b a := by
  rw [mulQ16, mulQ16, Int.mul_comm]

theorem fits_neg {M : ℤ} (h : Fits M (-p)) : -(M - 1) * 65536 ≤ p := by
  have hle := h.2
  rw [Int.neg_mul]
  exact Int.neg_le_of_neg_le hle

/-- What comes out of the two products, at any operands. -/
theorem mul_nearest_iff (a b : Int32) (c : Int64) :
    ((Fits (2 ^ 31) (a.toInt * b.toInt) →
        (Nearest (a.toInt * b.toInt) (mulQ16 a b).toInt ↔ Unbiased (a.toInt * b.toInt))) ∧
      (mulQ16 a 65536 = a ↔ 0 ≤ a.toInt) ∧ (mulQ16 65536 a = a ↔ 0 ≤ a.toInt) ∧
      (a ≠ .minValue → Fits (2 ^ 31) (a.toInt * b.toInt) → Fits (2 ^ 31) (-(a.toInt * b.toInt)) →
        ((mulQ16 (-a) b).toInt = -(mulQ16 a b).toInt ↔
          a.toInt * b.toInt = 0 ∨ a.toInt * b.toInt % 65536 = 32768) ∧
        ((mulQ16 b (-a)).toInt = -(mulQ16 b a).toInt ↔
          a.toInt * b.toInt = 0 ∨ a.toInt * b.toInt % 65536 = 32768))) ∧
    ((Fits (2 ^ 63) (c.toInt * b.toInt) →
        (Nearest (c.toInt * b.toInt) (mulQ16I64 c b).toInt ↔ Unbiased (c.toInt * b.toInt))) ∧
      (mulQ16I64 c 65536 = c ↔ 0 ≤ c.toInt) ∧
      (Fits (2 ^ 63) (c.toInt * b.toInt) → Fits (2 ^ 63) (-(c.toInt * b.toInt)) →
        (c ≠ .minValue → ((mulQ16I64 (-c) b).toInt = -(mulQ16I64 c b).toInt ↔
          c.toInt * b.toInt = 0 ∨ c.toInt * b.toInt % 65536 = 32768)) ∧
        (b ≠ .minValue → ((mulQ16I64 c (-b)).toInt = -(mulQ16I64 c b).toInt ↔
          c.toInt * b.toInt = 0 ∨ c.toInt * b.toInt % 65536 = 32768)))) := by
  have hneg {x : Int32} (hx : x ≠ .minValue) : (-x).toInt = -x.toInt :=
    toInt_neg_of_ne_min hx
  refine ⟨⟨?_, ?_, ?_, ?_⟩, ?_, ?_, ?_⟩
  · intro hfits
    rw [toInt_mulQ16]
    exact nearest_cut_iff cut32 cut32_keep (by decide) (by decide) hfits
  · rw [← Int32.toInt_inj, toInt_mulQ16]
    exact cut_mul_one_iff cut32 cut32_keep (by decide) (by decide) a.le_toInt a.toInt_lt
  · rw [mulQ16_comm, ← Int32.toInt_inj, toInt_mulQ16]
    exact cut_mul_one_iff cut32 cut32_keep (by decide) (by decide) a.le_toInt a.toInt_lt
  · intro ha hfits hfits'
    have hleft : (mulQ16 (-a) b).toInt = -(mulQ16 a b).toInt ↔
        a.toInt * b.toInt = 0 ∨ a.toInt * b.toInt % 65536 = 32768 := by
      rw [toInt_mulQ16, toInt_mulQ16, hneg ha, Int.neg_mul]
      exact cut_neg_iff cut32 cut32_keep (fits_neg hfits') hfits.2
    refine ⟨hleft, ?_⟩
    rw [mulQ16_comm b (-a), mulQ16_comm b a]
    exact hleft
  · intro hfits
    rw [toInt_mulQ16I64]
    exact nearest_cut_iff cut64 cut64_keep (by decide) (by decide) hfits
  · rw [← Int64.toInt_inj, toInt_mulQ16I64]
    exact cut_mul_one_iff cut64 cut64_keep (by decide) (by decide) c.le_toInt c.toInt_lt
  · intro hfits hfits'
    constructor
    · intro hc
      rw [toInt_mulQ16I64, toInt_mulQ16I64, toInt_neg_of_ne_min64 hc, Int.neg_mul]
      exact cut_neg_iff cut64 cut64_keep (fits_neg hfits') hfits.2
    · intro hb
      rw [toInt_mulQ16I64, toInt_mulQ16I64, hneg hb, Int.mul_neg]
      exact cut_neg_iff cut64 cut64_keep (fits_neg hfits') hfits.2

theorem mul_nearest_iff_positive : Nearest (98304 * 131072) (mulQ16 98304 131072).toInt :=
  ((mul_nearest_iff 98304 131072 0).1.1 (by decide)).mpr (by decide)

/-- The least negative value, times one, is not itself, and not the nearest value. -/
theorem mulQ16_biased :
    (Fits (2 ^ 31) ((-1) * 65536) ∧ ¬Nearest ((-1) * 65536) (mulQ16 (-1) 65536).toInt ∧
      mulQ16 (-1) 65536 = -2 ∧ mulQ16 1 65536 = 1) ∧
    Fits (2 ^ 63) ((-1) * 65536) ∧ ¬Nearest ((-1) * 65536) (mulQ16I64 (-1) 65536).toInt ∧
      mulQ16I64 (-1) 65536 = -2 ∧ mulQ16I64 1 65536 = 1 := by
  decide

end HamsOpen.Ambe
