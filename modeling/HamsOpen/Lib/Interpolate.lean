import Mathlib.Algebra.Order.Ring.Int
import Mathlib.Tactic.Linarith

/-!
# Interpolated tables

A function is read from a table of its values at every `2 ^ k`th place. Between two places the value
lies on the line through the two, rounded down. As long as the table does not decrease, what is read
does not decrease either, within a step and where two steps meet.
-/

namespace Interpolate

variable {a b : ℤ} {k s s' : ℕ}

/-- The value `s` parts of `2 ^ k` of the way from `a` to `b`. -/
def between (k : ℕ) (a b : ℤ) (s : ℕ) : ℤ := a + (b - a) * s / 2 ^ k

theorem between_mono (h : a ≤ b) (hs : s ≤ s') : between k a b s ≤ between k a b s' := by
  have hpow : (0 : ℤ) < 2 ^ k := by positivity
  have hmul : (b - a) * s ≤ (b - a) * s' :=
    Int.mul_le_mul_of_nonneg_left (Int.ofNat_le.mpr hs) (Int.sub_nonneg_of_le h)
  exact Int.add_le_add_left (Int.ediv_le_ediv hpow hmul) a

theorem between_zero : between k a b 0 = a := by
  rw [between, Nat.cast_zero, Int.mul_zero, Int.zero_ediv, Int.add_zero]

theorem between_whole : between k a b (2 ^ k) = b := by
  have hpow : (2 : ℤ) ^ k ≠ 0 := by positivity
  rw [between, Nat.cast_pow, Nat.cast_ofNat, Int.mul_ediv_cancel _ hpow]
  omega

/-- A value short of the next one, where the table rises. -/
theorem between_lt (h : a < b) (hs : s < 2 ^ k) : between k a b s < b := by
  have hpow : (0 : ℤ) < 2 ^ k := by positivity
  have hpart : (b - a) * s < (b - a) * 2 ^ k := by
    apply Int.mul_lt_mul_of_pos_left _ (Int.sub_pos_of_lt h)
    exact_mod_cast hs
  have hdiv : (b - a) * s / 2 ^ k < b - a := Int.ediv_lt_of_lt_mul hpow hpart
  unfold between
  omega

variable {t : ℕ → ℤ} {n x y : ℕ}

/-- The table read at a place. -/
def read (k : ℕ) (t : ℕ → ℤ) (x : ℕ) : ℤ :=
  between k (t (x / 2 ^ k)) (t (x / 2 ^ k + 1)) (x % 2 ^ k)

/-- One place on, the value is on the same line, or where two of them meet. -/
theorem read_le_succ (h : ∀ i < n, t i ≤ t (i + 1)) (hx : x < n * 2 ^ k) :
    read k t x ≤ read k t (x + 1) := by
  have hpow : 0 < 2 ^ k := Nat.two_pow_pos k
  have hindex : x / 2 ^ k < n := Nat.div_lt_of_lt_mul (by rwa [Nat.mul_comm])
  have hpart : x % 2 ^ k < 2 ^ k := Nat.mod_lt _ hpow
  have hx := Nat.div_add_mod x (2 ^ k)
  unfold read
  by_cases hlast : x % 2 ^ k + 1 = 2 ^ k
  · have hnext : x + 1 = 2 ^ k * (x / 2 ^ k + 1) := by
      rw [Nat.mul_add, Nat.mul_one]
      omega
    have hdiv : (x + 1) / 2 ^ k = x / 2 ^ k + 1 := by rw [hnext, Nat.mul_div_cancel_left _ hpow]
    have hmod : (x + 1) % 2 ^ k = 0 := by rw [hnext, Nat.mul_mod_right]
    rw [hdiv, hmod, between_zero]
    calc between k (t (x / 2 ^ k)) (t (x / 2 ^ k + 1)) (x % 2 ^ k)
        ≤ between k (t (x / 2 ^ k)) (t (x / 2 ^ k + 1)) (2 ^ k) :=
          between_mono (h _ hindex) hpart.le
      _ = t (x / 2 ^ k + 1) := between_whole
  · have hshort : x % 2 ^ k + 1 < 2 ^ k := Nat.lt_of_le_of_ne hpart hlast
    have hnext : x + 1 = 2 ^ k * (x / 2 ^ k) + (x % 2 ^ k + 1) := by omega
    have hdiv : (x + 1) / 2 ^ k = x / 2 ^ k := by
      rw [hnext, Nat.mul_add_div hpow, Nat.div_eq_of_lt hshort, Nat.add_zero]
    have hmod : (x + 1) % 2 ^ k = x % 2 ^ k + 1 := by
      rw [hnext, Nat.mul_add_mod, Nat.mod_eq_of_lt hshort]
    rw [hdiv, hmod]
    exact between_mono (h _ hindex) (Nat.le_succ _)

/-- What is read does not decrease where the table does not. -/
theorem read_mono (h : ∀ i < n, t i ≤ t (i + 1)) (hxy : x ≤ y) (hy : y ≤ n * 2 ^ k) :
    read k t x ≤ read k t y := by
  induction y, hxy using Nat.le_induction with
  | base => exact le_rfl
  | succ y hxy ih => exact (ih (Nat.le_of_succ_le hy)).trans (read_le_succ h hy)

theorem read_zero : read k t 0 = t 0 := by
  rw [read, Nat.zero_div, Nat.zero_mod, between_zero]

/-- What is read is not below the first value. -/
theorem le_read (h : ∀ i < n, t i ≤ t (i + 1)) (hx : x ≤ n * 2 ^ k) : t 0 ≤ read k t x := by
  rw [← read_zero (k := k) (t := t)]
  exact read_mono h (Nat.zero_le _) hx

/-- What is read is below the last value, where the last step of the table rises. -/
theorem read_lt (h : ∀ i < n, t i ≤ t (i + 1)) (hlast : t n < t (n + 1))
    (hx : x < (n + 1) * 2 ^ k) : read k t x < t (n + 1) := by
  have hpow : 0 < 2 ^ k := Nat.two_pow_pos k
  have htop : n * 2 ^ k ≤ (n + 1) * 2 ^ k - 1 := by
    rw [Nat.add_mul]
    omega
  have hle : x ≤ (n + 1) * 2 ^ k - 1 := by omega
  have hrises : ∀ i < n + 1, t i ≤ t (i + 1) := by
    intro i hi
    obtain hi | rfl := Nat.lt_succ_iff_lt_or_eq.mp hi
    · exact h i hi
    · exact hlast.le
  refine (read_mono hrises hle (Nat.sub_le _ _)).trans_lt ?_
  have hrest : (n + 1) * 2 ^ k - 1 = 2 ^ k * n + (2 ^ k - 1) := by
    rw [Nat.add_mul, Nat.mul_comm]
    omega
  have hdiv : ((n + 1) * 2 ^ k - 1) / 2 ^ k = n := by
    rw [hrest, Nat.mul_add_div hpow, Nat.div_eq_of_lt (by omega), Nat.add_zero]
  have hmod : ((n + 1) * 2 ^ k - 1) % 2 ^ k = 2 ^ k - 1 := by
    rw [hrest, Nat.mul_add_mod, Nat.mod_eq_of_lt (by omega)]
  rw [read, hdiv, hmod]
  exact between_lt hlast (by omega)

end Interpolate
