import HamsOpen.Lib.Loop
import Mathlib.Algebra.Order.Ring.Nat
import Mathlib.Data.Nat.Size
import Mathlib.Data.Nat.Sqrt
import Mathlib.Tactic.Linarith
import Mathlib.Tactic.Ring

/-!
# Integer square roots

The roots of `isqrt.rs` and `fixed_ops.rs`: Newton's iteration for 64 bits, the digit recurrence for
128, and a root of a wide Q16.16 value that drops low bits to fit. The arithmetic here is checked: a
sum or product too large for its width, or a division by zero, gives nothing.
-/

namespace HamsOpen.Ambe

/-- A value that fits the width. -/
def checked (w x : ℕ) : Option ℕ := if x < 2 ^ w then some x else none

theorem checked_of_lt {w x : ℕ} (h : x < 2 ^ w) : checked w x = some x := if_pos h

/-! ### Newton's iteration -/

/-- One round of the iteration for the root of `n`. -/
def newtonBody (n x : ℕ) : ℕ ⊕ Option ℕ :=
  if x = 0 then .inr none
  else match checked 64 (x + n / x) with
    | none => .inr none
    | some sum => if x ≤ sum / 2 then .inr (some x) else .inl (sum / 2)

/-- The iteration for the root of `n`. -/
def newton (n : ℕ) : Loop ℕ (Option ℕ) where
  body := newtonBody n
  size x := x
  shrinks {x y} h := by
    unfold newtonBody at h
    split at h
    · cases h
    · split at h
      · cases h
      · split at h
        · cases h
        · cases h
          omega

/-- Steps back from a value whose square is too large. -/
def stepBack (n : ℕ) : Loop ℕ (Option ℕ) where
  body x := match checked 64 (x * x) with
    | none => .inr none
    | some square => if n < square then .inl (x - 1) else .inr (some x)
  size x := x
  shrinks {x y} h := by
    unfold checked at h
    split at h
    · cases h
    next square hsquare =>
      split at h
      next hlt =>
        cases h
        obtain ⟨-, heq⟩ := Option.ite_none_right_eq_some.mp hsquare
        obtain rfl := Option.some.inj heq
        have hpos : x ≠ 0 := by
          rintro rfl
          simp at hlt
        omega
      · cases h

/-- `isqrt_u64`. -/
def isqrtU64 (n : ℕ) : Option ℕ :=
  if n = 0 then some 0
  else do
    let x ← (newton n).run (2 ^ ((n.size + 1) / 2))
    (stepBack n).run x

/-! ### The digit recurrence -/

/-- The first digit to try. -/
def firstBit (n : ℕ) : Loop ℕ ℕ where
  body bit := if n < bit then .inl (bit >>> 2) else .inr bit
  size bit := bit
  shrinks {x y} h := by
    split at h
    · cases h
      rw [Nat.shiftRight_eq_div_pow]
      omega
    · cases h

/-- What is left of the value, the root so far and the digit to try. -/
structure Digits where
  remainder : ℕ
  result : ℕ
  bit : ℕ
  deriving DecidableEq

def digitsBody (d : Digits) : Digits ⊕ Option ℕ :=
  if d.bit = 0 then .inr (some d.result)
  else match checked 128 (d.result + d.bit) with
    | none => .inr none
    | some sum =>
      if sum ≤ d.remainder then
        match checked 128 (d.result >>> 1 + d.bit) with
        | none => .inr none
        | some result => .inl ⟨d.remainder - sum, result, d.bit >>> 2⟩
      else .inl ⟨d.remainder, d.result >>> 1, d.bit >>> 2⟩

def digits : Loop Digits (Option ℕ) where
  body := digitsBody
  size d := d.bit
  shrinks {d e} h := by
    have hless : d.bit ≠ 0 → d.bit >>> 2 < d.bit := by
      intro hne
      rw [Nat.shiftRight_eq_div_pow]
      omega
    unfold digitsBody at h
    split at h
    · cases h
    · split at h
      · cases h
      · split at h
        · split at h
          · cases h
          · cases h
            exact hless ‹_›
        · cases h
          exact hless ‹_›

/-- `isqrt_u128`. -/
def isqrtU128 (n : ℕ) : Option ℕ := digits.run ⟨n, 0, (firstBit n).run (2 ^ 126)⟩

/-- How many low bits the root of a wide value drops, in pairs. -/
def droppedPairs (x : Int64) : ℕ := ((x.toInt.toNat * 2 ^ 16).size - 63 + 1) / 2

/-- `sqrt_wide_q16`. The value is widened to 128 bits and shifted, and what is left is cut to 64. -/
def sqrtWideQ16 (x : Int64) : Option Int64 :=
  if x.toInt ≤ 0 then some 0
  else do
    let target := x.toInt.toNat * 2 ^ 16 % 2 ^ 128
    let k := (target.size - 63 + 1) / 2
    let root ← isqrtU64 (target >>> (2 * k) % 2 ^ 64)
    some (.ofInt (root * 2 ^ k % 2 ^ 64 : ℕ))

/-! ### Newton's iteration from above -/

section Newton

variable {n x : ℕ}

/-- The iteration never falls below the root. -/
theorem sqrt_le_next (hx : 0 < x) : n.sqrt ≤ (x + n / x) / 2 := by
  have hroot : n.sqrt * n.sqrt ≤ n := n.sqrt_le
  have hquot : 2 * n.sqrt - x ≤ n / x := by
    rw [Nat.le_div_iff_mul_le hx]
    obtain hle | hlt := Nat.le_total (2 * n.sqrt) x
    · rw [Nat.sub_eq_zero_of_le hle, Nat.zero_mul]
      exact Nat.zero_le n
    · -- the square of the difference is not negative
      refine le_trans ?_ hroot
      zify [hlt]
      nlinarith [sq_nonneg ((n.sqrt : ℤ) - x)]
  omega

theorem newton_run (hn : 0 < n) (hx : n.sqrt ≤ x) (hsmall : x ≤ 2 ^ 32) :
    (newton n).run x = some n.sqrt := by
  revert hx hsmall
  apply (newton n).induct (P := fun x r => n.sqrt ≤ x → x ≤ 2 ^ 32 → r = some n.sqrt) ?_ ?_ x
  all_goals
    intro x
    have hsum (hx : n.sqrt ≤ x) (hsmall : x ≤ 2 ^ 32) :
        x ≠ 0 ∧ checked 64 (x + n / x) = some (x + n / x) := by
      have hpos : 0 < x := (Nat.sqrt_pos.mpr hn).trans_le hx
      have hsquare : n < (x + 1) * (x + 1) := Nat.sqrt_lt.mp (Nat.lt_succ_of_le hx)
      have hquot : n / x < x + 3 := by
        rw [Nat.div_lt_iff_lt_mul hpos]
        nlinarith
      exact ⟨hpos.ne', checked_of_lt (by omega)⟩
  · intro r hbody hx hsmall
    obtain ⟨hne, hchecked⟩ := hsum hx hsmall
    change newtonBody n x = _ at hbody
    rw [newtonBody, if_neg hne, hchecked] at hbody
    simp only at hbody
    split at hbody
    next hle =>
      cases hbody
      -- no smaller value follows, so the square fits
      have hquot : x ≤ n / x := by omega
      have hsquare : x * x ≤ n := (Nat.le_div_iff_mul_le (Nat.pos_of_ne_zero hne)).mp hquot
      rw [le_antisymm (Nat.le_sqrt.mpr hsquare) hx]
    next => cases hbody
  · intro y r hbody ih hx hsmall
    obtain ⟨hne, hchecked⟩ := hsum hx hsmall
    change newtonBody n x = _ at hbody
    rw [newtonBody, if_neg hne, hchecked] at hbody
    simp only at hbody
    split at hbody
    next => cases hbody
    next hlt =>
      cases hbody
      exact ih (sqrt_le_next (Nat.pos_of_ne_zero hne)) (by omega)

theorem isqrtU64_eq (n : UInt64) : isqrtU64 n.toNat = some n.toNat.sqrt := by
  have hlt : n.toNat < 2 ^ 64 := n.toNat_lt
  by_cases hzero : n.toNat = 0
  · rw [hzero]
    rfl
  have hsize : n.toNat.size ≤ 64 := Nat.size_le.mpr hlt
  have hstart : n.toNat.sqrt ≤ 2 ^ ((n.toNat.size + 1) / 2) := by
    apply le_of_lt
    rw [Nat.sqrt_lt', ← pow_mul]
    exact (Nat.lt_size_self _).trans_le (Nat.pow_le_pow_right (by norm_num) (by omega))
  have hsmall : 2 ^ ((n.toNat.size + 1) / 2) ≤ 2 ^ 32 :=
    Nat.pow_le_pow_right (by norm_num) (by omega)
  rw [isqrtU64, if_neg hzero, newton_run (Nat.pos_of_ne_zero hzero) hstart hsmall]
  have hsquare : n.toNat.sqrt * n.toNat.sqrt ≤ n.toNat := Nat.sqrt_le _
  apply Loop.run_of_break
  simp only [stepBack, checked_of_lt (hsquare.trans_lt hlt), if_neg (not_lt.mpr hsquare)]

end Newton

/-! ### The recurrence -/

section Recurrence

variable {n : ℕ}

/-- The digits found so far are those of `a`, the next one counts `2 ^ k`, and the root is less than
one digit above them. -/
def Found (n : ℕ) (d : Digits) : Prop :=
  ∃ a, d.remainder + a * a = n ∧
    (d.bit = 0 ∧ d.result = a ∧ n < (a + 1) * (a + 1) ∨
      ∃ k, d.bit = 4 ^ k ∧ d.result = a * 2 ^ (k + 1) ∧ (k ≤ 62 ∨ k = 63 ∧ a = 0) ∧
        n < (a + 2 ^ (k + 1)) * (a + 2 ^ (k + 1)))

theorem four_pow (k : ℕ) : 4 ^ k = 2 ^ k * 2 ^ k := by
  rw [← Nat.mul_pow]

/-- The next digit is found, whether it is tried with success or not. -/
theorem found_next (k a p r : ℕ) (hp : p = 2 ^ k) (hr : r + a * a = n) (hk : k ≤ 63)
    (hlt : n < (a + p) * (a + p)) : Found n ⟨r, a * p, 4 ^ k >>> 2⟩ := by
  refine ⟨a, hr, ?_⟩
  subst hp
  cases k with
  | zero =>
    rw [pow_zero] at hlt
    exact .inl ⟨rfl, by rw [pow_zero, Nat.mul_one], hlt⟩
  | succ j =>
    refine .inr ⟨j, ?_, rfl, .inl (by omega), hlt⟩
    rw [Nat.shiftRight_eq_div_pow, pow_succ]
    exact Nat.mul_div_cancel _ (by norm_num)

/-- One round finds one digit, and nothing in it is too large. -/
theorem digits_step (hn : n < 2 ^ 128) {r a k : ℕ} (hr : r + a * a = n)
    (hk : k ≤ 62 ∨ k = 63 ∧ a = 0) (hlt : n < (a + 2 ^ (k + 1)) * (a + 2 ^ (k + 1))) :
    ∃ e, digitsBody ⟨r, a * 2 ^ (k + 1), 4 ^ k⟩ = .inl e ∧ Found n e := by
  have hne : (4 : ℕ) ^ k ≠ 0 := by positivity
  obtain ⟨p, hp⟩ : ∃ p, p = 2 ^ k := ⟨_, rfl⟩
  have hfour : 4 ^ k = p * p := by rw [four_pow, hp]
  have htwo : 2 ^ (k + 1) = 2 * p := by rw [pow_succ, hp, Nat.mul_comm]
  have hhalf : (a * (2 * p)) >>> 1 = a * p := by
    rw [Nat.shiftRight_eq_div_pow, pow_one, Nat.mul_left_comm]
    exact Nat.mul_div_cancel_left _ (by norm_num)
  have hsum : a * (2 * p) + p * p < 2 ^ 128 := by
    obtain hk | ⟨rfl, rfl⟩ := hk
    · have ha : a < 2 ^ 64 := by
        by_contra hge
        have hsquare := Nat.mul_le_mul (not_lt.mp hge) (not_lt.mp hge)
        omega
      have hsmall : p ≤ 2 ^ 62 := hp ▸ Nat.pow_le_pow_right (by norm_num) hk
      nlinarith
    · rw [hp]
      norm_num
  have hsmaller : a * p + p * p < 2 ^ 128 := by nlinarith
  have hbit : k ≤ 63 := by omega
  simp only [digitsBody, if_neg hne, htwo, hhalf]
  rw [hfour, checked_of_lt hsum, checked_of_lt hsmaller, ← hfour]
  simp only
  split
  next hle =>
    refine ⟨_, rfl, ?_⟩
    have hresult : a * p + 4 ^ k = (a + p) * p := by rw [hfour, Nat.add_mul]
    rw [hresult]
    rw [hfour] at hle
    apply found_next k (a + p) p _ hp ?_ hbit
    · rw [htwo] at hlt
      have hsame : a + p + p = a + 2 * p := by omega
      rw [hsame]
      exact hlt
    · rw [hfour]
      have hsquare : (a + p) * (a + p) = a * (2 * p) + p * p + a * a := by ring
      omega
  next hgt =>
    refine ⟨_, rfl, ?_⟩
    rw [hfour] at hgt
    apply found_next k a p r hp hr hbit
    have hsquare : (a + p) * (a + p) = a * (2 * p) + p * p + a * a := by ring
    omega

theorem digits_run (hn : n < 2 ^ 128) {d : Digits} (hd : Found n d) :
    digits.run d = some n.sqrt := by
  revert hd
  apply digits.induct (P := fun d r => Found n d → r = some n.sqrt) ?_ ?_ d
  all_goals rintro ⟨remainder, result, bit⟩
  · intro r hbody ⟨a, hrest, hdigits⟩
    change digitsBody _ = _ at hbody
    obtain ⟨hbit, hresult, hlt⟩ | ⟨k, hbit, hresult, hk, hlt⟩ := hdigits
    · rw [digitsBody, if_pos hbit] at hbody
      cases hbody
      have hle : a * a ≤ n := Nat.le.intro ((Nat.add_comm _ _).trans hrest)
      have hroot : a = n.sqrt := Nat.eq_sqrt.mpr ⟨hle, hlt⟩
      rw [← hroot]
      exact congrArg some hresult
    · obtain ⟨e, hstep, -⟩ := digits_step hn hrest hk hlt
      simp only at hbit hresult
      rw [hbit, hresult, hstep] at hbody
      cases hbody
  · intro e r hbody ih ⟨a, hrest, hdigits⟩
    change digitsBody _ = _ at hbody
    obtain ⟨hbit, -⟩ | ⟨k, hbit, hresult, hk, hlt⟩ := hdigits
    · rw [digitsBody, if_pos hbit] at hbody
      cases hbody
    · obtain ⟨e', hstep, hfound⟩ := digits_step hn hrest hk hlt
      simp only at hbit hresult
      rw [hbit, hresult, hstep] at hbody
      cases hbody
      exact ih hfound

/-- The first digit is the largest that may count. -/
theorem found_first (hn : n < 2 ^ 128) : Found n ⟨n, 0, (firstBit n).run (2 ^ 126)⟩ := by
  have hrun := (firstBit n).induct
    (P := fun bit r => (bit = 0 ∧ n = 0 ∨ ∃ k ≤ 63, bit = 4 ^ k ∧ n < 4 ^ (k + 1)) →
      Found n ⟨n, 0, r⟩) ?_ ?_ (2 ^ 126)
  · exact hrun (.inr ⟨63, le_refl _, by norm_num, by norm_num; exact hn⟩)
  · intro bit r hbody hbit
    change (if n < bit then _ else _) = _ at hbody
    split at hbody
    next => cases hbody
    next hle =>
      cases hbody
      obtain ⟨rfl, rfl⟩ | ⟨k, hk, rfl, hlt⟩ := hbit
      · exact ⟨0, rfl, .inl ⟨rfl, rfl, by norm_num⟩⟩
      · rw [four_pow] at hlt
        refine ⟨0, rfl, .inr ⟨k, rfl, (Nat.zero_mul _).symm, ?_, by simpa using hlt⟩⟩
        omega
  · intro bit next r hbody ih hbit
    change (if n < bit then _ else _) = _ at hbody
    split at hbody
    next hlt =>
      cases hbody
      apply ih
      obtain ⟨rfl, rfl⟩ | ⟨k, hk, rfl, -⟩ := hbit
      · cases hlt
      · cases k with
        | zero => exact .inl ⟨rfl, by omega⟩
        | succ j =>
          refine .inr ⟨j, by omega, ?_, hlt⟩
          rw [Nat.shiftRight_eq_div_pow, pow_succ]
          exact Nat.mul_div_cancel _ (by norm_num)
    next => cases hbody

theorem isqrtU128_eq (n : BitVec 128) : isqrtU128 n.toNat = some n.toNat.sqrt :=
  digits_run n.isLt (found_first n.isLt)

end Recurrence

/-! ### The wide root -/

/-- The root of what is left after low bits are dropped, and the value itself. -/
theorem sqrt_dropped (t k : ℕ) :
    (t / 2 ^ (2 * k)).sqrt * 2 ^ k * ((t / 2 ^ (2 * k)).sqrt * 2 ^ k) ≤ t ∧
      t < ((t / 2 ^ (2 * k)).sqrt * 2 ^ k + 2 ^ k) * ((t / 2 ^ (2 * k)).sqrt * 2 ^ k + 2 ^ k) := by
  have hpos : 0 < 2 ^ (2 * k) := by positivity
  have hpow : 2 ^ (2 * k) = 2 ^ k * 2 ^ k := by rw [← pow_add, two_mul]
  have hroot := (t / 2 ^ (2 * k)).sqrt_le
  have habove := (t / 2 ^ (2 * k)).lt_succ_sqrt
  constructor
  · calc (t / 2 ^ (2 * k)).sqrt * 2 ^ k * ((t / 2 ^ (2 * k)).sqrt * 2 ^ k)
        = (t / 2 ^ (2 * k)).sqrt * (t / 2 ^ (2 * k)).sqrt * 2 ^ (2 * k) := by rw [hpow]; ring
      _ ≤ t / 2 ^ (2 * k) * 2 ^ (2 * k) := Nat.mul_le_mul_right _ hroot
      _ ≤ t := Nat.div_mul_le_self _ _
  · calc t < (t / 2 ^ (2 * k) + 1) * 2 ^ (2 * k) := by
          rw [Nat.mul_comm]
          exact Nat.lt_mul_div_succ t hpos
      _ ≤ (t / 2 ^ (2 * k)).sqrt.succ * (t / 2 ^ (2 * k)).sqrt.succ * 2 ^ (2 * k) :=
          Nat.mul_le_mul_right _ habove
      _ = ((t / 2 ^ (2 * k)).sqrt * 2 ^ k + 2 ^ k) * ((t / 2 ^ (2 * k)).sqrt * 2 ^ k + 2 ^ k) := by
          rw [hpow, Nat.succ_eq_add_one]
          ring

theorem sqrtWideQ16_spec {x : Int64} (hx : 0 ≤ x.toInt) : ∃ r : Int64, sqrtWideQ16 x = some r ∧
    r.toInt * r.toInt ≤ x.toInt * 2 ^ 16 ∧
    x.toInt * 2 ^ 16 < (r.toInt + 2 ^ droppedPairs x) * (r.toInt + 2 ^ droppedPairs x) := by
  by_cases hzero : x.toInt ≤ 0
  · have hx : x.toInt = 0 := le_antisymm hzero hx
    refine ⟨0, by rw [sqrtWideQ16, if_pos hzero], ?_, ?_⟩
    · rw [hx]
      decide
    · rw [droppedPairs, hx]
      decide
  have hlt : x.toInt < 2 ^ 63 := x.toInt_lt
  obtain ⟨v, hv⟩ : ∃ v : ℕ, x.toInt = v := ⟨x.toInt.toNat, by omega⟩
  obtain ⟨t, ht⟩ : ∃ t, t = v * 2 ^ 16 := ⟨_, rfl⟩
  have htarget : t % 2 ^ 128 = t := Nat.mod_eq_of_lt (by omega)
  obtain ⟨k, hk⟩ : ∃ k, k = (t.size - 63 + 1) / 2 := ⟨_, rfl⟩
  have hdropped : droppedPairs x = k := by rw [droppedPairs, hv, Int.toNat_natCast, ← ht, hk]
  -- what is left fits 64 bits, and its root 32
  have hsize : t.size ≤ 79 := Nat.size_le.mpr (by omega)
  have hfits : t < 2 ^ 63 * 2 ^ (2 * k) := by
    rw [← pow_add]
    exact (Nat.lt_size_self t).trans_le (Nat.pow_le_pow_right (by norm_num) (by omega))
  have hleft : t / 2 ^ (2 * k) < 2 ^ 63 := by
    rw [Nat.div_lt_iff_lt_mul (by positivity)]
    exact hfits
  obtain ⟨root, hroot⟩ : ∃ root, root = (t / 2 ^ (2 * k)).sqrt := ⟨_, rfl⟩
  have hsmall : root < 2 ^ 32 := by
    rw [hroot, Nat.sqrt_lt]
    omega
  have hpair : 2 ^ k ≤ 2 ^ 8 := Nat.pow_le_pow_right (by norm_num) (by omega)
  have hwide : root * 2 ^ k < 2 ^ 63 := by
    have hle : root * 2 ^ k ≤ 2 ^ 32 * 2 ^ 8 := Nat.mul_le_mul hsmall.le hpair
    omega
  have hisqrt : isqrtU64 (t / 2 ^ (2 * k)) = some root := by
    have heq := isqrtU64_eq (.ofNat (t / 2 ^ (2 * k)))
    have hword : t / 2 ^ (2 * k) < UInt64.size := hleft.trans (by decide)
    rw [UInt64.toNat_ofNat_of_lt' hword] at heq
    rw [heq, hroot]
  have hspec := sqrt_dropped t k
  rw [← hroot] at hspec
  have hvalue : ((root * 2 ^ k : ℕ) : ℤ) = (Int64.ofInt (root * 2 ^ k : ℕ)).toInt := by
    rw [Int64.toInt_ofInt_of_le (by omega) (by omega)]
  refine ⟨.ofInt (root * 2 ^ k : ℕ), ?_, ?_, ?_⟩
  · rw [sqrtWideQ16, if_neg hzero, hv, Int.toNat_natCast, ← ht]
    simp only [htarget, ← hk, Nat.shiftRight_eq_div_pow]
    rw [Nat.mod_eq_of_lt (by omega), hisqrt, Option.bind_eq_bind, Option.bind_some,
      Nat.mod_eq_of_lt (by omega)]
  · rw [← hvalue, hv]
    have hle := hspec.1
    rw [ht] at hle
    exact_mod_cast hle
  · rw [← hvalue, hv, hdropped]
    have habove := hspec.2
    rw [ht] at habove
    exact_mod_cast habove

/-- The roots are exact for every value, and the wide one is off by less than a unit of what it
keeps. -/
theorem isqrt_exact (n : UInt64) (m : BitVec 128) {x : Int64} (hx : 0 ≤ x.toInt) :
    isqrtU64 n.toNat = some n.toNat.sqrt ∧ isqrtU128 m.toNat = some m.toNat.sqrt ∧
      ∃ r : Int64, sqrtWideQ16 x = some r ∧ r.toInt * r.toInt ≤ x.toInt * 2 ^ 16 ∧
        x.toInt * 2 ^ 16 < (r.toInt + 2 ^ droppedPairs x) * (r.toInt + 2 ^ droppedPairs x) :=
  ⟨isqrtU64_eq n, isqrtU128_eq m, sqrtWideQ16_spec hx⟩

/-- The largest values. -/
theorem isqrt_exact_largest :
    isqrtU64 (UInt64.ofNat (2 ^ 64 - 1)).toNat = some (UInt64.ofNat (2 ^ 64 - 1)).toNat.sqrt ∧
      isqrtU128 (BitVec.allOnes 128).toNat = some (BitVec.allOnes 128).toNat.sqrt ∧
      ∃ r : Int64, sqrtWideQ16 Int64.maxValue = some r ∧
        r.toInt * r.toInt ≤ Int64.maxValue.toInt * 2 ^ 16 ∧
        Int64.maxValue.toInt * 2 ^ 16 < (r.toInt + 2 ^ droppedPairs Int64.maxValue) *
          (r.toInt + 2 ^ droppedPairs Int64.maxValue) :=
  isqrt_exact _ _ (by decide)

end HamsOpen.Ambe
