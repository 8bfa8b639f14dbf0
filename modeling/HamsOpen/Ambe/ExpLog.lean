import HamsOpen.Ambe.FixedOps
import HamsOpen.Lib.Interpolate
import Mathlib

/-!
# Logarithms and powers in Q16.16

The functions of `explog.rs`. The logarithm and the power to base two are read from interpolated
tables of one octave, and shifted to theirs. The other two powers are the one to base two, of a
product that is cut to 32 bits.
-/

namespace HamsOpen.Ambe

/-- The logarithms of one octave. -/
def LOG2_FRAC_Q16_16 : List ℤ :=
  [0, 369, 736, 1102, 1466, 1829, 2190, 2551, 2909, 3267, 3623, 3978, 4331, 4683, 5034, 5384,
    5732, 6079, 6425, 6769, 7112, 7454, 7795, 8134, 8473, 8810, 9146, 9480, 9814, 10146, 10477,
    10807, 11136, 11464, 11791, 12116, 12440, 12764, 13086, 13407, 13727, 14046, 14363, 14680,
    14996, 15310, 15624, 15937, 16248, 16559, 16868, 17177, 17484, 17791, 18096, 18401, 18704,
    19007, 19308, 19609, 19909, 20207, 20505, 20802, 21098, 21393, 21687, 21980, 22272, 22564,
    22854, 23144, 23433, 23720, 24007, 24293, 24579, 24863, 25146, 25429, 25711, 25992, 26272,
    26551, 26830, 27108, 27384, 27660, 27936, 28210, 28484, 28757, 29029, 29300, 29571, 29840,
    30109, 30378, 30645, 30912, 31178, 31443, 31707, 31971, 32234, 32496, 32758, 33019, 33279,
    33538, 33797, 34055, 34312, 34569, 34825, 35080, 35334, 35588, 35841, 36094, 36346, 36597,
    36847, 37097, 37346, 37595, 37842, 38090, 38336, 38582, 38827, 39072, 39316, 39559, 39802,
    40044, 40286, 40527, 40767, 41006, 41246, 41484, 41722, 41959, 42196, 42432, 42667, 42902,
    43137, 43370, 43603, 43836, 44068, 44300, 44530, 44761, 44990, 45220, 45448, 45676, 45904,
    46131, 46357, 46583, 46809, 47034, 47258, 47482, 47705, 47928, 48150, 48372, 48593, 48813,
    49034, 49253, 49472, 49691, 49909, 50127, 50344, 50560, 50776, 50992, 51207, 51422, 51636,
    51850, 52063, 52276, 52488, 52700, 52911, 53122, 53332, 53542, 53751, 53960, 54169, 54377,
    54584, 54791, 54998, 55204, 55410, 55615, 55820, 56025, 56229, 56432, 56635, 56838, 57040,
    57242, 57443, 57644, 57845, 58045, 58245, 58444, 58643, 58841, 59039, 59237, 59434, 59631,
    59827, 60023, 60219, 60414, 60609, 60803, 60997, 61190, 61384, 61576, 61769, 61961, 62152,
    62343, 62534, 62725, 62915, 63104, 63294, 63483, 63671, 63859, 64047, 64234, 64421, 64608,
    64794, 64980, 65166, 65351, 65536]

/-- The powers of one octave. -/
def EXP2_FRAC_Q16_16 : List ℤ :=
  [65536, 65714, 65892, 66071, 66250, 66429, 66609, 66790, 66971, 67153, 67335, 67517, 67700,
    67884, 68068, 68252, 68438, 68623, 68809, 68996, 69183, 69370, 69558, 69747, 69936, 70126,
    70316, 70507, 70698, 70889, 71082, 71274, 71468, 71661, 71856, 72050, 72246, 72442, 72638,
    72835, 73032, 73230, 73429, 73628, 73828, 74028, 74229, 74430, 74632, 74834, 75037, 75240,
    75444, 75649, 75854, 76060, 76266, 76473, 76680, 76888, 77096, 77305, 77515, 77725, 77936,
    78147, 78359, 78572, 78785, 78998, 79212, 79427, 79642, 79858, 80075, 80292, 80510, 80728,
    80947, 81166, 81386, 81607, 81828, 82050, 82273, 82496, 82719, 82944, 83169, 83394, 83620,
    83847, 84074, 84302, 84531, 84760, 84990, 85220, 85451, 85683, 85915, 86148, 86382, 86616,
    86851, 87086, 87322, 87559, 87796, 88034, 88273, 88513, 88752, 88993, 89234, 89476, 89719,
    89962, 90206, 90451, 90696, 90942, 91188, 91436, 91684, 91932, 92181, 92431, 92682, 92933,
    93185, 93438, 93691, 93945, 94200, 94455, 94711, 94968, 95226, 95484, 95743, 96002, 96263,
    96524, 96785, 97048, 97311, 97575, 97839, 98104, 98370, 98637, 98905, 99173, 99442, 99711,
    99982, 100253, 100524, 100797, 101070, 101344, 101619, 101895, 102171, 102448, 102726, 103004,
    103283, 103564, 103844, 104126, 104408, 104691, 104975, 105260, 105545, 105831, 106118, 106406,
    106694, 106984, 107274, 107565, 107856, 108149, 108442, 108736, 109031, 109326, 109623, 109920,
    110218, 110517, 110816, 111117, 111418, 111720, 112023, 112327, 112631, 112937, 113243, 113550,
    113858, 114167, 114476, 114787, 115098, 115410, 115723, 116036, 116351, 116667, 116983, 117300,
    117618, 117937, 118257, 118577, 118899, 119221, 119544, 119869, 120194, 120519, 120846, 121174,
    121502, 121832, 122162, 122493, 122825, 123158, 123492, 123827, 124163, 124500, 124837, 125176,
    125515, 125855, 126197, 126539, 126882, 127226, 127571, 127917, 128263, 128611, 128960, 129310,
    129660, 130012, 130364, 130718, 131072]

/-- A table of 257 entries between the one at an index and the next, with `bits` bits between. -/
def interpolated (table : List ℤ) (bits frac : ℕ) : ℤ :=
  let index := frac >>> bits
  let subFrac := frac % 2 ^ bits
  let a := table.getD (min index 255) 0
  let b := table.getD (min (index + 1) 256) 0
  a + ((b - a) * subFrac) >>> bits

/-- `log2_q16`. The leading one is moved to bit 30, and what is below it looked up. -/
def log2Q16 (x : Int32) : Int32 :=
  if x.toInt ≤ 0 then .minValue
  else
    let msb := Nat.log2 x.toInt.toNat
    let normalized :=
      if msb ≤ 30 then x.toInt.toNat <<< (30 - msb) else x.toInt.toNat >>> (msb - 30)
    let interp := interpolated LOG2_FRAC_Q16_16 22 (normalized % 2 ^ 30)
    .ofInt (msb * 65536 + interp - 16 * 65536)

/-- `i32::MAX`. -/
def MAX : ℤ := 2147483647

/-- The value that `exp2_q16` computes from a whole exponent and one within the octave. -/
def exp2Octave (n interp : ℤ) : ℤ :=
  if 0 ≤ n then
    if 15 ≤ n ∨ MAX >>> n.toNat < interp then MAX else interp <<< n.toNat
  else if 63 ≤ -n then 0
  else (interp + (1 : ℤ) <<< (-n - 1).toNat) >>> (-n).toNat

/-- `exp2_q16` of any integer. -/
def exp2Exact (y : ℤ) : ℤ :=
  exp2Octave (y >>> (16 : ℕ)) (interpolated EXP2_FRAC_Q16_16 8 (y % 65536).toNat)

def exp2Q16 (y : Int32) : Int32 := .ofInt (exp2Exact y.toInt)

def LOG2_E_Q16_16 : Int32 := 94548

def expQ16 (x : Int32) : Int32 := exp2Q16 (mulQ16 x LOG2_E_Q16_16)

def powfQ16 (x p : Int32) : Int32 := exp2Q16 (mulQ16 p (log2Q16 x))

/-! ### The tables -/

variable {table : List ℤ} {bits frac frac' : ℕ}

theorem interpolated_eq (h : frac < 256 * 2 ^ bits) :
    interpolated table bits frac = Interpolate.read bits (fun i => table.getD i 0) frac := by
  have hindex : frac / 2 ^ bits < 256 := Nat.div_lt_of_lt_mul (by rwa [Nat.mul_comm])
  unfold interpolated
  dsimp only
  rw [Nat.shiftRight_eq_div_pow, Nat.min_eq_left (by omega), Nat.min_eq_left (by omega),
    Int.shiftRight_eq_div_pow]
  rfl

theorem interpolated_mono (hrises : ∀ i < 256, table.getD i 0 ≤ table.getD (i + 1) 0)
    (h : frac ≤ frac') (h' : frac' < 256 * 2 ^ bits) :
    interpolated table bits frac ≤ interpolated table bits frac' := by
  rw [interpolated_eq (h.trans_lt h'), interpolated_eq h']
  exact Interpolate.read_mono hrises h h'.le

theorem interpolated_range (hrises : ∀ i < 256, table.getD i 0 ≤ table.getD (i + 1) 0)
    (hlast : table.getD 255 0 < table.getD 256 0) (h : frac < 256 * 2 ^ bits) :
    table.getD 0 0 ≤ interpolated table bits frac ∧
      interpolated table bits frac < table.getD 256 0 := by
  rw [interpolated_eq h]
  constructor
  · exact Interpolate.le_read hrises h.le
  · exact Interpolate.read_lt (n := 255) (fun i hi => hrises i (hi.trans (by decide))) hlast h

theorem rises_of_isChain (h : table.length = 257 ∧ table.IsChain (· ≤ ·)) :
    ∀ i < 256, table.getD i 0 ≤ table.getD (i + 1) 0 := by
  intro i hi
  obtain ⟨hlength, hchain⟩ := h
  rw [List.getD_eq_getElem _ _ (by omega), List.getD_eq_getElem _ _ (by omega)]
  exact hchain.getElem i (by omega)

theorem exp2_rises : ∀ i < 256, EXP2_FRAC_Q16_16.getD i 0 ≤ EXP2_FRAC_Q16_16.getD (i + 1) 0 :=
  rises_of_isChain (by decide +kernel)

theorem log2_rises : ∀ i < 256, LOG2_FRAC_Q16_16.getD i 0 ≤ LOG2_FRAC_Q16_16.getD (i + 1) 0 :=
  rises_of_isChain (by decide +kernel)

/-! ### Powers of two -/

section Exp2

variable {n m m' y z : ℤ}

theorem exp2Octave_nonneg (k : ℕ) (hm : 65536 ≤ m) : exp2Octave k m = min MAX (m * 2 ^ k) := by
  have hpow : (0 : ℤ) < 2 ^ k := by positivity
  unfold exp2Octave
  rw [if_pos (Int.natCast_nonneg k), Int.toNat_natCast, Int.shiftRight_eq_div_pow,
    Int.shiftLeft_eq]
  split
  next htop =>
    rw [min_eq_left]
    rcases htop with hk | hlt
    · have hpow15 : (2 : ℤ) ^ 15 ≤ 2 ^ k := pow_le_pow_right₀ (by decide) (by omega)
      have hmul : 65536 * 2 ^ 15 ≤ m * 2 ^ k :=
        Int.mul_le_mul hm hpow15 (by positivity) (by omega)
      exact le_trans (by decide) hmul
    · exact (Int.ediv_lt_iff_lt_mul hpow).mp hlt |>.le
  next hlow =>
    rw [min_eq_right]
    rw [not_or, Int.not_lt] at hlow
    exact (Int.le_ediv_iff_mul_le hpow).mp hlow.2

theorem exp2Octave_neg (k : ℕ) (hm : 0 ≤ m) (hm' : m ≤ 131072) :
    exp2Octave (-(k + 1 : ℕ)) m = (m + 2 ^ k) / 2 ^ (k + 1) := by
  have hneg : ¬0 ≤ (-((k + 1 : ℕ) : ℤ)) := by omega
  have hshift : (-(-((k + 1 : ℕ) : ℤ)) - 1).toNat = k := by omega
  have hshift' : (-(-((k + 1 : ℕ) : ℤ))).toNat = k + 1 := by omega
  unfold exp2Octave
  rw [if_neg hneg, hshift, hshift', Int.shiftRight_eq_div_pow, Int.shiftLeft_eq, Int.one_mul]
  split
  next hfar =>
    have hpow18 : (2 : ℤ) ^ 18 ≤ 2 ^ k := pow_le_pow_right₀ (by decide) (by omega)
    rw [Int.ediv_eq_zero_of_lt (by positivity)]
    rw [pow_succ]
    omega
  next => rfl

theorem exp2Octave_mono (hm : 65536 ≤ m) (h : m ≤ m') (hm' : m' ≤ 131072) :
    exp2Octave n m ≤ exp2Octave n m' := by
  rcases Int.lt_or_le n 0 with hn | hn
  · obtain ⟨k, rfl⟩ : ∃ k : ℕ, n = -((k + 1 : ℕ) : ℤ) := ⟨(-n).toNat - 1, by omega⟩
    rw [exp2Octave_neg k (by omega) (h.trans hm'), exp2Octave_neg k (by omega) hm']
    exact Int.ediv_le_ediv (by positivity) (Int.add_le_add_right h _)
  · obtain ⟨k, rfl⟩ := Int.eq_ofNat_of_zero_le hn
    rw [exp2Octave_nonneg k hm, exp2Octave_nonneg k (hm.trans h)]
    apply min_le_min_left
    exact Int.mul_le_mul_of_nonneg_right h (by positivity)

/-- Where two octaves meet, the end of one is the beginning of the next. -/
theorem exp2Octave_succ (n : ℤ) : exp2Octave (n + 1) 65536 = exp2Octave n 131072 := by
  rcases lt_trichotomy n (-1) with hn | rfl | hn
  · obtain ⟨k, rfl⟩ : ∃ k : ℕ, n = -((k + 1 + 1 : ℕ) : ℤ) := ⟨(-n).toNat - 2, by omega⟩
    have hnext : -((k + 1 + 1 : ℕ) : ℤ) + 1 = -((k + 1 : ℕ) : ℤ) := by omega
    have hsum : (131072 : ℤ) + 2 ^ (k + 1) = 2 * (65536 + 2 ^ k) := by
      rw [pow_succ]
      ring
    have hpow : (2 : ℤ) ^ (k + 1 + 1) = 2 * 2 ^ (k + 1) := by ring
    rw [hnext, exp2Octave_neg k (by decide) (by decide),
      exp2Octave_neg (k + 1) (by decide) (by decide), hsum, hpow,
      Int.mul_ediv_mul_of_pos _ _ (by decide)]
  · decide
  · obtain ⟨k, rfl⟩ := Int.eq_ofNat_of_zero_le (show 0 ≤ n by omega)
    have hnext : (k : ℤ) + 1 = ((k + 1 : ℕ) : ℤ) := by omega
    have hpow : (65536 : ℤ) * 2 ^ (k + 1) = 131072 * 2 ^ k := by ring
    rw [hnext, exp2Octave_nonneg (k + 1) le_rfl, exp2Octave_nonneg k (by decide), hpow]

theorem interpolated_exp2 (y : ℤ) :
    65536 ≤ interpolated EXP2_FRAC_Q16_16 8 (y % 65536).toNat ∧
      interpolated EXP2_FRAC_Q16_16 8 (y % 65536).toNat < 131072 :=
  interpolated_range exp2_rises (by decide) (by omega)

theorem exp2Exact_eq (y : ℤ) :
    exp2Exact y =
      exp2Octave (y / 65536) (interpolated EXP2_FRAC_Q16_16 8 (y % 65536).toNat) := by
  rw [exp2Exact, Int.shiftRight_eq_div_pow]
  rfl

theorem exp2Exact_mono : Monotone exp2Exact := by
  apply monotone_int_of_le_succ
  intro y
  rw [exp2Exact_eq, exp2Exact_eq]
  obtain ⟨hlow, hhigh⟩ := interpolated_exp2 y
  by_cases hjoin : y % 65536 = 65535
  · have hoctave : (y + 1) / 65536 = y / 65536 + 1 := by omega
    have hfirst : ((y + 1) % 65536).toNat = 0 := by omega
    have hzero : interpolated EXP2_FRAC_Q16_16 8 0 = 65536 := by decide
    rw [hoctave, hfirst, hzero, exp2Octave_succ]
    exact exp2Octave_mono hlow hhigh.le le_rfl
  · have hoctave : (y + 1) / 65536 = y / 65536 := by omega
    have hnext : (y % 65536).toNat ≤ ((y + 1) % 65536).toNat := by omega
    rw [hoctave]
    exact exp2Octave_mono hlow (interpolated_mono exp2_rises hnext (by omega))
      (interpolated_exp2 (y + 1)).2.le

theorem exp2Exact_of_high (h : 983040 ≤ y) : exp2Exact y = MAX := by
  have hoctave : 15 ≤ y / 65536 := by omega
  rw [exp2Exact_eq, exp2Octave, if_pos (by omega), if_pos (.inl hoctave)]

theorem exp2Exact_of_low (h : y < -1114112) : exp2Exact y = 0 := by
  obtain ⟨hlow, hhigh⟩ := interpolated_exp2 y
  obtain ⟨k, hk⟩ : ∃ k : ℕ, y / 65536 = -((k + 1 : ℕ) : ℤ) := ⟨(-(y / 65536)).toNat - 1, by omega⟩
  have hpow17 : (2 : ℤ) ^ 17 ≤ 2 ^ k := pow_le_pow_right₀ (by decide) (by omega)
  rw [exp2Exact_eq, hk, exp2Octave_neg k (by omega) hhigh.le]
  apply Int.ediv_eq_zero_of_lt
  · omega
  · rw [pow_succ]
    omega

theorem exp2Exact_nonneg (y : ℤ) : 0 ≤ exp2Exact y := by
  have hmono := exp2Exact_mono (min_le_left y (-1114113))
  rwa [exp2Exact_of_low (lt_of_le_of_lt (min_le_right _ _) (by decide))] at hmono

theorem exp2Exact_le_max (y : ℤ) : exp2Exact y ≤ MAX := by
  have hmono := exp2Exact_mono (le_max_left y 983040)
  rwa [exp2Exact_of_high (le_max_right _ _)] at hmono

theorem exp2Exact_eq_max_iff : exp2Exact y = MAX ↔ 983040 ≤ y := by
  refine ⟨?_, exp2Exact_of_high⟩
  intro heq
  by_contra hlow
  have hmono := exp2Exact_mono (show y ≤ 983039 by omega)
  rw [heq] at hmono
  exact absurd hmono (by decide)

theorem exp2Exact_eq_zero_iff : exp2Exact y = 0 ↔ y < -1114112 := by
  refine ⟨?_, exp2Exact_of_low⟩
  intro heq
  by_contra hhigh
  have hmono := exp2Exact_mono (show -1114112 ≤ y by omega)
  rw [heq] at hmono
  exact absurd hmono (by decide)

theorem toInt_exp2Q16 (x : Int32) : (exp2Q16 x).toInt = exp2Exact x.toInt :=
  Int32.toInt_ofInt_of_le ((by decide : (-2 ^ 31 : ℤ) ≤ 0).trans (exp2Exact_nonneg _))
    ((exp2Exact_le_max _).trans_lt (by decide))

end Exp2

/-! ### Logarithms -/

section Log2

variable {x y : Int32}

theorem toInt_log2Q16_nonpos (h : x.toInt ≤ 0) : (log2Q16 x).toInt = -2147483648 := by
  rw [log2Q16, if_pos h]
  rfl

/-- What is below the leading one, moved up to bit 30. -/
def mantissa (n : ℕ) : ℕ := n * 2 ^ (30 - Nat.log2 n) - 2 ^ 30

theorem log2_le_thirty {n : ℕ} (h : n < 2 ^ 31) (hn : n ≠ 0) : Nat.log2 n ≤ 30 :=
  Nat.le_of_lt_succ ((Nat.log2_lt hn).mpr h)

theorem normalized_range {n : ℕ} (h : n < 2 ^ 31) (hn : n ≠ 0) :
    2 ^ 30 ≤ n * 2 ^ (30 - Nat.log2 n) ∧ n * 2 ^ (30 - Nat.log2 n) < 2 ^ 31 := by
  have hmsb := log2_le_thirty h hn
  have hpow : 2 ^ Nat.log2 n * 2 ^ (30 - Nat.log2 n) = 2 ^ 30 := by
    rw [← pow_add, Nat.add_sub_cancel' hmsb]
  have hpow' : 2 ^ (Nat.log2 n + 1) * 2 ^ (30 - Nat.log2 n) = 2 ^ 31 := by
    rw [pow_succ, Nat.mul_right_comm, hpow]
    rfl
  constructor
  · rw [← hpow]
    exact Nat.mul_le_mul_right _ (Nat.log2_self_le hn)
  · rw [← hpow']
    exact Nat.mul_lt_mul_of_pos_right Nat.lt_log2_self (Nat.two_pow_pos _)

theorem mantissa_lt {n : ℕ} (h : n < 2 ^ 31) (hn : n ≠ 0) : mantissa n < 2 ^ 30 := by
  obtain ⟨hlow, hhigh⟩ := normalized_range h hn
  unfold mantissa
  omega

theorem interpolated_log2 {n : ℕ} (h : n < 2 ^ 31) (hn : n ≠ 0) :
    0 ≤ interpolated LOG2_FRAC_Q16_16 22 (mantissa n) ∧
      interpolated LOG2_FRAC_Q16_16 22 (mantissa n) < 65536 :=
  interpolated_range log2_rises (by decide) (mantissa_lt h hn)

theorem toInt_log2Q16 (h : 0 < x.toInt) :
    (log2Q16 x).toInt = Nat.log2 x.toInt.toNat * 65536 +
      interpolated LOG2_FRAC_Q16_16 22 (mantissa x.toInt.toNat) - 16 * 65536 := by
  have hbound : x.toInt.toNat < 2 ^ 31 := by
    have hlt : x.toInt < 2147483648 := x.toInt_lt
    omega
  have hne : x.toInt.toNat ≠ 0 := by omega
  have hmsb := log2_le_thirty hbound hne
  obtain ⟨hlow, hhigh⟩ := normalized_range hbound hne
  obtain ⟨hinterp, hinterp'⟩ := interpolated_log2 hbound hne
  have hmantissa : x.toInt.toNat <<< (30 - Nat.log2 x.toInt.toNat) % 2 ^ 30 =
      mantissa x.toInt.toNat := by
    unfold mantissa
    rw [Nat.shiftLeft_eq]
    omega
  rw [log2Q16, if_neg (Int.not_le.mpr h)]
  dsimp only
  rw [if_pos hmsb, hmantissa]
  apply Int32.toInt_ofInt_of_le
  · omega
  · omega

theorem log2Q16_range (h : 0 < x.toInt) :
    -1048576 ≤ (log2Q16 x).toInt ∧ (log2Q16 x).toInt < 983040 := by
  have hlt : x.toInt < 2147483648 := x.toInt_lt
  have hbound : x.toInt.toNat < 2 ^ 31 := by omega
  have hmsb := log2_le_thirty hbound (by omega)
  obtain ⟨hinterp, hinterp'⟩ := interpolated_log2 hbound (by omega)
  rw [toInt_log2Q16 h]
  omega

/-- Within an octave the mantissa grows, and the next octave is above all of it. -/
theorem log2Q16_mono_pos (hx : 0 < x.toInt) (h : x.toInt ≤ y.toInt) :
    (log2Q16 x).toInt ≤ (log2Q16 y).toInt := by
  have hlt : y.toInt < 2147483648 := y.toInt_lt
  have hle : x.toInt.toNat ≤ y.toInt.toNat := by omega
  have hboundx : x.toInt.toNat < 2 ^ 31 := by omega
  have hboundy : y.toInt.toNat < 2 ^ 31 := by omega
  have hnex : x.toInt.toNat ≠ 0 := by omega
  have hney : y.toInt.toNat ≠ 0 := by omega
  rw [toInt_log2Q16 hx, toInt_log2Q16 (hx.trans_le h)]
  rcases Nat.lt_or_ge (Nat.log2 x.toInt.toNat) (Nat.log2 y.toInt.toNat) with hoctave | hoctave
  · obtain ⟨-, hx'⟩ := interpolated_log2 hboundx hnex
    obtain ⟨hy', -⟩ := interpolated_log2 hboundy hney
    omega
  · have hsame : Nat.log2 y.toInt.toNat = Nat.log2 x.toInt.toNat := by
      apply Nat.le_antisymm hoctave
      exact (Nat.le_log2 hney).mpr ((Nat.log2_self_le hnex).trans hle)
    have hmantissa : mantissa x.toInt.toNat ≤ mantissa y.toInt.toNat := by
      unfold mantissa
      rw [hsame]
      exact Nat.sub_le_sub_right (Nat.mul_le_mul_right _ hle) _
    have hinterp : interpolated LOG2_FRAC_Q16_16 22 (mantissa x.toInt.toNat) ≤
        interpolated LOG2_FRAC_Q16_16 22 (mantissa y.toInt.toNat) :=
      interpolated_mono log2_rises hmantissa (mantissa_lt hboundy hney)
    rw [hsame]
    omega

theorem log2Q16_mono (h : x.toInt ≤ y.toInt) : (log2Q16 x).toInt ≤ (log2Q16 y).toInt := by
  rcases Int.lt_or_le 0 x.toInt with hx | hx
  · exact log2Q16_mono_pos hx h
  · rw [toInt_log2Q16_nonpos hx]
    exact Int32.le_toInt _

/-- The logarithm of a power of two is exact. -/
theorem log2Q16_two_pow {j : ℕ} (h : j ≤ 30) :
    (log2Q16 (.ofInt (2 ^ j))).toInt = (j - 16) * 65536 := by
  have hpow : (2 : ℤ) ^ j ≤ 2 ^ 30 := pow_le_pow_right₀ (by decide) h
  have hpos : (0 : ℤ) < 2 ^ j := by positivity
  have hvalue : (Int32.ofInt (2 ^ j)).toInt = 2 ^ j :=
    Int32.toInt_ofInt_of_le (by omega) (by omega)
  have hnat : ((2 : ℤ) ^ j).toNat = 2 ^ j := by
    rw [Int.toNat_pow_of_nonneg (by decide)]
    rfl
  have hmantissa : mantissa (2 ^ j) = 0 := by
    have hnorm : 2 ^ j * 2 ^ (30 - j) = 2 ^ 30 := by rw [← pow_add, Nat.add_sub_cancel' h]
    unfold mantissa
    rw [Nat.log2_two_pow]
    omega
  have hzero : interpolated LOG2_FRAC_Q16_16 22 0 = 0 := by decide
  rw [toInt_log2Q16 (by rwa [hvalue]), hvalue, hnat, hmantissa, hzero, Nat.log2_two_pow]
  omega

end Log2

/-! ### The exponent is cut to 32 bits -/

section Wrapped

variable {r x y : ℤ}

theorem cut32_add_mul (r k : ℤ) : cut32 (r + 4294967296 * k) = cut32 r := by
  rw [cut32, cut32, Int32.toInt_ofInt, Int32.toInt_ofInt]
  exact Int.add_mul_bmod_self_left r Int32.size k

theorem cut32_of_high (h : 2147483648 ≤ r) (h' : r < 6442450944) : cut32 r = r - 4294967296 := by
  have hwrap := cut32_add_mul r (-1)
  rw [← hwrap, cut32_keep _ (by omega) (by omega)]
  omega

theorem cut32_of_low (h : r < -2147483648) (h' : -6442450944 ≤ r) :
    cut32 r = r + 4294967296 := by
  have hwrap := cut32_add_mul r 1
  rw [← hwrap, cut32_keep _ (by omega) (by omega)]
  omega

/-- The power stops at the ends: it is the greatest value for an exponent of fifteen and more, and
zero for one below the least. -/
def Saturates (e r : ℤ) : Prop := (983040 ≤ e → r = MAX) ∧ (e < -1114112 → r = 0)

theorem saturates_exp2Exact (e : ℤ) : Saturates e (exp2Exact e) :=
  ⟨exp2Exact_of_high, exp2Exact_of_low⟩

/-- The exponent to base two of `exp_q16`. -/
def expExponent (x : ℤ) : ℤ := rounded (x * 94548)

/-- The greatest argument of `exp_q16` whose exponent fits. -/
def EXP_LIMIT : ℤ := 1488529512

theorem toInt_expQ16 (x : Int32) : (expQ16 x).toInt = exp2Exact (cut32 (expExponent x.toInt)) := by
  rw [expQ16, toInt_exp2Q16, toInt_mulQ16]
  rfl

theorem expExponent_mono : Monotone expExponent := by
  intro x y h
  exact rounded_mono (Int.mul_le_mul_of_nonneg_right h (by decide))

theorem expExponent_range (h : -EXP_LIMIT ≤ x) (h' : x ≤ EXP_LIMIT) :
    -2147483648 ≤ expExponent x ∧ expExponent x < 2147483648 := by
  have hlow := expExponent_mono h
  have hhigh := expExponent_mono h'
  have hmin : -2147483648 ≤ expExponent (-EXP_LIMIT) := by decide
  have hmax : expExponent EXP_LIMIT < 2147483648 := by decide
  omega

/-- In range the exponent is kept. -/
theorem exp_of_mem (h : -EXP_LIMIT ≤ x) (h' : x ≤ EXP_LIMIT) :
    exp2Exact (cut32 (expExponent x)) = exp2Exact (expExponent x) := by
  obtain ⟨hlow, hhigh⟩ := expExponent_range h h'
  rw [cut32_keep _ (by omega) (by omega)]

/-- Above it the exponent wraps to a negative one. -/
theorem exp_of_high (h : EXP_LIMIT < x) (h' : x < 2147483648) :
    983040 ≤ expExponent x ∧ exp2Exact (cut32 (expExponent x)) = 0 := by
  have hlow := expExponent_mono (show EXP_LIMIT + 1 ≤ x from h)
  have hhigh := expExponent_mono (show x ≤ 2147483647 by omega)
  have hmin : 2147483648 ≤ expExponent (EXP_LIMIT + 1) := by decide
  have hmax : expExponent 2147483647 < 3100000000 := by decide
  refine ⟨by omega, ?_⟩
  rw [cut32_of_high (by omega) (by omega)]
  exact exp2Exact_of_low (by omega)

/-- Below it the exponent wraps to a positive one. -/
theorem exp_of_low (h : x < -EXP_LIMIT) (h' : -2147483648 ≤ x) :
    expExponent x < -1114112 ∧ exp2Exact (cut32 (expExponent x)) = MAX := by
  have hlow := expExponent_mono h'
  have hhigh := expExponent_mono (show x ≤ -EXP_LIMIT - 1 by omega)
  have hmin : -3100000000 ≤ expExponent (-2147483648) := by decide
  have hmax : expExponent (-EXP_LIMIT - 1) < -2147483648 := by decide
  refine ⟨by omega, ?_⟩
  rw [cut32_of_low (by omega) (by omega)]
  exact exp2Exact_of_high (by omega)

theorem exp_saturates_iff (h : -2147483648 ≤ x) (h' : x < 2147483648) :
    Saturates (expExponent x) (exp2Exact (cut32 (expExponent x))) ↔
      -EXP_LIMIT ≤ x ∧ x ≤ EXP_LIMIT := by
  rcases Int.lt_or_le x (-EXP_LIMIT) with hlow | hlow
  · obtain ⟨hexponent, hmax⟩ := exp_of_low hlow h
    refine iff_of_false ?_ (by omega)
    intro hsaturates
    have hzero := hsaturates.2 hexponent
    rw [hmax] at hzero
    cases hzero
  rcases Int.lt_or_le EXP_LIMIT x with hhigh | hhigh
  · obtain ⟨hexponent, hzero⟩ := exp_of_high hhigh h'
    refine iff_of_false ?_ (by omega)
    intro hsaturates
    have hmax := hsaturates.1 hexponent
    rw [hzero] at hmax
    cases hmax
  · refine iff_of_true ?_ ⟨hlow, hhigh⟩
    rw [exp_of_mem hlow hhigh]
    exact saturates_exp2Exact _

/-- Two arguments whose powers are in order, as far as exponents wrap: below the range the power is
the greatest value, above it the power is zero. -/
def ExpOrdered (x y : ℤ) : Prop :=
  (x < -EXP_LIMIT → y < -EXP_LIMIT ∨ 681395 ≤ y ∧ y ≤ EXP_LIMIT) ∧
    (EXP_LIMIT < y → EXP_LIMIT < x ∨ x ≤ -772248)

instance (x y : ℤ) : Decidable (ExpOrdered x y) := inferInstanceAs (Decidable (_ ∧ _))

theorem exp_le_iff (hx : -2147483648 ≤ x) (hxy : x ≤ y) (hy : y < 2147483648) :
    exp2Exact (cut32 (expExponent x)) ≤ exp2Exact (cut32 (expExponent y)) ↔ ExpOrdered x y := by
  have hmaxpos : (0 : ℤ) < MAX := by decide
  have hlimit : EXP_LIMIT = 1488529512 := rfl
  rcases Int.lt_or_le x (-EXP_LIMIT) with hxlow | hxlow
  · rw [(exp_of_low hxlow hx).2]
    rcases Int.lt_or_le y (-EXP_LIMIT) with hylow | hylow
    · rw [(exp_of_low hylow (hx.trans hxy)).2]
      refine iff_of_true le_rfl ?_
      unfold ExpOrdered
      omega
    rcases Int.lt_or_le EXP_LIMIT y with hyhigh | hyhigh
    · rw [(exp_of_high hyhigh hy).2]
      refine iff_of_false (Int.not_le.mpr hmaxpos) ?_
      unfold ExpOrdered
      omega
    · -- only what reaches the greatest value is not below it
      have hmax : MAX ≤ exp2Exact (expExponent y) ↔ 983040 ≤ expExponent y := by
        rw [← exp2Exact_eq_max_iff]
        exact ⟨fun h => (exp2Exact_le_max _).antisymm h, fun h => h.ge⟩
      have hplace : 983040 ≤ expExponent y ↔ 681395 ≤ y := by
        have hat : 983040 ≤ expExponent 681395 := by decide
        have hbefore : expExponent 681394 < 983040 := by decide
        constructor
        · intro h
          by_contra hless
          have hmono := expExponent_mono (show y ≤ 681394 by omega)
          omega
        · intro h
          exact hat.trans (expExponent_mono h)
      rw [exp_of_mem hylow hyhigh, hmax, hplace]
      unfold ExpOrdered
      omega
  rcases Int.lt_or_le EXP_LIMIT y with hyhigh | hyhigh
  · rw [(exp_of_high hyhigh hy).2]
    rcases Int.lt_or_le EXP_LIMIT x with hxhigh | hxhigh
    · rw [(exp_of_high hxhigh (hxy.trans_lt hy)).2]
      refine iff_of_true le_rfl ?_
      unfold ExpOrdered
      omega
    · -- only what is zero is not above it
      have hzero : exp2Exact (expExponent x) ≤ 0 ↔ expExponent x < -1114112 := by
        rw [← exp2Exact_eq_zero_iff]
        exact ⟨fun h => h.antisymm (exp2Exact_nonneg _), fun h => h.le⟩
      have hplace : expExponent x < -1114112 ↔ x ≤ -772248 := by
        have hat : expExponent (-772248) < -1114112 := by decide
        have hafter : -1114112 ≤ expExponent (-772247) := by decide
        constructor
        · intro h
          by_contra hmore
          have hmono := expExponent_mono (show -772247 ≤ x by omega)
          omega
        · intro h
          exact (expExponent_mono h).trans_lt hat
      rw [exp_of_mem hxlow hxhigh, hzero, hplace]
      unfold ExpOrdered
      omega
  · rw [exp_of_mem hxlow (hxy.trans hyhigh), exp_of_mem (hxlow.trans hxy) hyhigh]
    refine iff_of_true (exp2Exact_mono (expExponent_mono hxy)) ?_
    unfold ExpOrdered
    omega

end Wrapped

/-! ### Powers of any base -/

section Powf

variable {p l k : ℤ}

/-- The value of `powf_q16` from the logarithm of the base. -/
def powfValue (p l : ℤ) : ℤ := exp2Exact (cut32 (rounded (p * l)))

theorem toInt_powfQ16 (x p : Int32) :
    (powfQ16 x p).toInt = powfValue p.toInt (log2Q16 x).toInt := by
  rw [powfQ16, toInt_exp2Q16, toInt_mulQ16]
  rfl

/-- A positive exponent for which the power keeps the order of all bases: below one, or with all
products of positive bases in range, and that of zero wrapped to one so low that the power is
zero. -/
def PowfOrdered (p : ℤ) : Prop :=
  p < 65536 ∨ p < 134217728 ∧ 34 ≤ p % 131072 ∧ p % 131072 < 65536

instance (p : ℤ) : Decidable (PowfOrdered p) := inferInstanceAs (Decidable (_ ∨ _))

theorem rounded_mul_neg (hp : 0 < p) (hk : 0 < k) :
    rounded (p * (-k * 65536)) = -(k * p) - 1 := by
  have hpos : 0 < k * p := Int.mul_pos hk hp
  have hproduct : p * (-k * 65536) = -(k * p) * 65536 := by ring
  rw [hproduct, rounded_mul_one, if_neg (by omega)]

/-- The exponent of a base that is not positive. -/
theorem rounded_zero_base (hp : 0 < p) : rounded (p * -2147483648) = -(32768 * p) - 1 :=
  rounded_mul_neg (k := 32768) hp (by decide)

/-- What is left of it after the cut. -/
theorem cut32_zero_base (p : ℤ) : cut32 (-(32768 * p) - 1) =
    if p % 131072 < 65536 then -(32768 * (p % 131072)) - 1
    else 4294967296 - 32768 * (p % 131072) - 1 := by
  have hsplit : -(32768 * p) - 1 =
      -(32768 * (p % 131072)) - 1 + 4294967296 * (-(p / 131072)) := by omega
  rw [hsplit, cut32_add_mul]
  split
  next hlow => rw [cut32_keep _ (by omega) (by omega)]
  next hhigh =>
    rw [cut32_of_low (by omega) (by omega)]
    omega

/-- Up to an exponent, the products of positive bases are in range. -/
theorem cut32_positive_base (hp : 0 < p) (hp' : p < 134217728) (hl : -1048576 ≤ l)
    (hl' : l < 983040) : cut32 (rounded (p * l)) = rounded (p * l) := by
  have hlow := rounded_mono (Int.mul_le_mul_of_nonneg_left hl hp.le)
  have hhigh := rounded_mono (Int.mul_le_mul_of_nonneg_left hl'.le hp.le)
  have hmin : rounded (p * -1048576) = -(16 * p) - 1 := rounded_mul_neg (k := 16) hp (by decide)
  have hmax : rounded (p * 983040) = 15 * p := by
    have hproduct : p * 983040 = 15 * p * 65536 := by ring
    rw [hproduct, rounded_mul_one, if_pos (by omega)]
  rw [hmin] at hlow
  rw [hmax] at hhigh
  exact cut32_keep _ (by omega) (by omega)

/-- Below one no product wraps. -/
theorem cut32_small (hp : 0 < p) (hp' : p < 65536) (hl : -2147483648 ≤ l) (hl' : l < 983040) :
    cut32 (rounded (p * l)) = rounded (p * l) := by
  rcases Int.lt_or_le l (-1048576) with hless | hmore
  · have hlow := rounded_mono (Int.mul_le_mul_of_nonneg_left hl hp.le)
    have hhigh := rounded_mono (Int.mul_le_mul_of_nonneg_left hless.le hp.le)
    have hmax : rounded (p * -1048576) = -(16 * p) - 1 := rounded_mul_neg (k := 16) hp (by decide)
    rw [rounded_zero_base hp] at hlow
    rw [hmax] at hhigh
    exact cut32_keep _ (by omega) (by omega)
  · exact cut32_positive_base hp (by omega) hmore hl'

theorem log2Q16_lt (x : Int32) : (log2Q16 x).toInt < 983040 := by
  rcases Int.lt_or_le 0 x.toInt with hx | hx
  · exact (log2Q16_range hx).2
  · rw [toInt_log2Q16_nonpos hx]
    decide

/-- Where no product wraps, the power saturates. -/
theorem saturates_powf (h : cut32 (rounded (p * l)) = rounded (p * l)) :
    Saturates (rounded (p * l)) (powfValue p l) := by
  rw [powfValue, h]
  exact saturates_exp2Exact _

theorem powfValue_mono {l' : ℤ} (hp : 0 < p) (hle : l ≤ l')
    (h : cut32 (rounded (p * l)) = rounded (p * l))
    (h' : cut32 (rounded (p * l')) = rounded (p * l')) : powfValue p l ≤ powfValue p l' := by
  rw [powfValue, h, powfValue, h']
  exact exp2Exact_mono (rounded_mono (Int.mul_le_mul_of_nonneg_left hle hp.le))

theorem powf_of_ordered (hp : 0 < p) (h : PowfOrdered p) :
    (∀ x : Int32, Saturates (rounded (p * (log2Q16 x).toInt)) (powfValue p (log2Q16 x).toInt)) ∧
      ∀ x y : Int32, x.toInt ≤ y.toInt →
        powfValue p (log2Q16 x).toInt ≤ powfValue p (log2Q16 y).toInt := by
  rcases h with hsmall | ⟨hfits, hlow, hhigh⟩
  · have hkeep (x : Int32) := cut32_small hp hsmall (log2Q16 x).le_toInt (log2Q16_lt x)
    refine ⟨fun x => saturates_powf (hkeep x), ?_⟩
    intro x y hxy
    exact powfValue_mono hp (log2Q16_mono hxy) (hkeep x) (hkeep y)
  · have hkeep {x : Int32} (hx : 0 < x.toInt) :=
      cut32_positive_base hp hfits (log2Q16_range hx).1 (log2Q16_range hx).2
    have hzero {x : Int32} (hx : x.toInt ≤ 0) : powfValue p (log2Q16 x).toInt = 0 := by
      rw [powfValue, toInt_log2Q16_nonpos hx, rounded_zero_base hp, cut32_zero_base, if_pos hhigh]
      exact exp2Exact_of_low (by omega)
    constructor
    · intro x
      rcases Int.lt_or_le 0 x.toInt with hx | hx
      · exact saturates_powf (hkeep hx)
      · rw [hzero hx, toInt_log2Q16_nonpos hx, rounded_zero_base hp]
        refine ⟨?_, fun _ => rfl⟩
        intro hmore
        omega
    · intro x y hxy
      rcases Int.lt_or_le 0 x.toInt with hx | hx
      · exact powfValue_mono hp (log2Q16_mono hxy) (hkeep hx) (hkeep (hx.trans_le hxy))
      · rw [hzero hx]
        exact exp2Exact_nonneg _

/-- The value at the base `2 ^ -k`, in Q16.16. -/
theorem powfValue_two_pow {n : ℕ} (hp : 0 < p) (hn : 0 < n) (hn' : n ≤ 16) :
    (log2Q16 (.ofInt (2 ^ (16 - n)))).toInt = -n * 65536 ∧
      rounded (p * (-n * 65536)) = -(n * p) - 1 := by
  refine ⟨?_, rounded_mul_neg hp (by omega)⟩
  rw [log2Q16_two_pow (by omega)]
  omega

/-- For a great exponent the products of two neighboring powers of two lie on both sides of the
range. -/
theorem exists_wrapped (hp : 134217728 ≤ p) (hp' : p < 2147483648) :
    ∃ n : ℕ, 1 < n ∧ n ≤ 16 ∧ (n - 1 : ℤ) * p < 2147483648 ∧ 2147483648 ≤ n * p := by
  have hsome : ∃ n : ℕ, 2147483648 ≤ n * p := ⟨16, by omega⟩
  refine ⟨Nat.find hsome, ?_, ?_, ?_, Nat.find_spec hsome⟩
  · have hspec := Nat.find_spec hsome
    by_contra hless
    have hcases : Nat.find hsome = 0 ∨ Nat.find hsome = 1 := by omega
    rcases hcases with hzero | hone
    · rw [hzero] at hspec
      omega
    · rw [hone] at hspec
      omega
  · exact Nat.find_min' hsome (by omega)
  · rcases Nat.eq_zero_or_pos (Nat.find hsome) with hzero | hpos
    · rw [hzero]
      omega
    · have hmin := Nat.find_min hsome (Nat.sub_lt hpos Nat.one_pos)
      rw [Nat.cast_sub hpos] at hmin
      exact Int.not_le.mp hmin

theorem powf_of_not_ordered (hp : 0 < p) (hp' : p < 2147483648) (h : ¬PowfOrdered p) :
    (∃ x : Int32, ¬Saturates (rounded (p * (log2Q16 x).toInt)) (powfValue p (log2Q16 x).toInt)) ∧
      ∃ x y : Int32, x.toInt ≤ y.toInt ∧
        powfValue p (log2Q16 y).toInt < powfValue p (log2Q16 x).toInt := by
  have hone : exp2Exact 0 = 65536 := by decide
  have htiny : exp2Exact (-1048577) = 1 := by decide
  unfold PowfOrdered at h
  rcases Int.lt_or_le p 134217728 with hfits | hgreat
  · -- the product of zero wraps, and its power is not zero
    have hzerobase : (log2Q16 0).toInt = -2147483648 := toInt_log2Q16_nonpos (by decide)
    obtain ⟨hlog, hexponent⟩ := powfValue_two_pow (n := 16) hp (by decide) le_rfl
    have hkeep : cut32 (rounded (p * (-(16 : ℕ) * 65536))) = rounded (p * (-(16 : ℕ) * 65536)) :=
      cut32_positive_base hp hfits (by decide) (by decide)
    have hleast : powfValue p (-(16 : ℕ) * 65536) = exp2Exact (-(16 * p) - 1) := by
      rw [powfValue, hkeep, hexponent]
      rfl
    have hpower : powfValue p (-(16 : ℕ) * 65536) < powfValue p (-2147483648) := by
      rw [hleast, powfValue, rounded_zero_base hp, cut32_zero_base]
      split
      next hlow =>
        rw [exp2Exact_of_low (by omega)]
        apply lt_of_le_of_ne (exp2Exact_nonneg _)
        intro heq
        have hvery := exp2Exact_eq_zero_iff.mp heq.symm
        omega
      next hhigh =>
        calc exp2Exact (-(16 * p) - 1) ≤ exp2Exact (-1048577) := exp2Exact_mono (by omega)
          _ < exp2Exact 0 := by rw [htiny, hone]; decide
          _ ≤ _ := exp2Exact_mono (by omega)
    constructor
    · refine ⟨0, ?_⟩
      rw [hzerobase]
      intro hsaturates
      have hzero := hsaturates.2 (by rw [rounded_zero_base hp]; omega)
      rw [hzero] at hpower
      exact absurd hpower (Int.not_lt.mpr (exp2Exact_nonneg _))
    · refine ⟨0, .ofInt (2 ^ (16 - 16)), by decide, ?_⟩
      rwa [hzerobase, hlog]
  · obtain ⟨n, hn, hn', hbelow, habove⟩ := exists_wrapped hgreat hp'
    obtain ⟨hlog, hexponent⟩ := powfValue_two_pow (n := n) hp (by omega) hn'
    obtain ⟨hlog', hexponent'⟩ := powfValue_two_pow (n := n - 1) hp (by omega) (by omega)
    have hprevious : ((n - 1 : ℕ) : ℤ) = n - 1 := by omega
    have hsmaller : (n - 1 : ℤ) * p = n * p - p := by ring
    have hless : p ≤ (n - 1 : ℤ) * p := by
      have hmul := Int.mul_le_mul_of_nonneg_right (show (1 : ℤ) ≤ n - 1 by omega) hp.le
      omega
    rw [hprevious] at hexponent' hlog'
    have hwrapped : 65536 ≤ powfValue p (-n * 65536) := by
      rw [powfValue, hexponent, cut32_of_low (by omega) (by omega), ← hone]
      exact exp2Exact_mono (by omega)
    constructor
    · refine ⟨.ofInt (2 ^ (16 - n)), ?_⟩
      rw [hlog]
      intro hsaturates
      have hzero := hsaturates.2 (by rw [hexponent]; omega)
      omega
    · refine ⟨.ofInt (2 ^ (16 - n)), .ofInt (2 ^ (16 - (n - 1))), ?_, ?_⟩
      · have hpow : (2 : ℤ) ^ (16 - n) ≤ 2 ^ (16 - (n - 1)) :=
          pow_le_pow_right₀ (by decide) (by omega)
        have hmax : (2 : ℤ) ^ (16 - (n - 1)) ≤ 2 ^ 16 := pow_le_pow_right₀ (by decide) (by omega)
        have hpos : (0 : ℤ) < 2 ^ (16 - n) := by positivity
        rw [Int32.toInt_ofInt_of_le (by omega) (by omega),
          Int32.toInt_ofInt_of_le (by omega) (by omega)]
        exact hpow
      · have hzero : powfValue p (-(n - 1) * 65536) = 0 := by
          rw [powfValue, hexponent', cut32_keep _ (by omega) (by omega)]
          exact exp2Exact_of_low (by omega)
        rw [hlog, hlog', hzero]
        omega

end Powf

/-- Which arguments the three powers keep in order, and where they saturate. That to base two keeps
them all. -/
theorem exponentials_mono_iff (x y p : Int32) :
    ((x ≤ y → exp2Q16 x ≤ exp2Q16 y) ∧ Saturates x.toInt (exp2Q16 x).toInt) ∧
    ((x ≤ y → (expQ16 x ≤ expQ16 y ↔ ExpOrdered x.toInt y.toInt)) ∧
      (Saturates (expExponent x.toInt) (expQ16 x).toInt ↔
        -EXP_LIMIT ≤ x.toInt ∧ x.toInt ≤ EXP_LIMIT)) ∧
    (0 < p →
      ((∀ a b : Int32, a ≤ b → powfQ16 a p ≤ powfQ16 b p) ↔ PowfOrdered p.toInt) ∧
      ((∀ a : Int32, Saturates (rounded (p.toInt * (log2Q16 a).toInt)) (powfQ16 a p).toInt) ↔
        PowfOrdered p.toInt)) := by
  have hlow (a : Int32) : -2147483648 ≤ a.toInt := a.le_toInt
  have hhigh (a : Int32) : a.toInt < 2147483648 := a.toInt_lt
  refine ⟨⟨?_, ?_⟩, ⟨?_, ?_⟩, ?_⟩
  · intro hxy
    rw [Int32.le_iff_toInt_le] at hxy ⊢
    rw [toInt_exp2Q16, toInt_exp2Q16]
    exact exp2Exact_mono hxy
  · rw [toInt_exp2Q16]
    exact saturates_exp2Exact _
  · intro hxy
    rw [Int32.le_iff_toInt_le] at hxy ⊢
    rw [toInt_expQ16, toInt_expQ16]
    exact exp_le_iff (hlow x) hxy (hhigh y)
  · rw [toInt_expQ16]
    exact exp_saturates_iff (hlow x) (hhigh x)
  · intro hp
    have hpos : 0 < p.toInt := Int32.lt_iff_toInt_lt.mp hp
    simp only [Int32.le_iff_toInt_le, toInt_powfQ16]
    by_cases hordered : PowfOrdered p.toInt
    · obtain ⟨hsaturates, hmono⟩ := powf_of_ordered hpos hordered
      exact ⟨iff_of_true hmono hordered, iff_of_true hsaturates hordered⟩
    · obtain ⟨⟨a, ha⟩, b, c, hle, hlt⟩ := powf_of_not_ordered hpos (hhigh p) hordered
      constructor
      · refine iff_of_false ?_ hordered
        intro hmono
        exact absurd (hmono b c hle) (Int.not_le.mpr hlt)
      · refine iff_of_false ?_ hordered
        intro hsaturates
        exact ha (hsaturates a)

theorem exponentials_mono_iff_half :
    expQ16 0 ≤ expQ16 65536 ∧ ∀ a b : Int32, a ≤ b → powfQ16 a 32768 ≤ powfQ16 b 32768 :=
  ⟨((exponentials_mono_iff 0 65536 32768).2.1.1 (by decide)).mpr (by decide),
    ((exponentials_mono_iff 0 65536 32768).2.2 (by decide)).1.mpr (by decide)⟩

/-- The power of the greatest argument is zero, that of the least one the greatest value, and so is
that of zero to an exponent of one. -/
theorem exponentials_wrap :
    (expQ16 0 = 65536 ∧ expQ16 .maxValue = 0 ∧ ¬expQ16 0 ≤ expQ16 .maxValue ∧
      expQ16 .minValue = .maxValue) ∧
    powfQ16 0 65536 = .maxValue ∧ powfQ16 1 65536 = 1 ∧ ¬powfQ16 0 65536 ≤ powfQ16 1 65536 := by
  decide +kernel

end HamsOpen.Ambe
