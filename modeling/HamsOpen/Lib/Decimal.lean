import Mathlib

/-! # Decimal numbers as text

A rational number is rounded to an integer, or to a number of decimal places, and written with its
digits. What is written is read back as the rounded number. Rounding keeps the order of numbers,
whatever it does with a half, and so it keeps an interval exactly when it keeps the two ends. -/

open Set

namespace Decimal

/-! ### Rounding -/

/-- The integer is never farther than a half. -/
def IsRounding (r : ℚ → ℤ) : Prop := ∀ x, |x - r x| ≤ 1 / 2

/-- To the nearest integer, from a half to the even one. -/
def halfEven (x : ℚ) : ℤ :=
  if x - ⌊x⌋ < 1 / 2 then ⌊x⌋
  else if 1 / 2 < x - ⌊x⌋ then ⌊x⌋ + 1
  else if ⌊x⌋ % 2 = 0 then ⌊x⌋
  else ⌊x⌋ + 1

/-- To the nearest integer, from a half away from zero. -/
def halfAway (x : ℚ) : ℤ := if 0 ≤ x then ⌊x + 1 / 2⌋ else ⌈x - 1 / 2⌉

theorem isRounding_halfEven : IsRounding halfEven := by
  intro x
  have hle := Int.floor_le x
  have hlt := Int.lt_floor_add_one x
  unfold halfEven
  split_ifs with hbelow habove heven
  · rw [abs_le]
    constructor <;> linarith
  · push_cast
    rw [abs_le]
    constructor <;> linarith
  · rw [abs_le]
    constructor <;> linarith
  · push_cast
    rw [abs_le]
    constructor <;> linarith

theorem isRounding_halfAway : IsRounding halfAway := by
  intro x
  unfold halfAway
  split_ifs
  · have hle := Int.floor_le (x + 1 / 2)
    have hlt := Int.lt_floor_add_one (x + 1 / 2)
    rw [abs_le]
    constructor <;> linarith
  · have hle := Int.le_ceil (x - 1 / 2)
    have hlt := Int.ceil_lt_add_one (x - 1 / 2)
    rw [abs_le]
    constructor <;> linarith

section Rounding

variable {r : ℚ → ℤ} {x y : ℚ}

theorem IsRounding.monotone (hr : IsRounding r) : Monotone r := by
  intro x y hxy
  by_contra hback
  have hgap : (r y : ℚ) + 1 ≤ r x := by exact_mod_cast Int.add_one_le_iff.mpr (not_le.mp hback)
  have hx := (abs_le.mp (hr x)).1
  have hy := (abs_le.mp (hr y)).2
  -- the two are at most a half from integers that are one apart, so they are the same number
  have hyx : y ≤ x := by linarith
  exact hback (le_of_eq (congrArg r (le_antisymm hxy hyx)))

theorem IsRounding.intCast (hr : IsRounding r) (n : ℤ) : r n = n := by
  have hnear := abs_le.mp (hr n)
  have hbelow : (n : ℚ) < r n + 1 := by linarith [hnear.2]
  have habove : (r n : ℚ) < n + 1 := by linarith [hnear.1]
  have hbelow : n < r n + 1 := by exact_mod_cast hbelow
  have habove : r n < n + 1 := by exact_mod_cast habove
  omega

/-- A number is rounded up, or not at all, from a half on; from a half only to an even integer. -/
theorem le_halfEven_iff : x ≤ halfEven x ↔
    x = ⌊x⌋ ∨ 1 / 2 < x - ⌊x⌋ ∨ x - ⌊x⌋ = 1 / 2 ∧ ⌊x⌋ % 2 ≠ 0 := by
  have hle := Int.floor_le x
  have hlt := Int.lt_floor_add_one x
  unfold halfEven
  split_ifs with hbelow habove heven
  · constructor
    · intro h
      exact .inl (le_antisymm h hle)
    · rintro (h | h | ⟨h, -⟩) <;> linarith
  · push_cast
    exact ⟨fun _ => .inr (.inl habove), fun _ => hlt.le⟩
  · constructor
    · intro h
      exact .inl (le_antisymm h hle)
    · rintro (h | h | ⟨-, hodd⟩)
      · exact h.le
      · exact absurd h habove
      · exact absurd heven hodd
  · push_cast
    have hhalf : x - ⌊x⌋ = 1 / 2 := le_antisymm (not_lt.mp habove) (not_lt.mp hbelow)
    exact ⟨fun _ => .inr (.inr ⟨hhalf, heven⟩), fun _ => hlt.le⟩

/-- A number is rounded down, or not at all, up to a half; from a half only to an even integer. -/
theorem halfEven_le_iff : halfEven x ≤ x ↔
    x - ⌊x⌋ < 1 / 2 ∨ x - ⌊x⌋ = 1 / 2 ∧ ⌊x⌋ % 2 = 0 := by
  have hle := Int.floor_le x
  have hlt := Int.lt_floor_add_one x
  unfold halfEven
  split_ifs with hbelow habove heven
  · exact ⟨fun _ => .inl hbelow, fun _ => hle⟩
  · push_cast
    constructor
    · intro h
      linarith
    · rintro (h | ⟨h, -⟩) <;> linarith
  · have hhalf : x - ⌊x⌋ = 1 / 2 := le_antisymm (not_lt.mp habove) (not_lt.mp hbelow)
    exact ⟨fun _ => .inr ⟨hhalf, heven⟩, fun _ => hle⟩
  · push_cast
    constructor
    · intro h
      linarith
    · rintro (h | ⟨-, h⟩)
      · exact absurd h hbelow
      · exact absurd h heven

/-- From zero on, rounding away from zero is the floor up to a half and one more from there. -/
theorem halfAway_eq (hx : 0 ≤ x) : halfAway x = if x - ⌊x⌋ < 1 / 2 then ⌊x⌋ else ⌊x⌋ + 1 := by
  have hle := Int.floor_le x
  have hlt := Int.lt_floor_add_one x
  rw [halfAway, if_pos hx]
  split_ifs with hbelow
  · apply Int.floor_eq_iff.mpr
    constructor <;> linarith
  · apply Int.floor_eq_iff.mpr
    push_cast
    constructor <;> linarith

theorem le_halfAway_iff (hx : 0 ≤ x) : x ≤ halfAway x ↔ x = ⌊x⌋ ∨ 1 / 2 ≤ x - ⌊x⌋ := by
  have hle := Int.floor_le x
  have hlt := Int.lt_floor_add_one x
  rw [halfAway_eq hx]
  split_ifs with hbelow
  · constructor
    · intro h
      exact .inl (le_antisymm h hle)
    · rintro (h | h) <;> linarith
  · push_cast
    exact ⟨fun _ => .inr (not_lt.mp hbelow), fun _ => hlt.le⟩

theorem halfAway_le_iff (hx : 0 ≤ x) : halfAway x ≤ x ↔ x - ⌊x⌋ < 1 / 2 := by
  have hle := Int.floor_le x
  have hlt := Int.lt_floor_add_one x
  rw [halfAway_eq hx]
  split_ifs with hbelow
  · exact ⟨fun _ => hbelow, fun _ => hle⟩
  · push_cast
    constructor
    · intro h
      linarith
    · intro h
      exact absurd h hbelow

/-- A number closer than a half to an integer is rounded to it. -/
theorem IsRounding.eq_of_near (hr : IsRounding r) {n : ℤ} (h : |x - n| < 1 / 2) : r x = n := by
  have hround := abs_le.mp (hr x)
  have hnear := abs_lt.mp h
  have hbelow : (n : ℚ) < r x + 1 := by linarith [hround.2, hnear.1]
  have habove : (r x : ℚ) < n + 1 := by linarith [hround.1, hnear.2]
  have hbelow : n < r x + 1 := by exact_mod_cast hbelow
  have habove : r x < n + 1 := by exact_mod_cast habove
  omega

theorem IsRounding.zero (hr : IsRounding r) : r 0 = 0 := by simpa using hr.intCast 0

/-- A fraction is rounded by its remainder. -/
theorem halfEven_div (m d : ℕ) (hd : 0 < d) : halfEven ((m : ℚ) / d) =
    if 2 * (m % d) < d ∨ 2 * (m % d) = d ∧ m / d % 2 = 0 then ((m / d : ℕ) : ℤ)
    else ((m / d : ℕ) : ℤ) + 1 := by
  have hpos : (0 : ℚ) < d := by exact_mod_cast hd
  have hfloor : ⌊(m : ℚ) / d⌋ = ((m / d : ℕ) : ℤ) := by
    rw [Rat.floor_natCast_div_natCast, Int.natCast_ediv]
  have hsplit : (d : ℚ) * (m / d : ℕ) + (m % d : ℕ) = m := by exact_mod_cast Nat.div_add_mod m d
  have hrest : (m : ℚ) / d - ((m / d : ℕ) : ℤ) = (m % d : ℕ) / d := by
    rw [eq_div_iff hpos.ne', sub_mul, div_mul_cancel₀ _ hpos.ne', Int.cast_natCast]
    linarith
  have hbelow : ((m % d : ℕ) : ℚ) / d < 1 / 2 ↔ 2 * (m % d) < d := by
    rw [div_lt_div_iff₀ hpos (by norm_num), one_mul, mul_comm]
    exact_mod_cast Iff.rfl
  have habove : 1 / 2 < ((m % d : ℕ) : ℚ) / d ↔ d < 2 * (m % d) := by
    rw [div_lt_div_iff₀ (by norm_num) hpos, one_mul, mul_comm (_ : ℚ) 2]
    exact_mod_cast Iff.rfl
  have heven : ((m / d : ℕ) : ℤ) % 2 = 0 ↔ m / d % 2 = 0 := by omega
  unfold halfEven
  simp only [hfloor, hrest, hbelow, habove, heven]
  split_ifs <;> omega

theorem IsRounding.nonneg (hr : IsRounding r) (hx : 0 ≤ x) : 0 ≤ r x :=
  hr.zero ▸ hr.monotone hx

theorem IsRounding.nonpos (hr : IsRounding r) (hx : x ≤ 0) : r x ≤ 0 :=
  hr.zero ▸ hr.monotone hx

/-- Rounded to a number of decimal places. -/
def toPlaces (r : ℚ → ℤ) (p : ℕ) (x : ℚ) : ℚ := r (x * 10 ^ p) / 10 ^ p

theorem IsRounding.monotone_toPlaces (hr : IsRounding r) (p : ℕ) : Monotone (toPlaces r p) := by
  intro x y hxy
  have hpow : (0 : ℚ) < 10 ^ p := by positivity
  have hscaled : x * 10 ^ p ≤ y * 10 ^ p := mul_le_mul_of_nonneg_right hxy hpow.le
  have hround : (r (x * 10 ^ p) : ℚ) ≤ r (y * 10 ^ p) := by exact_mod_cast hr.monotone hscaled
  exact div_le_div_of_nonneg_right hround hpow.le

/-- What is lost with the places that are dropped. -/
theorem IsRounding.toPlaces_near (hr : IsRounding r) (p : ℕ) (x : ℚ) :
    |x - toPlaces r p x| ≤ 1 / 2 / 10 ^ p := by
  have hpow : (0 : ℚ) < 10 ^ p := by positivity
  have hscaled : x - toPlaces r p x = (x * 10 ^ p - r (x * 10 ^ p)) / 10 ^ p := by
    rw [toPlaces, sub_div, mul_div_cancel_right₀ _ hpow.ne']
  rw [hscaled, abs_div, abs_of_pos hpow]
  exact div_le_div_of_nonneg_right (hr _) hpow.le

theorem IsRounding.toPlaces_mem (hr : IsRounding r) (p : ℕ) (h : x ∈ Icc 0 1) :
    toPlaces r p x ∈ Icc 0 1 := by
  have hpow : (0 : ℚ) < 10 ^ p := by positivity
  have hzero : toPlaces r p 0 = 0 := by rw [toPlaces, zero_mul, hr.zero, Int.cast_zero, zero_div]
  have hone : toPlaces r p 1 = 1 := by
    have hround : r ((10 : ℚ) ^ p) = 10 ^ p := by exact_mod_cast hr.intCast (10 ^ p)
    rw [toPlaces, one_mul, hround, Int.cast_pow]
    exact div_self hpow.ne'
  constructor
  · rw [← hzero]
    exact hr.monotone_toPlaces p h.1
  · rw [← hone]
    exact hr.monotone_toPlaces p h.2

theorem le_toPlaces_iff {p : ℕ} : x ≤ toPlaces r p x ↔ x * 10 ^ p ≤ r (x * 10 ^ p) := by
  have hpow : (0 : ℚ) < 10 ^ p := by positivity
  rw [toPlaces, le_div_iff₀ hpow]

theorem toPlaces_le_iff {p : ℕ} : toPlaces r p x ≤ x ↔ r (x * 10 ^ p) ≤ x * 10 ^ p := by
  have hpow : (0 : ℚ) < 10 ^ p := by positivity
  rw [toPlaces, div_le_iff₀ hpow]

end Rounding

/-- A monotone function keeps an interval when it keeps the ends of it. -/
theorem mapsTo_Icc_iff {α : Type*} [Preorder α] {f : α → α} (hf : Monotone f) {lo hi : α}
    (h : lo ≤ hi) : MapsTo f (Icc lo hi) (Icc lo hi) ↔ lo ≤ f lo ∧ f hi ≤ hi := by
  constructor
  · intro hmaps
    exact ⟨(hmaps (left_mem_Icc.mpr h)).1, (hmaps (right_mem_Icc.mpr h)).2⟩
  · rintro ⟨hlo, hhi⟩ x hx
    obtain ⟨hleft, hright⟩ := hf.mapsTo_Icc hx
    exact ⟨hlo.trans hleft, hright.trans hhi⟩

/-! ### Digits -/

/-- The digits of a number, with zeros before them up to a width. -/
def padded (width n : ℕ) : List Char := (Nat.toDigits 10 n).leftpad width '0'

/-- The value of digits. -/
def value (ds : List Char) : ℕ := Nat.ofDigitChars 10 ds 0

theorem isDigit_of_toDigits {n : ℕ} {c : Char} (hc : c ∈ Nat.toDigits 10 n) : c.isDigit = true :=
  Nat.isDigit_of_mem_toDigits (by decide) (by decide) hc

theorem isDigit_of_padded {width n : ℕ} {c : Char} (hc : c ∈ padded width n) :
    c.isDigit = true := by
  rw [padded, List.leftpad, List.mem_append] at hc
  obtain hzero | hdigit := hc
  · rw [List.eq_of_mem_replicate hzero]
    rfl
  · exact isDigit_of_toDigits hdigit

theorem length_padded {width n : ℕ} (hwidth : 0 < width) (h : n < 10 ^ width) :
    (padded width n).length = width := by
  have hle := (Nat.length_toDigits_le_iff (by decide) hwidth).mpr h
  rw [padded, List.length_leftpad]
  exact Nat.max_eq_left hle

theorem padded_ne_nil (width n : ℕ) : padded width n ≠ [] := by
  rw [padded, List.leftpad]
  exact List.append_ne_nil_of_right_ne_nil _ Nat.toDigits_ne_nil

theorem value_toDigits (n : ℕ) : value (Nat.toDigits 10 n) = n := Nat.ofDigitChars_ten_toDigits

theorem value_append (ds es : List Char) :
    value (ds ++ es) = 10 ^ es.length * value ds + value es := by
  rw [value, Nat.ofDigitChars_append, Nat.ofDigitChars_eq_ofDigitChars_zero]
  rfl

theorem value_padded (width n : ℕ) : value (padded width n) = n := by
  rw [padded, List.leftpad, value_append, value_toDigits]
  have hzeros : value (List.replicate (width - (Nat.toDigits 10 n).length) '0') = 0 := by
    rw [value, Nat.ofDigitChars_replicate_zero, Nat.mul_zero]
  rw [hzeros, Nat.mul_zero, Nat.zero_add]

/-! ### Numbers -/

/-- The sign that a text begins with, and what follows it. -/
def sign : List Char → ℤ × List Char
  | '-' :: cs => (-1, cs)
  | '+' :: cs => (1, cs)
  | cs => (1, cs)

/-- The digits that a text begins with, and what follows them. -/
def leading (cs : List Char) : List Char × List Char :=
  (cs.takeWhile Char.isDigit, cs.dropWhile Char.isDigit)

/-- The integer that a text is: digits, with a sign or without. -/
def parseInt (cs : List Char) : Option ℤ :=
  let (s, ds) := sign cs
  if ds ≠ [] ∧ ds.all Char.isDigit then some (s * value ds) else none

/-- The power of ten that a text names. -/
def exponent : List Char → Option ℤ
  | [] => some 0
  | c :: cs => if c = 'e' ∨ c = 'E' then parseInt cs else none

/-- The digits after a decimal point, and what follows them. -/
def fraction : List Char → List Char × List Char
  | '.' :: cs => leading cs
  | cs => ([], cs)

/-- The number that a text is: digits with a decimal point before, between or after them, with a
sign and a power of ten or without. -/
def parse (cs : List Char) : Option ℚ :=
  let (s, cs) := sign cs
  let (whole, cs) := leading cs
  let (frac, cs) := fraction cs
  if whole = [] ∧ frac = [] then none
  else (exponent cs).map fun e : ℤ => (s : ℚ) * value (whole ++ frac) * 10 ^ (e - frac.length)

/-- A number of hundredths, thousandths and so on, as digits with a decimal point. -/
def places (p n : ℕ) : List Char :=
  Nat.toDigits 10 (n / 10 ^ p) ++ if p = 0 then [] else '.' :: padded p (n % 10 ^ p)

/-- A number to a fixed number of decimal places. -/
def format (p : ℕ) (x : ℚ) : List Char :=
  (if x < 0 then ['-'] else []) ++ places p (halfEven (x * 10 ^ p)).natAbs

/-- A number to as many decimal places as it has, when it has no more than `most`. -/
def shortest (most : ℕ) (x : ℚ) : List Char :=
  format (((List.range most).find? fun p => toPlaces halfEven p x = x).getD most) x

theorem mem_places {p n : ℕ} {c : Char} (hc : c ∈ places p n) : c.isDigit = true ∨ c = '.' := by
  rw [places, List.mem_append] at hc
  obtain hwhole | hc := hc
  · exact .inl (isDigit_of_toDigits hwhole)
  · split at hc
    · cases hc
    · obtain rfl | hfrac := List.mem_cons.mp hc
      · exact .inr rfl
      · exact .inl (isDigit_of_padded hfrac)

/-- The characters of a number that is written. -/
theorem mem_format {p : ℕ} {x : ℚ} {c : Char} (hc : c ∈ format p x) :
    c.isDigit = true ∨ c = '.' ∨ c = '-' := by
  rw [format, List.mem_append] at hc
  obtain hsign | hplaces := hc
  · split at hsign
    · exact .inr (.inr (List.mem_singleton.mp hsign))
    · cases hsign
  · obtain hdigit | hpoint := mem_places hplaces
    · exact .inl hdigit
    · exact .inr (.inl hpoint)

theorem format_ne_nil (p : ℕ) (x : ℚ) : format p x ≠ [] := by
  rw [format, places]
  exact List.append_ne_nil_of_right_ne_nil _
    (List.append_ne_nil_of_left_ne_nil Nat.toDigits_ne_nil _)

theorem leading_append {ds cs : List Char} (hds : ∀ c ∈ ds, c.isDigit = true)
    (hcs : ∀ c ∈ cs.head?, c.isDigit = false) : leading (ds ++ cs) = (ds, cs) := by
  have htake : cs.takeWhile Char.isDigit = [] := by
    cases cs with
    | nil => rfl
    | cons c cs => exact List.takeWhile_cons_of_neg (by simp [hcs c rfl])
  have hdrop : cs.dropWhile Char.isDigit = cs := by
    cases cs with
    | nil => rfl
    | cons c cs => exact List.dropWhile_cons_of_neg (by simp [hcs c rfl])
  rw [leading, List.takeWhile_append_of_pos hds, List.dropWhile_append_of_pos hds, htake, hdrop,
    List.append_nil]

/-- Digits with a decimal point between them. -/
theorem parse_point (s : ℤ) {cs whole frac : List Char}
    (hsign : sign cs = (s, whole ++ '.' :: frac)) (hwhole : ∀ c ∈ whole, c.isDigit = true)
    (hfrac : ∀ c ∈ frac, c.isDigit = true)
    (hne : whole ≠ []) : parse cs = some ((s : ℚ) * value (whole ++ frac) / 10 ^ frac.length) := by
  have hlead : leading (whole ++ '.' :: frac) = (whole, '.' :: frac) := by
    apply leading_append hwhole
    intro c hc
    cases hc
    rfl
  have hafter : leading frac = (frac, []) := by
    have happend : leading (frac ++ []) = (frac, []) := leading_append hfrac (by simp)
    rwa [List.append_nil] at happend
  rw [parse, hsign]
  simp only [hlead, fraction, hafter, hne, false_and, if_false, exponent, Option.map_some]
  congr 1
  rw [zero_sub, zpow_neg, zpow_natCast, div_eq_mul_inv]

/-- Digits alone. -/
theorem parse_whole (s : ℤ) {cs whole : List Char} (hsign : sign cs = (s, whole))
    (hwhole : ∀ c ∈ whole, c.isDigit = true) (hne : whole ≠ []) :
    parse cs = some ((s : ℚ) * value whole) := by
  have hlead : leading whole = (whole, []) := by
    have happend : leading (whole ++ []) = (whole, []) := leading_append hwhole (by simp)
    rwa [List.append_nil] at happend
  rw [parse, hsign]
  simp only [hlead, fraction, hne, false_and, if_false, exponent, Option.map_some, List.append_nil,
    List.length_nil]
  simp

/-- The digits of a number that is written. -/
theorem value_places {p : ℕ} (hp : 0 < p) (n : ℕ) :
    value (Nat.toDigits 10 (n / 10 ^ p) ++ padded p (n % 10 ^ p)) = n := by
  rw [value_append, length_padded hp (Nat.mod_lt _ (by positivity)), value_toDigits, value_padded]
  exact Nat.div_add_mod n (10 ^ p)

/-- The digits before the point and after it, of a number that is written. -/
theorem parse_places (s : ℤ) (cs : List Char) (p n : ℕ) (hsign : sign cs = (s, places p n)) :
    parse cs = some ((s : ℚ) * n / 10 ^ p) := by
  have hwhole : ∀ c ∈ Nat.toDigits 10 (n / 10 ^ p), c.isDigit = true :=
    fun _ hc => isDigit_of_toDigits hc
  obtain rfl | hp := Nat.eq_zero_or_pos p
  · -- no decimal point
    have hplaces : places 0 n = Nat.toDigits 10 n := by simp [places]
    rw [hplaces] at hsign
    rw [parse_whole s hsign (fun _ hc => isDigit_of_toDigits hc) Nat.toDigits_ne_nil,
      value_toDigits, pow_zero, div_one]
  · have hplaces : places p n =
        Nat.toDigits 10 (n / 10 ^ p) ++ '.' :: padded p (n % 10 ^ p) := by
      rw [places, if_neg hp.ne']
    have hlength : (padded p (n % 10 ^ p)).length = p :=
      length_padded hp (Nat.mod_lt _ (by positivity))
    rw [hplaces] at hsign
    rw [parse_point s hsign hwhole (fun _ hc => isDigit_of_padded hc) Nat.toDigits_ne_nil,
      value_places hp, hlength]

theorem sign_of_forall {cs : List Char} (h : ∀ c ∈ cs, c.isDigit = true ∨ c = '.') :
    sign cs = (1, cs) := by
  unfold sign
  split
  next => simp at h
  next => simp at h
  next => rfl

/-- A rounded number is its sign and its digits. -/
theorem toPlaces_halfEven_eq (p : ℕ) (x : ℚ) : toPlaces halfEven p x =
    ((if x < 0 then -1 else 1 : ℤ) : ℚ) * (halfEven (x * 10 ^ p)).natAbs / 10 ^ p := by
  have hpow : (0 : ℚ) < 10 ^ p := by positivity
  rw [toPlaces, Nat.cast_natAbs]
  split_ifs with hx
  · have hround : halfEven (x * 10 ^ p) ≤ 0 :=
      isRounding_halfEven.nonpos (mul_nonpos_of_nonpos_of_nonneg hx.le hpow.le)
    rw [abs_of_nonpos hround]
    push_cast
    ring
  · have hround : 0 ≤ halfEven (x * 10 ^ p) :=
      isRounding_halfEven.nonneg (mul_nonneg (not_lt.mp hx) hpow.le)
    rw [abs_of_nonneg hround]
    push_cast
    ring

/-- What is written is read back, rounded. -/
theorem parse_format (p : ℕ) (x : ℚ) : parse (format p x) = some (toPlaces halfEven p x) := by
  have hsign : sign (format p x) =
      (if x < 0 then -1 else 1, places p (halfEven (x * 10 ^ p)).natAbs) := by
    rw [format]
    split_ifs
    · rfl
    · exact sign_of_forall fun _ hc => mem_places hc
  rw [parse_places _ _ p _ hsign, toPlaces_halfEven_eq]

/-! ### Trimmed numbers -/

/-- A number to a fixed number of decimal places, of which zeros at the end are dropped, and a
point at the end. -/
def trimmed (p : ℕ) (x : ℚ) : List Char :=
  ((format p x).rdropWhile (· = '0')).rdropWhile (· = '.')

theorem value_zeros (ds : List Char) (n : ℕ) :
    value (ds ++ List.replicate n '0') = 10 ^ n * value ds := by
  rw [value_append, List.length_replicate]
  have hzeros : value (List.replicate n '0') = 0 := by
    rw [value, Nat.ofDigitChars_replicate_zero, Nat.mul_zero]
  rw [hzeros, Nat.add_zero]

/-- Digits with the zeros at the end of them apart. -/
theorem exists_zeros (ds : List Char) :
    ∃ es n, ds = es ++ List.replicate n '0' ∧ ∀ h : es ≠ [], es.getLast h ≠ '0' := by
  refine ⟨ds.rdropWhile (· = '0'), (ds.rtakeWhile (· = '0')).length, ?_, ?_⟩
  · have hzeros : ds.rtakeWhile (· = '0') =
        List.replicate (ds.rtakeWhile (· = '0')).length '0' := by
      rw [List.eq_replicate_iff]
      refine ⟨rfl, fun c hc => ?_⟩
      have hzero := List.mem_rtakeWhile_imp hc
      exact of_decide_eq_true hzero
    rw [← hzeros]
    exact List.rdropWhile_append_rtakeWhile.symm
  · intro h hlast
    exact List.rdropWhile_last_not _ _ h (decide_eq_true hlast)

theorem rdropWhile_append_replicate (cs : List Char) (n : ℕ) :
    (cs ++ List.replicate n '0').rdropWhile (· = '0') = cs.rdropWhile (· = '0') := by
  induction n with
  | zero => rw [List.replicate_zero, List.append_nil]
  | succ n ih =>
    rw [List.replicate_succ', ← List.append_assoc, List.rdropWhile_concat_pos _ _ _ (by simp), ih]

/-- Nothing is dropped from a text that ends in another character. -/
theorem rdropWhile_of_getLast {cs : List Char} {d : Char} (hne : cs ≠ [])
    (hlast : cs.getLast hne ≠ d) : cs.rdropWhile (· = d) = cs := by
  rw [List.rdropWhile_eq_self_iff]
  intro _ hd
  exact hlast (of_decide_eq_true hd)

/-- The zeros at the end of a fraction are dropped, and the point when no digit is left. -/
theorem parse_dropped (s : ℤ) {cs whole frac : List Char}
    (hwhole : ∀ c ∈ whole, c.isDigit = true) (hfrac : ∀ c ∈ frac, c.isDigit = true)
    (hne : whole ≠ [])
    (hsign : sign cs =
      (s, ((whole ++ '.' :: frac).rdropWhile (· = '0')).rdropWhile (· = '.'))) :
    parse cs = some ((s : ℚ) * value (whole ++ frac) / 10 ^ frac.length) := by
  obtain ⟨left, n, rfl, hlast⟩ := exists_zeros frac
  have hleft : ∀ c ∈ left, c.isDigit = true := fun c hc => hfrac c (List.mem_append_left _ hc)
  have hdot : ∀ c : Char, c.isDigit = true → c ≠ '.' := by
    rintro c hc rfl
    cases hc
  have hzeros : (whole ++ '.' :: (left ++ List.replicate n '0')).rdropWhile (· = '0') =
      whole ++ '.' :: left := by
    have hassoc : whole ++ '.' :: (left ++ List.replicate n '0') =
        (whole ++ '.' :: left) ++ List.replicate n '0' := by simp
    rw [hassoc, rdropWhile_append_replicate]
    apply rdropWhile_of_getLast (by simp)
    obtain rfl | hnil := eq_or_ne left []
    · simp
    · rw [List.getLast_append_of_ne_nil _ (by simp), List.getLast_cons hnil]
      exact hlast hnil
  have hvalue : value (whole ++ (left ++ List.replicate n '0')) =
      10 ^ n * value (whole ++ left) := by
    rw [← List.append_assoc, value_zeros]
  have hpow : (10 : ℚ) ^ (left ++ List.replicate n '0').length = 10 ^ n * 10 ^ left.length := by
    rw [List.length_append, List.length_replicate, pow_add, mul_comm]
  rw [hzeros] at hsign
  rw [hvalue, hpow]
  obtain rfl | hnil := eq_or_ne left []
  · -- only the whole part is left
    have hpoint : (whole ++ ['.']).rdropWhile (· = '.') = whole := by
      rw [List.rdropWhile_concat_pos _ _ _ (by simp)]
      exact rdropWhile_of_getLast hne (hdot _ (hwhole _ (List.getLast_mem hne)))
    rw [hpoint] at hsign
    rw [parse_whole s hsign hwhole hne, List.append_nil]
    congr 1
    push_cast
    field_simp
    simp
  · have hpoint : (whole ++ '.' :: left).rdropWhile (· = '.') = whole ++ '.' :: left := by
      apply rdropWhile_of_getLast (by simp)
      rw [List.getLast_append_of_ne_nil _ (by simp), List.getLast_cons hnil]
      exact hdot _ (hleft _ (List.getLast_mem hnil))
    rw [hpoint] at hsign
    rw [parse_point s hsign hwhole hleft hne]
    congr 1
    push_cast
    field_simp

/-- What a text keeps at its front is kept with it. -/
theorem rdropWhile_cons {c d : Char} (cs : List Char) (hcd : c ≠ d) :
    (c :: cs).rdropWhile (· = d) = c :: cs.rdropWhile (· = d) := by
  induction cs using List.reverseRecOn with
  | nil => simp [hcd]
  | append_singleton cs e ih =>
    rw [← List.cons_append]
    by_cases he : e = d
    · rw [List.rdropWhile_concat_pos _ _ _ (by simpa using he),
        List.rdropWhile_concat_pos _ _ _ (by simpa using he), ih]
    · rw [List.rdropWhile_concat_neg _ _ _ (by simpa using he),
        List.rdropWhile_concat_neg _ _ _ (by simpa using he), List.cons_append]

/-- What is trimmed is read back as what is not. -/
theorem parse_trimmed {p : ℕ} (hp : 0 < p) (x : ℚ) :
    parse (trimmed p x) = some (toPlaces halfEven p x) := by
  set n := (halfEven (x * 10 ^ p)).natAbs with hn
  set whole := Nat.toDigits 10 (n / 10 ^ p) with hwholeDef
  set frac := padded p (n % 10 ^ p) with hfracDef
  have hwhole : ∀ c ∈ whole, c.isDigit = true := fun _ hc => isDigit_of_toDigits hc
  have hfrac : ∀ c ∈ frac, c.isDigit = true := fun _ hc => isDigit_of_padded hc
  have hlength : frac.length = p := length_padded hp (Nat.mod_lt _ (by positivity))
  have hvalue : value (whole ++ frac) = n := value_places hp n
  have hplaces : places p n = whole ++ '.' :: frac := by rw [places, if_neg hp.ne']
  have hsign : sign (trimmed p x) = (if x < 0 then -1 else 1,
      ((whole ++ '.' :: frac).rdropWhile (· = '0')).rdropWhile (· = '.')) := by
    rw [trimmed, format, ← hn, hplaces]
    split_ifs
    · rw [List.singleton_append, rdropWhile_cons _ (by decide), rdropWhile_cons _ (by decide)]
      rfl
    · rw [List.nil_append]
      apply sign_of_forall
      intro c hc
      apply mem_places (p := p) (n := n)
      rw [hplaces]
      exact (List.rdropWhile_prefix _ _).subset ((List.rdropWhile_prefix _ _).subset hc)
  rw [parse_dropped _ hwhole hfrac Nat.toDigits_ne_nil hsign, hvalue, hlength,
    toPlaces_halfEven_eq]
/-- A fraction is a digit, the point and the places at most. -/
theorem length_trimmed_le {p : ℕ} (hp : 0 < p) {x : ℚ} (hx : x ∈ Icc 0 1) :
    (trimmed p x).length ≤ p + 2 := by
  have hpow : (0 : ℚ) < 10 ^ p := by positivity
  have hn : (halfEven (x * 10 ^ p)).natAbs ≤ 10 ^ p := by
    have hnonneg := isRounding_halfEven.nonneg (mul_nonneg hx.1 hpow.le)
    have hle : halfEven (x * 10 ^ p) ≤ halfEven (((10 ^ p : ℤ)) : ℚ) := by
      apply isRounding_halfEven.monotone
      push_cast
      exact mul_le_of_le_one_left hpow.le hx.2
    rw [isRounding_halfEven.intCast] at hle
    zify
    rwa [abs_of_nonneg hnonneg]
  have hwhole : (Nat.toDigits 10 ((halfEven (x * 10 ^ p)).natAbs / 10 ^ p)).length ≤ 1 := by
    rw [Nat.length_toDigits_le_iff (by decide) one_pos, pow_one]
    have hquot := Nat.div_le_div_right (c := 10 ^ p) hn
    rw [Nat.div_self (by positivity)] at hquot
    omega
  have hfrac : (padded p ((halfEven (x * 10 ^ p)).natAbs % 10 ^ p)).length = p :=
    length_padded hp (Nat.mod_lt _ (by positivity))
  have hformat : (format p x).length ≤ p + 2 := by
    rw [format, if_neg (not_lt.mpr hx.1), List.nil_append, places, if_neg hp.ne',
      List.length_append, List.length_cons, hfrac]
    omega
  exact ((List.rdropWhile_prefix _ _).length_le.trans
    (List.rdropWhile_prefix _ _).length_le).trans hformat

end Decimal
