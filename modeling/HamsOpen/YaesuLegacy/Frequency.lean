import HamsOpen.Civ.Numbers
import HamsOpen.Lib.Positional

/-!
# Frequencies in Yaesu blocks

The ways in which a frequency is written into the five-byte blocks of the older Yaesu radios
(`LegacyFreqForm` in `description.rs`), and the form of the FT-736R, whose band at 1.2 GHz has a
digit of its own for 12 (`yaesu_legacy.rs`). A frequency is a number of hertz.
-/

namespace HamsOpen.YaesuLegacy

open Civ (Byte bcdPair fromBcdByte)

/-! ### The forms -/

/-- How a frequency is written into the bytes of a block: decimal or binary digits, the most or the
least significant byte first, and the unit they count. -/
inductive LegacyFreqForm
  | bcd10HzMsb | bcd10HzLsb | bcd1HzMsb
  | bin10HzMsb3 | bin10HzLsb3 | bin10HzMsb4 | bin1HzMsb4 | bin125Msb4 | bin0625Msb4
  /-- Decimal digits from the one of 100 Hz on, and a code of the step of 25 Hz. -/
  | frg8800
  deriving DecidableEq

/-- Two decimal digits in a byte. -/
def decimal : Positional Byte where
  base := 100
  pos := by decide
  write := bcdPair
  read := fromBcdByte
  read_write := Civ.fromBcdByte_bcdPair
  write_of_read := Civ.bcdPair_of_fromBcdByte

/-- A byte as a digit. -/
def binary : Positional Byte where
  base := 256
  pos := by decide
  write := UInt8.ofNat
  read byte := some byte.toNat
  read_write h := congrArg some (UInt8.toNat_ofNat_of_lt' h)
  write_of_read h := by
    obtain rfl := Option.some.inj h
    exact ⟨UInt8.toNat_lt _, UInt8.ofNat_toNat⟩

namespace LegacyFreqForm

/-- Bytes a frequency occupies. -/
def width : LegacyFreqForm → ℕ
  | bin10HzMsb3 | bin10HzLsb3 => 3
  | _ => 4

/-- Thousandths of a hertz to a count, of the forms that count. -/
def unitMillihz : LegacyFreqForm → ℕ
  | bcd1HzMsb | bin1HzMsb4 => 1000
  | bin125Msb4 => 1250
  | bin0625Msb4 => 625
  | _ => 10000

def isBcd : LegacyFreqForm → Bool
  | bcd10HzMsb | bcd10HzLsb | bcd1HzMsb => true
  | _ => false

def lsbFirst : LegacyFreqForm → Bool
  | bcd10HzLsb | bin10HzLsb3 | frg8800 => true
  | _ => false

/-- The digits of a form. -/
def digits (form : LegacyFreqForm) : Positional Byte := if form.isBcd then decimal else binary

/-- Bytes in the order of the form, from or into the order of their digits. -/
def order (form : LegacyFreqForm) (bytes : List Byte) : List Byte :=
  if form.lsbFirst then bytes else bytes.reverse

/-- The first byte keeps the digit of 100 Hz and gets the code of the step. -/
def markStep (hz : ℕ) : List Byte → List Byte
  | [] => []
  | byte :: bytes => (byte &&& 0xF0 ||| (1 : Byte) <<< UInt8.ofNat (hz % 100 / 25)) :: bytes

/-- The bytes for a frequency; `none` when it is not a whole count of the unit, or does not fit. -/
def encode (form : LegacyFreqForm) (hz : ℕ) : Option (List Byte) :=
  if form = frg8800 then
    if hz % 25 ≠ 0 ∨ 999999975 < hz then none
    else some (markStep hz (decimal.low 4 (hz / 10)))
  -- the multiplication is checked
  else if 2 ^ 64 ≤ hz * 1000 then none
  else if hz * 1000 % form.unitMillihz ≠ 0 then none
  else
    let count := hz * 1000 / form.unitMillihz
    if count / form.digits.base ^ form.width ≠ 0 then none
    else some (form.order (form.digits.low form.width count))

/-- The step of 25 Hz that a nibble stands for. -/
def stepOf (code : Byte) : Option ℕ :=
  if code = 1 then some 0
  else if code = 2 then some 25
  else if code = 4 then some 50
  else if code = 8 then some 75
  else none

/-- The frequency in the bytes, in whole hertz. -/
def decode (form : LegacyFreqForm) (bytes : List Byte) : Option ℕ :=
  if bytes.length ≠ form.width then none
  else if form = frg8800 then
    match bytes with
    | [b₀, b₁, b₂, b₃] => do
      let step ← stepOf (b₀ &&& 15)
      let p₁ ← fromBcdByte b₁
      let p₂ ← fromBcdByte b₂
      let p₃ ← fromBcdByte b₃
      return (b₀ >>> 4).toNat * 100 + step + p₁ * 1000 + p₂ * 100000 + p₃ * 10000000
    | _ => none
  else (form.digits.value (form.order bytes)).map fun count => count * form.unitMillihz / 1000

end LegacyFreqForm

/-- Largest frequency eight decimal digits of 10 Hz hold. -/
def MAX_HZ : ℕ := 999999990

/-- The four bytes of a frequency in units of 10 Hz. -/
def encodeBcdFrequency (hz : ℕ) : Option (List Byte) :=
  if MAX_HZ < hz ∨ hz % 10 ≠ 0 then none else some (decimal.low 4 (hz / 10)).reverse

/-- The frequency in four bytes of digits. -/
def decodeBcdFrequency (bytes : List Byte) : Option ℕ :=
  if bytes.length ≠ 4 then none else (decimal.value bytes.reverse).map (· * 10)

/-- What becomes of the first byte. -/
def onFirst (f : Byte → Byte) : List Byte → List Byte
  | [] => []
  | byte :: bytes => f byte :: bytes

/-- A frequency from 1.2 GHz up to 1.3 GHz has a band with a digit of its own. -/
def HighBand (flag : Bool) (hz : ℕ) : Prop :=
  flag = true ∧ 1200000000 ≤ hz ∧ hz < 1300000000 ∧ hz % 10 = 0

instance {flag : Bool} {hz : ℕ} : Decidable (HighBand flag hz) :=
  inferInstanceAs (Decidable (_ ∧ _))

/-- The four bytes of a frequency block. With the flag of the FT-736R, a first nibble C stands for
the digits 12. -/
def encodeFrequency (hz : ℕ) (highBandFlag : Bool) : Option (List Byte) :=
  if HighBand highBandFlag hz then
    (encodeBcdFrequency (hz - 1200000000)).map (onFirst (· ||| 0xC0))
  else encodeBcdFrequency hz

def decodeFrequency (bytes : List Byte) (highBandFlag : Bool) : Option ℕ :=
  if highBandFlag = true ∧ bytes.head?.any (fun b : Byte => b >>> 4 == 0xC) then
    (decodeBcdFrequency (onFirst (· &&& 0x0F) bytes)).map (· + 1200000000)
  else decodeBcdFrequency bytes

/-! ### What belongs to a form -/

namespace LegacyFreqForm

/-- Thousandths of a hertz to a unit of the form. -/
def unit (form : LegacyFreqForm) : ℕ := if form = frg8800 then 25000 else form.unitMillihz

/-- How many units there are in the width of the form. -/
def capacity (form : LegacyFreqForm) : ℕ :=
  if form = frg8800 then 40000000 else form.digits.base ^ form.width

/-- The frequency is a whole number of units that fits. -/
def Fits (form : LegacyFreqForm) (hz : ℕ) : Prop :=
  ∃ n < form.capacity, hz * 1000 = n * form.unit

/-- Both nibbles are decimal digits. -/
def TwoDigits (byte : Byte) : Prop := (byte >>> 4).toNat ≤ 9 ∧ (byte &&& 15).toNat ≤ 9

instance {byte : Byte} : Decidable (TwoDigits byte) := inferInstanceAs (Decidable (_ ∧ _))

/-- A first byte with a digit and the code of a step. -/
def DigitAndStep (byte : Byte) : Prop :=
  (byte >>> 4).toNat ≤ 9 ∧ (byte &&& 15) ∈ [1, 2, 4, 8]

/-- Bytes as the form has them: of its width, with digits where it has digits, and a step code where
it has one. -/
def WellFormed (form : LegacyFreqForm) (bytes : List Byte) : Prop :=
  bytes.length = form.width ∧ (form.isBcd → ∀ byte ∈ bytes, TwoDigits byte) ∧
    (form = frg8800 →
      (∀ byte ∈ bytes.head?, DigitAndStep byte) ∧ ∀ byte ∈ bytes.tail, TwoDigits byte)

/-- The unit is a whole number of hertz. -/
def WholeHertz (form : LegacyFreqForm) : Prop := 1000 ∣ form.unit

/-- What a form and the frequency block have to do, on a frequency and on bytes. -/
structure Exact (form : LegacyFreqForm) (flag : Bool) (hz : ℕ) (bytes : List Byte) : Prop where
  encodes : (form.encode hz).isSome ↔ form.Fits hz
  reads : ∀ out ∈ form.encode hz, form.decode out = some hz
  refuses : ¬ form.WellFormed bytes → form.decode bytes = none
  writes : form.WholeHertz → ∀ value ∈ form.decode bytes, form.encode value = some bytes
  block : ∀ out ∈ encodeFrequency hz flag, decodeFrequency out flag = some hz
  block_back : ∀ value ∈ decodeFrequency bytes flag, encodeFrequency value flag = some bytes

/-- Bytes of the FRG-8800 that are right but for a first digit above nine. -/
def Unread (form : LegacyFreqForm) (bytes : List Byte) : Prop :=
  form = frg8800 ∧ ∃ b₀ rest, bytes = b₀ :: rest ∧ rest.length = 3 ∧ 9 < (b₀ >>> 4).toNat ∧
    (b₀ &&& 15) ∈ [1, 2, 4, 8] ∧ ∀ byte ∈ rest, TwoDigits byte

/-! ### The forms that count -/

section Counting

variable {form : LegacyFreqForm} {hz : ℕ} {bytes : List Byte}

@[simp]
theorem order_order : form.order (form.order bytes) = bytes := by
  unfold order
  split
  · rfl
  · exact List.reverse_reverse bytes

@[simp]
theorem length_order : (form.order bytes).length = bytes.length := by
  unfold order
  split
  · rfl
  · exact List.length_reverse

theorem mem_order {byte : Byte} : byte ∈ form.order bytes ↔ byte ∈ bytes := by
  unfold order
  split
  · rfl
  · exact List.mem_reverse

theorem unitMillihz_pos : 0 < form.unitMillihz := by
  cases form <;> decide

/-- What fits is far from the end of the machine's numbers. -/
theorem capacity_mul_le : form.digits.base ^ form.width * form.unitMillihz ≤ 2 ^ 32 * 10000 := by
  cases form <;> decide

theorem fits_counting (h : form ≠ frg8800) : form.Fits hz ↔
    hz * 1000 % form.unitMillihz = 0 ∧
      hz * 1000 / form.unitMillihz < form.digits.base ^ form.width := by
  have hpos : 0 < form.unitMillihz := unitMillihz_pos
  unfold Fits unit capacity
  rw [if_neg h, if_neg h]
  constructor
  · rintro ⟨n, hn, hcount⟩
    rw [hcount, Nat.mul_div_cancel _ hpos]
    exact ⟨Nat.mul_mod_left _ _, hn⟩
  · rintro ⟨hwhole, hlt⟩
    exact ⟨_, hlt, (Nat.div_mul_cancel (Nat.dvd_of_mod_eq_zero hwhole)).symm⟩

theorem encode_counting (h : form ≠ frg8800) {out : List Byte} : form.encode hz = some out ↔
    form.Fits hz ∧
      form.order (form.digits.low form.width (hz * 1000 / form.unitMillihz)) = out := by
  have hcap := @capacity_mul_le form
  rw [fits_counting h, encode, if_neg h]
  by_cases hlarge : 2 ^ 64 ≤ hz * 1000
  · -- a frequency as large as that does not fit
    rw [if_pos hlarge]
    refine iff_of_false nofun ?_
    rintro ⟨⟨hwhole, hlt⟩, -⟩
    have hcount := Nat.div_mul_cancel (Nat.dvd_of_mod_eq_zero hwhole)
    have hle := Nat.mul_le_mul_right form.unitMillihz hlt.le
    omega
  · rw [if_neg hlarge]
    by_cases hwhole : hz * 1000 % form.unitMillihz = 0
    · rw [if_neg (not_not_intro hwhole)]
      dsimp only
      by_cases hfits : hz * 1000 / form.unitMillihz / form.digits.base ^ form.width = 0
      · have hlt : hz * 1000 / form.unitMillihz < form.digits.base ^ form.width :=
          (Nat.div_eq_zero_iff_lt (Nat.pow_pos form.digits.pos)).mp hfits
        rw [if_neg (not_not_intro hfits), Option.some.injEq]
        exact ⟨fun hout => ⟨⟨hwhole, hlt⟩, hout⟩, fun hout => hout.2⟩
      · rw [if_pos hfits]
        refine iff_of_false nofun ?_
        rintro ⟨⟨-, hlt⟩, -⟩
        exact hfits (Nat.div_eq_of_lt hlt)
    · rw [if_pos hwhole]
      exact iff_of_false nofun fun hout => hwhole hout.1.1

theorem decode_counting (h : form ≠ frg8800) {value : ℕ} : form.decode bytes = some value ↔
    bytes.length = form.width ∧ ∃ count, form.digits.value (form.order bytes) = some count ∧
      count * form.unitMillihz / 1000 = value := by
  unfold decode
  by_cases hlength : bytes.length = form.width
  · rw [if_neg (not_not_intro hlength), if_neg h, Option.map_eq_some_iff]
    exact (and_iff_right hlength).symm
  · rw [if_pos hlength]
    exact iff_of_false nofun fun hall => hlength hall.1

theorem decode_of_encode_counting (h : form ≠ frg8800) {out : List Byte}
    (hout : form.encode hz = some out) : form.decode out = some hz := by
  obtain ⟨hfits, rfl⟩ := (encode_counting h).mp hout
  obtain ⟨hwhole, hlt⟩ := (fits_counting h).mp hfits
  refine (decode_counting h).mpr ⟨?_, hz * 1000 / form.unitMillihz, ?_, ?_⟩
  · rw [length_order, Positional.length_low]
  · rw [order_order, Positional.value_low, Nat.mod_eq_of_lt hlt]
  · rw [Nat.div_mul_cancel (Nat.dvd_of_mod_eq_zero hwhole), Nat.mul_div_cancel _ (by decide)]

theorem encode_of_decode_counting (h : form ≠ frg8800) (hunit : form.WholeHertz) {value : ℕ}
    (hvalue : form.decode bytes = some value) : form.encode value = some bytes := by
  obtain ⟨hlength, count, hcount, rfl⟩ := (decode_counting h).mp hvalue
  obtain ⟨hlow, hlt⟩ := Positional.low_of_value hcount
  rw [length_order, hlength] at hlow hlt
  have hunit : 1000 ∣ form.unitMillihz := by
    unfold WholeHertz unit at hunit
    rwa [if_neg h] at hunit
  -- whole hertz lose nothing when they are counted
  have hback : count * form.unitMillihz / 1000 * 1000 = count * form.unitMillihz :=
    Nat.div_mul_cancel (Dvd.dvd.mul_left hunit count)
  have hquot : count * form.unitMillihz / form.unitMillihz = count :=
    Nat.mul_div_cancel _ unitMillihz_pos
  refine (encode_counting h).mpr ⟨(fits_counting h).mpr ?_, ?_⟩
  · rw [hback, hquot]
    exact ⟨Nat.mul_mod_left _ _, hlt⟩
  · rw [hback, hquot, hlow, order_order]

theorem fromBcdByte_isSome {byte : Byte} : (fromBcdByte byte).isSome ↔ TwoDigits byte := by
  unfold fromBcdByte TwoDigits
  dsimp only
  split
  next h => exact iff_of_true rfl h
  next h => exact iff_of_false nofun h

theorem decode_isSome_counting (h : form ≠ frg8800) :
    (form.decode bytes).isSome ↔ form.WellFormed bytes := by
  have hdigits : (form.digits.value (form.order bytes)).isSome ↔
      (form.isBcd → ∀ byte ∈ bytes, TwoDigits byte) := by
    rw [← Option.ne_none_iff_isSome, Ne, Positional.value_eq_none, digits]
    push Not
    simp only [mem_order]
    by_cases hbcd : form.isBcd
    · rw [if_pos hbcd]
      refine Iff.trans ?_ (forall_prop_of_true hbcd).symm
      refine forall₂_congr fun byte _ => ?_
      exact Option.ne_none_iff_isSome.trans fromBcdByte_isSome
    · rw [if_neg hbcd]
      exact iff_of_true (fun _ _ => nofun) fun hb => absurd hb hbcd
  have hsome : (form.decode bytes).isSome ↔
      bytes.length = form.width ∧ (form.digits.value (form.order bytes)).isSome := by
    constructor
    · intro hd
      obtain ⟨value, hvalue⟩ := Option.isSome_iff_exists.mp hd
      obtain ⟨hlength, count, hcount, -⟩ := (decode_counting h).mp hvalue
      exact ⟨hlength, Option.isSome_iff_exists.mpr ⟨count, hcount⟩⟩
    · rintro ⟨hlength, hd⟩
      obtain ⟨count, hcount⟩ := Option.isSome_iff_exists.mp hd
      exact Option.isSome_iff_exists.mpr
        ⟨_, (decode_counting h).mpr ⟨hlength, count, hcount, rfl⟩⟩
  rw [hsome, hdigits]
  exact ⟨fun hall => ⟨hall.1, hall.2, fun hfrg => absurd hfrg h⟩, fun hall => ⟨hall.1, hall.2.1⟩⟩

end Counting

/-! ### The form of the FRG-8800 -/

section Frg8800

variable {hz : ℕ} {bytes : List Byte}

/-- Eight digits, two by two. -/
theorem low_decimal (n : ℕ) : decimal.low 4 n = [bcdPair (n % 100), bcdPair (n / 100 % 100),
    bcdPair (n / 100 / 100 % 100), bcdPair (n / 100 / 100 / 100 % 100)] := rfl

theorem fits_frg8800 : frg8800.Fits hz ↔ hz % 25 = 0 ∧ hz ≤ 999999975 := by
  have hunit : frg8800.unit = 25000 := rfl
  have hcapacity : frg8800.capacity = 40000000 := rfl
  unfold Fits
  rw [hunit, hcapacity]
  constructor
  · rintro ⟨n, hn, hcount⟩
    omega
  · rintro ⟨hwhole, hle⟩
    exact ⟨hz / 25, by omega, by omega⟩

theorem encode_frg8800 {out : List Byte} : frg8800.encode hz = some out ↔
    frg8800.Fits hz ∧ markStep hz (decimal.low 4 (hz / 10)) = out := by
  rw [fits_frg8800, encode, if_pos rfl]
  split
  next hbad =>
    refine iff_of_false nofun ?_
    rintro ⟨⟨hwhole, hle⟩, -⟩
    omega
  next hgood =>
    rw [Option.some.injEq]
    refine (and_iff_right ?_).symm
    omega

/-- The first byte: the digit in the high nibble, the code in the low one. -/
theorem firstByte : ∀ d < 100, ∀ s < 4,
    ((bcdPair d &&& 0xF0 ||| (1 : Byte) <<< UInt8.ofNat s) >>> 4).toNat = d / 10 ∧
      stepOf ((bcdPair d &&& 0xF0 ||| (1 : Byte) <<< UInt8.ofNat s) &&& 15) = some (25 * s) := by
  decide

/-- A first byte with a digit is the one that is written for its digit and its step. -/
theorem firstByte_back : ∀ n : Fin 256, ∀ step ∈ stepOf (UInt8.ofFin n &&& 15),
    step < 100 ∧ step % 25 = 0 ∧ ((UInt8.ofFin n >>> 4).toNat ≤ 9 →
      bcdPair ((UInt8.ofFin n >>> 4).toNat * 10 + step / 10) &&& 0xF0 |||
        (1 : Byte) <<< UInt8.ofNat (step / 25) = UInt8.ofFin n) := by
  decide +kernel

theorem stepOf_isSome : ∀ n : Fin 256, (stepOf (UInt8.ofFin n)).isSome ↔
    UInt8.ofFin n ∈ ([1, 2, 4, 8] : List Byte) := by
  decide +kernel

theorem decode_frg8800 {value : ℕ} : frg8800.decode bytes = some value ↔
    ∃ b₀ b₁ b₂ b₃ step p₁ p₂ p₃, bytes = [b₀, b₁, b₂, b₃] ∧ stepOf (b₀ &&& 15) = some step ∧
      fromBcdByte b₁ = some p₁ ∧ fromBcdByte b₂ = some p₂ ∧ fromBcdByte b₃ = some p₃ ∧
      (b₀ >>> 4).toNat * 100 + step + p₁ * 1000 + p₂ * 100000 + p₃ * 10000000 = value := by
  constructor
  · intro h
    unfold decode at h
    obtain ⟨hlength, h⟩ := Option.ite_none_left_eq_some.mp h
    obtain ⟨b₀, b₁, b₂, b₃, rfl⟩ := List.length_eq_four.mp (not_not.mp hlength)
    rw [if_pos rfl] at h
    obtain ⟨step, hstep, h⟩ := Option.bind_eq_some_iff.mp h
    obtain ⟨p₁, hp₁, h⟩ := Option.bind_eq_some_iff.mp h
    obtain ⟨p₂, hp₂, h⟩ := Option.bind_eq_some_iff.mp h
    obtain ⟨p₃, hp₃, h⟩ := Option.bind_eq_some_iff.mp h
    exact ⟨b₀, b₁, b₂, b₃, step, p₁, p₂, p₃, rfl, hstep, hp₁, hp₂, hp₃, Option.some.inj h⟩
  · rintro ⟨b₀, b₁, b₂, b₃, step, p₁, p₂, p₃, rfl, hstep, hp₁, hp₂, hp₃, rfl⟩
    have hlength : ¬ [b₀, b₁, b₂, b₃].length ≠ frg8800.width := not_not_intro rfl
    rw [decode, if_neg hlength, if_pos rfl]
    simp only [hstep, hp₁, hp₂, hp₃, Option.bind_eq_bind, Option.bind_some]
    rfl

/-- A number below a thousand million by its digits. -/
theorem digits_sum {n : ℕ} (h : n < 1000000000) :
    n / 10 % 100 / 10 * 100 + n % 100 + n / 10 / 100 % 100 * 1000 +
      n / 10 / 100 / 100 % 100 * 100000 + n / 10 / 100 / 100 / 100 % 100 * 10000000 = n := by
  omega

theorem decode_of_encode_frg8800 {out : List Byte} (hout : frg8800.encode hz = some out) :
    frg8800.decode out = some hz := by
  obtain ⟨hfits, rfl⟩ := encode_frg8800.mp hout
  obtain ⟨hwhole, hle⟩ := fits_frg8800.mp hfits
  obtain ⟨hdigit, hstep⟩ := firstByte (hz / 10 % 100) (Nat.mod_lt _ (by decide)) (hz % 100 / 25)
    (by omega)
  have hpair (n : ℕ) : fromBcdByte (bcdPair (n % 100)) = some (n % 100) :=
    Civ.fromBcdByte_bcdPair (Nat.mod_lt n (by decide))
  rw [low_decimal]
  refine decode_frg8800.mpr ⟨_, _, _, _, _, _, _, _, rfl, hstep, hpair _, hpair _, hpair _, ?_⟩
  have hsteps : 25 * (hz % 100 / 25) = hz % 100 := by omega
  rw [hdigit, hsteps]
  exact digits_sum (by omega)

/-- What is read is written again, if the first digit is one. -/
theorem encode_of_decode_frg8800 {value : ℕ} (hvalue : frg8800.decode bytes = some value)
    (hdigit : ∀ byte ∈ bytes.head?, (byte >>> 4).toNat ≤ 9) :
    frg8800.encode value = some bytes := by
  obtain ⟨b₀, b₁, b₂, b₃, step, p₁, p₂, p₃, rfl, hstep, hp₁, hp₂, hp₃, rfl⟩ :=
    decode_frg8800.mp hvalue
  have hhigh : (b₀ >>> 4).toNat ≤ 9 := hdigit b₀ rfl
  obtain ⟨hstep100, hstep25, hfirst⟩ := firstByte_back b₀.toFin step hstep
  have hfirst := hfirst hhigh
  obtain ⟨hlt₁, hb₁⟩ := Civ.bcdPair_of_fromBcdByte hp₁
  obtain ⟨hlt₂, hb₂⟩ := Civ.bcdPair_of_fromBcdByte hp₂
  obtain ⟨hlt₃, hb₃⟩ := Civ.bcdPair_of_fromBcdByte hp₃
  generalize hv : (b₀ >>> 4).toNat * 100 + step + p₁ * 1000 + p₂ * 100000 + p₃ * 10000000 = value
  refine encode_frg8800.mpr ⟨fits_frg8800.mpr (by omega), ?_⟩
  -- the digits of the frequency are those of the bytes
  have hs : value % 100 / 25 = step / 25 := by omega
  have hq : (b₀ >>> 4).toNat * 10 + step / 10 < 100 := by omega
  have htens : value / 10 =
      (b₀ >>> 4).toNat * 10 + step / 10 + 100 * (p₁ + 100 * (p₂ + 100 * p₃)) := by
    omega
  have hfirst : bcdPair ((b₀ >>> 4).toNat * 10 + step / 10) &&& 0xF0 |||
      (1 : Byte) <<< UInt8.ofNat (step / 25) = b₀ := hfirst
  generalize (b₀ >>> 4).toNat * 10 + step / 10 = q at hq htens hfirst
  have hd₀ : value / 10 % 100 = q := by omega
  have hd₁ : value / 10 / 100 % 100 = p₁ := by omega
  have hd₂ : value / 10 / 100 / 100 % 100 = p₂ := by omega
  have hd₃ : value / 10 / 100 / 100 / 100 % 100 = p₃ := by omega
  rw [low_decimal, markStep, hd₀, hd₁, hd₂, hd₃, hs, hb₁, hb₂, hb₃, hfirst]

/-- What the form reads: what belongs to it, and bytes whose first digit is above nine. -/
theorem decode_isSome_frg8800 : (frg8800.decode bytes).isSome ↔
    frg8800.WellFormed bytes ∨ frg8800.Unread bytes := by
  have hsome : (frg8800.decode bytes).isSome ↔ ∃ b₀ rest, bytes = b₀ :: rest ∧ rest.length = 3 ∧
      (b₀ &&& 15) ∈ ([1, 2, 4, 8] : List Byte) ∧ ∀ byte ∈ rest, TwoDigits byte := by
    constructor
    · intro h
      obtain ⟨value, hvalue⟩ := Option.isSome_iff_exists.mp h
      obtain ⟨b₀, b₁, b₂, b₃, step, p₁, p₂, p₃, rfl, hstep, hp₁, hp₂, hp₃, -⟩ :=
        decode_frg8800.mp hvalue
      refine ⟨b₀, [b₁, b₂, b₃], rfl, rfl, ?_, ?_⟩
      · exact (stepOf_isSome (b₀ &&& 15).toFin).mp (Option.isSome_iff_exists.mpr ⟨step, hstep⟩)
      · have hread {byte : Byte} {p : ℕ} (hp : fromBcdByte byte = some p) : TwoDigits byte :=
          fromBcdByte_isSome.mp (Option.isSome_iff_exists.mpr ⟨p, hp⟩)
        rw [List.forall_mem_cons, List.forall_mem_cons, List.forall_mem_singleton]
        exact ⟨hread hp₁, hread hp₂, hread hp₃⟩
    · rintro ⟨b₀, rest, rfl, hlength, hcode, hdigits⟩
      obtain ⟨b₁, b₂, b₃, rfl⟩ := List.length_eq_three.mp hlength
      rw [List.forall_mem_cons, List.forall_mem_cons, List.forall_mem_singleton] at hdigits
      obtain ⟨step, hstep⟩ :=
        Option.isSome_iff_exists.mp ((stepOf_isSome (b₀ &&& 15).toFin).mpr hcode)
      obtain ⟨p₁, hp₁⟩ := Option.isSome_iff_exists.mp (fromBcdByte_isSome.mpr hdigits.1)
      obtain ⟨p₂, hp₂⟩ := Option.isSome_iff_exists.mp (fromBcdByte_isSome.mpr hdigits.2.1)
      obtain ⟨p₃, hp₃⟩ := Option.isSome_iff_exists.mp (fromBcdByte_isSome.mpr hdigits.2.2)
      exact Option.isSome_iff_exists.mpr
        ⟨_, decode_frg8800.mpr ⟨_, _, _, _, _, _, _, _, rfl, hstep, hp₁, hp₂, hp₃, rfl⟩⟩
  rw [hsome]
  constructor
  · rintro ⟨b₀, rest, rfl, hlength, hcode, hdigits⟩
    rcases Nat.lt_or_ge 9 (b₀ >>> 4).toNat with hhigh | hhigh
    · exact .inr ⟨rfl, b₀, rest, rfl, hlength, hhigh, hcode, hdigits⟩
    · refine .inl ⟨congrArg (· + 1) hlength, nofun, fun _ => ⟨?_, hdigits⟩⟩
      rintro _ ⟨rfl⟩
      exact ⟨hhigh, hcode⟩
  · rintro (⟨hlength, -, hfrg⟩ | ⟨-, b₀, rest, rfl, hlength, -, hcode, hdigits⟩)
    · obtain ⟨b₀, rest, rfl⟩ := List.exists_cons_of_length_eq_add_one hlength
      obtain ⟨hfirst, hdigits⟩ := hfrg rfl
      exact ⟨b₀, rest, rfl, Nat.succ.inj hlength, (hfirst b₀ rfl).2, hdigits⟩
    · exact ⟨b₀, rest, rfl, hlength, hcode, hdigits⟩

end Frg8800

/-! ### Every form -/

section Forms

variable {form : LegacyFreqForm} {hz : ℕ} {bytes : List Byte}

/-- A frequency is written exactly when it is a whole number of units that fits. -/
theorem encode_isSome : (form.encode hz).isSome ↔ form.Fits hz := by
  rw [Option.isSome_iff_exists]
  by_cases h : form = frg8800
  · subst h
    simp [encode_frg8800]
  · simp [encode_counting h]

/-- What is written is read back. -/
theorem decode_of_encode {out : List Byte} (hout : form.encode hz = some out) :
    form.decode out = some hz := by
  by_cases h : form = frg8800
  · subst h
    exact decode_of_encode_frg8800 hout
  · exact decode_of_encode_counting h hout

/-- What is read: what belongs to the form, and bytes whose first digit is above nine. -/
theorem decode_isSome :
    (form.decode bytes).isSome ↔ form.WellFormed bytes ∨ form.Unread bytes := by
  by_cases h : form = frg8800
  · subst h
    exact decode_isSome_frg8800
  · rw [decode_isSome_counting h]
    exact (or_iff_left fun hun => h hun.1).symm

theorem not_wellFormed_of_unread (h : form.Unread bytes) : ¬ form.WellFormed bytes := by
  obtain ⟨hform, b₀, rest, rfl, -, hhigh, -, -⟩ := h
  intro hwell
  have hfirst := (hwell.2.2 hform).1 b₀ rfl
  exact absurd hfirst.1 (Nat.not_le.mpr hhigh)

/-- What is read of bytes that belong to the form is written as these bytes. -/
theorem encode_of_decode (hunit : form.WholeHertz) {value : ℕ}
    (hvalue : form.decode bytes = some value) (h : ¬ form.Unread bytes) :
    form.encode value = some bytes := by
  by_cases hfrg : form = frg8800
  · subst hfrg
    apply encode_of_decode_frg8800 hvalue
    have hwell := (decode_isSome.mp (Option.isSome_iff_exists.mpr ⟨value, hvalue⟩)).resolve_right h
    exact fun byte hbyte => ((hwell.2.2 rfl).1 byte hbyte).1
  · exact encode_of_decode_counting hfrg hunit hvalue

end Forms

end LegacyFreqForm

/-! ### The block of the FT-736R -/

section Block

variable {hz value : ℕ} {bytes out : List Byte} {flag : Bool}

theorem encodeBcdFrequency_eq : encodeBcdFrequency hz = LegacyFreqForm.bcd10HzMsb.encode hz := by
  apply Option.ext
  intro out
  have hcount : hz * 1000 / 10000 = hz / 10 := by omega
  have hfits : LegacyFreqForm.bcd10HzMsb.Fits hz ↔ ¬ (MAX_HZ < hz ∨ hz % 10 ≠ 0) := by
    rw [LegacyFreqForm.fits_counting (by decide)]
    change hz * 1000 % 10000 = 0 ∧ hz * 1000 / 10000 < 100000000 ↔ ¬ (999999990 < hz ∨ hz % 10 ≠ 0)
    omega
  rw [LegacyFreqForm.encode_counting (by decide), hfits, encodeBcdFrequency,
    Option.ite_none_left_eq_some, Option.some.injEq]
  change _ ∧ (decimal.low 4 (hz / 10)).reverse = out ↔
    _ ∧ (decimal.low 4 (hz * 1000 / 10000)).reverse = out
  rw [hcount]

theorem decodeBcdFrequency_eq :
    decodeBcdFrequency bytes = LegacyFreqForm.bcd10HzMsb.decode bytes := by
  have hcount (count : ℕ) : count * 10 = count * 10000 / 1000 := by omega
  unfold decodeBcdFrequency
  rw [funext hcount]
  rfl

theorem decodeBcdFrequency_of_encode (h : encodeBcdFrequency hz = some out) :
    decodeBcdFrequency out = some hz := by
  rw [encodeBcdFrequency_eq] at h
  rw [decodeBcdFrequency_eq]
  exact LegacyFreqForm.decode_of_encode h

theorem encodeBcdFrequency_of_decode (h : decodeBcdFrequency bytes = some value) :
    encodeBcdFrequency value = some bytes := by
  rw [decodeBcdFrequency_eq] at h
  rw [encodeBcdFrequency_eq]
  exact LegacyFreqForm.encode_of_decode ⟨10, rfl⟩ h fun hun => absurd hun.1 (by decide)

theorem encodeBcdFrequency_some (h : encodeBcdFrequency hz = some out) :
    hz ≤ 999999990 ∧ hz % 10 = 0 ∧ out = [bcdPair (hz / 10 / 100 / 100 / 100 % 100),
      bcdPair (hz / 10 / 100 / 100 % 100), bcdPair (hz / 10 / 100 % 100),
      bcdPair (hz / 10 % 100)] := by
  unfold encodeBcdFrequency MAX_HZ at h
  obtain ⟨hgood, hout⟩ := Option.ite_none_left_eq_some.mp h
  rw [LegacyFreqForm.low_decimal] at hout
  refine ⟨by omega, by omega, ?_⟩
  exact (Option.some.inj hout).symm

/-- The first byte below ten: its high nibble is free for the mark. -/
theorem marked : ∀ d < 10, (bcdPair d ||| 0xC0) >>> 4 = 0xC ∧
    (bcdPair d ||| 0xC0) &&& 0x0F = bcdPair d := by
  decide

theorem marked_back : ∀ n : Fin 256, UInt8.ofFin n >>> 4 = 0xC →
    (UInt8.ofFin n &&& 0x0F) ||| 0xC0 = UInt8.ofFin n := by
  decide +kernel

theorem digit_of_cleared : ∀ n : Fin 256, ∀ d ∈ fromBcdByte (UInt8.ofFin n &&& 0x0F), d < 10 := by
  decide +kernel

theorem unmarked : ∀ d < 100, bcdPair d >>> 4 ≠ 0xC := by
  decide

/-- A marked block is read as the frequency above 1.2 GHz. -/
theorem decodeFrequency_marked {plain : List Byte} (hplain : encodeBcdFrequency hz = some plain)
    (h : hz < 100000000) :
    decodeFrequency (onFirst (· ||| 0xC0) plain) true = some (hz + 1200000000) := by
  obtain ⟨-, -, rfl⟩ := encodeBcdFrequency_some hplain
  -- below 100 MHz the first digit is free
  have hfirst : hz / 10 / 100 / 100 / 100 % 100 < 10 := by omega
  obtain ⟨hmark, hclear⟩ := marked _ hfirst
  unfold decodeFrequency
  rw [if_pos ⟨rfl, beq_iff_eq.mpr hmark⟩]
  simp only [onFirst, hclear]
  rw [decodeBcdFrequency_of_encode hplain, Option.map_some]

/-- What is written in a block is read back from it. -/
theorem decodeFrequency_of_encode (h : encodeFrequency hz flag = some out) :
    decodeFrequency out flag = some hz := by
  unfold encodeFrequency at h
  split at h
  next hband =>
    obtain ⟨rfl, hlow, hhigh, -⟩ := hband
    obtain ⟨plain, hplain, rfl⟩ := Option.map_eq_some_iff.mp h
    rw [decodeFrequency_marked hplain (by omega), Nat.sub_add_cancel hlow]
  next hband =>
    obtain ⟨-, -, rfl⟩ := encodeBcdFrequency_some h
    have hplain := unmarked (hz / 10 / 100 / 100 / 100 % 100) (Nat.mod_lt _ (by decide))
    unfold decodeFrequency
    rw [if_neg fun hmark => hplain (beq_iff_eq.mp hmark.2)]
    exact decodeBcdFrequency_of_encode h

/-- What is read of a block is written as these bytes. -/
theorem encodeFrequency_of_decode (h : decodeFrequency bytes flag = some value) :
    encodeFrequency value flag = some bytes := by
  unfold decodeFrequency at h
  split at h
  next hmark =>
    obtain ⟨hflag, hfirst⟩ := hmark
    obtain ⟨m, hm, rfl⟩ := Option.map_eq_some_iff.mp h
    have hplain := encodeBcdFrequency_of_decode hm
    obtain ⟨-, hten, hbytes⟩ := encodeBcdFrequency_some hplain
    cases bytes with
    | nil => cases hbytes
    | cons byte rest =>
      have hC : byte >>> 4 = 0xC := by simpa using hfirst
      have hback := marked_back byte.toFin hC
      -- the digit that is left is the one below the mark
      have hhead : bcdPair (m / 10 / 100 / 100 / 100 % 100) = byte &&& 0x0F :=
        (List.cons.inj hbytes).1.symm
      have hdigit : m / 10 / 100 / 100 / 100 % 100 < 10 := by
        have hread := Civ.fromBcdByte_bcdPair (Nat.mod_lt (m / 10 / 100 / 100 / 100) (by decide))
        rw [hhead] at hread
        exact digit_of_cleared byte.toFin _ hread
      have hbound := (encodeBcdFrequency_some hplain).1
      have hband : HighBand flag (m + 1200000000) := ⟨hflag, by omega, by omega, by omega⟩
      rw [encodeFrequency, if_pos hband, Nat.add_sub_cancel, hplain, Option.map_some]
      exact congrArg (fun b => some (b :: rest)) hback
  next hmark =>
    have hplain := encodeBcdFrequency_of_decode h
    have hbound := (encodeBcdFrequency_some hplain).1
    have hband : ¬ HighBand flag value := fun hband => by
      have hlow := hband.2.1
      omega
    rw [encodeFrequency, if_neg hband]
    exact hplain

end Block

/-- A form and the frequency block do what they have to, on every frequency and on all bytes, but
for the bytes of the FRG-8800 whose first digit is above nine. -/
theorem LegacyFreqForm.exact_iff (form : LegacyFreqForm) (flag : Bool) (hz : ℕ)
    (bytes : List Byte) : form.Exact flag hz bytes ↔ ¬ form.Unread bytes := by
  constructor
  · intro h hun
    have hsome := decode_isSome.mpr (.inr hun)
    rw [h.refuses (not_wellFormed_of_unread hun)] at hsome
    cases hsome
  · intro h
    exact
      { encodes := encode_isSome
        reads := fun _ => decode_of_encode
        refuses := by
          intro hbad
          by_contra hread
          exact (decode_isSome.mp (Option.isSome_iff_ne_none.mpr hread)).elim hbad h
        writes := fun hunit _ hvalue => encode_of_decode hunit hvalue h
        block := fun _ => decodeFrequency_of_encode
        block_back := fun _ => encodeFrequency_of_decode }

/-- The first digit of these bytes is ten. -/
theorem LegacyFreqForm.reads_ten :
    ¬ (∀ form flag hz bytes, LegacyFreqForm.Exact form flag hz bytes) := by
  intro h
  have hzero : ∀ byte ∈ ([0, 0, 0] : List Byte), TwoDigits byte := by
    intro byte hbyte
    rw [List.eq_of_mem_replicate (n := 3) hbyte]
    decide
  have hun : frg8800.Unread [0xA1, 0, 0, 0] :=
    ⟨rfl, 0xA1, [0, 0, 0], rfl, rfl, by decide, by decide, hzero⟩
  have hnone := (h frg8800 false 0 [0xA1, 0, 0, 0]).refuses (not_wellFormed_of_unread hun)
  cases hnone

end HamsOpen.YaesuLegacy
