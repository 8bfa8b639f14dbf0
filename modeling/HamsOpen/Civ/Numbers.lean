import HamsOpen.Civ.Scope
import Mathlib

/-!
# Numbers on the CI-V wire

Frequencies, meters, offsets, filter widths and keyer speeds as the bytes of a CI-V frame.
-/

namespace HamsOpen.Civ

open Rig (Hz)

/-! ### Decimal fields -/

/-- Largest frequency a 5-byte field holds. -/
def MAX_BCD_HZ : ℕ := 9999999999

/-- The byte with the two digits of a number below a hundred. -/
def bcdPair (value : ℕ) : Byte := UInt8.ofNat (value / 10 * 16 + value % 10)

/-- A frequency as a field of `len` bytes, the least significant pair first; `none` when it has more
digits than fit. -/
def encodeBcdFreqLen (hz : Hz) : ℕ → Option (List Byte)
  | 0 => if hz = 0 then some [] else none
  | len + 1 => (encodeBcdFreqLen (hz / 100) len).map (bcdPair (hz % 100) :: ·)

/-- A frequency as 5 bytes. -/
def encodeBcdFreq (hz : Hz) : Option (List Byte) :=
  if MAX_BCD_HZ < hz then none else encodeBcdFreqLen hz 5

/-- A meter value of 2 bytes, the most significant pair first. -/
def decodeBcdMeter : List Byte → Option ℕ
  | [high, low] => do
    let high ← fromBcdByte high
    let low ← fromBcdByte low
    return high * 100 + low
  | _ => none

/-- A meter value 0 to 9999 as 2 bytes. -/
def encodeBcdMeter (value : ℕ) : List Byte :=
  let value := min value 9999
  [bcdPair (value / 100), bcdPair (value % 100)]

/-- Largest RIT and XIT offset, in hertz. -/
def MAX_OFFSET_HZ : ℕ := 9999

/-- The bytes of an offset: tens and ones, thousands and hundreds, then 1 for a negative one. -/
def encodeRitOffset (hz : ℤ) : Option (List Byte) :=
  let magnitude := hz.natAbs
  if MAX_OFFSET_HZ < magnitude then none
  else some [bcdPair (magnitude % 100), bcdPair (magnitude / 100), if hz < 0 then 1 else 0]

/-- The number with a sign byte. -/
def signed (magnitude : ℕ) (sign : Byte) : ℤ := if sign = 0 then magnitude else -magnitude

def decodeRitOffset : List Byte → Option ℤ
  | [low, high, sign] => do
    let high ← fromBcdByte high
    let low ← fromBcdByte low
    return signed (high * 100 + low) sign
  | _ => none

theorem fromBcdByte_bcdPair {value : ℕ} (h : value < 100) :
    fromBcdByte (bcdPair value) = some value := by
  revert value
  decide

/-- What is written in the field of a frequency is read back from it. -/
theorem fromBcdPairs_encodeBcdFreqLen {len : ℕ} {hz : Hz} {bytes : List Byte}
    (h : encodeBcdFreqLen hz len = some bytes) :
    bytes.length = len ∧ fromBcdPairs bytes = some hz := by
  induction len generalizing hz bytes with
  | zero =>
    obtain ⟨rfl, hbytes⟩ := Option.ite_none_right_eq_some.mp h
    obtain rfl := Option.some.inj hbytes
    exact ⟨rfl, rfl⟩
  | succ len ih =>
    obtain ⟨rest, hrest, rfl⟩ := Option.map_eq_some_iff.mp h
    obtain ⟨hlength, hvalue⟩ := ih hrest
    have hpair := fromBcdByte_bcdPair (Nat.mod_lt hz (by decide : 0 < 100))
    refine ⟨congrArg (· + 1) hlength, ?_⟩
    simp only [fromBcdPairs, hpair, hvalue, Option.bind_eq_bind, Option.bind_some]
    exact congrArg some (Nat.mod_add_div hz 100)

theorem decode_encodeBcdFreqLen {len : ℕ} {hz : Hz} {bytes : List Byte} (hpos : 0 < len)
    (hlen : len ≤ 6) (h : encodeBcdFreqLen hz len = some bytes) :
    decodeBcdFreq bytes = some hz := by
  obtain ⟨hlength, hvalue⟩ := fromBcdPairs_encodeBcdFreqLen h
  have hok : ¬ (bytes = [] ∨ 6 < bytes.length) := by
    rintro (rfl | hlong)
    · rw [List.length_nil] at hlength
      omega
    · omega
  unfold decodeBcdFreq
  rw [if_neg hok, hvalue]

/-- A number has no field exactly when it has more digits than fit. -/
theorem encodeBcdFreqLen_eq_none {len : ℕ} {hz : Hz} :
    encodeBcdFreqLen hz len = none ↔ 100 ^ len ≤ hz := by
  induction len generalizing hz with
  | zero =>
    rw [encodeBcdFreqLen, Nat.pow_zero, Nat.one_le_iff_ne_zero]
    by_cases hzero : hz = 0
    · rw [if_pos hzero]
      exact iff_of_false nofun (not_not_intro hzero)
    · rw [if_neg hzero]
      exact iff_of_true rfl hzero
  | succ len ih =>
    calc encodeBcdFreqLen hz (len + 1) = none
        ↔ encodeBcdFreqLen (hz / 100) len = none := Option.map_eq_none_iff
      _ ↔ 100 ^ len ≤ hz / 100 := ih
      _ ↔ 100 ^ (len + 1) ≤ hz := by rw [Nat.le_div_iff_mul_le (by decide), Nat.pow_succ]

/-- A byte that is read as two digits is the byte of its number. -/
theorem bcdPair_of_fromBcdByte {byte : Byte} {value : ℕ} (h : fromBcdByte byte = some value) :
    value < 100 ∧ bcdPair value = byte := by
  have hall : ∀ n : Fin 256, ∀ value ∈ fromBcdByte (UInt8.ofFin n),
      value < 100 ∧ bcdPair value = UInt8.ofFin n := by decide +kernel
  exact hall byte.toFin value h

/-- What is read of bytes is written as these bytes. -/
theorem encodeBcdFreqLen_of_fromBcdPairs {bytes : List Byte} {hz : Hz}
    (h : fromBcdPairs bytes = some hz) : encodeBcdFreqLen hz bytes.length = some bytes := by
  induction bytes generalizing hz with
  | nil =>
    obtain rfl := Option.some.inj h
    rfl
  | cons byte bytes ih =>
    obtain ⟨pair, hpair, h⟩ := Option.bind_eq_some_iff.mp h
    obtain ⟨rest, hrest, h⟩ := Option.bind_eq_some_iff.mp h
    obtain rfl := Option.some.inj h
    obtain ⟨hlt, hbyte⟩ := bcdPair_of_fromBcdByte hpair
    have hdiv : (pair + 100 * rest) / 100 = rest := by omega
    have hmod : (pair + 100 * rest) % 100 = pair := by omega
    rw [List.length_cons, encodeBcdFreqLen, hdiv, hmod, ih hrest, hbyte]
    rfl

/-- Bytes are not read exactly when a nibble of them is no digit. -/
theorem fromBcdPairs_eq_none {bytes : List Byte} : fromBcdPairs bytes = none ↔
    ∃ byte ∈ bytes, 9 < (byte >>> 4).toNat ∨ 9 < (byte &&& 15).toNat := by
  induction bytes with
  | nil => exact iff_of_false nofun (by simp)
  | cons byte bytes ih =>
    have hcons : fromBcdPairs (byte :: bytes) = none ↔
        fromBcdByte byte = none ∨ fromBcdPairs bytes = none := by
      rw [fromBcdPairs]
      cases fromBcdByte byte with
      | none => exact iff_of_true rfl (.inl rfl)
      | some pair =>
        cases fromBcdPairs bytes with
        | none => exact iff_of_true rfl (.inr rfl)
        | some rest => exact iff_of_false nofun (by simp)
    have hbyte : fromBcdByte byte = none ↔
        9 < (byte >>> 4).toNat ∨ 9 < (byte &&& 15).toNat := by
      rw [← Nat.not_le, ← Nat.not_le, ← not_and_or]
      exact ite_eq_right_iff.trans (forall_congr' fun _ => iff_of_false nofun id)
    rw [hcons, hbyte, ih, List.exists_mem_cons_iff]

/-- The fixed field of a frequency is the one of five bytes. -/
theorem encodeBcdFreq_eq (hz : Hz) : encodeBcdFreq hz = encodeBcdFreqLen hz 5 := by
  unfold encodeBcdFreq
  split
  next hlarge => exact (encodeBcdFreqLen_eq_none.mpr hlarge).symm
  · rfl

/-- The fields of frequencies: one fails exactly when the frequency does not fit, what is written is
read back, what is read is written again, and only digits are read. -/
theorem bcdFreq_exactly {len : ℕ} (hpos : 0 < len) (hlen : len ≤ 6) :
    (∀ hz, encodeBcdFreqLen hz len = none ↔ 100 ^ len ≤ hz) ∧
    (∀ hz bytes, encodeBcdFreqLen hz len = some bytes →
      bytes.length = len ∧ decodeBcdFreq bytes = some hz) ∧
    (∀ bytes hz, bytes.length = len → decodeBcdFreq bytes = some hz →
      encodeBcdFreqLen hz len = some bytes) ∧
    ∀ bytes : List Byte, bytes.length = len → (decodeBcdFreq bytes = none ↔
      ∃ byte ∈ bytes, 9 < (byte >>> 4).toNat ∨ 9 < (byte &&& 15).toNat) := by
  have hdecode {bytes : List Byte} (hbytes : bytes.length = len) :
      decodeBcdFreq bytes = fromBcdPairs bytes := by
    have hne : bytes ≠ [] := List.ne_nil_of_length_pos (hbytes ▸ hpos)
    exact if_neg (not_or.mpr ⟨hne, Nat.not_lt.mpr (hbytes.trans_le hlen)⟩)
  refine ⟨fun hz => encodeBcdFreqLen_eq_none, fun hz bytes h => ?_, fun bytes hz hbytes h => ?_,
    fun bytes hbytes => ?_⟩
  · exact ⟨(fromBcdPairs_encodeBcdFreqLen h).1, decode_encodeBcdFreqLen hpos hlen h⟩
  · rw [hdecode hbytes] at h
    rw [← hbytes]
    exact encodeBcdFreqLen_of_fromBcdPairs h
  · rw [hdecode hbytes]
    exact fromBcdPairs_eq_none

theorem bcdFreq_exactly_five :
    (∀ hz, encodeBcdFreqLen hz 5 = none ↔ 100 ^ 5 ≤ hz) ∧
    (∀ hz bytes, encodeBcdFreqLen hz 5 = some bytes →
      bytes.length = 5 ∧ decodeBcdFreq bytes = some hz) ∧
    (∀ bytes hz, bytes.length = 5 → decodeBcdFreq bytes = some hz →
      encodeBcdFreqLen hz 5 = some bytes) ∧
    ∀ bytes : List Byte, bytes.length = 5 → (decodeBcdFreq bytes = none ↔
      ∃ byte ∈ bytes, 9 < (byte >>> 4).toNat ∨ 9 < (byte &&& 15).toNat) :=
  bcdFreq_exactly (by decide) (by decide)

theorem decode_encodeBcdMeter {value : ℕ} (h : value ≤ 9999) :
    decodeBcdMeter (encodeBcdMeter value) = some value := by
  have hhigh : fromBcdByte (bcdPair (value / 100)) = some (value / 100) :=
    fromBcdByte_bcdPair (by omega)
  have hlow : fromBcdByte (bcdPair (value % 100)) = some (value % 100) :=
    fromBcdByte_bcdPair (by omega)
  simp only [encodeBcdMeter, decodeBcdMeter, Nat.min_eq_left h, hhigh, hlow, Option.bind_eq_bind,
    Option.bind_some]
  exact congrArg some (by omega)

theorem decode_encodeRitOffset {hz : ℤ} {bytes : List Byte} (h : encodeRitOffset hz = some bytes) :
    decodeRitOffset bytes = some hz := by
  unfold encodeRitOffset at h
  dsimp only at h
  split at h
  · cases h
  next hfits =>
    obtain rfl := Option.some.inj h
    have hfits : hz.natAbs ≤ 9999 := Nat.le_of_not_lt hfits
    have hhigh := fromBcdByte_bcdPair (by omega : hz.natAbs / 100 < 100)
    have hlow := fromBcdByte_bcdPair (by omega : hz.natAbs % 100 < 100)
    simp only [decodeRitOffset, hhigh, hlow, Option.bind_eq_bind, Option.bind_some]
    apply congrArg some
    unfold signed
    by_cases hneg : hz < 0
    · rw [if_pos hneg, if_neg (by decide)]
      omega
    · rw [if_neg hneg, if_pos rfl]
      omega

/-! ### Scales -/

/-- The width in hertz of a filter index: 0 to 9 are 50 to 500 Hz in steps of 50, 10 to 40 are 600 to
3600 Hz in steps of 100; in AM the index 0 to 49 is 200 to 10000 Hz in steps of 200. -/
def filterIndexToHz (am : Bool) (index : ℕ) : Option Hz :=
  if am then if index ≤ 49 then some ((index + 1) * 200) else none
  else if index ≤ 9 then some ((index + 1) * 50)
  else if index ≤ 40 then some (600 + (index - 10) * 100)
  else none

/-- The filter index whose width is exactly `hz`. -/
def filterHzToIndex (am : Bool) (hz : Hz) : Option ℕ :=
  (List.range 50).find? fun index => filterIndexToHz am index == some hz

/-- The index found for a width has that width. -/
theorem filterIndexToHz_of_filterHzToIndex {am : Bool} {hz : Hz} {index : ℕ}
    (h : filterHzToIndex am hz = some index) : filterIndexToHz am index = some hz :=
  eq_of_beq (List.find?_some h :)

/-- No two indices have the same width. -/
theorem filterIndexToHz_inj {am : Bool} {i j : ℕ} {hz : Hz} (hi : filterIndexToHz am i = some hz)
    (hj : filterIndexToHz am j = some hz) : i = j := by
  unfold filterIndexToHz at hi hj
  grind

/-- The index found for a width is the one that has it. -/
theorem filterHzToIndex_eq_some {am : Bool} {hz : Hz} {index : ℕ} :
    filterHzToIndex am hz = some index ↔ filterIndexToHz am index = some hz := by
  refine ⟨filterIndexToHz_of_filterHzToIndex, fun h => ?_⟩
  have hlt : index < 50 := by
    unfold filterIndexToHz at h
    grind
  cases hfound : filterHzToIndex am hz with
  | none =>
    have hno := List.find?_eq_none.mp hfound index (List.mem_range.mpr hlt)
    exact absurd (beq_iff_eq.mpr h) hno
  | some j => rw [filterIndexToHz_inj (filterIndexToHz_of_filterHzToIndex hfound) h]

/-- Slowest keyer speed in words per minute. -/
def KEYER_WPM_MIN : ℕ := 6

/-- The raw value of each keyer speed from the slowest on. -/
def KEYER_RAW : List ℕ :=
  [0, 7, 12, 19, 25, 31, 37, 43, 49, 55, 61, 67, 73, 79, 84, 91, 97, 103, 108, 114, 121, 128, 134,
    140, 144, 151, 156, 164, 169, 175, 182, 188, 192, 199, 203, 211, 215, 224, 229, 234, 239, 244,
    250]

/-- The raw value for a keyer speed in words per minute. -/
def keyerWpmToRaw (wpm : ℕ) : Option ℕ :=
  if wpm < KEYER_WPM_MIN then none else KEYER_RAW[wpm - KEYER_WPM_MIN]?

/-- The slowest keyer speed whose raw value is not below this one. -/
def keyerRawToWpm (raw : ℕ) : Option ℕ :=
  (KEYER_RAW.findIdx? (raw ≤ ·)).map (· + KEYER_WPM_MIN)

theorem keyerRawToWpm_wpmToRaw {wpm raw : ℕ} (h : keyerWpmToRaw wpm = some raw) :
    keyerRawToWpm raw = some wpm := by
  obtain ⟨hmin, hraw⟩ := Option.ite_none_left_eq_some.mp h
  have hlt := (List.getElem?_eq_some_iff.mp hraw).1
  have hscale : ∀ i < KEYER_RAW.length,
      (KEYER_RAW[i]?.bind keyerRawToWpm) = some (i + KEYER_WPM_MIN) := by decide
  have hspeed := hscale _ hlt
  rw [hraw, Option.bind_some] at hspeed
  rw [hspeed]
  exact congrArg some (Nat.sub_add_cancel (Nat.le_of_not_lt hmin))

end HamsOpen.Civ
