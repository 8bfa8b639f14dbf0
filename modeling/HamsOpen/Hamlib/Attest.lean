import HamsOpen.Lib.Checks
import HamsOpen.Station.HttpRelay
import Mathlib

/-!
# The transmit attestation

The owner's statement that a rig is on a dummy load, with the limits that they accept, as it is read
from a block of the configuration (`attest.rs`). A float is compared by its value, in units of the
smallest difference of two floats.
-/

namespace HamsOpen.Hamlib.Attest

open Station (F64 FiniteF64 JsonValue Number Serde asF64 ofF64)
open Station.Http (field asBool trim)
open Flex (Text)

/-! ### Floats -/

/-- The value of a finite float, in units of 2 to the power of -1074. -/
def units (x : F64) : ℤ :=
  let exponent := (x.bits.extractLsb' 52 11).toNat
  let fraction := (x.bits.extractLsb' 0 52).toNat
  let size := if exponent = 0 then fraction else (2 ^ 52 + fraction) * 2 ^ (exponent - 1)
  if x.bits.msb then -size else size

/-- One finite float is at most another. -/
def atMost (x y : F64) : Bool := units x ≤ units y

/-- A finite float that is not negative, cut to a whole number. -/
def asUsize (x : F64) : ℕ := (units x / 2 ^ 1074).toNat

/-- A bound, and how it is written. -/
structure Bound where
  value : F64
  text : String

/-- A float lies between two bounds. -/
def Within (lo hi : Bound) (x : F64) : Prop :=
  x.isFinite = true ∧ atMost lo.value x = true ∧ atMost x hi.value = true

instance (lo hi : Bound) : DecidablePred (Within lo hi) :=
  fun _ => inferInstanceAs (Decidable (_ ∧ _ ∧ _))

/-- Hard limits that no configuration can raise. -/
def HARD_MAX_SECONDS : Bound := ⟨⟨0x404E000000000000⟩, "60"⟩
def HARD_MAX_POWER_W : Bound := ⟨⟨0x4069000000000000⟩, "200"⟩

def ZERO : Bound := ⟨⟨0x0⟩, "0"⟩
def HUNDREDTH : Bound := ⟨⟨0x3F847AE147AE147B⟩, "0.01"⟩
def TWENTIETH : Bound := ⟨⟨0x3FA999999999999A⟩, "0.05"⟩
def TENTH : Bound := ⟨⟨0x3FB999999999999A⟩, "0.1"⟩
def ONE : Bound := ⟨⟨0x3FF0000000000000⟩, "1"⟩
def TWO : Bound := ⟨⟨0x4000000000000000⟩, "2"⟩
def THREE : Bound := ⟨⟨0x4008000000000000⟩, "3"⟩
def FIVE : Bound := ⟨⟨0x4014000000000000⟩, "5"⟩
def TEN : Bound := ⟨⟨0x4024000000000000⟩, "10"⟩
def TWELVE : Bound := ⟨⟨0x4028000000000000⟩, "12"⟩
def THIRTY : Bound := ⟨⟨0x403E000000000000⟩, "30"⟩
def FIFTY : Bound := ⟨⟨0x4049000000000000⟩, "50"⟩
def SIXTY : Bound := ⟨⟨0x404E000000000000⟩, "60"⟩
def TWO_THOUSAND : Bound := ⟨⟨0x409F400000000000⟩, "2000"⟩
def LOWEST_HZ : Bound := ⟨⟨0x40C3880000000000⟩, "10000"⟩
def HIGHEST_HZ : Bound := ⟨⟨0x41F65A0BC0000000⟩, "6000000000"⟩

/-! ### Attestations -/

/-- Settings of the load plausibility check. -/
structure LoadCheck where
  marginDb : F64
  audioMarginDb : F64
  maxSpreadDb : F64
  readings : ℕ
  dwellMs : F64
  references : ℕ
  af : F64
  preampDb : Option F64
  deriving DecidableEq

/-- The defaults: six decibels each, five readings of 150 milliseconds, six references, half the
gain. -/
def LoadCheck.default : LoadCheck where
  marginDb := ⟨0x4018000000000000⟩
  audioMarginDb := ⟨0x4018000000000000⟩
  maxSpreadDb := ⟨0x4018000000000000⟩
  readings := 5
  dwellMs := ⟨0x4062C00000000000⟩
  references := 6
  af := ⟨0x3FE0000000000000⟩
  preampDb := none

structure Transmit where
  attestedBy : String
  attestedOn : String
  cabling : String
  maxPowerW : F64
  maxSeconds : F64
  frequencyRanges : List (F64 × F64)
  allowedModes : List String
  maxSwr : F64
  swrProbe : Bool
  swrProbeS : F64
  allowLoweringPower : Bool
  operatorAlert : Bool
  load : LoadCheck
  deriving DecidableEq

/-- The names of modes. -/
def MODES : List String :=
  ["AM", "CW", "USB", "LSB", "RTTY", "FM", "WFM", "CWR", "RTTYR", "AMS", "PKTLSB", "PKTUSB",
    "PKTFM", "ECSSUSB", "ECSSLSB", "FAX", "SAM", "SAL", "SAH", "DSB", "FMN", "PKTAM", "P25",
    "DSTAR", "DPMR", "NXDNVN", "NXDN_N", "DCR", "AMN", "PSK", "PSKR", "DD", "C4FM", "PKTFMN",
    "SPEC", "CWN", "IQ"]

/-- The number of a day, if the text has a year, a month and a day; what is between minus signs and
no number is passed over. -/
def days (date : String) : Option ℤ :=
  match (date.toList.splitOn '-').filterMap (Flex.parseUnsigned 10 (2 ^ 63)) with
  | [year, month, day] =>
    if 1 ≤ month ∧ month ≤ 12 ∧ 1 ≤ day ∧ day ≤ 31 then
      let y : ℤ := if month ≤ 2 then year - 1 else year
      let m : ℤ := if month ≤ 2 then month + 12 else month
      some (365 * y + y.tdiv 4 - y.tdiv 100 + y.tdiv 400 + (153 * (m - 3) + 2).tdiv 5 + day -
        719469 + 305 - 305)
    else none
  | _ => none

/-! ### Reading a block -/

/-- A control character. -/
def isControl (c : Char) : Bool := c.toNat < 0x20 || (0x7F ≤ c.toNat && c.toNat ≤ 0x9F)

def toAsciiUppercase (s : String) : String := String.ofList (s.toList.map Char.toUpper)

section Read

variable (serde : Serde) (today : ℤ) (c : JsonValue)

def number (key : String) (lo hi : Bound) : Except String (Option F64) :=
  match field key c with
  | none | some .null => .ok none
  | some v =>
    match (asF64 serde v).filter fun x => Within lo hi x with
    | some x => .ok (some x)
    | none => .error (key ++ " must be a number from " ++ lo.text ++ " to " ++ hi.text)

/-- A member that is there. -/
def required {α : Type} (why : String) : Option α → Except String α
  | some a => .ok a
  | none => .error why

/-- A text without the white space around it. -/
def text (key : String) (max : ℕ) : Except String String :=
  match ((field key c).bind Json.asString).map fun s => trim s.toList with
  | none | some [] => .error ("transmit." ++ key ++ " is required (text)")
  | some t =>
    if max < (String.ofList t).utf8ByteSize ∨ t.any isControl then
      .error ("transmit." ++ key ++ " must be at most " ++ toString max ++
        " characters without control characters")
    else .ok (String.ofList t)

def flag (key : String) (otherwise : Bool) : Except String Bool :=
  match field key c with
  | none => .ok otherwise
  | some v => required ("transmit." ++ key ++ " must be true or false") (asBool v)

def asArray : JsonValue → Option (List JsonValue)
  | .arr items => some items
  | _ => none

/-- The items of an array that is there and not empty. -/
def items (key why : String) : Except String (List JsonValue) :=
  required why (((field key c).bind asArray).filter fun items => items ≠ [])

/-- A range of frequencies. -/
def range : JsonValue → Except String (F64 × F64)
  | .arr [lo, hi] =>
    let why := "transmit.frequency_ranges entries need 10 kHz <= low <= high <= 6 GHz"
    match asF64 serde lo, asF64 serde hi with
    | some lo, some hi =>
      if lo.isFinite ∧ hi.isFinite ∧ atMost LOWEST_HZ.value lo ∧ atMost lo hi ∧
          atMost hi HIGHEST_HZ.value then .ok (lo, hi)
      else .error why
    | _, _ => .error why
  | _ => .error "each transmit.frequency_ranges entry is [low, high]"

def mode (v : JsonValue) : Except String String :=
  required "transmit.allowed_modes has a name that is not a Hamlib mode"
    (((Json.asString v).map toAsciiUppercase).filter fun m => m ∈ MODES)

def loadCheck : Except String LoadCheck :=
  let load := LoadCheck.default
  match field "load_check" c with
  | none => .ok load
  | some (.obj members) => do
    let l := Json.obj members
    let marginDb ← number serde l "margin_db" ONE THIRTY
    let audioMarginDb ← number serde l "audio_margin_db" ONE THIRTY
    let maxSpreadDb ← number serde l "max_spread_db" ONE THIRTY
    let readings ← number serde l "readings" THREE TEN
    let dwellMs ← number serde l "dwell_ms" FIFTY TWO_THOUSAND
    let references ← number serde l "references" TWO TWELVE
    let af ← number serde l "af" TWENTIETH ONE
    let preampDb ← number serde l "preamp_db" ZERO SIXTY
    return {
      marginDb := marginDb.getD load.marginDb
      audioMarginDb := audioMarginDb.getD load.audioMarginDb
      maxSpreadDb := maxSpreadDb.getD load.maxSpreadDb
      readings := (readings.map asUsize).getD load.readings
      dwellMs := dwellMs.getD load.dwellMs
      references := (references.map asUsize).getD load.references
      af := af.getD load.af
      preampDb }
  | some _ => .error "transmit.load_check must be an object"

/-- The keys that a block may have. -/
def known : List String :=
  ["dummy_load", "attested_by", "attested_on", "cabling", "max_power_w", "max_seconds",
    "frequency_ranges", "allowed_modes", "max_swr", "swr_probe", "swr_probe_s",
    "allow_lowering_power", "load_check"]

def asObject : JsonValue → Except String (List (String × JsonValue))
  | .obj members => .ok members
  | _ => .error "transmit must be an object"

def onDummyLoad : Except String Unit :=
  if (field "dummy_load" c).bind asBool = some true then .ok ()
  else .error ("transmit.dummy_load must be true: the owner attests that the rig's antenna port " ++
    "is on a dummy load")

def notInFuture (attestedOn : String) : Except String Unit := do
  let on ← required "transmit.attested_on must be a date like 2026-10-29" (days attestedOn)
  if today < on then .error "transmit.attested_on is in the future" else .ok ()

def onlyKnown (members : List (String × JsonValue)) : Except String Unit :=
  match members.find? fun m => m.1 ∉ known with
  | some m => .error ("transmit." ++ m.1 ++ " is not a known key (" ++
      ", ".intercalate known ++ ")")
  | none => .ok ()

/-- Reads a block on a day. -/
def parseTransmit : Except String Transmit := do
  let members ← asObject c
  onDummyLoad c
  let attestedBy ← text c "attested_by" 80
  let attestedOn ← text c "attested_on" 10
  let cabling ← text c "cabling" 300
  notInFuture today attestedOn
  let maxPowerW ← number serde c "max_power_w" HUNDREDTH HARD_MAX_POWER_W
  let maxPowerW ← required "transmit.max_power_w is required (watts, above 0)" maxPowerW
  let maxSeconds ← number serde c "max_seconds" TENTH HARD_MAX_SECONDS
  let maxSeconds ← required "transmit.max_seconds is required (seconds, up to 60)" maxSeconds
  let ranges ← items c "frequency_ranges" ("transmit.frequency_ranges is required: the list of " ++
    "[low, high] Hz ranges the owner may use; there is no default")
  let frequencyRanges ← ranges.mapM (range serde)
  let modes ← items c "allowed_modes"
    "transmit.allowed_modes is required: a list of Hamlib mode names"
  let allowedModes ← modes.mapM mode
  let load ← loadCheck serde c
  onlyKnown members
  let maxSwr ← number serde c "max_swr" ONE FIVE
  let swrProbe ← flag c "swr_probe" true
  let swrProbeS ← number serde c "swr_probe_s" TENTH TWO
  let allowLoweringPower ← flag c "allow_lowering_power" false
  let operatorAlert ← flag c "operator_alert" false
  return {
    attestedBy, attestedOn, cabling, maxPowerW, maxSeconds, frequencyRanges, allowedModes
    maxSwr := maxSwr.getD TWO.value
    swrProbe
    swrProbeS := swrProbeS.getD ⟨0x3FE0000000000000⟩
    allowLoweringPower, operatorAlert, load }

end Read

/-! ### What is documented -/

/-- A text of at most so many characters, with no white space around it and no control
characters. -/
structure Line (max : ℕ) (s : String) : Prop where
  trimmed : String.ofList (trim s.toList) = s
  nonempty : s ≠ ""
  length_le : s.length ≤ max
  plain : s.toList.any isControl = false

/-- A range of frequencies between 10 kHz and 6 GHz. -/
def InRange (r : F64 × F64) : Prop :=
  r.1.isFinite ∧ r.2.isFinite ∧ atMost LOWEST_HZ.value r.1 ∧ atMost r.1 r.2 ∧
    atMost r.2 HIGHEST_HZ.value

structure LoadCheck.InLimits (l : LoadCheck) : Prop where
  marginDb : Within ONE THIRTY l.marginDb
  audioMarginDb : Within ONE THIRTY l.audioMarginDb
  maxSpreadDb : Within ONE THIRTY l.maxSpreadDb
  readings : 3 ≤ l.readings ∧ l.readings ≤ 10
  dwellMs : Within FIFTY TWO_THOUSAND l.dwellMs
  references : 2 ≤ l.references ∧ l.references ≤ 12
  af : Within TWENTIETH ONE l.af
  preampDb : ∀ x ∈ l.preampDb, Within ZERO SIXTY x

/-- What is documented of the fields, on a day. -/
structure InLimits (today : ℤ) (t : Transmit) : Prop where
  attestedBy : Line 80 t.attestedBy
  attestedOn : Line 10 t.attestedOn
  past : ∃ on, days t.attestedOn = some on ∧ on ≤ today
  cabling : Line 300 t.cabling
  maxPowerW : Within HUNDREDTH HARD_MAX_POWER_W t.maxPowerW
  maxSeconds : Within TENTH HARD_MAX_SECONDS t.maxSeconds
  frequencyRanges : t.frequencyRanges ≠ [] ∧ ∀ r ∈ t.frequencyRanges, InRange r
  allowedModes : t.allowedModes ≠ [] ∧ ∀ m ∈ t.allowedModes, m ∈ MODES
  maxSwr : Within ONE FIVE t.maxSwr
  swrProbeS : Within TENTH TWO t.swrProbeS
  load : t.load.InLimits

/-- What the code wants besides: the texts are as short in bytes, and there is no alert. -/
def Accepted (t : Transmit) : Prop :=
  t.operatorAlert = false ∧ t.attestedBy.utf8ByteSize ≤ 80 ∧ t.attestedOn.utf8ByteSize ≤ 10 ∧
    t.cabling.utf8ByteSize ≤ 300

/-- The keys by which the fields are read. -/
def KEYS : List String := "operator_alert" :: known

/-- No hard limit is exceeded. -/
def WithinHard (t : Transmit) : Prop :=
  atMost t.maxPowerW HARD_MAX_POWER_W.value = true ∧
    atMost t.maxSeconds HARD_MAX_SECONDS.value = true ∧ ∀ r ∈ t.frequencyRanges, InRange r

/-! ### A block for an attestation -/

/-- The float of a small number. -/
def ofSmall (n : ℕ) : F64 :=
  ⟨[0x0, 0x3FF0000000000000, 0x4000000000000000, 0x4008000000000000, 0x4010000000000000,
    0x4014000000000000, 0x4018000000000000, 0x401C000000000000, 0x4020000000000000,
    0x4022000000000000, 0x4024000000000000, 0x4026000000000000, 0x4028000000000000].getD n 0⟩

def LoadCheck.block (l : LoadCheck) : JsonValue :=
  .obj [("af", ofF64 l.af), ("audio_margin_db", ofF64 l.audioMarginDb),
    ("dwell_ms", ofF64 l.dwellMs), ("margin_db", ofF64 l.marginDb),
    ("max_spread_db", ofF64 l.maxSpreadDb), ("preamp_db", Json.ofOption ofF64 l.preampDb),
    ("readings", ofF64 (ofSmall l.readings)), ("references", ofF64 (ofSmall l.references))]

def Transmit.block (t : Transmit) : JsonValue :=
  .obj [("allow_lowering_power", .bool t.allowLoweringPower),
    ("allowed_modes", .arr (t.allowedModes.map .str)), ("attested_by", .str t.attestedBy),
    ("attested_on", .str t.attestedOn), ("cabling", .str t.cabling), ("dummy_load", .bool true),
    ("frequency_ranges", .arr (t.frequencyRanges.map fun r => .arr [ofF64 r.1, ofF64 r.2])),
    ("load_check", t.load.block), ("max_power_w", ofF64 t.maxPowerW),
    ("max_seconds", ofF64 t.maxSeconds), ("max_swr", ofF64 t.maxSwr),
    ("swr_probe", .bool t.swrProbe), ("swr_probe_s", ofF64 t.swrProbeS)]

/-! ### What is read -/

section Parts

variable {serde : Serde} {today : ℤ} {c : JsonValue} {key : String} {lo hi : Bound} {x : F64}

theorem ofF64_of_finite (h : x.isFinite = true) : ofF64 x = .num (.float ⟨x, h⟩) := dif_pos h

theorem number_of_field (hfield : field key c = some (ofF64 x)) (h : Within lo hi x) :
    number serde c key lo hi = .ok (some x) := by
  rw [number, hfield, ofF64_of_finite h.1]
  simp only [asF64, Option.filter_some, decide_eq_true h, if_true]

theorem number_of_option {o : Option F64} (hfield : field key c = some (Json.ofOption ofF64 o))
    (h : ∀ x ∈ o, Within lo hi x) : number serde c key lo hi = .ok o := by
  cases o with
  | none =>
    rw [number, hfield]
    rfl
  | some x => exact number_of_field hfield (h x rfl)

theorem within_of_number (h : number serde c key lo hi = .ok (some x)) : Within lo hi x := by
  unfold number at h
  split at h
  · cases h
  · cases h
  · split at h
    next y hy =>
      cases h
      simpa using (Option.filter_eq_some_iff.mp hy).2
    · cases h

theorem text_eq_ok {max : ℕ} {t : String} : text c key max = .ok t ↔
    ∃ s, (field key c).bind Json.asString = some s ∧ String.ofList (trim s.toList) = t ∧ t ≠ "" ∧
      t.utf8ByteSize ≤ max ∧ t.toList.any isControl = false := by
  unfold text
  cases hread : (field key c).bind Json.asString with
  | none => simp
  | some s =>
    rcases htrim : trim s.toList with _ | ⟨a, rest⟩
    · simp only [Option.map_some, htrim]
      refine iff_of_false nofun ?_
      rintro ⟨s', hs, rfl, hne, -⟩
      cases hs
      exact hne (congrArg String.ofList htrim)
    · simp only [Option.map_some, htrim]
      constructor
      · intro h
        obtain ⟨hfits, h⟩ := Except.ok_of_check h
        cases h
        push Not at hfits
        refine ⟨s, rfl, congrArg String.ofList htrim, ?_, hfits.1, by simpa using hfits.2⟩
        intro hempty
        simpa using congrArg String.toList hempty
      · rintro ⟨s', hs, rfl, -, hsize, hplain⟩
        cases hs
        rw [htrim] at hsize hplain ⊢
        rw [String.toList_ofList] at hplain
        rw [if_neg]
        rintro (hlong | hcontrol)
        · omega
        · rw [hplain] at hcontrol
          cases hcontrol

theorem text_of_line {max : ℕ} {t : String} (hfield : field key c = some (.str t))
    (h : Line max t) (hsize : t.utf8ByteSize ≤ max) : text c key max = .ok t :=
  text_eq_ok.mpr ⟨t, by rw [hfield]; rfl, h.trimmed, h.nonempty, hsize, h.plain⟩

theorem mapM_eq_ok {α β ε : Type} {f : α → Except ε β} {l : List α} {l' : List β} :
    l.mapM f = .ok l' ↔ List.Forall₂ (fun a b => f a = .ok b) l l' := by
  induction l generalizing l' with
  | nil =>
    rw [List.mapM_nil]
    constructor
    · rintro ⟨⟩
      exact .nil
    · rintro ⟨⟩
      rfl
  | cons a l ih =>
    rw [List.mapM_cons]
    constructor
    · intro h
      obtain ⟨b, hb, h⟩ := Except.ok_of_bind h
      obtain ⟨bs, hbs, h⟩ := Except.ok_of_bind h
      cases h
      exact .cons hb (ih.mp hbs)
    · intro h
      cases h with
      | cons hb hbs =>
        rw [hb, ih.mpr hbs]
        rfl

/-- Everything that was read comes from something. -/
theorem of_mapM {α β ε : Type} {f : α → Except ε β} {l : List α} {l' : List β}
    (h : l.mapM f = .ok l') {b : β} (hb : b ∈ l') : ∃ a, f a = .ok b := by
  induction mapM_eq_ok.mp h with
  | nil => cases hb
  | cons hhead htail ih =>
    rcases List.mem_cons.mp hb with rfl | hb
    · exact ⟨_, hhead⟩
    · exact ih (mapM_eq_ok.mpr htail) hb

theorem range_eq_ok {v : JsonValue} {r : F64 × F64} (h : range serde v = .ok r) : InRange r := by
  unfold range at h
  split at h
  · dsimp only at h
    split at h
    · split at h
      next hrange =>
        cases h
        exact hrange
      · cases h
    · cases h
  · cases h

theorem range_of_inRange {r : F64 × F64} (h : InRange r) :
    range serde (.arr [ofF64 r.1, ofF64 r.2]) = .ok r := by
  have hlo := h.1
  have hhi := h.2.1
  rw [ofF64_of_finite hlo, ofF64_of_finite hhi]
  simp only [range, asF64]
  exact if_pos h

theorem items_of_field (key : String) {why : String} {v : List JsonValue}
    (hfield : field key c = some (.arr v)) (hv : v ≠ []) : items c key why = .ok v := by
  rw [items, hfield]
  simp only [Option.bind_some, asArray, Option.filter_some, decide_eq_true hv, if_true, required]

/-- The names of modes are written as they are. -/
theorem toAsciiUppercase_mode : MODES.all (fun m => toAsciiUppercase m = m) = true := by
  decide

theorem mode_of_mem {m : String} (h : m ∈ MODES) : mode (.str m) = .ok m := by
  have hupper : toAsciiUppercase m = m := by
    simpa using List.all_eq_true.mp toAsciiUppercase_mode m h
  simp only [mode, Json.asString, Option.map_some, hupper, Option.filter_some, decide_eq_true h,
    if_true, required]

theorem ofSmall_spec : (List.range 13).all (fun n => (ofSmall n).isFinite ∧
    units (ofSmall n) = n * 2 ^ 1074) = true := by
  decide +kernel

theorem asUsize_ofSmall {n : ℕ} (h : n ≤ 12) : asUsize (ofSmall n) = n := by
  have hspec := List.all_eq_true.mp ofSmall_spec n (List.mem_range.mpr (by omega))
  simp only [decide_eq_true_eq] at hspec
  have hunit : (2 ^ 1074 : ℤ) ≠ 0 := (Int.pow_pos (by decide)).ne'
  rw [asUsize, hspec.2, Int.mul_ediv_cancel _ hunit]
  exact Int.toNat_natCast n

/-- A small number lies between bounds that are small numbers. -/
theorem within_ofSmall {n a b : ℕ} (hlo : units lo.value = a * 2 ^ 1074)
    (hhi : units hi.value = b * 2 ^ 1074) (ha : a ≤ n) (hb : n ≤ b) (h : n ≤ 12) :
    Within lo hi (ofSmall n) := by
  have hspec := List.all_eq_true.mp ofSmall_spec n (List.mem_range.mpr (by omega))
  simp only [decide_eq_true_eq] at hspec
  have hunit : (0 : ℤ) ≤ 2 ^ 1074 := Int.pow_nonneg (by decide)
  refine ⟨hspec.1, decide_eq_true ?_, decide_eq_true ?_⟩
  · rw [hlo, hspec.2]
    exact Int.mul_le_mul_of_nonneg_right (by exact_mod_cast ha) hunit
  · rw [hhi, hspec.2]
    exact Int.mul_le_mul_of_nonneg_right (by exact_mod_cast hb) hunit

theorem loadCheck_of_block {l : LoadCheck} (hfield : field "load_check" c = some l.block)
    (h : l.InLimits) : loadCheck serde c = .ok l := by
  have hreadings : Within THREE TEN (ofSmall l.readings) :=
    within_ofSmall (a := 3) (b := 10) (by decide +kernel) (by decide +kernel) h.readings.1
      h.readings.2 (by have hle := h.readings.2; omega)
  have hreferences : Within TWO TWELVE (ofSmall l.references) :=
    within_ofSmall (a := 2) (b := 12) (by decide +kernel) (by decide +kernel) h.references.1
      h.references.2 h.references.2
  unfold loadCheck
  rw [hfield]
  simp only [LoadCheck.block]
  rw [number_of_field (x := l.marginDb) rfl h.marginDb,
    number_of_field (x := l.audioMarginDb) rfl h.audioMarginDb,
    number_of_field (x := l.maxSpreadDb) rfl h.maxSpreadDb,
    number_of_field (x := ofSmall l.readings) rfl hreadings,
    number_of_field (x := l.dwellMs) rfl h.dwellMs,
    number_of_field (x := ofSmall l.references) rfl hreferences,
    number_of_field (x := l.af) rfl h.af,
    number_of_option (o := l.preampDb) rfl h.preampDb]
  simp only [bind, Except.bind, pure, Except.pure, Option.getD_some, Option.map_some]
  rw [asUsize_ofSmall (by have hle := h.readings.2; omega), asUsize_ofSmall h.references.2]

end Parts

/-! ### What is accepted -/

section Blocks

variable {serde : Serde} {today : ℤ} {t : Transmit} {c : JsonValue}

/-- What is known of a block that is accepted. -/
structure Parsed (today : ℤ) (c : JsonValue) (t : Transmit) : Prop where
  keys : ∃ members, c = .obj members ∧ ∀ m ∈ members, m.1 ∈ known
  attestedBy : text c "attested_by" 80 = .ok t.attestedBy
  attestedOn : text c "attested_on" 10 = .ok t.attestedOn
  cabling : text c "cabling" 300 = .ok t.cabling
  maxPowerW : Within HUNDREDTH HARD_MAX_POWER_W t.maxPowerW
  maxSeconds : Within TENTH HARD_MAX_SECONDS t.maxSeconds
  frequencyRanges : ∀ r ∈ t.frequencyRanges, InRange r
  operatorAlert : flag c "operator_alert" false = .ok t.operatorAlert

theorem required_eq_ok {α : Type} {why : String} {o : Option α} {a : α}
    (h : required why o = .ok a) : o = some a := by
  cases o with
  | none => cases h
  | some b =>
    cases h
    rfl

theorem parseTransmit_eq_ok (h : parseTransmit serde today c = .ok t) : Parsed today c t := by
  unfold parseTransmit at h
  obtain ⟨members, hmembers, h⟩ := Except.ok_of_bind h
  obtain ⟨-, -, h⟩ := Except.ok_of_bind h
  obtain ⟨attestedBy, hby, h⟩ := Except.ok_of_bind h
  obtain ⟨attestedOn, hon, h⟩ := Except.ok_of_bind h
  obtain ⟨cabling, hcabling, h⟩ := Except.ok_of_bind h
  obtain ⟨-, -, h⟩ := Except.ok_of_bind h
  obtain ⟨power, hpower, h⟩ := Except.ok_of_bind h
  obtain ⟨maxPowerW, hpower', h⟩ := Except.ok_of_bind h
  obtain ⟨seconds, hseconds, h⟩ := Except.ok_of_bind h
  obtain ⟨maxSeconds, hseconds', h⟩ := Except.ok_of_bind h
  obtain ⟨ranges, -, h⟩ := Except.ok_of_bind h
  obtain ⟨frequencyRanges, hranges, h⟩ := Except.ok_of_bind h
  obtain ⟨modes, -, h⟩ := Except.ok_of_bind h
  obtain ⟨allowedModes, -, h⟩ := Except.ok_of_bind h
  obtain ⟨load, -, h⟩ := Except.ok_of_bind h
  obtain ⟨_, hknown, h⟩ := Except.ok_of_bind h
  obtain ⟨maxSwr, -, h⟩ := Except.ok_of_bind h
  obtain ⟨swrProbe, -, h⟩ := Except.ok_of_bind h
  obtain ⟨swrProbeS, -, h⟩ := Except.ok_of_bind h
  obtain ⟨allowLoweringPower, -, h⟩ := Except.ok_of_bind h
  obtain ⟨operatorAlert, halert, h⟩ := Except.ok_of_bind h
  cases h
  obtain rfl := required_eq_ok hpower'
  obtain rfl := required_eq_ok hseconds'
  refine ⟨⟨members, ?_, ?_⟩, hby, hon, hcabling, within_of_number hpower,
    within_of_number hseconds, fun r hr => ?_, halert⟩
  · unfold asObject at hmembers
    split at hmembers
    · cases hmembers
      rfl
    · cases hmembers
  · unfold onlyKnown at hknown
    split at hknown
    · cases hknown
    next hnone =>
      intro m hm
      simpa using List.find?_eq_none.mp hnone m hm
  · obtain ⟨v, hv⟩ := of_mapM hranges hr
    exact range_eq_ok hv

/-- The block of an attestation gives it. -/
theorem parseTransmit_block (h : InLimits today t) (haccepted : Accepted t) :
    parseTransmit serde today t.block = .ok t := by
  obtain ⟨halert, hby, hon, hcabling⟩ := haccepted
  obtain ⟨day, hday, hpast⟩ := h.past
  have hdated : notInFuture today t.attestedOn = .ok () := by
    rw [notInFuture, hday]
    exact if_neg (not_lt.mpr hpast)
  have hranges : (t.frequencyRanges.map fun r => Json.arr [ofF64 r.1, ofF64 r.2]).mapM
      (range serde) = .ok t.frequencyRanges := by
    rw [mapM_eq_ok, List.forall₂_map_left_iff]
    exact List.forall₂_same.mpr fun r hr => range_of_inRange (h.frequencyRanges.2 r hr)
  have hmodes : (t.allowedModes.map (Json.str : String → JsonValue)).mapM mode =
      .ok t.allowedModes := by
    rw [mapM_eq_ok, List.forall₂_map_left_iff]
    exact List.forall₂_same.mpr fun m hm => mode_of_mem (h.allowedModes.2 m hm)
  have hobject : ∃ members, asObject t.block = .ok members ∧ onlyKnown members = .ok () :=
    ⟨_, rfl, rfl⟩
  obtain ⟨members, hmembers, hknown⟩ := hobject
  have hload : onDummyLoad t.block = .ok () := rfl
  have hprobe : flag t.block "swr_probe" true = .ok t.swrProbe := rfl
  have hlowering : flag t.block "allow_lowering_power" false = .ok t.allowLoweringPower := rfl
  have hsilent : flag t.block "operator_alert" false = .ok t.operatorAlert := by
    rw [halert]
    rfl
  unfold parseTransmit
  rw [hmembers, hload, hprobe, hlowering, hsilent,
    text_of_line (t := t.attestedBy) rfl h.attestedBy hby,
    text_of_line (t := t.attestedOn) rfl h.attestedOn hon,
    text_of_line (t := t.cabling) rfl h.cabling hcabling,
    number_of_field (x := t.maxPowerW) rfl h.maxPowerW,
    number_of_field (x := t.maxSeconds) rfl h.maxSeconds,
    items_of_field "frequency_ranges" rfl (by simpa using h.frequencyRanges.1),
    items_of_field "allowed_modes" rfl (by simpa using h.allowedModes.1),
    loadCheck_of_block rfl h.load, number_of_field (x := t.maxSwr) rfl h.maxSwr,
    number_of_field (x := t.swrProbeS) rfl h.swrProbeS]
  simp only [bind, Except.bind, required]
  rw [hdated, hranges, hmodes, hknown]
  rfl

/-- The block is a value that a text can have. -/
theorem ordered_block (t : Transmit) : t.block.Ordered := by
  have hpairs : ∀ r : F64 × F64, (Json.arr [ofF64 r.1, ofF64 r.2]).Ordered := by
    intro r
    simp [Station.ordered_ofF64]
  have hranges : (Json.arr (t.frequencyRanges.map fun r =>
      Json.arr [ofF64 r.1, ofF64 r.2])).Ordered := by
    rw [Json.ordered_arr]
    exact List.forall_mem_map.mpr fun r _ => hpairs r
  have hmodes : (Json.arr (t.allowedModes.map (Json.str : String → JsonValue))).Ordered := by
    rw [Json.ordered_arr]
    exact List.forall_mem_map.mpr fun m _ => Json.ordered_str m
  have hpreamp : (Json.ofOption ofF64 t.load.preampDb).Ordered := by
    cases t.load.preampDb with
    | none => exact Json.ordered_null
    | some x => exact Station.ordered_ofF64 x
  have hload : t.load.block.Ordered := by
    rw [LoadCheck.block, Json.ordered_obj]
    refine ⟨?_, by simp [Station.ordered_ofF64, hpreamp]⟩
    rw [← List.pairwise_map (f := Prod.fst)]
    simp only [List.map_cons, List.map_nil]
    decide
  rw [Transmit.block, Json.ordered_obj]
  refine ⟨?_, by simp [Station.ordered_ofF64, hload, hranges, hmodes, -Json.ordered_arr]⟩
  rw [← List.pairwise_map (f := Prod.fst)]
  simp only [List.map_cons, List.map_nil]
  decide

/-- Nothing that the code wants is missing from what it accepts. -/
theorem Parsed.accepted (h : Parsed today c t) : Accepted t := by
  obtain ⟨members, rfl, hkeys⟩ := h.keys
  have hnone : field "operator_alert" (.obj members) = none := by
    refine List.lookup_eq_none_iff.mpr fun m hm => bne_iff_ne.mpr fun heq => ?_
    have hkey := hkeys m hm
    rw [← heq] at hkey
    revert hkey
    decide
  have halert := h.operatorAlert
  rw [flag, hnone] at halert
  obtain ⟨-, -, -, -, hby, -⟩ := text_eq_ok.mp h.attestedBy
  obtain ⟨-, -, -, -, hon, -⟩ := text_eq_ok.mp h.attestedOn
  obtain ⟨-, -, -, -, hcabling, -⟩ := text_eq_ok.mp h.cabling
  exact ⟨(Except.ok.inj halert).symm, hby, hon, hcabling⟩

theorem Parsed.withinHard (h : Parsed today c t) : WithinHard t :=
  ⟨h.maxPowerW.2.2, h.maxSeconds.2.2, h.frequencyRanges⟩

/-- A block with a key that no field is read by is refused. -/
theorem refused_of_key {members : List (String × JsonValue)} {m : String × JsonValue}
    (hm : m ∈ members) (hkey : m.1 ∉ KEYS) :
    ∃ why, parseTransmit serde today (.obj members) = .error why := by
  cases hparse : parseTransmit serde today (.obj members) with
  | error why => exact ⟨why, rfl⟩
  | ok t =>
    obtain ⟨members', heq, hkeys⟩ := (parseTransmit_eq_ok hparse).keys
    cases heq
    exact absurd (List.mem_cons_of_mem _ (hkeys m hm)) hkey

/-- An attestation without an alert. -/
def bench : Transmit where
  attestedBy := "K6BP"
  attestedOn := "2026-10-29"
  cabling := "50 ohm dummy load on the antenna port"
  maxPowerW := FIVE.value
  maxSeconds := TEN.value
  frequencyRanges := [(LOWEST_HZ.value, HIGHEST_HZ.value)]
  allowedModes := ["CW", "USB"]
  maxSwr := TWO.value
  swrProbe := true
  swrProbeS := ONE.value
  allowLoweringPower := false
  operatorAlert := false
  load := .default

theorem bench_inLimits : InLimits 20755 bench where
  attestedBy := ⟨by decide, by decide, by decide, by decide⟩
  attestedOn := ⟨by decide, by decide, by decide, by decide⟩
  past := ⟨20755, by decide, Int.le_refl _⟩
  cabling := ⟨by decide, by decide, by decide, by decide⟩
  maxPowerW := by decide +kernel
  maxSeconds := by decide +kernel
  frequencyRanges := ⟨by decide, by
    intro r hr
    obtain rfl := List.mem_singleton.mp hr
    exact ⟨by decide +kernel, by decide +kernel, by decide +kernel, by decide +kernel,
      by decide +kernel⟩⟩
  allowedModes := ⟨by decide, by decide⟩
  maxSwr := by decide +kernel
  swrProbeS := by decide +kernel
  load := ⟨by decide +kernel, by decide +kernel, by decide +kernel, by decide, by decide +kernel,
    by decide, by decide +kernel, nofun⟩

/-- An alert is within what is documented, as is none. -/
theorem InLimits.alert (h : InLimits today t) (alert : Bool) :
    InLimits today { t with operatorAlert := alert } :=
  ⟨h.attestedBy, h.attestedOn, h.past, h.cabling, h.maxPowerW, h.maxSeconds, h.frequencyRanges,
    h.allowedModes, h.maxSwr, h.swrProbeS, h.load⟩

/-- There is a block for an attestation if it has no alert and its texts are as short in bytes;
other keys are refused and hard limits are kept in any case. -/
theorem attested_iff (h : InLimits today t) :
    ((∃ c : JsonValue, c.Ordered ∧ parseTransmit serde today c = .ok t) ∧
      (∀ members : List (String × JsonValue), (∃ m ∈ members, m.1 ∉ KEYS) →
        ∃ why, parseTransmit serde today (.obj members) = .error why) ∧
      ∀ c t', parseTransmit serde today c = .ok t' → WithinHard t') ↔ Accepted t := by
  constructor
  · rintro ⟨⟨c, -, hparse⟩, -, -⟩
    exact (parseTransmit_eq_ok hparse).accepted
  · intro haccepted
    refine ⟨⟨t.block, ordered_block t, parseTransmit_block h haccepted⟩, ?_, ?_⟩
    · rintro members ⟨m, hm, hkey⟩
      exact refused_of_key hm hkey
    · intro c t' hparse
      exact (parseTransmit_eq_ok hparse).withinHard

theorem attested_iff_bench :
    ((∃ c : JsonValue, c.Ordered ∧ parseTransmit .binary 20755 c = .ok bench) ∧
      (∀ members : List (String × JsonValue), (∃ m ∈ members, m.1 ∉ KEYS) →
        ∃ why, parseTransmit .binary 20755 (.obj members) = .error why) ∧
      ∀ c t', parseTransmit .binary 20755 c = .ok t' → WithinHard t') ↔ Accepted bench :=
  attested_iff bench_inLimits

/-- No block asks for an alert. -/
theorem alert_refused : ∃ t, InLimits 20755 t ∧
    ∀ serde c, parseTransmit serde 20755 c ≠ .ok t := by
  refine ⟨_, bench_inLimits.alert true, fun serde c hparse => ?_⟩
  have halert := (parseTransmit_eq_ok hparse).accepted.1
  cases halert

end Blocks

end HamsOpen.Hamlib.Attest
