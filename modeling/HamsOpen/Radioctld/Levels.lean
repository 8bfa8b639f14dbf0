import HamsOpen.Lib.Decimal
import HamsOpen.Radioctld.Service

/-!
# The levels of a rig as its clients see them

A client names a level as Hamlib does. Some levels it reads and sets in the rig's own units, others
as a fraction of the range that the rig's description gives (`names.rs`, `description.rs`,
`service.rs`). A fraction is printed with six decimal places, of which the zeros at the end are
dropped. What a client sets is rounded to a step of the range, transmit power down and the other
levels to the nearest one. The floating-point numbers of the source are rational numbers here.
-/

open Set

namespace HamsOpen.Radioctld

open Rig (Op Level Meter Capability CapabilitySet)

/-- The code of a command that asks for something that is not there. -/
def EINVAL : ℤ := -1

/-- The command family of a rig. -/
inductive Family
  | icomCiv | kenwoodAscii | elecraftAscii | yaesuNewcat | yaesuLegacy | flex | hpsdr | radiod
  | kenwoodHh | serialVendor | receiver | usbDevice
  deriving DecidableEq

/-- The range of a level in the rig's own units, of at most three digits. -/
structure LevelRange where
  min : ℕ
  max : ℕ
  ordered : min ≤ max := by decide
  small : max ≤ 999 := by decide
  deriving DecidableEq

/-- The steps of a range. -/
def LevelRange.span (range : LevelRange) : ℕ := range.max - range.min

/-- The attenuator and preamplifier steps of a model, and the levels that it does not have. -/
structure LevelParams where
  attenuatorDb : List (Fin 256) := []
  attenuatorAnyUpToDb : Fin 256 := 0
  preampSteps : Fin 256 := 0
  absent : List Level := []
  deriving DecidableEq

namespace LevelParams

variable (levels : LevelParams)

def lacks (level : Level) : Bool := levels.absent.contains level

def maxAttenuationDb : Option (Fin 256) :=
  if 0 < levels.attenuatorAnyUpToDb then some levels.attenuatorAnyUpToDb
  else levels.attenuatorDb.getLast?

/-- The step that has an attenuation; the step 0 is off. -/
def attenuatorStep (db : ℕ) : Option ℕ :=
  if db = 0 then some 0
  else if 0 < levels.attenuatorAnyUpToDb then
    if db ≤ levels.attenuatorAnyUpToDb then some db else none
  else (levels.attenuatorDb.findIdx? fun d => d.val = db).map (· + 1)

end LevelParams

/-- What the description of a rig says about its levels. A rig of Elecraft's that has levels states
the range of its transmit power. -/
structure RigDescription where
  family : Family
  capabilities : CapabilitySet
  levels : LevelParams := {}
  /-- The ranges that Elecraft's model has in place of the K3's. -/
  elecraft : Option (List (Level × LevelRange)) := none
  /-- The Kenwood dialect is that of the TS-890S. -/
  ts890 : Bool := false
  /-- The power meter has calibration points. -/
  calibrated : Bool := false
  powerStated : capabilities.has .levels → ∀ ranges ∈ elecraft, (ranges.lookup .rfPower).isSome

/-- The wire range of a level on the K3. -/
def levelWire : Level → LevelRange
  | .afGain => { min := 0, max := 255 }
  | .rfGain => { min := 0, max := 250 }
  | .micGain | .monitorLevel => { min := 0, max := 60 }
  | .keyerSpeed => { min := 8, max := 50 }
  | .rfPower => { min := 0, max := 110 }
  | .attenuator | .preamp | .dither | .preselector => { min := 0, max := 0 }

/-- The wire range of a level on the described model. -/
def levelWireFor (d : RigDescription) (level : Level) : LevelRange :=
  (d.elecraft.bind fun ranges => ranges.lookup level).getD (levelWire level)

/-- The range of a number of decibels or steps from zero on. -/
def LevelRange.upTo (most : Fin 256) : LevelRange where
  min := 0
  max := most
  ordered := Nat.zero_le _
  small := by omega

/-- The range of a level that is not of the front end, on the described rig. -/
def familyRange (d : RigDescription) (level : Level) : Option LevelRange :=
  match d.family with
  | .elecraftAscii => some (levelWireFor d level)
  | .icomCiv =>
    match level with
    | .keyerSpeed => some { min := 6, max := 48 }
    | _ => some { min := 0, max := 255 }
  | .kenwoodAscii =>
    if d.ts890 then
      match level with
      | .afGain | .rfGain => some { min := 0, max := 255 }
      | .micGain => some { min := 0, max := 100 }
      | .keyerSpeed => some { min := 4, max := 60 }
      | .rfPower => some { min := 5, max := 100 }
      | .monitorLevel | .attenuator | .preamp | .dither | .preselector => none
    else
      match level with
      | .afGain | .rfGain => some { min := 0, max := 255 }
      | .micGain => some { min := 0, max := 100 }
      | .monitorLevel => some { min := 0, max := 9 }
      | .keyerSpeed => some { min := 10, max := 60 }
      | .rfPower => some { min := 5, max := 100 }
      | .attenuator | .preamp | .dither | .preselector => some { min := 0, max := 0 }
  | .yaesuNewcat =>
    match level with
    | .afGain | .rfGain => some { min := 0, max := 255 }
    | .micGain => some { min := 0, max := 100 }
    | .keyerSpeed => some { min := 4, max := 60 }
    | .rfPower => some { min := 5, max := 100 }
    | .monitorLevel | .attenuator | .preamp | .dither | .preselector => none
  | .flex =>
    match level with
    | .afGain | .micGain | .rfPower => some { min := 0, max := 100 }
    | _ => none
  | .yaesuLegacy | .kenwoodHh | .hpsdr | .radiod | .serialVendor | .receiver | .usbDevice => none

/-- The range of a level on the described rig, if it has one. -/
def levelRange (d : RigDescription) (level : Level) : Option LevelRange :=
  match level with
  | .attenuator => d.levels.maxAttenuationDb.map .upTo
  | .preamp => if 0 < d.levels.preampSteps then some (.upTo d.levels.preampSteps) else none
  | level => familyRange d level

/-- The two levels of the receiver's front end. -/
def isFrontEndLevel : Level → Bool
  | .attenuator | .preamp => true
  | _ => false

/-- The wire step of a front-end level. -/
def stepOf (d : RigDescription) (level : Level) (value : ℕ) : Option ℕ :=
  match level with
  | .attenuator =>
    if d.levels.maxAttenuationDb.isNone then none else d.levels.attenuatorStep value
  | .preamp => if 0 < d.levels.preampSteps ∧ value ≤ d.levels.preampSteps then some value else none
  | _ => none

/-! ### Levels by their names -/

/-- Where the value of a level comes from. -/
inductive LevelSource
  | radio (level : Level)
  | swr | rawStr | strength | powerWatts | powerFraction
  | meter (meter : Meter)
  deriving DecidableEq

/-- A level that can be served. -/
structure LevelInfo where
  name : String
  bit : ℕ
  source : LevelSource
  /-- The client sees a fraction, not the rig's own number. -/
  fraction : Bool
  deriving DecidableEq

def LEVELS : List LevelInfo :=
  [⟨"PREAMP", 0, .radio .preamp, false⟩, ⟨"ATT", 1, .radio .attenuator, false⟩,
    ⟨"AF", 3, .radio .afGain, true⟩, ⟨"RF", 4, .radio .rfGain, true⟩,
    ⟨"RFPOWER", 12, .radio .rfPower, true⟩, ⟨"MICGAIN", 13, .radio .micGain, true⟩,
    ⟨"KEYSPD", 14, .radio .keyerSpeed, false⟩, ⟨"RAWSTR", 26, .rawStr, false⟩,
    ⟨"STRENGTH", 30, .strength, false⟩, ⟨"ALC", 29, .meter .alc, true⟩, ⟨"SWR", 28, .swr, true⟩,
    ⟨"COMP_METER", 33, .meter .comp, false⟩, ⟨"VD_METER", 34, .meter .vd, false⟩,
    ⟨"ID_METER", 35, .meter .id, false⟩, ⟨"RFPOWER_METER", 32, .powerFraction, true⟩,
    ⟨"RFPOWER_METER_WATTS", 39, .powerWatts, false⟩,
    ⟨"MONITOR_GAIN", 37, .radio .monitorLevel, true⟩]

/-- The names of levels that Hamlib has and that are not served. -/
def OTHER_LEVELS : List String :=
  ["VOXDELAY", "SQL", "IF", "APF", "NR", "PBT_IN", "PBT_OUT", "CWPITCH", "NOTCHF", "COMP", "AGC",
    "BKINDL", "BAL", "METER", "VOXGAIN", "ANTIVOX", "NB", "TEMP_METER"]

def eqIgnoreAsciiCase (a b : String) : Bool :=
  a.toList.map Char.toLower = b.toList.map Char.toLower

/-- A level name that was looked up. -/
inductive LevelLookup
  | known (info : LevelInfo)
  | unserved
  | unknown
  deriving DecidableEq

def levelLookup (name : String) : LevelLookup :=
  match LEVELS.find? fun info => eqIgnoreAsciiCase info.name name with
  | some info => .known info
  | none => if OTHER_LEVELS.any fun n => eqIgnoreAsciiCase n name then .unserved else .unknown

/-- The rig can serve the level. -/
def serves (d : RigDescription) (info : LevelInfo) : Bool :=
  match info.source with
  | .radio level =>
    d.capabilities.has .levels && !d.levels.lacks level && (levelRange d level).isSome
  | .swr => d.capabilities.has .readSwr || d.capabilities.has .readMeters
  | .meter _ => d.capabilities.has .readMeters
  | .powerFraction => d.capabilities.has .readPower
  | .powerWatts => d.capabilities.has .readPower && d.calibrated
  | .rawStr => d.capabilities.has .readSignal
  | .strength => d.capabilities.has .readSignal && d.family = .elecraftAscii

def servedLevels (d : RigDescription) : List LevelInfo := LEVELS.filter (serves d)

/-- The level of a name, when the rig serves it. -/
def servedLevel (d : RigDescription) (name : String) : Except ℤ LevelInfo :=
  match levelLookup name with
  | .unknown => .error EINVAL
  | .unserved => .error ENAVAIL
  | .known info =>
    match (servedLevels d).find? fun l => l.bit = info.bit with
    | some l => .ok l
    | none => .error ENAVAIL

/-! ### The two commands -/

/-- A level as text: six decimals without the zeros at the end. -/
def fmtFloat (value : ℚ) : List Char := Decimal.trimmed 6 value

/-- A number of at most 32 characters. -/
def parseFloat (text : List Char) : Option ℚ :=
  if 32 < text.length then none else Decimal.parse text

/-- The level as the client sees it: `read` is what the rig has for a level of its own, and
`meters` the text of a level that comes from somewhere else. -/
def getLevel (d : RigDescription) (read : Level → Except ℤ ℕ)
    (meters : LevelSource → Except ℤ (List Char)) (name : String) : Except ℤ (List Char) := do
  let info ← servedLevel d name
  match info.source with
  | .radio level =>
    let raw ← read level
    if info.fraction then
      match levelRange d level with
      | some range =>
        let span := max (range.max - range.min) 1
        .ok (fmtFloat (((raw - range.min : ℕ) : ℚ) / span))
      | none => .error ENAVAIL
    else .ok (Nat.toDigits 10 raw)
  | source => meters source

/-- The step of a range that a fraction becomes, before the check that it is in the range. -/
def scaled (range : LevelRange) (level : Level) (value : ℚ) : ℤ :=
  let steps : ℚ := value * (range.max - range.min : ℕ)
  range.min + if level = .rfPower then ⌊steps + 1 / 10 ^ 4⌋ else Decimal.halfAway steps

/-- The operation that a level and a number become. -/
def setLevel (d : RigDescription) (name : String) (value : ℚ) : Except ℤ Op := do
  let info ← servedLevel d name
  match info.source with
  | .radio level =>
    match levelRange d level with
    | none => .error ENAVAIL
    | some range =>
      if info.fraction ∧ ¬ (0 ≤ value ∧ value ≤ 1) then .error EINVAL
      else
        let raw := if info.fraction then scaled range level value else Decimal.halfAway value
        if raw < range.min ∨ range.max < raw then .error EINVAL
        else if isFrontEndLevel level ∧ stepOf d level raw.toNat = none then .error EINVAL
        else .ok (.setLevel level raw.toNat)
  | _ => .error ENAVAIL

/-! ### What is served -/

section Served

variable {d : RigDescription} {name : String} {info : LevelInfo} {level : Level}

theorem mem_served (h : servedLevel d name = .ok info) : info ∈ LEVELS ∧ serves d info = true := by
  unfold servedLevel at h
  split at h
  next => cases h
  next => cases h
  next =>
    split at h
    next l hfind =>
      cases h
      exact List.mem_filter.mp (List.mem_of_find?_eq_some hfind)
    next => cases h

/-- The levels of the front end are served in the rig's own units. -/
theorem not_frontEnd (hmem : info ∈ LEVELS) (hfraction : info.fraction = true)
    (hsource : info.source = .radio level) : isFrontEndLevel level = false := by
  have hall : ∀ info ∈ LEVELS, info.fraction = true →
      info.source ≠ .radio .attenuator ∧ info.source ≠ .radio .preamp := by decide
  obtain ⟨hatt, hpreamp⟩ := hall info hmem hfraction
  cases level <;> first | rfl | contradiction

/-- Transmit power is served as a fraction under its name. -/
theorem served_power (hcap : d.capabilities.has .levels = true)
    (hlacks : d.levels.lacks .rfPower = false) (hrange : (levelRange d .rfPower).isSome = true) :
    servedLevel d "RFPOWER" = .ok ⟨"RFPOWER", 12, .radio .rfPower, true⟩ := by
  have hlookup : levelLookup "RFPOWER" = .known ⟨"RFPOWER", 12, .radio .rfPower, true⟩ := by
    decide
  have hserves : serves d ⟨"RFPOWER", 12, .radio .rfPower, true⟩ = true := by
    simp [serves, hcap, hlacks, hrange]
  have hfind : (servedLevels d).find? (fun l => l.bit = 12) =
      some ⟨"RFPOWER", 12, .radio .rfPower, true⟩ := by
    rw [servedLevels, List.find?_filter]
    simp [LEVELS, hserves]
  rw [servedLevel, hlookup]
  simp only [hfind]

end Served

/-! ### Fractions and steps -/

section Steps

variable {range : LevelRange} {level : Level} {v w : ℚ} {n : ℕ}

theorem scaled_mono (range : LevelRange) (level : Level) (h : v ≤ w) :
    scaled range level v ≤ scaled range level w := by
  have hsteps : v * ((range.max - range.min : ℕ) : ℚ) ≤ w * ((range.max - range.min : ℕ) : ℚ) :=
    mul_le_mul_of_nonneg_right h (Nat.cast_nonneg _)
  unfold scaled
  apply Int.add_le_add_left
  split
  · exact Int.floor_le_floor (by linarith)
  · exact Decimal.isRounding_halfAway.monotone hsteps

/-- The whole range is the range of the fractions from zero to one. -/
theorem scaled_mem (range : LevelRange) (level : Level) (hv : v ∈ Icc 0 1) :
    (range.min : ℤ) ≤ scaled range level v ∧ scaled range level v ≤ range.max := by
  have hle := range.ordered
  have hzero : scaled range level 0 = range.min := by
    have hfloor : ⌊(0 + 1 / 10 ^ 4 : ℚ)⌋ = 0 := by norm_num
    simp only [scaled, zero_mul, hfloor, Decimal.isRounding_halfAway.zero, ite_self, add_zero]
  have hone : scaled range level 1 = range.max := by
    have hfloor : ⌊((range.max - range.min : ℕ) : ℚ) + 1 / 10 ^ 4⌋ =
        ((range.max - range.min : ℕ) : ℤ) := by
      rw [Int.floor_natCast_add]
      norm_num
    have hround := Decimal.isRounding_halfAway.intCast ((range.max - range.min : ℕ) : ℤ)
    rw [Int.cast_natCast] at hround
    simp only [scaled, one_mul, hfloor, hround, ite_self]
    omega
  constructor
  · rw [← hzero]
    exact scaled_mono range level hv.1
  · rw [← hone]
    exact scaled_mono range level hv.2

/-- Transmit power is never more than the fraction, but for the tolerance. -/
theorem scaled_power_le (range : LevelRange) (v : ℚ) :
    (scaled range .rfPower v : ℚ) - range.min ≤ v * range.span + 1 / 10 ^ 4 := by
  have hfloor := Int.floor_le (v * ((range.max - range.min : ℕ) : ℚ) + 1 / 10 ^ 4)
  simp only [scaled, if_true]
  push_cast
  rw [add_sub_cancel_left]
  exact hfloor

/-- A fraction of the range, as it is printed. -/
def shown (span n : ℕ) : ℚ := Decimal.toPlaces Decimal.halfEven 6 ((n : ℚ) / (max span 1 : ℕ))

theorem fraction_mem {span : ℕ} (hn : n ≤ span) : (n : ℚ) / (max span 1 : ℕ) ∈ Icc 0 1 := by
  have hle : (n : ℚ) ≤ (max span 1 : ℕ) := by exact_mod_cast hn.trans (le_max_left span 1)
  exact ⟨by positivity, div_le_one_of_le₀ hle (by positivity)⟩

/-- Six places are enough for a range of three digits to fall on the same step. -/
theorem shown_near {span : ℕ} (hspan : span ≤ 999) (hn : n ≤ span) :
    |shown span n * span - n| ≤ 1 / 2000 := by
  obtain rfl | hpos := Nat.eq_zero_or_pos span
  · obtain rfl : n = 0 := by omega
    norm_num
  have hmax : max span 1 = span := by omega
  have hcast : (0 : ℚ) < span := by exact_mod_cast hpos
  have hsmall : (span : ℚ) ≤ 999 := by exact_mod_cast hspan
  have hnear := Decimal.isRounding_halfEven.toPlaces_near 6 ((n : ℚ) / span)
  have hscaled : shown span n * span - n =
      -(((n : ℚ) / span - Decimal.toPlaces Decimal.halfEven 6 ((n : ℚ) / span)) * span) := by
    rw [shown, hmax]
    field_simp
    ring
  rw [hscaled, abs_neg, abs_mul, abs_of_pos hcast]
  calc _ ≤ 1 / 2 / 10 ^ 6 * (999 : ℚ) := by gcongr
    _ ≤ 1 / 2000 := by norm_num

/-- A step that rounds is shown as a fraction that stands for it. -/
theorem scaled_shown (hlevel : level ≠ .rfPower) (hn : n ≤ range.span) :
    scaled range level (shown range.span n) = range.min + n := by
  have hsmall : range.span ≤ 999 := (Nat.sub_le _ _).trans range.small
  have hround : Decimal.halfAway (shown range.span n * (range.span : ℚ)) = n := by
    apply Decimal.isRounding_halfAway.eq_of_near
    have hnear := shown_near hsmall hn
    push_cast
    linarith
  simp only [scaled, hlevel, if_false]
  exact congrArg _ hround

/-- A step whose fraction is printed no lower than the tolerance covers: the remainder of the sixth
place is small, or large enough for that place to be rounded up. -/
def Kept (span n : ℕ) : Prop :=
  let rest := n * 10 ^ 6 % span
  rest ≤ 100 ∨ span < 2 * rest ∨ 2 * rest = span ∧ n * 10 ^ 6 / span % 2 = 1

instance (span n : ℕ) : Decidable (Kept span n) := by
  unfold Kept
  infer_instance

/-- The tolerance covers what a range of few steps loses. -/
theorem kept_of_span_le {span : ℕ} (hspan : span ≤ 201) (n : ℕ) : Kept span n := by
  have hlt : 0 < span → n * 10 ^ 6 % span < span := Nat.mod_lt _
  unfold Kept
  simp only
  omega

/-- The step that a printed fraction stands for, in millionths. -/
theorem le_shown_iff {span : ℕ} (hpos : 0 < span) (n : ℕ) :
    (n : ℚ) ≤ shown span n * span + 1 / 10 ^ 4 ↔ Kept span n := by
  have hmax : max span 1 = span := by omega
  have hsplit := Nat.div_add_mod (n * 10 ^ 6) span
  have hlt := Nat.mod_lt (n * 10 ^ 6) hpos
  have hprinted : (n : ℚ) / span * 10 ^ 6 = ((n * 10 ^ 6 : ℕ) : ℚ) / span := by
    push_cast
    ring
  have hmillionths (q : ℕ) : (n : ℚ) ≤ (q : ℚ) / 10 ^ 6 * span + 1 / 10 ^ 4 ↔
      n * 10 ^ 6 ≤ span * q + 100 := by
    have hscale : (q : ℚ) / 10 ^ 6 * span + 1 / 10 ^ 4 = ((span * q + 100 : ℕ) : ℚ) / 10 ^ 6 := by
      push_cast
      ring
    rw [hscale, le_div_iff₀ (by norm_num)]
    exact_mod_cast Iff.rfl
  rw [shown, hmax, Decimal.toPlaces, hprinted, Decimal.halfEven_div _ _ hpos]
  unfold Kept
  simp only
  split_ifs with hdown
  · -- printed low, by the whole remainder
    rw [Int.cast_natCast, hmillionths]
    omega
  · have hup : ((n * 10 ^ 6 / span : ℕ) : ℤ) + 1 = ((n * 10 ^ 6 / span + 1 : ℕ) : ℤ) := by
      push_cast
      rfl
    rw [hup, Int.cast_natCast, hmillionths, Nat.mul_add, Nat.mul_one]
    omega

/-- A step of transmit power is shown as a fraction that stands for it when it is kept. -/
theorem scaled_shown_power (hn : n ≤ range.span) :
    scaled range .rfPower (shown range.span n) = range.min + n ↔ Kept range.span n := by
  have hsmall : range.span ≤ 999 := (Nat.sub_le _ _).trans range.small
  have hnear := (abs_le.mp (shown_near hsmall hn)).2
  have hfloor : scaled range .rfPower (shown range.span n) = range.min + n ↔
      (n : ℚ) ≤ shown range.span n * range.span + 1 / 10 ^ 4 := by
    have habove : shown range.span n * (range.span : ℚ) + 1 / 10 ^ 4 < (n : ℤ) + 1 := by
      push_cast
      linarith
    simp only [scaled, if_true]
    rw [add_right_inj, Int.floor_eq_iff]
    exact and_iff_left habove
  obtain hzero | hpos := Nat.eq_zero_or_pos range.span
  · -- a range of one step
    obtain rfl : n = 0 := by omega
    rw [hfloor, hzero]
    exact iff_of_true (by norm_num) (kept_of_span_le (by norm_num) 0)
  · rw [hfloor, le_shown_iff hpos]

end Steps

/-! ### What is read and sent back -/

section RoundTrip

variable {d : RigDescription} {name : String} {info : LevelInfo} {level : Level}
variable {range : LevelRange} {read : Level → Except ℤ ℕ}
variable {raw : ℕ} {v : ℚ}

theorem getLevel_fraction (meters : LevelSource → Except ℤ (List Char))
    (hserved : servedLevel d name = .ok info) (hfraction : info.fraction = true)
    (hsource : info.source = .radio level) (hrange : levelRange d level = some range)
    (hread : read level = .ok raw) : getLevel d read meters name =
      .ok (fmtFloat ((raw - range.min : ℕ) / (max range.span 1 : ℕ))) := by
  simp only [getLevel, hserved, hsource, hread, hfraction, hrange, bind, Except.bind, if_true]
  rfl

/-- Every fraction from zero to one becomes a step of the range. -/
theorem setLevel_fraction (hserved : servedLevel d name = .ok info)
    (hfraction : info.fraction = true) (hsource : info.source = .radio level)
    (hrange : levelRange d level = some range) (v : ℚ) : setLevel d name v =
      if v ∈ Icc 0 1 then .ok (.setLevel level (scaled range level v).toNat)
      else .error EINVAL := by
  have hfront : isFrontEndLevel level = false :=
    not_frontEnd (mem_served hserved).1 hfraction hsource
  simp only [setLevel, hserved, hsource, hrange, hfraction, hfront, bind, Except.bind, if_true,
    true_and, Bool.false_eq_true, false_and, if_false, ← mem_Icc]
  by_cases hv : v ∈ Icc (0 : ℚ) 1
  · have hmem := scaled_mem range level hv
    rw [if_neg (not_not.mpr hv), if_neg (by omega), if_pos hv]
  · rw [if_pos hv, if_neg hv]

theorem parseFloat_shown {span n : ℕ} (hn : n ≤ span) :
    parseFloat (fmtFloat ((n : ℚ) / (max span 1 : ℕ))) = some (shown span n) := by
  have hlength := Decimal.length_trimmed_le (p := 6) (by norm_num) (fraction_mem hn)
  rw [parseFloat, fmtFloat, if_neg (by omega), Decimal.parse_trimmed (by norm_num), shown]

/-- What a client reads and sends back becomes the step of its printed fraction. -/
theorem setLevel_shown (hserved : servedLevel d name = .ok info)
    (hfraction : info.fraction = true) (hsource : info.source = .radio level)
    (hrange : levelRange d level = some range) (hraw : raw ∈ Icc range.min range.max) :
    setLevel d name (shown range.span (raw - range.min)) = .ok (.setLevel level raw) ↔
      scaled range level (shown range.span (raw - range.min)) =
        range.min + (raw - range.min : ℕ) := by
  have hn : raw - range.min ≤ range.span := Nat.sub_le_sub_right hraw.2 _
  have hshown : shown range.span (raw - range.min) ∈ Icc 0 1 :=
    Decimal.isRounding_halfEven.toPlaces_mem 6 (fraction_mem hn)
  have hmem := scaled_mem range level hshown
  have hmin := hraw.1
  rw [setLevel_fraction hserved hfraction hsource hrange, if_pos hshown, Except.ok.injEq,
    Op.setLevel.injEq, eq_self_iff_true, true_and]
  omega

theorem fraction_of_power (hserved : servedLevel d name = .ok info)
    (hsource : info.source = .radio .rfPower) : info.fraction = true := by
  have hall : ∀ info ∈ LEVELS, info.source = .radio .rfPower → info.fraction = true := by decide
  exact hall info (mem_served hserved).1 hsource

/-- A power that is accepted is the step of its fraction. -/
theorem sent_power {sent : ℕ} (hserved : servedLevel d name = .ok info)
    (hsource : info.source = .radio .rfPower) (hrange : levelRange d .rfPower = some range)
    (hset : setLevel d name v = .ok (.setLevel .rfPower sent)) :
    (sent : ℤ) = scaled range .rfPower v := by
  rw [setLevel_fraction hserved (fraction_of_power hserved hsource) hsource hrange] at hset
  split at hset
  next hv =>
    have hmem := scaled_mem range .rfPower hv
    rw [Except.ok.injEq, Op.setLevel.injEq] at hset
    omega
  next => cases hset

end RoundTrip

/-- The text that a client reads of a fractional level names the rig's own value again when it is
sent back. Transmit power follows the fraction that is asked for, and is no more than it but for
the tolerance. -/
structure Faithful (d : RigDescription) : Prop where
  back : ∀ {name info level range raw} (read : Level → Except ℤ ℕ)
    (meters : LevelSource → Except ℤ (List Char)),
    servedLevel d name = .ok info → info.fraction = true → info.source = .radio level →
    levelRange d level = some range → raw ∈ Icc range.min range.max → read level = .ok raw →
    ∃ text v, getLevel d read meters name = .ok text ∧ parseFloat text = some v ∧
      setLevel d name v = .ok (.setLevel level raw)
  bounded : ∀ {name info range v sent}, servedLevel d name = .ok info →
    info.source = .radio .rfPower → levelRange d .rfPower = some range →
    setLevel d name v = .ok (.setLevel .rfPower sent) →
    (sent : ℚ) - range.min ≤ v * range.span + 1 / 10 ^ 4
  monotone : ∀ {name info v w sent sent'}, servedLevel d name = .ok info →
    info.source = .radio .rfPower → v ≤ w → setLevel d name v = .ok (.setLevel .rfPower sent) →
    setLevel d name w = .ok (.setLevel .rfPower sent') → sent ≤ sent'

/-- What is read of a level comes back as it was, but for a step of transmit power that its printed
fraction is too low for. -/
theorem back_iff {d : RigDescription} {name : String} {info : LevelInfo} {level : Level}
    {range : LevelRange} {read : Level → Except ℤ ℕ} {raw : ℕ}
    (meters : LevelSource → Except ℤ (List Char)) (hserved : servedLevel d name = .ok info)
    (hfraction : info.fraction = true) (hsource : info.source = .radio level)
    (hrange : levelRange d level = some range) (hraw : raw ∈ Icc range.min range.max)
    (hread : read level = .ok raw) :
    (∃ text v, getLevel d read meters name = .ok text ∧ parseFloat text = some v ∧
      setLevel d name v = .ok (.setLevel level raw)) ↔
      (level = .rfPower → Kept range.span (raw - range.min)) := by
  have hn : raw - range.min ≤ range.span := Nat.sub_le_sub_right hraw.2 _
  have hget := getLevel_fraction meters hserved hfraction hsource hrange hread
  have hstep : setLevel d name (shown range.span (raw - range.min)) = .ok (.setLevel level raw) ↔
      (level = .rfPower → Kept range.span (raw - range.min)) := by
    rw [setLevel_shown hserved hfraction hsource hrange hraw]
    by_cases hlevel : level = .rfPower
    · subst hlevel
      rw [scaled_shown_power hn]
      exact ⟨fun h _ => h, fun h => h rfl⟩
    · exact iff_of_true (scaled_shown hlevel hn) fun h => absurd h hlevel
  rw [← hstep]
  constructor
  · rintro ⟨text, v, htext, hparse, hset⟩
    obtain rfl := Except.ok.inj (hget.symm.trans htext)
    obtain rfl := Option.some.inj ((parseFloat_shown hn).symm.trans hparse)
    exact hset
  · intro hset
    exact ⟨_, _, hget, parseFloat_shown hn, hset⟩

/-- Levels are faithful when no step of the power that is served is printed too low. -/
theorem faithful_iff (d : RigDescription) : Faithful d ↔
    (d.capabilities.has .levels = true → d.levels.lacks .rfPower = false →
      ∀ range, levelRange d .rfPower = some range → ∀ n ≤ range.span, Kept range.span n) := by
  constructor
  · intro hfaithful hcap hlacks range hrange n hn
    have hserved := served_power hcap hlacks (by rw [hrange]; rfl)
    have hle := range.ordered
    have hraw : range.min + n ∈ Icc range.min range.max := by
      unfold LevelRange.span at hn
      constructor <;> omega
    have hback := hfaithful.back (fun _ => .ok (range.min + n)) (fun _ => .error EIO)
      hserved rfl rfl hrange hraw rfl
    rw [back_iff _ hserved rfl rfl hrange hraw rfl, Nat.add_sub_cancel_left] at hback
    exact hback rfl
  · intro hkept
    constructor
    · intro name info level range raw read meters hserved hfraction hsource hrange hraw hread
      rw [back_iff meters hserved hfraction hsource hrange hraw hread]
      rintro rfl
      have hserves := (mem_served hserved).2
      rw [serves, hsource] at hserves
      simp only [Bool.and_eq_true, Bool.not_eq_true'] at hserves
      exact hkept hserves.1.1 hserves.1.2 range hrange _ (Nat.sub_le_sub_right hraw.2 _)
    · intro name info range v sent hserved hsource hrange hset
      have hsent := sent_power hserved hsource hrange hset
      have hle := scaled_power_le range v
      rw [← hsent] at hle
      exact_mod_cast hle
    · intro name info v w sent sent' hserved hsource hvw hset hset'
      have hserves := (mem_served hserved).2
      rw [serves, hsource] at hserves
      simp only [Bool.and_eq_true] at hserves
      obtain ⟨range, hrange⟩ := Option.isSome_iff_exists.mp hserves.2
      have hmono := scaled_mono range .rfPower hvw
      rw [← sent_power hserved hsource hrange hset,
        ← sent_power hserved hsource hrange hset'] at hmono
      exact_mod_cast hmono

/-- A rig of Icom's, whose power has 256 steps. -/
def icom : RigDescription where
  family := .icomCiv
  capabilities := [.levels]
  powerStated := by
    intro _ ranges hranges
    cases hranges

/-- The step 6 of 255 is shown as `0.023529`, which is the step 5 when it is sent back. -/
theorem icom_not_faithful : ¬ Faithful icom := by
  intro hfaithful
  have hserved : servedLevel icom "RFPOWER" = .ok ⟨"RFPOWER", 12, .radio .rfPower, true⟩ :=
    served_power rfl rfl rfl
  have hrange : levelRange icom .rfPower = some { min := 0, max := 255 } := rfl
  have hraw : 6 ∈ Icc 0 255 := by
    rw [mem_Icc]
    omega
  have hback := hfaithful.back (fun _ => .ok 6) (fun _ => .error EIO)
    hserved rfl rfl hrange hraw rfl
  rw [back_iff _ hserved rfl rfl hrange hraw rfl] at hback
  exact absurd (hback rfl) (by decide)

end HamsOpen.Radioctld
