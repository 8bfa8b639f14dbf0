import HamsOpen.Civ.Numbers
import HamsOpen.Rig.Memory

/-!
# Descriptions of CI-V rigs

What the engine reads of the description of a rig, and the codes that levels, meters, modes and scope
commands have on the wire.
-/

namespace HamsOpen.Civ

open Rig (Hz Mode Level Meter ScopeAxis CapabilitySet RigError)

/-- The broadcast address every rig also answers to. -/
def BROADCAST : Byte := 0x00

def unsupported (what : String) : RigError := ⟨.unsupported, what⟩

/-! ### Descriptions -/

/-- The command numbers that set the frequency and read and set the mode. -/
inductive CivCommandSet where
  | standard
  | f8101
  deriving DecidableEq

structure CivParams where
  /-- The rig's address. -/
  address : Byte
  /-- The address of this side. -/
  controller : Byte
  /-- Bytes of a frequency field; 6 is for a field of 6 bytes above 5.85 GHz only. -/
  frequencyBytes : ℕ
  commandSet : CivCommandSet
  deriving DecidableEq

/-- The number of bytes in the frequency field. -/
def CivParams.fieldLen (p : CivParams) (hz : Hz) : ℕ :=
  if p.frequencyBytes = 6 then if 5850000000 < hz then 6 else 5 else p.frequencyBytes

/-- The state in a PTT frame `1C 00 <state>`. -/
def Frame.pttState (f : Frame) : Option Byte :=
  match f.data with
  | [sub, state] => if f.cmd = 0x1C ∧ sub = 0x00 then some state else none
  | _ => none

theorem Frame.pttState_eq_some {f : Frame} {state : Byte} (h : f.pttState = some state) :
    f.cmd = 0x1C ∧ f.data = [0x00, state] := by
  unfold Frame.pttState at h
  split at h
  next sub _ hdata =>
    obtain ⟨⟨hcmd, rfl⟩, heq⟩ := Option.ite_none_right_eq_some.mp h
    obtain rfl := Option.some.inj heq
    exact ⟨hcmd, hdata⟩
  · cases h

/-- The frames of the rig, to us or to everyone. -/
def CivParams.hears (p : CivParams) (f : Frame) : Bool :=
  f.fromAddr != p.controller && (f.toAddr == p.controller || f.toAddr == BROADCAST)
    && f.fromAddr == p.address

/-- The attenuator and preamplifier steps of a model, and the levels it does not have. -/
structure LevelParams where
  /-- The decibels of each attenuator step. -/
  attenuatorDb : List Byte
  /-- The largest attenuation when any number of decibels will do; 0 when the steps are listed. -/
  attenuatorAnyUpToDb : Byte
  /-- Preamplifier steps above off. -/
  preampSteps : Byte
  absent : List Level
  deriving DecidableEq

def LevelParams.lacks (l : LevelParams) (level : Level) : Bool := l.absent.contains level

/-- The largest attenuation in decibels. -/
def LevelParams.maxAttenuationDb (l : LevelParams) : Option Byte :=
  if 0 < l.attenuatorAnyUpToDb then some l.attenuatorAnyUpToDb else l.attenuatorDb.getLast?

/-- The step with that many decibels, 0 for off. -/
def LevelParams.attenuatorStep (l : LevelParams) (db : ℕ) : Option Byte :=
  if db = 0 then some 0
  else if 0 < l.attenuatorAnyUpToDb then
    if db ≤ l.attenuatorAnyUpToDb.toNat then some (UInt8.ofNat db) else none
  else do
    let index ← l.attenuatorDb.findIdx? (·.toNat == db)
    if index + 1 < 256 then some (UInt8.ofNat (index + 1)) else none

structure ScopeDescription extends ScopeParams where
  /-- The span choices in hertz. -/
  spansHz : List Hz
  deriving DecidableEq

/-- What the engine reads of the description of a rig. -/
structure Description where
  civ : CivParams
  scope : Option ScopeDescription
  levels : LevelParams
  capabilities : CapabilitySet
  /-- Mode to wire code. -/
  modeCodes : List (Mode × Byte)
  deriving DecidableEq

namespace Description

variable (d : Description)

/-- The wire code for a mode. -/
def modeCode (mode : Mode) : Option Byte := (d.modeCodes.find? (·.1 == mode)).map Prod.snd

/-- The mode for a wire code. -/
def codeMode (code : Byte) : Option Mode := (d.modeCodes.find? (·.2 == code)).map Prod.fst

/-- The wire step of the value of a front-end level. -/
def stepOf (level : Level) (value : ℕ) : Except RigError Byte :=
  match level with
  | .attenuator =>
    if d.levels.maxAttenuationDb.isNone then
      .error (unsupported "the description lists no attenuator steps")
    else match d.levels.attenuatorStep value with
      | some step => .ok step
      | none => .error (unsupported "no attenuator step of that many decibels")
  | .preamp =>
    if d.levels.preampSteps = 0 then
      .error (unsupported "the description lists no preamplifier steps")
    else if value ≤ d.levels.preampSteps.toNat then .ok (UInt8.ofNat value)
    else .error (unsupported "no preamplifier step that high")
  | _ => .error (unsupported "not a front-end level")

/-- The level value of a preamplifier step the rig reports. -/
def preampValueOf (step : Byte) : Option ℕ :=
  if step ≤ d.levels.preampSteps ∧ 0 < d.levels.preampSteps then some step.toNat else none

/-- True when the mode goes with command `26`, which carries the DATA flag. -/
def hasDataModes : Bool := (d.modeCode .data).isSome

end Description

/-! ### Levels, meters and modes -/

/-- The sub-command of the keyer speed. -/
def KEYER_SUB : Byte := 0x0C

/-- Sub-command of a level under `14`. -/
def levelSub : Level → Option Byte
  | .afGain => some 0x01
  | .rfGain => some 0x02
  | .rfPower => some 0x0A
  | .micGain => some 0x0B
  | .monitorLevel => some 0x15
  | .keyerSpeed => some KEYER_SUB
  | .attenuator | .preamp | .dither | .preselector => none

/-- The level behind a `14` sub-command. -/
def subLevel (sub : Byte) : Option Level :=
  [.afGain, .rfGain, .rfPower, .micGain, .monitorLevel, .keyerSpeed].find? fun level =>
    levelSub level == some sub

theorem subLevel_levelSub {level : Level} {sub : Byte} (h : levelSub level = some sub) :
    subLevel sub = some level := by
  cases level <;> cases h <;> rfl

/-- Sub-command of a raw meter under `15`. -/
def meterSub : Meter → Byte
  | .swr => 0x12
  | .alc => 0x13
  | .comp => 0x14
  | .vd => 0x15
  | .id => 0x16

/-- The raw meter behind a `15` sub-command. -/
def subMeter (sub : Byte) : Option Meter :=
  [.swr, .alc, .comp, .vd, .id].find? fun meter => meterSub meter == sub

theorem subMeter_meterSub (meter : Meter) : subMeter (meterSub meter) = some meter := by
  cases meter <;> rfl

/-- The sideband a data mode sits on and the DATA flag. -/
def baseMode : Mode → Mode × Bool
  | .data => (.usb, true)
  | .dataR => (.lsb, true)
  | other => (other, false)

/-- The mode that a sideband and the DATA flag stand for. -/
def modeWithData (base : Mode) (data : Bool) : Option Mode :=
  match base, data with
  | .usb, true => some .data
  | .lsb, true => some .dataR
  | _, true => none
  | mode, false => some mode

theorem modeWithData_baseMode (mode : Mode) :
    modeWithData (baseMode mode).1 (baseMode mode).2 = some mode := by
  cases mode <;> rfl

/-! ### Scope commands -/

def SUB_WAVEFORM : Byte := 0x00
def SUB_OUTPUT : Byte := 0x11
def SUB_MODE : Byte := 0x14
def SUB_SPAN : Byte := 0x15
def SUB_REFERENCE : Byte := 0x19
def SUB_EDGES : Byte := 0x1E

/-- The wire code of the mode. -/
def ScopeMode.code : ScopeMode → Byte
  | center => 0
  | fixed => 1
  | scrollCenter => 2
  | scrollFixed => 3

theorem ScopeMode.fromCode_code (mode : ScopeMode) : fromCode mode.code = some mode := by
  cases mode <;> rfl

def ScopeMode.toAxis : ScopeMode → ScopeAxis
  | center => .center
  | fixed => .fixed
  | scrollCenter => .scrollCenter
  | scrollFixed => .scrollFixed

def ScopeMode.ofAxis : ScopeAxis → ScopeMode
  | .center => center
  | .fixed => fixed
  | .scrollCenter => scrollCenter
  | .scrollFixed => scrollFixed

theorem ScopeMode.toAxis_ofAxis (axis : ScopeAxis) : (ofAxis axis).toAxis = axis := by
  cases axis <;> rfl

/-- A scope setting or query. The receiver is 0 (Main) or 1 (Sub). -/
inductive ScopeCommand where
  | setOutput (on : Bool)
  | getOutput
  | setMode (rx : ℕ) (mode : ScopeMode)
  | getMode (rx : ℕ)
  /-- Full span in hertz, sent as the half-span. -/
  | setSpan (rx : ℕ) (span : Hz)
  | getSpan (rx : ℕ)
  /-- Hundredths of a decibel. -/
  | setReference (rx : ℕ) (centiDb : ℤ)
  | getReference (rx : ℕ)
  | setEdges (range edge : ℕ) (low high : Hz)
  deriving DecidableEq

/-- The number of 0 to 99 in a byte. -/
def bcdByte (value : ℕ) : Option Byte := if value ≤ 99 then some (bcdPair value) else none

/-- A receiver that there can be. -/
def rxOk (rx : ℕ) : Option Byte := if rx ≤ 1 then some (UInt8.ofNat rx) else none

/-- The sub-command and data for a scope command; `none` when a value does not fit its field. -/
def commandData : ScopeCommand → Option (List Byte)
  | .setOutput on => some [SUB_OUTPUT, if on then 1 else 0]
  | .getOutput => some [SUB_OUTPUT]
  | .setMode rx mode => do return [SUB_MODE, ← rxOk rx, mode.code]
  | .getMode rx => do return [SUB_MODE, ← rxOk rx]
  | .setSpan rx span => do return [SUB_SPAN, ← rxOk rx] ++ (← encodeBcdFreq (span / 2))
  | .getSpan rx => do return [SUB_SPAN, ← rxOk rx]
  | .setReference rx centiDb => do
    let magnitude := centiDb.natAbs
    if 9999 < magnitude then none
    else
      let high ← bcdByte (magnitude / 100)
      let low ← bcdByte (magnitude % 100)
      return [SUB_REFERENCE, ← rxOk rx, high, low, if centiDb < 0 then 1 else 0]
  | .getReference rx => do return [SUB_REFERENCE, ← rxOk rx]
  | .setEdges range edge low high => do
    return [SUB_EDGES, ← bcdByte range, ← bcdByte edge]
      ++ (← encodeBcdFreq low) ++ (← encodeBcdFreq high)

/-- The reference level in hundredths of a decibel. -/
def decodeReference : List Byte → Option ℤ
  | [high, low, sign] => do
    let high ← fromBcdByte high
    let low ← fromBcdByte low
    return signed (high * 100 + low) sign
  | _ => none

end HamsOpen.Civ
