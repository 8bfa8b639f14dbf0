import Mathlib.Logic.Basic

/-!
# Units and capabilities of a rig

The typed physical values a command carries (`units.rs`), the scope choices (`scope.rs`) and the
capability model (`capability.rs`). A frequency is a whole number of hertz; the fixed-width
integers of the source are natural numbers or integers, because nothing here computes with them.
-/

namespace HamsOpen.Rig

/-- A frequency in hertz. -/
abbrev Hz := Nat

/-- An operating mode. -/
inductive Mode
  | lsb | usb | am | cw | cwR | rtty | rttyR | fm | wfm | data | dataR | dStar | sam | samL | samU
  deriving DecidableEq

/-- A VFO. -/
inductive Vfo
  | a | b
  deriving DecidableEq

/-- The other VFO. -/
def Vfo.other : Vfo → Vfo
  | .a => .b
  | .b => .a

/-- A level the rig exposes as a number in its own units. -/
inductive Level
  | afGain | rfGain | micGain | monitorLevel | keyerSpeed | rfPower | attenuator | preamp
  | dither | preselector
  deriving DecidableEq

/-- A transmitter or power-supply meter read in the rig's own raw scale. -/
inductive Meter
  | swr | alc | comp | vd | id
  deriving DecidableEq

/-- How a receiver's scope axis is anchored. -/
inductive ScopeAxis
  | center | fixed | scrollCenter | scrollFixed
  deriving DecidableEq

/-- A scope setting with the rig's own choice codes. -/
inductive ScopeSetting
  | display | layout | range | pause | marker | attenuator | maxHold | averaging | waterfallSpeed
  | expand | audioAttenuator | audioSpan | oscilloscopeLevel | oscilloscopeSweep | shiftPosition
  | audioPause | overflow
  deriving DecidableEq

/-- A one-shot scope command. -/
inductive ScopeAction
  | clearWaterfall | markerShift
  deriving DecidableEq

/-- One thing a rig can do. -/
inductive Capability
  | readFrequency | setFrequency | readMode | setMode | secondVfo | readPtt | setPtt | readSignal
  | readPower | sendCw | transceive | split | ritXit | filter | levels | readSwr | readMeters
  | identify | scope
  deriving DecidableEq

/-- The set of capabilities of one rig. -/
abbrev CapabilitySet := List Capability

/-- True when the capability is present. -/
def CapabilitySet.has (set : CapabilitySet) (capability : Capability) : Bool :=
  set.contains capability

end HamsOpen.Rig
