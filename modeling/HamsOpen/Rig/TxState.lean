import HamsOpen.Rig.Op

/-!
# The transmit-frequency derivation

Which VFO receives, which transmits, and what frequency each is on, from the values a rig has
reported (`txstate.rs`). The receive VFO is the reported one, else VFO A. The transmit VFO is the
receive VFO when split is off, else the reported one, else the other VFO.
-/

namespace HamsOpen.Rig

/-- The cached values the derivation reads. -/
structure TxState where
  rxVfo : Option Vfo
  txVfo : Option Vfo
  split : Option Bool
  freqA : Option Hz
  freqB : Option Hz
  deriving DecidableEq

namespace TxState

/-- Reads the inputs through `get`, which returns the cached observation of a field. -/
def fromCache (get : Field → Option Observation) : TxState :=
  let vfo (field : Field) : Option Vfo :=
    match get field with
    | some (.rxVfo v) | some (.txVfo v) => some v
    | _ => none
  let freq (v : Vfo) : Option Hz :=
    match get (.frequency v) with
    | some (.frequency _ hz) => some hz
    | _ => none
  { rxVfo := vfo .rxVfo
    txVfo := vfo .txVfo
    split :=
      match get .split with
      | some (.split on) => some on
      | _ => none
    freqA := freq .a
    freqB := freq .b }

/-- The VFO the rig receives on. -/
def receiveVfo (s : TxState) : Vfo := s.rxVfo.getD .a

/-- The VFO the rig transmits on. -/
def transmitVfo (s : TxState) : Vfo :=
  match s.split, s.txVfo with
  | some false, _ => s.receiveVfo
  | _, some v => v
  | some true, none => s.receiveVfo.other
  | none, none => s.receiveVfo

/-- The frequency of a VFO, when it is known. -/
def frequency (s : TxState) : Vfo → Option Hz
  | .a => s.freqA
  | .b => s.freqB

/-- The frequency of the transmit VFO. -/
def txFrequency (s : TxState) : Option Hz := s.frequency s.transmitVfo

/-- The frequency the rig transmits on now, or will when keyed. -/
def activeTxFrequency (s : TxState) : Option Hz := s.txFrequency

/-- The transmit frequency when it is known well enough to key: a rig that has split must have had
its split state read, because the transmit VFO is a guess until then. -/
def knownForTransmit (s : TxState) (splitCapable : Bool) : Option Hz :=
  if splitCapable && s.split.isNone then none else s.activeTxFrequency

end TxState

end HamsOpen.Rig
