import HamsOpen.Lib.Machine
import HamsOpen.StationIo.Engine

/-!
# The station I/O image

The application of `station_io.c` around the engine: what it does at the start, at a bus reset, a
suspend and a tick of the clock, and with a vendor request. Requests that only report are left out.
-/

namespace HamsOpen.StationIo

/-- The pins of port A that the host may drive by itself. -/
def DRIVABLE_A : U8 := 0x03

namespace Engine

/-- The chip and the engine's memory at the start: the latch of port A may be anything. -/
def reset (latch : U8) : Engine where
  ch _ := ⟨⟨.none, .low, false, none, none, 0, 0, 0, 0⟩, none, .idle, false, 0, 0, 0⟩
  mapState := .none
  mapError := .none
  refusal := .none
  alive := false
  haveSeq := false
  oos := false
  hbTimeout := 0
  lastSeq := 0
  hbT := 0
  shadow := 0
  IOA := latch
  OEA := 0
  OEB := 0
  OED := 0
  ms := 0
  logs := ⟨0, 0, ⟨0, fun _ => ⟨0, 0, 0⟩⟩, ⟨0, fun _ => ⟨0, 0⟩⟩⟩
  releases := []
  edges := []
  settled := []
  lastGood := 0
  raised _ := 0
  left _ := none
  earlier _ := true

def appInit (s : Engine) : Engine := { s with OEA := 0, OEB := 0, OED := 0 }.ioInit

def appUsbReset (s : Engine) : Engine := s.ioReleaseAll .usbReset

def appUsbSuspend (s : Engine) : Engine := s.ioReleaseAll .usbSuspend

/-- The clock goes on by a millisecond, and the engine is told. -/
def appTick (s : Engine) : Engine := { s with ms := s.ms + 1 }.ioTick

/-- The host drives pins by itself: first the latch, then the output enable. -/
def gpioSet (value index : U16) (s : Engine) : Bool × Engine :=
  let oe : U8 := value.truncate 8
  let lvl : U8 := index.truncate 8
  if oe &&& ~~~DRIVABLE_A ≠ 0 ∨ lvl &&& ~~~DRIVABLE_A ≠ 0 ∨ value >>> 8 ≠ 0 ∨ index >>> 8 ≠ 0 then
    (false, s)
  else (true, { s with IOA := lvl, OEA := oe })

/-- A vendor request, and whether it is accepted. -/
def appVendorRequest (bm req : U8) (value index : U16) (s : Engine) : Bool × Engine :=
  if bm = 0x40 ∧ 0x10 ≤ req ∧ req ≤ 0x15 then
    if req = 0x10 then s.ioMapBegin
    else if req = 0x11 then
      s.ioMapPin (value.truncate 8) ((value >>> 8).truncate 8) (index.truncate 8)
    else if req = 0x12 then s.ioMapParam (value.truncate 8) ((value >>> 8).truncate 8) index
    else if req = 0x13 then s.ioMapHeartbeat index
    else if req = 0x14 then s.ioMapCommit
    else s.ioKey (value.truncate 8) (index.truncate 8)
  else if bm = 0xC0 ∧ req = 0x06 then (true, s.ioHeartbeat value (index.truncate 8))
  else if req = 0x02 ∧ bm = 0x40 ∧ s.mapState ≠ .valid then s.gpioSet value index
  else (false, s)

end Engine

/-- What happens to the board. -/
inductive Input
  | request (bm req : U8) (value index : U16)
  | usbReset
  | usbSuspend
  | tick
  deriving DecidableEq

/-- A request that starts a new map. -/
def Input.begins : Input → Prop
  | request bm req _ _ => bm = 0x40 ∧ req = 0x10
  | _ => False

/-- Everything is released: the bus is reset or suspended, or a new map is started. -/
def Input.releases : Input → Prop
  | request bm req _ _ => bm = 0x40 ∧ req = 0x10
  | usbReset | usbSuspend => True
  | tick => False

/-- A request to make a map valid. -/
def Input.commits : Input → Prop
  | request bm req _ _ => bm = 0x40 ∧ req = 0x14
  | _ => False

/-- A request to key a channel up. -/
def Input.ups (c : Ch) : Input → Prop
  | request bm req value index =>
    bm = 0x40 ∧ req = 0x15 ∧ boardPinChannel (value.truncate 8) = some c ∧
      (index.truncate 8 : U8) = 0
  | _ => False

/-- A request to key a channel down. -/
def Input.downs (c : Ch) : Input → Prop
  | request bm req value index =>
    bm = 0x40 ∧ req = 0x15 ∧ boardPinChannel (value.truncate 8) = some c ∧
      (index.truncate 8 : U8) ≠ 0
  | _ => False

instance : DecidablePred Input.begins := fun i => by
  cases i <;> unfold Input.begins <;> infer_instance

instance : DecidablePred Input.commits := fun i => by
  cases i <;> unfold Input.commits <;> infer_instance

instance (c : Ch) : DecidablePred (Input.downs c) := fun i => by
  cases i <;> unfold Input.downs <;> infer_instance

/-- The heartbeat lapses with the next tick. -/
def Engine.Lapses (s : Engine) : Prop :=
  s.alive = true ∧ s.hbTimeout.toNat ≤ Wrap.elapsed (BitVec.ofNat 16 (s.ms + 1)) s.hbT

/-- The reasons for which an input may release channels, beside a key-up and a new map. -/
def Input.faults (s : Engine) (reason : Release) : Input → Prop
  | request bm req value index =>
    bm = 0xC0 ∧ req = 0x06 ∧ s.hbReason value (index.truncate 8) = some reason
  | usbReset => reason = .usbReset
  | usbSuspend => reason = .usbSuspend
  | tick => reason = .timeout ∨ reason = .hbLapse ∧ s.Lapses

/-- The board after an input. -/
def next (s : Engine) : Input → Engine
  | .request bm req value index => (s.appVendorRequest bm req value index).2
  | .usbReset => s.appUsbReset
  | .usbSuspend => s.appUsbSuspend
  | .tick => s.appTick

/-- The runs of the board. -/
def machine : Machine Engine Input where
  init s := ∃ latch, s = (Engine.reset latch).appInit
  step s i := some (next s i)

/-! ### What port A drives -/

/-- The line of a channel is at its active level. -/
def Engine.atActive (s : Engine) (c : Ch) : Prop := s.port.level c = (s.ch c).active true

instance (s : Engine) (c : Ch) : Decidable (s.atActive c) :=
  inferInstanceAs (Decidable (s.port.level c = _))

end HamsOpen.StationIo
