import Mathlib

/-!
# The station definition

The data of `model.rs`: typed switch channels, devices with a power source and dependencies,
profiles, and the checks a definition has to pass. Times are in milliseconds.
-/

namespace HamsOpen.Station

abbrev ChannelId := String
abbrev DeviceId := String
abbrev Instant := Nat
abbrev Duration := Nat

/-- The classes of error, coarsely. -/
inductive StationErrorKind
  | config | refused | keyedUnknown | driver | notConfirmed | timeout | unknown | store
  deriving DecidableEq

structure StationError where
  kind : StationErrorKind
  detail : String
  deriving DecidableEq

/-- The value of a channel: a selector is `off` (every way open) or `port n`, `n` from 1. -/
inductive Value
  | off | on
  | port (n : Nat)
  deriving DecidableEq

/-- What an amplifier or tuner control line does. -/
inductive AmpFunction
  | operate | tune
  deriving DecidableEq

/-- The typed kind of a switch channel. -/
inductive ChannelKind
  | power (inrushStaggerMs minOffMs : Duration) (sharedSupply : Bool)
  | selector (ways : Nat) (settleMs : Duration)
  | momentary (pulseMs : Duration)
  | output
  | input (debounceMs : Duration)
  | amplifier (device : DeviceId) (function : AmpFunction) (pulseMs : Duration)
      (faultInput : Option ChannelId)
  | ptt (maxOnMs minOffMs : Duration)
  deriving DecidableEq

/-- One switch channel. A selector uses `ways` consecutive lines. -/
structure ChannelDef where
  id : ChannelId
  kind : ChannelKind
  driver : String
  line : Nat
  safe : Option Value
  deriving DecidableEq

def U32_MAX : Nat := 2 ^ 32 - 1

def config (m : String) : StationError := ⟨.config, m⟩
def refused (m : String) : StationError := ⟨.refused, m⟩

namespace ChannelKind

/-- Powering on through the channel is an RF-path change. -/
def sharedSupply : ChannelKind → Bool
  | .power _ _ shared => shared
  | _ => false

/-- The number of ways of a selector. -/
def ways : ChannelKind → Option Nat
  | .selector ways _ => some ways
  | _ => none

def isInput : ChannelKind → Bool
  | .input _ => true
  | _ => false

/-- A power channel can power a device, and a momentary line can be its button. -/
def powers (momentary : Bool) : ChannelKind → Bool
  | .power _ _ _ => !momentary
  | .momentary _ => momentary
  | _ => false

end ChannelKind

namespace ChannelDef

/-- The driver lines a channel uses. -/
def lines (c : ChannelDef) : List Nat :=
  match c.kind with
  | .selector ways _ => (List.range (min (c.line + ways) U32_MAX - c.line)).map (c.line + ·)
  | _ => [c.line]

/-- The lines of a channel, each with its driver. -/
def wires (c : ChannelDef) : List (String × Nat) := c.lines.map (c.driver, ·)

/-- Why a safe state does not fit the kind of a channel. -/
def badSafe (c : ChannelDef) : Option String :=
  match c.kind, c.safe with
  | .power _ _ _, none | .ptt _ _, none => some "a power or ptt channel needs a defined safe state"
  | .power _ _ _, some (.port _) => some "a power channel's safe state is on or off"
  | .ptt _ _, some (.port _) | .ptt _ _, some .on => some "a ptt channel's safe state is off"
  | .selector ways _, some (.port n) =>
    if n = 0 ∨ n > ways then some s!"safe port {n} is not one of {ways} ways" else none
  | .selector _ _, some .on => some "a selector's safe state is off or a port"
  | .momentary _, some (.port _) | .input _, some (.port _) => some "a safe port needs a selector"
  | _, _ => none

/-- Which time or size of a channel is not sane. -/
def badSize (c : ChannelDef) : Option String :=
  match c.kind with
  | .selector ways _ =>
    if ways < 1 ∨ 64 < ways then some "a selector has 1 to 64 ways" else none
  | .momentary pulse =>
    if pulse = 0 ∨ 10000 < pulse then some "a momentary pulse is 1 to 10000 ms" else none
  | .ptt maxOn _ => if maxOn = 0 then some "a ptt channel needs a maximum on-time" else none
  | .amplifier _ .tune pulse _ =>
    if pulse = 0 ∨ 10000 < pulse then some "a tune pulse is 1 to 10000 ms" else none
  | .amplifier _ .operate _ _ =>
    if c.safe ≠ some .off then
      some "an operate channel needs safe = \"off\" (standby is the safe state)"
    else none
  | _ => none

/-- The checks of a channel on its own. -/
def validate (c : ChannelDef) : Except StationError Unit :=
  let bad (m : String) : Except StationError Unit := .error (config s!"channel {c.id}: {m}")
  if c.id = "" ∨ c.driver = "" then bad "needs a name and a driver"
  else match c.badSafe with
    | some m => bad m
    | none => match c.badSize with
      | some m => bad m
      | none => .ok ()

end ChannelDef

/-- What kind of equipment a device is. -/
inductive DeviceKind
  | radio | amplifier | tuner | rotator | switch | computer
  deriving DecidableEq

/-- How a device is powered. -/
inductive PowerSource
  | alwaysOn
  | channel (channel : ChannelId)
  /-- A line pulsed to power on, and one to power off, if there is one. -/
  | momentary (on : ChannelId) (off : Option ChannelId)
  deriving DecidableEq

/-- The channels of a power source, each with whether it is a momentary line. -/
def PowerSource.sources : PowerSource → List (ChannelId × Bool)
  | .alwaysOn => []
  | .channel id => [(id, false)]
  | .momentary on off => (on, true) :: off.toList.map (·, true)

structure DeviceDef where
  id : DeviceId
  kind : DeviceKind
  power : PowerSource
  /-- Devices that must be on before this one, and are powered off after it. -/
  dependsOn : List DeviceId
  /-- Selectors that must have a way selected before this one may be powered on. -/
  needsAntenna : List ChannelId
  settleMs : Duration
  readyTimeoutMs : Duration
  offDelayMs : Duration
  deriving DecidableEq

inductive ProfileStep
  | power (device : DeviceId)
  | select (channel : ChannelId) (port : Nat)
  deriving DecidableEq

structure ProfileDef where
  name : String
  steps : List ProfileStep
  timeoutMs : Duration
  deriving DecidableEq

/-- An external RF power meter. -/
structure PowerMeterDef where
  id : String
  forRig : String
  driver : String
  port : String
  baud : Option Nat
  unit : Option String
  offsetDbTenths : Int
  staleMs : Duration
  deriving DecidableEq

/-- The names of the meter drivers; each reports in watts. -/
def METER_DRIVERS : List String := ["kpa500", "kpa1500"]
def WATTS : String := "w"

/-- The checks of a power meter on its own. -/
def PowerMeterDef.validate (m : PowerMeterDef) : Except StationError Unit :=
  let bad (e : String) : Except StationError Unit := .error (config s!"power meter {m.id}: {e}")
  let unit := m.unit.getD ""
  if m.id = "" ∨ m.forRig = "" ∨ m.port = "" then bad "needs a name, a rig and a port"
  else if m.driver ∉ METER_DRIVERS then
    bad s!"unknown driver {m.driver.quote} (kpa500, kpa1500)"
  else if (m.unit.any (· != WATTS)) = true then
    bad s!"{m.driver} reports {WATTS}, not {unit}"
  else if (m.baud.any fun b => decide (b < 300 ∨ 921600 < b)) = true then
    bad "baud is 300 to 921600"
  else if m.offsetDbTenths < -1000 ∨ 1000 < m.offsetDbTenths then
    bad "the offset is within 100 dB"
  else if m.staleMs < 100 ∨ 60000 < m.staleMs then bad "stale_ms is 100 to 60000"
  else .ok ()

/-- The whole station. -/
structure StationDef where
  powerMeters : List PowerMeterDef
  channels : List ChannelDef
  devices : List DeviceDef
  profiles : List ProfileDef
  deriving DecidableEq

namespace StationDef

/-- A channel by name. -/
def channel (s : StationDef) (id : ChannelId) : Option ChannelDef := s.channels.find? (·.id == id)

/-- A device by name. -/
def device (s : StationDef) (id : DeviceId) : Option DeviceDef := s.devices.find? (·.id == id)

/-! ### The dependency graph -/

/-- A cyclic graph has no order. -/
def cycle : StationError := config "the device dependencies form a cycle"

/-- Takes out the first device, by name, none of whose dependencies is left, and so on. -/
def orderFrom : Nat → List (DeviceId × List DeviceId) → Except StationError (List DeviceId)
  | _, [] => .ok []
  | 0, _ :: _ => .error cycle
  | n + 1, deps =>
    match deps.find? (·.2.isEmpty) with
    | none => .error cycle
    | some (next, _) => do
      let rest ← orderFrom n
        ((deps.filter (·.1 != next)).map fun d => (d.1, d.2.filter (· != next)))
      return next :: rest

/-- Devices by name, as a map keeps them: a later one replaces an earlier one of its name. -/
def sorted (s : StationDef) : List (DeviceId × List DeviceId) :=
  s.devices.foldl (fun deps d =>
    deps.filter (·.1 < d.id) ++ [(d.id, d.dependsOn)] ++ deps.filter (d.id < ·.1)) []

/-- Every device in an order where each follows the devices it depends on (ties by name). -/
def powerOnOrder (s : StationDef) : Except StationError (List DeviceId) :=
  orderFrom s.sorted.length s.sorted

/-- The devices of the order that depend on one of the set, directly or not, and the set. -/
def closure (s : StationDef) (order set : List DeviceId) : List DeviceId :=
  order.foldl (fun set d =>
    if (s.device d).any fun x => x.dependsOn.any set.contains then d :: set else set) set

/-- Every device that depends on `id`, directly or not, the most dependent first. -/
def dependents (s : StationDef) (id : DeviceId) : List DeviceId :=
  let order := (s.powerOnOrder.toOption).getD []
  let set := s.closure order [id]
  order.reverse.filter fun d => d != id && set.contains d

/-! ### The checks -/

/-- The first of a list that was seen already, or comes twice. -/
def twice {α : Type} [DecidableEq α] (seen : List α) : List α → Option α
  | [] => none
  | x :: xs => if x ∈ seen then some x else twice (x :: seen) xs

def checkChannels (s : StationDef) (seen : List ChannelId) :
    List ChannelDef → Except StationError Unit
  | [] => .ok ()
  | c :: cs => do
    c.validate
    if c.id ∈ seen then
      throw (config s!"channel {c.id} is defined twice")
    if c.kind.sharedSupply &&
        !s.devices.any (fun d => d.kind == .radio && d.power == .channel c.id) then
      throw (config s!"channel {c.id}: shared_supply applies to the power channel of a radio")
    checkChannels s (c.id :: seen) cs

def checkWires (s : StationDef) : Except StationError Unit :=
  match twice [] (s.channels.flatMap ChannelDef.wires) with
  | some (driver, l) => throw (config s!"driver {driver} line {l} is used by two channels")
  | none => .ok ()

def checkMeters (seen rigs : List String) : List PowerMeterDef → Except StationError Unit
  | [] => .ok ()
  | m :: ms => do
    m.validate
    if m.id ∈ seen then
      throw (config s!"power meter {m.id} is defined twice")
    if m.forRig ∈ rigs then
      throw (config s!"rig {m.forRig} has two power meters")
    checkMeters (m.id :: seen) (m.forRig :: rigs) ms

/-- The channels of a power source are of its type, and power no other device. -/
def checkSources (s : StationDef) (d : DeviceDef) (powered : List ChannelId) :
    List (ChannelId × Bool) → Except StationError (List ChannelId)
  | [] => .ok powered
  | (id, momentary) :: rest =>
    match s.channel id with
    | none => throw (config s!"device {d.id} uses unknown channel {id}")
    | some c => do
      if !c.kind.powers momentary then
        throw (config s!"device {d.id}: channel {id} has the wrong type for a power source")
      if id ∈ powered then
        throw (config s!"channel {id} powers two devices")
      checkSources s d (id :: powered) rest

def checkAntennas (s : StationDef) (d : DeviceDef) : List ChannelId → Except StationError Unit
  | [] => .ok ()
  | a :: rest =>
    if (s.channel a).any fun c => c.kind.ways.isSome then checkAntennas s d rest
    else throw (config s!"device {d.id} needs {a} which is not a selector")

def checkDevices (s : StationDef) (seen : List DeviceId) (powered : List ChannelId) :
    List DeviceDef → Except StationError Unit
  | [] => .ok ()
  | d :: ds => do
    if d.id ∈ seen then
      throw (config s!"device {d.id} is defined twice")
    let powered ← checkSources s d powered d.power.sources
    checkAntennas s d d.needsAntenna
    checkDevices s (d.id :: seen) powered ds

def checkDepends (s : StationDef) : Except StationError Unit :=
  match (s.devices.flatMap fun d => d.dependsOn.map (d.id, ·)).find? fun p =>
      (s.device p.2).isNone with
  | some (d, dep) => throw (config s!"device {d} depends on unknown {dep}")
  | none => .ok ()

def checkAmplifiers (s : StationDef) (operate : List DeviceId) :
    List ChannelDef → Except StationError Unit
  | [] => .ok ()
  | c :: cs =>
    match c.kind with
    | .amplifier device function _ fault => do
      if !(s.device device).any fun d => d.kind == .amplifier || d.kind == .tuner then
        throw (config s!"channel {c.id}: {device} is not an amplifier or tuner device")
      if function = .operate ∧ device ∈ operate then
        throw (config s!"device {device} has two operate channels")
      if let some f := fault then
        if !(s.channel f).any fun x => x.kind.isInput then
          throw (config s!"channel {c.id}: fault input {f} is not an input channel")
      checkAmplifiers s (if function = .operate then device :: operate else operate) cs
    | _ => checkAmplifiers s operate cs

def checkSteps (s : StationDef) (p : ProfileDef) : List ProfileStep → Except StationError Unit
  | [] => .ok ()
  | .power device :: rest =>
    if (s.device device).isNone then
      throw (config s!"profile {p.name} powers unknown {device}")
    else checkSteps s p rest
  | .select channel port :: rest =>
    if ((s.channel channel).bind (·.kind.ways)).any fun ways => 1 ≤ port && port ≤ ways then
      checkSteps s p rest
    else throw (config s!"profile {p.name}: bad selection {channel} port {port}")

def checkProfiles (s : StationDef) (seen : List String) : List ProfileDef → Except StationError Unit
  | [] => .ok ()
  | p :: ps => do
    if p.name ∈ seen then
      throw (config s!"profile {p.name} is defined twice")
    checkSteps s p p.steps
    checkProfiles s (p.name :: seen) ps

/-- The checks of the whole station: names, references, kinds, lines, one device per power channel,
and that the dependency graph has no cycle. -/
def validate (s : StationDef) : Except StationError Unit := do
  s.checkChannels [] s.channels
  s.checkWires
  checkMeters [] [] s.powerMeters
  s.checkDevices [] [] s.devices
  s.checkDepends
  s.checkAmplifiers [] s.channels
  let _ ← s.powerOnOrder
  s.checkProfiles [] s.profiles

end StationDef

end HamsOpen.Station
