import HamsOpen.Station.Board

/-!
# The station

The commands of `station.rs`: the interlock and the dependency refusals before the operations of the
switchboard, power sequences, profiles and the emergency all-off.
-/

namespace HamsOpen.Station

/-- What a command does to the RF path, which decides how the keyed state treats it. -/
inductive Action
  | powerOff | powerOnRadio | rfPath
  deriving DecidableEq

/-- The result of an all-off. -/
structure AllOffReport where
  off : List ChannelId
  failed : List (ChannelId × String)
  deriving DecidableEq

def ALL_OFF_STEP_TIMEOUT : Duration := 3000
def READY_POLL : Duration := 100

/-- A device whose power channel is the given one. -/
def DeviceDef.poweredBy (d : DeviceDef) (id : ChannelId) : Bool := d.power == .channel id

def ChannelKind.isOperate : ChannelKind → Bool
  | .amplifier _ .operate _ _ => true
  | _ => false

def ChannelKind.isPower : ChannelKind → Bool
  | .power _ _ _ => true
  | _ => false

def Value.isPort : Value → Bool
  | .port _ => true
  | _ => false

/-- A step as its debug format prints it. -/
def ProfileStep.debug : ProfileStep → String
  | .power device => s!"Power \x7b device: DeviceId({device.quote}) \x7d"
  | .select channel port =>
    s!"Select \x7b channel: ChannelId({channel.quote}), port: {port} \x7d"

namespace Site

variable (site : Site)

/-! ### The interlock -/

/-- Asks the sources in turn, from the given one on; the first that is not unkeyed refuses. -/
def askKeyed (what : String) : Nat → List String → Op Unit
  | _, [] => return ()
  | n, name :: rest => do
    let refuse (kind : StationErrorKind) (why : String) : Op Unit := do
      emit (.refused what why)
      throw ⟨kind, s!"{what}: {why}"⟩
    match ← perform (.key n) with
    | .unkeyed => askKeyed what (n + 1) rest
    | .keyed => refuse .refused s!"{name} is keyed"
    | .unknown => refuse .keyedUnknown s!"cannot tell whether {name} is keyed"

/-- The interlock: an RF-path command is refused while a source is keyed or unknown. -/
def guardAction (action : Action) (what : String) : Op Unit := do
  if action ≠ .rfPath then
    return ()
  askKeyed what 0 site.keyed

/-- The channel kind that powers a device (an output kind for none). -/
def powerKind (d : DeviceDef) : ChannelKind :=
  match d.power with
  | .channel id => ((site.station.channel id).map (·.kind)).getD .output
  | _ => .output

/-- The class of powering a device on. -/
def classifyOn (d : DeviceDef) : Action :=
  if d.kind ≠ .radio then .rfPath
  else if (site.powerKind d).sharedSupply then .rfPath
  else .powerOnRadio

/-- The device that a channel powers. -/
def poweredDevice (id : ChannelId) : Option DeviceDef :=
  site.station.devices.find? (·.poweredBy id)

/-- The class of setting a channel by hand. -/
def classifyChannel (id : ChannelId) (value : Value) : Action :=
  match value with
  | .off =>
    if (site.station.channel id).any fun c => c.kind.isPower || c.kind.isOperate then .powerOff
    else .rfPath
  | .on => ((site.poweredDevice id).map site.classifyOn).getD .rfPath
  | .port _ => .rfPath

/-- What a device makes of the class of pulsing a momentary line. -/
def classifyButton (id : ChannelId) (d : DeviceDef) : Option Action :=
  match d.power with
  | .momentary on off =>
    if off = some id then some .powerOff
    else if on = id then some (site.classifyOn d)
    else none
  | _ => none

/-- The class of pulsing a momentary line. -/
def classifyPulse (id : ChannelId) : Action :=
  (site.station.devices.findSome? (site.classifyButton id)).getD .rfPath

/-! ### Refusals -/

def deviceOf (id : DeviceId) : Except StationError DeviceDef :=
  match site.station.device id with
  | some d => .ok d
  | none => .error ⟨.unknown, s!"no device {id}"⟩

/-- The known power state of a device. -/
def devicePower (id : DeviceId) : Op (Option Value) := do
  let d ← Op.of (site.deviceOf id)
  match d.power with
  | .alwaysOn => return some .on
  | .channel channel => site.known channel
  | .momentary _ _ => return none

/-- Refuses unless the amplifier or tuner is known powered on. -/
def checkAmpPowered (device : DeviceId) : Op Unit := do
  let p ← site.devicePower device
  if p ≠ some .on then
    throw (refused s!"{device} is not known to be powered on")

/-- The refusals for putting an amplifier in operate. -/
def checkOperate (c : ChannelDef) : Op Unit :=
  match c.kind with
  | .amplifier device .operate _ fault => do
    site.checkAmpPowered device
    if let some fault := fault then
      let s ← site.status fault
      match s.1.confirmed with
      | some .off => return ()
      | some _ =>
        throw (refused s!"{device} will not go to operate: fault line {fault} is tripped")
      | none =>
        throw (refused s!"{device} will not go to operate: fault line {fault} is unknown")
  | _ => return ()

def checkDependencies (d : DeviceDef) : List DeviceId → Op Unit
  | [] => return ()
  | dep :: rest => do
    let p ← site.devicePower dep
    if p ≠ some .on then
      throw (refused s!"{d.id} needs {dep} on first")
    checkDependencies d rest

def checkAntennas (d : DeviceDef) : List ChannelId → Op Unit
  | [] => return ()
  | a :: rest => do
    let v ← site.known a
    if !v.any Value.isPort then
      throw (refused s!"{d.id} needs an antenna selected on {a}")
    checkAntennas d rest

/-- The dependency refusals: dependencies known on, required antennas selected. -/
def checkPowerOn (d : DeviceDef) : Op Unit := do
  site.checkDependencies d d.dependsOn
  site.checkAntennas d d.needsAntenna

/-- Runs what powers a device on, while it notes that it does. -/
def relying {α : Type} (d : DeviceId) (checks : Bool) (body : Op α) : Op α := ExceptT.mk do
  let _ ← perform (.relies (some d) checks)
  let r ← body.run
  let _ ← perform (.relies none checks)
  return r

/-! ### Commands -/

/-- Sets a channel, after the refusals for putting an amplifier in operate. -/
def setOperated (id : ChannelId) (value : Value) : Op Unit := do
  if value = .on then
    if let some c := site.station.channel id then
      site.checkOperate c
  let _ ← site.set id value

/-- Sets a power, output or selector channel by hand, behind the interlock. -/
def setChannel (id : ChannelId) (value : Value) : Op Unit := do
  site.guardAction (site.classifyChannel id value) s!"set {id}"
  match if value = .on then site.poweredDevice id else none with
  | some d => relying d.id true do
    site.checkPowerOn d
    site.setOperated id value
  | none => site.setOperated id value

/-- Puts a device's amplifier channel in standby, best effort. -/
def standby (device : DeviceId) : Op Unit := do
  let operate := site.station.channels.find? fun c =>
    match c.kind with
    | .amplifier d .operate _ _ => d == device
    | _ => false
  if let some c := operate then
    let s ← attempt (site.status c.id)
    if (s.toOption.map (·.1.confirmed)) ≠ some (some .off) then
      let _ ← attempt (site.set c.id .off)

/-- Selects a way on a selector, behind the interlock. -/
def select (id : ChannelId) (port : Nat) : Op Unit := do
  site.guardAction .rfPath s!"select {id} {port}"
  let _ ← site.set id (.port port)

/-- The device that a momentary line powers on. -/
def buttonDevice (id : ChannelId) : Option DeviceDef :=
  site.station.devices.find? fun d =>
    match d.power with
    | .momentary on _ => on == id
    | _ => false

/-- The refusals for starting a tune cycle. -/
def checkTune (id : ChannelId) : Op Unit :=
  match (site.station.channel id).map ChannelDef.kind with
  | some (.amplifier device .tune _ _) => site.checkAmpPowered device
  | _ => return ()

/-- Pulses a line, which may power a device on. -/
def press (id : ChannelId) : Op Unit :=
  match site.buttonDevice id with
  | some d => relying d.id false (site.pulseLine id)
  | none => site.pulseLine id

/-- Pulses a momentary channel, behind the interlock. -/
def pulse (id : ChannelId) : Op Unit := do
  site.guardAction (site.classifyPulse id) s!"pulse {id}"
  site.checkTune id
  site.press id

/-- Asks a device whether it answers, until it does or its time is up. -/
def waitReady (d : DeviceDef) : Op Unit :=
  if !site.ready || d.readyTimeoutMs = 0 then return ()
  else do
    let now ← perform .now
    let deadline := now + d.readyTimeoutMs
    ExceptT.mk <| Prog.iterate (fun _ : Unit => do
      if ← perform (.answers d.id) then return .inr (.ok ())
      else if deadline ≤ (← perform .now) then
        return .inr (.error ⟨.timeout, s!"{d.id} did not answer within {d.readyTimeoutMs} ms"⟩)
      else
        let _ ← (sleep READY_POLL).run
        return .inl ()) ()

/-- Switches a device on. -/
def switchOn (d : DeviceDef) : Op Unit :=
  match d.power with
  | .alwaysOn => return ()
  | .channel channel => do
    let _ ← site.set channel .on
  | .momentary on _ => site.pulseLine on

/-- Waits until a device that was switched on has started. -/
def settle (d : DeviceDef) : Op Unit := do
  match site.powerKind d with
  | .power stagger _ _ => sleep stagger
  | _ => pure ()
  sleep d.settleMs
  site.waitReady d

/-- Powers a device on, behind the interlock and the dependency refusals. -/
def powerOn (id : DeviceId) : Op Unit := do
  let d ← Op.of (site.deviceOf id)
  site.guardAction (site.classifyOn d) s!"power on {id}"
  relying d.id true do
    site.checkPowerOn d
    site.switchOn d
  if d.power = .alwaysOn then
    return ()
  site.settle d

/-- Powers off a device that is not known to be off, after its own delay. -/
def powerDown (target : DeviceId) (d : DeviceDef) : Op Bool := do
  site.guardAction .powerOff s!"power off {d.id}"
  site.standby d.id
  sleep d.offDelayMs
  match d.power with
  | .alwaysOn =>
    if d.id = target then
      throw (refused s!"{d.id} has no power switch")
    return false
  | .channel channel => do
    let _ ← site.set channel .off
    return true
  | .momentary _ (some off) => do
    site.pulseLine off
    return true
  | .momentary _ none => throw (refused s!"{d.id} has no power-off line")

/-- Powers off devices in turn; those known to be off are left. -/
def powerDownAll (target : DeviceId) : List DeviceId → Op (List DeviceId)
  | [] => return []
  | dev :: rest => do
    let d ← Op.of (site.deviceOf dev)
    let _ ← perform (.scans (some dev))
    let p ← site.devicePower dev
    let off ← if p = some .off then pure false else site.powerDown target d
    let done ← powerDownAll target rest
    return if off then dev :: done else done

/-- Orderly power-off: the devices that depend on this one first, the most dependent first. -/
def powerOff (id : DeviceId) : Op (List DeviceId) := do
  let target ← Op.of (site.deviceOf id)
  site.guardAction .powerOff s!"power off {id}"
  let done ← site.powerDownAll target.id (site.station.dependents id ++ [id])
  let _ ← perform (.scans none)
  return done

def profile (name : String) : Except StationError ProfileDef :=
  match site.station.profiles.find? (·.name == name) with
  | some p => .ok p
  | none => .error ⟨.unknown, s!"no profile {name}"⟩

/-- A device that is already on is skipped. -/
def skips : ProfileStep → Op Bool
  | .power device => do
    let p ← site.devicePower device
    return p == some .on
  | .select _ _ => return false

def runStep : ProfileStep → Op Unit
  | .power device => site.powerOn device
  | .select channel port => site.select channel port

/-- The steps of a profile, from the given one on. The first failure stops the sequence. -/
def runSteps (p : ProfileDef) : Nat → List ProfileStep → Op Unit
  | _, [] => return ()
  | i, step :: rest => do
    emit (.step p.name i step.debug)
    let skip ← site.skips step
    match ← attempt (if skip then pure () else site.runStep step) with
    | .ok _ => runSteps p (i + 1) rest
    | .error e => do
      emit (.step p.name i s!"failed: {e.detail}")
      throw e

/-- Runs a profile's steps in order within its timeout. -/
def runProfile (name : String) : Op Unit := do
  let p ← Op.of (site.profile name)
  let now ← perform .now
  match ← (Prog.within (now + p.timeoutMs) (site.runSteps p 0 p.steps).run :
      Task (Option (Except StationError Unit))) with
  | some r => Op.of r
  | none => throw ⟨.timeout, s!"profile {name} ran past {p.timeoutMs} ms"⟩

def stopDevices (p : ProfileDef) : Nat → List DeviceId → Op Unit
  | _, [] => return ()
  | i, device :: rest => do
    emit (.step p.name i s!"power off {device}")
    let v ← site.devicePower device
    if v ≠ some .off then
      let _ ← site.powerOff device
    stopDevices p (i + 1) rest

/-- Powers off the devices a profile powers on, in reverse order. -/
def stopProfile (name : String) : Op Unit := do
  let p ← Op.of (site.profile name)
  let devices := p.steps.filterMap fun
    | .power device => some device
    | .select _ _ => none
  site.stopDevices p 0 devices.reverse

/-- The channels of the emergency all-off: amplifiers to standby, then power channels, devices that
others depend on after those that depend on them, then every other power channel. -/
def allOffOrder : List ChannelId :=
  let operate := (site.station.channels.filter (·.kind.isOperate)).map (·.id)
  let devices := (site.station.powerOnOrder.toOption.getD []).reverse.filterMap fun dev =>
    match (site.station.device dev).map DeviceDef.power with
    | some (.channel channel) => some channel
    | _ => none
  let order := operate ++ devices
  (site.station.channels.filter (·.kind.isPower)).foldl (fun order c =>
    if c.id ∈ order then order else order ++ [c.id]) order

/-- Drives channels off in turn. A failing one does not stop the rest. -/
def forceAll (report : AllOffReport) : List ChannelId → Task AllOffReport
  | [] => return report
  | ch :: rest => do
    let now ← perform .now
    match ← Prog.within (now + ALL_OFF_STEP_TIMEOUT) (site.forceOff ch).run with
    | some (.ok _) => forceAll { report with off := report.off ++ [ch] } rest
    | some (.error e) => forceAll { report with failed := report.failed ++ [(ch, e.detail)] } rest
    | none => forceAll { report with failed := report.failed ++ [(ch, "timed out")] } rest

/-- The emergency all-off. -/
def allOff : Task AllOffReport := do
  let report ← site.forceAll ⟨[], []⟩ site.allOffOrder
  let _ ← perform (.emit (.allOff (report.failed.map (·.1))))
  return report

end Site

/-! ### The commands -/

inductive Call
  | setChannel (id : ChannelId) (value : Value)
  | select (id : ChannelId) (port : Nat)
  | pulse (id : ChannelId)
  | powerOn (device : DeviceId)
  | powerOff (device : DeviceId)
  | standby (device : DeviceId)
  | runProfile (name : String)
  | stopProfile (name : String)
  | allOff
  | readBack (id : ChannelId)
  deriving DecidableEq

/-- What a command returns. -/
inductive Outcome
  | done
  | off (devices : List DeviceId)
  | report (r : AllOffReport)
  | value (v : Option Value)
  deriving DecidableEq

abbrev Result := Except StationError Outcome

namespace Site

variable (site : Site)

def run : Call → Task Result
  | .setChannel id value => ((fun _ => Outcome.done) <$> site.setChannel id value).run
  | .select id port => ((fun _ => Outcome.done) <$> site.select id port).run
  | .pulse id => ((fun _ => Outcome.done) <$> site.pulse id).run
  | .powerOn device => ((fun _ => Outcome.done) <$> site.powerOn device).run
  | .powerOff device => (Outcome.off <$> site.powerOff device).run
  | .standby device => ((fun _ => Outcome.done) <$> site.standby device).run
  | .runProfile name => ((fun _ => Outcome.done) <$> site.runProfile name).run
  | .stopProfile name => ((fun _ => Outcome.done) <$> site.stopProfile name).run
  | .allOff => (fun r => .ok (.report r)) <$> site.allOff
  | .readBack id => (Outcome.value <$> site.readBack id).run

end Site

end HamsOpen.Station
