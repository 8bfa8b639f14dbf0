import HamsOpen.Lib.Executor
import HamsOpen.Station.Model

/-!
# The switchboard

The operations of `channel.rs` on the channels of a station, as programs over their drivers. A
driver is a bank of lines: a call of it begins, and some time later it ends with an answer. What it
does to a line it does in between, or later, when the call was dropped.
-/

namespace HamsOpen.Station

/-- A driver line. -/
abbrev Wire := String × Nat

/-- How far the station can rely on a driver. -/
inductive Assurance
  | mediated | recorded | hostSupervised | hardwareDeadMan
  deriving DecidableEq

/-- What is fixed of a bank of lines. -/
structure Bank where
  assurance : Assurance
  canReadBack : Bool
  /-- The level that means safe for a line in the emergency all-off. -/
  safeLine : Nat → Bool

/-- The state of a channel: what was last commanded and last confirmed (`none`: unknown), and when
it was last known to go off. -/
structure ChanState where
  commanded : Option Value
  confirmed : Option Value
  lastOff : Option Instant
  deriving DecidableEq

/-- What a set operation came to. -/
structure SetOutcome where
  commanded : Value
  /-- The confirmed value, when the driver can read back. -/
  confirmed : Option Value
  deriving DecidableEq

/-- Something that happened in the station. -/
inductive StationEvent
  | commanded (channel : ChannelId) (value : Value)
  | confirmed (channel : ChannelId) (value : Value)
  | mismatch (channel : ChannelId) (commanded : Value) (confirmed : Option Value)
  | driverFault (channel : ChannelId) (detail : String)
  | pulsed (channel : ChannelId)
  | refused (what why : String)
  | step (name : String) (index : Nat) (detail : String)
  | allOff (failed : List ChannelId)
  deriving DecidableEq

/-- Whether a transmitter is keyed. -/
inductive KeyState
  | unkeyed | keyed | unknown
  deriving DecidableEq

/-- A value as its debug format prints it. -/
def Value.debug : Value → String
  | .off => "Off"
  | .on => "On"
  | .port n => s!"Port({n})"

/-- The way a selector is to close. -/
def Value.target : Value → Option Nat
  | .port n => some n
  | _ => none

def debugKnown : Option Value → String
  | none => "None"
  | some v => s!"Some({v.debug})"

/-- The level of a binary channel as a value. -/
def levelValue (level : Bool) : Value := if level then .on else .off

/-- The value of a selector whose closed ways are these. -/
def waysValue : List Nat → Option Value
  | [] => some .off
  | [n] => some (.port n)
  | _ => none

/-- The records that drivers keep of their lines: none, or unknown, or a level. -/
abbrev Records := Wire → Option (Option Bool)

/-- The ways that a record knows closed, or nothing when it does not know one of them. -/
def recordedWays (records : Records) (driver : String) : Nat → List Nat → Option (List Nat)
  | _, [] => some []
  | n, line :: rest => do
    let on ← (records (driver, line)).join
    let ways ← recordedWays records driver (n + 1) rest
    return if on then n :: ways else ways

/-- A channel's value from the driver's record of its lines. -/
def recordValue (records : Records) (c : ChannelDef) : Option Value :=
  match c.kind with
  | .selector _ _ => (recordedWays records c.driver 1 c.lines).bind waysValue
  | _ => (records (c.driver, c.line)).join.map levelValue

/-- An edge from a known value that is not off to off. -/
def edge (old new : Option Value) : Bool := new == some .off && old.any (· != .off)

/-- Records commanded and confirmed state. The time of going off is taken on an edge. -/
def ChanState.store (now : Instant) (commanded confirmed : Option (Option Value)) (s : ChanState) :
    ChanState :=
  let s := match commanded with
    | none => s
    | some v => { s with
      commanded := v
      lastOff := if edge s.commanded v then some now else s.lastOff }
  match confirmed with
  | none => s
  | some v => { s with
    confirmed := v
    lastOff := if edge s.confirmed v then some now else s.lastOff }

/-! ### Programs -/

/-- What an operation does between two points at which others can run. The last three leave a note
of what it is about; no branch looks at that. -/
inductive Act
  | lock (id : ChannelId)
  | unlock (id : ChannelId)
  | now
  /-- Sleeps to a time. -/
  | sleep (wake : Instant)
  /-- When a channel was last known to go off. -/
  | lastOff (id : ChannelId)
  /-- What the board and, where it can only record, the driver's record say of a channel. -/
  | status (id : ChannelId)
  | store (id : ChannelId) (commanded confirmed : Option (Option Value))
  | emit (event : StationEvent)
  /-- Asks a source whether its transmitter is keyed. -/
  | key (source : Nat)
  /-- Asks whether a device answers. -/
  | answers (device : DeviceId)
  /-- Begins to drive a line, then waits for the driver. -/
  | write (w : Wire) (on : Bool)
  | written (w : Wire) (on : Bool)
  | read (w : Wire)
  | level (w : Wire)
  /-- Begins to drive a line to its safe level, then waits for the driver. -/
  | force (w : Wire)
  | forced (w : Wire)
  /-- It is about to power a device on, with or without a check, or no more. -/
  | relies (device : Option DeviceId) (checks : Bool)
  /-- It has looked whether a device is on, to power it off, or has done with all of them. -/
  | scans (device : Option DeviceId)
  /-- It reads a channel, to record what it reads, or no more. -/
  | watches (id : Option ChannelId)
  deriving DecidableEq

/-- The answer to an action. -/
abbrev Act.Answer : Act → Type
  | lock _ | unlock _ | sleep _ | store _ _ _ | emit _ | write _ _ | read _ | force _ | relies _ _
  | scans _ | watches _ => Unit
  | now => Instant
  | lastOff _ => Option Instant
  | status _ => ChanState × Option Value
  | key _ => KeyState
  | answers _ => Bool
  | written _ _ | forced _ => Except StationError Unit
  | level _ => Except StationError Bool

/-- A program of the station. -/
abbrev Task := Prog Act Act.Answer

/-- A program of the station that may fail. -/
abbrev Op := ExceptT StationError Task

abbrev perform (a : Act) : Task a.Answer := Prog.perform a

/-- Runs a program and keeps its error as a value. -/
def attempt {α : Type} (body : Op α) : Op (Except StationError α) := ExceptT.mk do
  let r ← body.run
  return .ok r

/-- A value computed at once. -/
def Op.of {α : Type} (r : Except StationError α) : Op α := ExceptT.mk (pure r)

/-- Runs with the operation lock of a channel held. -/
def locked {α : Type} (id : ChannelId) (body : Op α) : Op α := ExceptT.mk do
  let _ ← perform (.lock id)
  let r ← body.run
  let _ ← perform (.unlock id)
  return r

/-- Sleeps for a time. -/
def sleep (d : Duration) : Op Unit := do
  let now ← perform .now
  let _ ← perform (.sleep (now + d))

/-- A station definition, its drivers by name, and its interlock sources. -/
structure Site where
  station : StationDef
  bank : String → Bank
  /-- The names of the sources of keyed state. -/
  keyed : List String
  /-- Whether there is a source that knows which devices answer. -/
  ready : Bool

namespace Site

variable (site : Site)

/-- A channel of the board, by name. -/
def chan (id : ChannelId) : Except StationError ChannelDef :=
  match site.station.channel id with
  | some c => .ok c
  | none => .error ⟨.unknown, s!"no channel {id}"⟩

def canReadBack (c : ChannelDef) : Bool := (site.bank c.driver).canReadBack

/-- What is known of a channel: its state, and what is recorded. -/
def status (id : ChannelId) : Op (ChanState × Option Value) := do
  let _ ← Op.of (site.chan id)
  perform (.status id)

/-- The state the station may act on: the confirmed value, or the recorded one. -/
def known (id : ChannelId) : Op (Option Value) := do
  let s ← site.status id
  return s.1.confirmed.or s.2

def emit (e : StationEvent) : Op Unit := do
  let _ ← perform (.emit e)

/-- A driver failed: the channel is no longer confirmed. -/
def fault (c : ChannelDef) (e : StationError) : Op Unit := do
  let _ ← perform (.store c.id none (some none))
  emit (.driverFault c.id e.detail)

/-- Reads one line. -/
def readLine (c : ChannelDef) (line : Nat) : Op Bool := do
  let _ ← perform (.read (c.driver, line))
  ExceptT.mk (perform (.level (c.driver, line)))

/-- The ways that read closed, of the lines from way `n` on. -/
def readWays (c : ChannelDef) : Nat → List Nat → Op (List Nat)
  | _, [] => return []
  | n, line :: rest => do
    let on ← readLine c line
    let ways ← readWays c (n + 1) rest
    return if on then n :: ways else ways

/-- Reads a binary channel, or a selector's lines, as one value; nothing when more than one way is
closed. -/
def readValue (c : ChannelDef) : Op (Option Value) :=
  match c.kind with
  | .selector _ _ => do
    let ways ← readWays c 1 c.lines
    return waysValue ways
  | _ => do
    let on ← readLine c c.line
    return some (levelValue on)

/-- Reads a channel and goes on with what was read, while it notes that it does. -/
def watching {α : Type} (c : ChannelDef) (next : Except StationError (Option Value) → Op α) :
    Op α := do
  let _ ← perform (.watches (some c.id))
  let got ← attempt (readValue c)
  next got

def unwatch : Op Unit := do
  let _ ← perform (.watches none)

/-- Records what was read as confirmed. -/
def confirm (c : ChannelDef) (got : Option Value) : Op Unit := do
  let _ ← perform (.store c.id none (some got))
  unwatch

/-- Reads the real state of a channel and records it as confirmed. -/
def readBack (id : ChannelId) : Op (Option Value) := do
  let c ← Op.of (site.chan id)
  locked id <| watching c fun
    | .ok v => do
      confirm c v
      return v
    | .error e => do
      fault c e
      unwatch
      throw e

/-- Compares the read-back with the command, records and reports it. -/
def verify (c : ChannelDef) (want : Value) : Op SetOutcome :=
  if !site.canReadBack c then do
    let _ ← perform (.store c.id none (some none))
    return ⟨want, none⟩
  else watching c fun
    | .error e => do
      fault c e
      unwatch
      throw e
    | .ok got => do
      confirm c got
      if got = some want then
        emit (.confirmed c.id want)
        return ⟨want, got⟩
      else
        emit (.mismatch c.id want got)
        throw ⟨.notConfirmed,
          s!"channel {c.id}: commanded {want.debug}, read back {debugKnown got}"⟩

/-- Drives one line. -/
def writeLine (c : ChannelDef) (line : Nat) (on : Bool) : Op Unit := do
  let _ ← perform (.write (c.driver, line) on)
  match ← attempt (ExceptT.mk (perform (.written (c.driver, line) on))) with
  | .ok _ => return ()
  | .error e => do
    fault c e
    throw e

/-- Opens every way but one, of the lines from way `n` on. -/
def openWays (c : ChannelDef) (target : Option Nat) : Nat → List Nat → Op Unit
  | _, [] => return ()
  | n, line :: rest => do
    if some n ≠ target then
      writeLine c line false
    openWays c target (n + 1) rest

/-- Nothing is closed while another way reads closed, of the lines from way `n` on. -/
def checkOpen (c : ChannelDef) (value : Value) (target : Nat) : Nat → List Nat → Op Unit
  | _, [] => return ()
  | n, line :: rest => do
    if n ≠ target then
      match ← attempt (readLine c line) with
      | .error e => do
        fault c e
        throw e
      | .ok true => do
        watching c fun read => do
          let got := read.toOption.join
          confirm c got
          emit (.mismatch c.id value got)
          throw ⟨.notConfirmed,
            s!"channel {c.id}: way {n} did not open, not closing way {target}"⟩
      | .ok false => pure ()
    checkOpen c value target (n + 1) rest

/-- Whether a channel can be set to a value. -/
def settable (kind : ChannelKind) (value : Value) : Bool :=
  match kind, value with
  | .power _ _ _, .on | .power _ _ _, .off | .output, .on | .output, .off => true
  | .amplifier _ .operate _ _, .on | .amplifier _ .operate _ _, .off => true
  | .selector ways _, .port n => 1 ≤ n && n ≤ ways
  | .selector _ _, .off => true
  | _, _ => false

/-- A power channel stays off for its minimum time. -/
def checkMinOff (c : ChannelDef) (value : Value) : Op Unit :=
  match c.kind, value with
  | .power _ minOff _, .on => do
    let t ← perform (.lastOff c.id)
    if let some t := t then
      let now ← perform .now
      if now - t < minOff then
        throw (refused s!"channel {c.id} was switched off less than {minOff} ms ago")
  | _, _ => return ()

/-- Drives the lines of a channel to a value: break before make. -/
def drive (c : ChannelDef) (value : Value) : Op Unit :=
  match c.kind with
  | .selector _ settle => do
    openWays c value.target 1 c.lines
    if let some t := value.target then
      if site.canReadBack c then
        checkOpen c value t 1 c.lines
      sleep settle
      match c.lines[t - 1]? with
      | some line => writeLine c line true
      -- past the largest line number the source has no line to index, and panics
      | none => throw (config "index out of bounds")
  | _ => writeLine c c.line (value == .on)

/-- Sets a power, output or selector channel and confirms it by read-back. -/
def set (id : ChannelId) (value : Value) : Op SetOutcome := do
  let c ← Op.of (site.chan id)
  locked id do
    checkMinOff c value
    if !settable c.kind value then
      throw (config s!"channel {id} cannot be set to {value.debug}")
    let s ← site.status id
    if s.1.confirmed = some value ∧ value.target.isSome then
      return ⟨value, some value⟩
    let _ ← perform (.store id (some (some value)) none)
    emit (.commanded id value)
    site.drive c value
    site.verify c value

/-- The pulse width of a channel that can be pulsed. -/
def pulseWidth : ChannelKind → Option Duration
  | .momentary pulse => some pulse
  | .amplifier _ .tune pulse _ => some pulse
  | _ => none

/-- Pulses a momentary channel: the line goes on for the pulse width, then off. -/
def pulseLine (id : ChannelId) : Op Unit := do
  let c ← Op.of (site.chan id)
  match pulseWidth c.kind with
  | none => throw (config s!"channel {id} is not momentary")
  | some width =>
    locked id do
      emit (.commanded id .on)
      writeLine c c.line true
      sleep width
      match ← attempt (writeLine c c.line false) with
      | .ok _ => pure ()
      | .error _ => writeLine c c.line false
      let _ ← perform (.store id (some (some .off)) none)
      emit (.pulsed id)

/-- Whether the emergency all-off drives a channel. -/
def forcible : ChannelKind → Bool
  | .power _ _ _ | .output | .selector _ _ | .amplifier _ .operate _ _ => true
  | _ => false

/-- Drives lines to their safe level, one after the other, and keeps the last error. -/
def forceLines (c : ChannelDef) (failed : Option StationError) :
    List Nat → Op (Option StationError)
  | [] => return failed
  | line :: rest => do
    let _ ← perform (.force (c.driver, line))
    match ← attempt (ExceptT.mk (perform (.forced (c.driver, line)))) with
    | .ok _ => forceLines c failed rest
    | .error e => forceLines c (some e) rest

/-- Reads the real state of a channel, when it can be read, and records it as confirmed. -/
def reread (c : ChannelDef) : Op Unit :=
  if site.canReadBack c then
    watching c fun
      | .ok v => confirm c v
      | .error _ => unwatch
  else return ()

/-- Drives a channel to off without waiting for any operation in progress. -/
def forceOff (id : ChannelId) : Op Unit := do
  let c ← Op.of (site.chan id)
  if !forcible c.kind then
    return ()
  match ← forceLines c none c.lines with
  | none =>
    let _ ← perform (.store id (some (some .off)) (some none))
    site.reread c
  | some e => do
    fault c e
    throw e

end Site

end HamsOpen.Station
