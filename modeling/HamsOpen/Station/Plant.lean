import HamsOpen.Station.Station

/-!
# The station at work

The state that the commands of a station share: what the board records of each channel, the lines of
the drivers, and the drives that are under way. A drive may land any time after it began, also when
the command that began it is gone, or never; a driver says that a drive succeeded only when it is no
longer under way. A read gives the level of the line at its end, or fails.
-/

namespace HamsOpen.Station

/-- What happened, by which command. -/
inductive Event
  | keyed (k source : Nat) (state : KeyState)
  | write (k : Nat) (w : Wire) (on : Bool)
  | written (k : Nat) (w : Wire) (on ok : Bool)
  | read (k : Nat) (w : Wire) (level : Option Bool)
  | force (k : Nat) (w : Wire)
  | forced (k : Nat) (w : Wire) (ok : Bool)
  | emitted (k : Nat) (e : StationEvent)
  | stored (k : Nat) (id : ChannelId) (commanded confirmed : Option (Option Value))
  /-- A debounced input is believed, or unknown. -/
  | sampled (id : ChannelId) (level : Option Bool)
  deriving DecidableEq

/-- The state that the commands of a station share. -/
structure Plant where
  now : Instant
  /-- The command that holds the operation lock of a channel. -/
  ops : ChannelId → Option Nat
  chans : ChannelId → ChanState
  /-- The levels of the lines. -/
  lines : Wire → Bool
  /-- When a line was last driven from on to off. -/
  turnedOff : Wire → Option Instant
  /-- The drivers' own records of their lines. -/
  records : Records
  /-- The drives that have begun and not landed. -/
  drives : List (Nat × Wire × Bool)
  relying : Nat → Option DeviceId
  scanned : Nat → List DeviceId
  watching : Nat → Option ChannelId
  /-- The channel whose time of going off a command has looked at, and not driven since. -/
  checked : Nat → Option ChannelId
  /-- What happened, the latest first. -/
  log : List Event

namespace Plant

/-- A line takes a level. -/
def setLine (w : Wire) (on : Bool) (s : Plant) : Plant :=
  { s with
    lines := Function.update s.lines w on
    turnedOff := if s.lines w && !on then Function.update s.turnedOff w (some s.now)
      else s.turnedOff }

/-- A drive lands. -/
def land (i : Nat) (s : Plant) : Option Plant :=
  s.drives[i]?.map fun d => { s.setLine d.2.1 d.2.2 with drives := s.drives.eraseIdx i }

/-- The drive of a command has landed, or is lost with it. -/
def settled (k : Nat) (w : Wire) (s : Plant) : Bool :=
  !s.drives.any fun d => d.1 == k && d.2.1 == w

/-- The level that a drive to safety drives a line to. -/
def safeLevel (site : Site) (w : Wire) : Bool := (site.bank w.1).safeLine w.2

/-- What the driver's record says of a channel that it can only record. -/
def recorded (site : Site) (id : ChannelId) (s : Plant) : Option Value :=
  match site.station.channel id with
  | some c =>
    if (site.bank c.driver).assurance = .recorded then recordValue s.records c else none
  | none => none

/-- The state the station may act on. -/
def known (site : Site) (id : ChannelId) (s : Plant) : Option Value :=
  (s.chans id).confirmed.or (s.recorded site id)

/-- The records when a driver that keeps one has a new entry for a line. -/
def noted (w : Wire) (r : Option Bool) (s : Plant) : Records :=
  Function.update s.records w ((s.records w).map fun _ => r)

/-- A command is gone: its locks are free and its notes void. -/
def release (k : Nat) (s : Plant) : Plant :=
  { s with
    ops := fun id => if s.ops id = some k then none else s.ops id
    relying := Function.update s.relying k none
    scanned := Function.update s.scanned k []
    watching := Function.update s.watching k none
    checked := Function.update s.checked k none }

end Plant

/-- What a source, a device or a driver does with an action. -/
inductive Choice
  | go
  | keys (state : KeyState)
  | answers (yes : Bool)
  | fails (e : StationError)
  deriving DecidableEq

/-- The answer to an action of command `k`, when it can be performed. -/
def Act.answer (site : Site) (k : Nat) (choice : Choice) : (a : Act) → Plant → Option a.Answer
  | .lock id, s => if s.ops id = none then some () else none
  | .unlock id, s => if s.ops id = some k then some () else none
  | .now, s => some s.now
  | .sleep wake, s => if wake ≤ s.now then some () else none
  | .lastOff id, s => some (s.chans id).lastOff
  | .status id, s => some (s.chans id, s.recorded site id)
  | .key _, _ => some (match choice with
    | .keys state => state
    | _ => .unknown)
  | .answers _, _ => some (match choice with
    | .answers yes => yes
    | _ => false)
  | .written w _, s | .forced w, s =>
    match choice with
    | .fails e => some (.error e)
    | _ => if s.settled k w then some (.ok ()) else none
  | .level w, s => some (match choice with
    | .fails e => .error e
    | _ => .ok (s.lines w))
  | .store _ _ _, _ | .emit _, _ | .write _ _, _ | .read _, _ | .force _, _ | .relies _ _, _
  | .scans _, _ | .watches _, _ => some ()

/-- What an action of command `k` with its answer does to the plant. -/
def Act.effect (site : Site) (k : Nat) : (a : Act) → a.Answer → Plant → Plant
  | .lock id, _, s => { s with ops := Function.update s.ops id (some k) }
  | .unlock id, _, s =>
    { s with
      ops := Function.update s.ops id none
      checked := Function.update s.checked k none }
  | .lastOff id, _, s => { s with checked := Function.update s.checked k (some id) }
  | .store id commanded confirmed, _, s =>
    { s with
      chans := Function.update s.chans id ((s.chans id).store s.now commanded confirmed) }
  | .write w on, _, s =>
    { s with
      drives := s.drives ++ [(k, w, on)]
      checked := Function.update s.checked k none }
  | .written w on, r, s => { s with records := s.noted w (r.toOption.map fun _ => on) }
  | .force w, _, s => { s with drives := s.drives ++ [(k, w, Plant.safeLevel site w)] }
  | .forced w, r, s =>
    { s with records := s.noted w (r.toOption.map fun _ => Plant.safeLevel site w) }
  | .relies device _, _, s => { s with relying := Function.update s.relying k device }
  | .scans device, _, s =>
    { s with
      scanned := Function.update s.scanned k (device.elim [] fun d => d :: s.scanned k) }
  | .watches id, _, s => { s with watching := Function.update s.watching k id }
  | .now, _, s | .sleep _, _, s | .status _, _, s | .emit _, _, s | .key _, _, s
  | .answers _, _, s | .read _, _, s | .level _, _, s => s

/-- What is told of an action of command `k` and its answer. -/
def Act.event (k : Nat) : (a : Act) → a.Answer → Option Event
  | .store id commanded confirmed, _ => some (.stored k id commanded confirmed)
  | .emit e, _ => some (.emitted k e)
  | .key source, state => some (.keyed k source state)
  | .write w on, _ => some (.write k w on)
  | .written w on, r => some (.written k w on r.isOk)
  | .level w, r => some (.read k w r.toOption)
  | .force w, _ => some (.force k w)
  | .forced w, r => some (.forced k w r.isOk)
  | _, _ => none

/-- The plant after an action of command `k`. -/
def Act.after (site : Site) (k : Nat) (a : Act) (r : a.Answer) (s : Plant) : Plant :=
  { a.effect site k r s with log := (a.event k r).toList ++ s.log }

/-- Performs an action of command `k`, when it can be performed. -/
def Act.perform (site : Site) (k : Nat) (choice : Choice) (a : Act) (s : Plant) :
    Option (a.Answer × Plant) :=
  (a.answer site k choice s).map fun r => (r, a.after site k r s)

/-- The actions at which a command waits. -/
def Act.suspends : Act → Bool
  | .lock _ | .sleep _ | .key _ | .answers _ | .written _ _ | .level _ | .forced _ => true
  | _ => false

/-- What happens by itself. -/
inductive Outside
  | tick (d : Duration)
  /-- A drive lands, or never will. -/
  | land (i : Nat)
  | lose (i : Nat)
  /-- A line changes behind the station's back. -/
  | flip (w : Wire) (on : Bool)
  /-- A driver's record changes by what the driver does for another line, or is forgotten. -/
  | rewrite (w : Wire) (r : Option (Option Bool))
  /-- A debounced input is believed, or unknown. -/
  | input (id : ChannelId) (level : Option Bool)
  deriving DecidableEq

namespace Site

variable (site : Site)

def isInput (id : ChannelId) : Bool := (site.station.channel id).any (·.kind.isInput)

/-- The commands of a station. -/
def executor : Executor Act Act.Answer Plant Call Choice Outside Result where
  init s := (∀ id, s.ops id = none) ∧ (∀ id, s.chans id = ⟨none, none, none⟩) ∧
    (∀ w, s.turnedOff w = none) ∧ s.drives = [] ∧ (∀ k, s.relying k = none) ∧
    (∀ k, s.scanned k = []) ∧ (∀ k, s.watching k = none) ∧ (∀ k, s.checked k = none) ∧ s.log = []
  exec := Act.perform site
  suspends := Act.suspends
  clock := Plant.now
  release := Plant.release
  body := site.run
  env
    | .tick d, s => some { s with now := s.now + d }
    | .land i, s => s.land i
    | .lose i, s => some { s with drives := s.drives.eraseIdx i }
    | .flip w on, s => some { s with lines := Function.update s.lines w on }
    | .rewrite w r, s => some { s with records := Function.update s.records w r }
    | .input id level, s =>
      if site.isInput id then
        some { s with
          chans := Function.update s.chans id
            ((s.chans id).store s.now none (some (level.map levelValue)))
          log := .sampled id level :: s.log }
      else none

end Site

abbrev State := World Act Act.Answer Plant Call Result

/-- A station, with its commands run in any order, cut anywhere and dropped anywhere. -/
def Site.machine (site : Site) : Machine State (Turn Call Choice Outside) :=
  site.executor.machine

/-- A plant where nothing has happened. -/
def Plant.start (lines : Wire → Bool) (records : Records) : Plant where
  now := 0
  ops _ := none
  chans _ := ⟨none, none, none⟩
  lines := lines
  turnedOff _ := none
  records := records
  drives := []
  relying _ := none
  scanned _ := []
  watching _ := none
  checked _ := none
  log := []

theorem start_reach {ok : State → Turn Call Choice Outside → Prop} (site : Site)
    (lines : Wire → Bool) (records : Records) : site.machine.Reach ok ⟨.start lines records, []⟩ :=
  .init ⟨⟨fun _ => rfl, fun _ => rfl, fun _ => rfl, rfl, fun _ => rfl, fun _ => rfl, fun _ => rfl,
    fun _ => rfl, rfl⟩, rfl⟩

/-- A radio, an amplifier that needs it and an antenna, and a computer with power buttons that needs
the radio. -/
def bench (readable : Bool) : Site where
  station :=
    { powerMeters := []
      channels := [
        ⟨"radio_pwr", .power 0 500 false, "bank", 0, some .off⟩,
        ⟨"amp_pwr", .power 0 500 false, "bank", 1, some .off⟩,
        ⟨"ant", .selector 2 20, "bank", 2, none⟩,
        ⟨"operate", .amplifier "amp" .operate 100 none, "bank", 4, some .off⟩,
        ⟨"button", .momentary 100, "bank", 5, none⟩,
        ⟨"kill", .momentary 100, "bank", 6, none⟩]
      devices := [
        ⟨"radio", .radio, .channel "radio_pwr", [], [], 0, 0, 0⟩,
        ⟨"amp", .amplifier, .channel "amp_pwr", ["radio"], ["ant"], 0, 0, 0⟩,
        ⟨"pc", .computer, .momentary "button" (some "kill"), ["radio"], [], 0, 0, 0⟩]
      profiles := [] }
  bank _ := ⟨.hostSupervised, readable, fun _ => false⟩
  keyed := ["rig"]
  ready := false

theorem bench_valid (readable : Bool) : (bench readable).station.validate = .ok () := by
  cases readable <;> decide

/-- A command takes its next turns, `n` of them. -/
def turns (k n : Nat) (choice : Choice) : List (Turn Call Choice Outside) :=
  List.replicate n (.turn k choice)

end HamsOpen.Station
