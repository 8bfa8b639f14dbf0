import HamsOpen.Lib.Wrap
import HamsOpen.Lib.RingLog
import Mathlib.Logic.Function.Basic
import Mathlib.Data.List.FinRange

/-!
# The function-map engine

The engine of `io_engine.c`: the function map, the ptt, keyline and power channels with their times,
and the supervision by heartbeats. It drives pins of port A, and reads the time of a millisecond
clock modulo 65536. When within a millisecond an edge was is left out; an edge is noted with the
state of the port after it.
-/

namespace HamsOpen.StationIo

abbrev U8 := BitVec 8
abbrev U16 := BitVec 16

/-- How many channels there are. -/
abbrev IO_NCH : Nat := 2

abbrev Ch := Fin IO_NCH

/-- The channel of a pin that may be an output. -/
def boardPinChannel (pin : U8) : Option Ch :=
  if h : pin.toNat < IO_NCH then some ⟨pin.toNat, h⟩ else none

/-- The bit of port A that is the pin of a channel. -/
def boardChanPin (c : Ch) : Nat := c.val

def bit (c : Ch) : U8 := 1#8 <<< boardChanPin c

inductive Func
  | none | ptt | keyline | power
  deriving DecidableEq

/-- A channel is idle, or its keyline leads, or its line is on, or its keyline lags. -/
inductive St
  | idle | lead | on | lag
  deriving DecidableEq

/-- A pin is driven low or high, or an input. -/
inductive Level
  | low | high | released
  deriving DecidableEq

def Level.driven (b : Bool) : Level := if b then .high else .low

inductive MapState
  | none | loading | valid
  deriving DecidableEq

inductive MapError
  | none | pinNotAllowed | pinTwoFunctions | badFunction | safeUndefined | safeIsActive | badParam
  | partner | noTimeout | noHeartbeat | notLoading | leadLagNoKeyline
  deriving DecidableEq

inductive Refusal
  | none | noMap | noHeartbeat | minOff | busy | badChannel
  deriving DecidableEq

/-- Why a channel was released. -/
inductive Release
  | timeout | hbLapse | hbSequence | hbMismatch | usbReset | usbSuspend | host | mapCleared
  deriving DecidableEq

/-- The reason as the host is told it. -/
def Release.code : Release → U8
  | timeout => 1
  | hbLapse => 2
  | hbSequence => 3
  | hbMismatch => 4
  | usbReset => 5
  | usbSuspend => 6
  | host => 7
  | mapCleared => 8

/-- A level as the host is told it. -/
def Level.code : Level → U8
  | low => 0
  | high => 1
  | released => 2

/-- An entry of the release log. -/
structure EventEntry where
  reason : U8
  chan : U8
  ms : U16
  deriving DecidableEq

/-- An entry of the edge log: the level above the channel. -/
structure EdgeEntry where
  pl : U8
  ms : U16
  deriving DecidableEq

/-- The last release, and the latest entries of the two logs. -/
structure Logs where
  relReason : U8
  relChan : U8
  events : RingLog 8 3 EventEntry
  edges : RingLog 8 3 EdgeEntry

namespace Logs

/-- A channel was released. -/
def release (reason : Release) (c : Ch) (now : U16) (l : Logs) : Logs :=
  { l with
    relReason := reason.code
    relChan := BitVec.ofNat 8 c.val
    events := l.events.push ⟨reason.code, BitVec.ofNat 8 c.val, now⟩ }

/-- A pin was brought to a level. -/
def edge (c : Ch) (lvl : Level) (now : U16) (l : Logs) : Logs :=
  { l with edges := l.edges.push ⟨BitVec.ofNat 8 c.val ||| lvl.code <<< 4, now⟩ }

/-- Nothing is logged. What is in the slots stays. -/
def clear (l : Logs) : Logs :=
  { l with
    relReason := 0
    relChan := 0
    events := { l.events with count := 0 }
    edges := { l.edges with count := 0 } }

end Logs

/-- What the map says of a channel. -/
structure Entry where
  func : Func
  safe : Level
  activeHigh : Bool
  /-- The keyline that a ptt channel sequences. -/
  partner : Option Ch
  /-- The ptt channel that sequences a keyline. -/
  owner : Option Ch
  maxOn : U16
  minOff : U16
  lead : U16
  lag : U16
  deriving DecidableEq

structure Chan extends Entry where
  /-- The level that the pin was last brought to, if it was. -/
  lastlvl : Option Level
  st : St
  offValid : Bool
  tMark : U16
  tPhase : U16
  tOff : U16
  deriving DecidableEq

namespace Entry

def isPrimary (c : Entry) : Bool := c.func == .ptt || c.func == .power

/-- The level at which a line is active, or not. -/
def active (c : Entry) (active : Bool) : Level := .driven (c.activeHigh == active)

end Entry

/-- The channel is keyed: its keyline leads, or its line is on. -/
def Chan.keyed (c : Chan) : Bool := c.st == .lead || c.st == .on

/-- The registers of port A. -/
structure Port where
  IOA : U8
  OEA : U8
  deriving DecidableEq

/-- The level that a pin of port A is driven to, if it is. -/
def Port.pin (p : Port) (pin : Nat) : Level :=
  if p.OEA.getLsbD pin then .driven (p.IOA.getLsbD pin) else .released

/-- The level that the pin of a channel is driven to. -/
def Port.level (p : Port) (c : Ch) : Level := p.pin (boardChanPin c)

/-- An output edge, with the port before and after it. -/
structure Edge where
  time : Nat
  chan : Ch
  level : Level
  before : Port
  after : Port
  /-- When each ptt line had last left its active level by then. -/
  left : Ch → Option Nat

structure Engine where
  ch : Ch → Chan
  mapState : MapState
  mapError : MapError
  refusal : Refusal
  alive : Bool
  haveSeq : Bool
  oos : Bool
  hbTimeout : U16
  lastSeq : U16
  hbT : U16
  /-- The latch of port A: reading the port reads its pins. -/
  shadow : U8
  IOA : U8
  OEA : U8
  OEB : U8
  OED : U8
  /-- The milliseconds since the start. -/
  ms : Nat
  logs : Logs
  /-- The keyed channels that were released, and why, the latest first. -/
  releases : List (Release × Ch)
  /-- The output edges since the mapped pins are at their safe states, the latest first. -/
  edges : List Edge
  /-- The output edges that brought the mapped pins there. -/
  settled : List Edge
  /-- When the last good heartbeat came. -/
  lastGood : Nat
  /-- When a channel was last keyed. -/
  raised : Ch → Nat
  /-- When a ptt line last left its active level, and whether it was under an earlier map. -/
  left : Ch → Option Nat
  earlier : Ch → Bool

def IO_DEFAULT_MAX_ON_MS : U16 := 5000
def IO_DEFAULT_HEARTBEAT_MS : U16 := 2000

namespace Engine

def port (s : Engine) : Port := ⟨s.IOA, s.OEA⟩

/-- The time, as the engine has it. -/
def now16 (s : Engine) : U16 := BitVec.ofNat 16 s.ms

def setCh (c : Ch) (f : Chan → Chan) (s : Engine) : Engine :=
  { s with ch := Function.update s.ch c (f (s.ch c)) }

/-- Does something for each channel in turn. -/
def forCh (f : Ch → Engine → Engine) (s : Engine) : Engine :=
  (List.finRange IO_NCH).foldl (fun s c => f c s) s

/-! ### Pins -/

/-- A ptt line leaves its active level when it is brought to another. -/
def leaves (c : Ch) (lvl : Level) (s : Engine) : Bool :=
  (s.ch c).func == .ptt && (s.ch c).lastlvl == some ((s.ch c).active true) &&
    lvl != (s.ch c).active true

/-- The registers when a pin is brought to a level: first the latch, then the output enable. -/
def drivePin (c : Ch) (lvl : Level) (s : Engine) : Engine :=
  match lvl with
  | .released => { s with OEA := s.OEA &&& ~~~bit c }
  | .high => { s with
      shadow := s.shadow ||| bit c
      IOA := s.shadow ||| bit c
      OEA := s.OEA ||| bit c }
  | .low => { s with
      shadow := s.shadow &&& ~~~bit c
      IOA := s.shadow &&& ~~~bit c
      OEA := s.OEA ||| bit c }

/-- Notes an edge from the port before it. -/
def logEdge (c : Ch) (lvl : Level) (before : Port) (s : Engine) : Engine :=
  { s with
    edges := ⟨s.ms, c, lvl, before, s.port, s.left⟩ :: s.edges
    logs := s.logs.edge c lvl s.now16 }

/-- Notes that a line was released. -/
def noteLeft (c : Ch) (left : Bool) (s : Engine) : Engine :=
  if left then
    { s with
      left := Function.update s.left c (some s.ms)
      earlier := Function.update s.earlier c false }
  else s

/-- Brings a pin to a level. -/
def pinLevel (c : Ch) (lvl : Level) (s : Engine) : Engine :=
  if (s.ch c).lastlvl = some lvl then s
  else
    let driven := (s.drivePin c lvl).setCh c fun ch => { ch with lastlvl := some lvl }
    (driven.logEdge c lvl s.port).noteLeft c (s.leaves c lvl)

def pinActive (c : Ch) (active : Bool) (s : Engine) : Engine :=
  s.pinLevel c ((s.ch c).active active)

def pinSafe (c : Ch) (s : Engine) : Engine := s.pinLevel c (s.ch c).safe

def pinSafe? (c : Option Ch) (s : Engine) : Engine :=
  match c with
  | some c => s.pinSafe c
  | none => s

/-- The primary channels that are keyed, with their keylines. -/
def keyedMask (s : Engine) : U8 :=
  (List.finRange IO_NCH).foldl (fun m c =>
    if (s.ch c).isPrimary && (s.ch c).keyed then
      m ||| 1#8 <<< c.val ||| (match (s.ch c).partner with
        | some k => 1#8 <<< k.val
        | none => 0)
    else m) 0

def logRelease (reason : Release) (c : Ch) (s : Engine) : Engine :=
  { s with
    releases := (reason, c) :: s.releases
    logs := s.logs.release reason c s.now16 }

/-- The off time of a channel starts. -/
def stampOff (c : Ch) (s : Engine) : Engine :=
  s.setCh c fun ch => { ch with tOff := s.now16, offValid := true }

/-- The keyline of a channel goes off, and the channel is idle. -/
def keylineOff (c : Ch) (s : Engine) : Engine :=
  (s.pinSafe? (s.ch c).partner).setCh c fun ch => { ch with st := .idle }

/-- Releases a channel at once: its line first, then its keyline. -/
def releaseChannel (reason : Release) (c : Ch) (s : Engine) : Engine :=
  let released := ((s.pinSafe c).keylineOff c).stampOff c
  if (s.ch c).keyed then released.logRelease reason c else released

def ioReleaseAll (reason : Release) : Engine → Engine :=
  forCh fun c s =>
    if (s.ch c).isPrimary && (s.ch c).st != .idle then s.releaseChannel reason c else s

/-! ### Loading a map -/

/-- A channel of no map. The time stamps and what a pin entry sets stay. -/
def clearChan (ch : Chan) : Chan :=
  { ch with
    func := .none
    lastlvl := none
    st := .idle
    partner := none
    owner := none
    maxOn := IO_DEFAULT_MAX_ON_MS
    minOff := 0
    lead := 0
    lag := 0
    offValid := false }

/-- A mapped pin goes back to a plain input. -/
def clearPin (c : Ch) (s : Engine) : Engine :=
  (if (s.ch c).lastlvl ≠ none then s.pinLevel c .released else s).setCh c clearChan

def clearMap (s : Engine) : Engine :=
  { (s.ioReleaseAll .mapCleared).forCh clearPin with
    mapState := .none
    alive := false
    haveSeq := false
    oos := false
    hbTimeout := IO_DEFAULT_HEARTBEAT_MS
    earlier := fun _ => true }

def ioInit (s : Engine) : Engine :=
  let s := { s with
    shadow := 0xFF
    mapError := .none
    refusal := .none
    releases := []
    logs := s.logs.clear
    lastSeq := 0
    hbT := 0 }
  (s.forCh fun c s => s.setCh c fun ch => { ch with lastlvl := none }).clearMap

/-- A step that is not accepted. -/
def fail (code : MapError) (s : Engine) : Bool × Engine := (false, { s with mapError := code })

def ioMapBegin (s : Engine) : Bool × Engine :=
  (true, { s.clearMap with mapError := .none, mapState := .loading })

/-- The function of a pin entry. -/
def funcOf (func : U8) : Option Func :=
  if func = 1 then some .ptt
  else if func = 2 then some .keyline
  else if func = 3 then some .power
  else none

/-- The safe state of a pin entry. -/
def safeOf (flags : U8) : Option Level :=
  if flags &&& 8 = 0 then none
  else if flags &&& 3 = 0 then some .low
  else if flags &&& 3 = 1 then some .high
  else if flags &&& 3 = 2 then some .released
  else none

def ioMapPin (pin func flags : U8) (s : Engine) : Bool × Engine :=
  if s.mapState ≠ .loading then s.fail .notLoading
  else match boardPinChannel pin with
  | none => s.fail .pinNotAllowed
  | some c => match funcOf func with
    | none => s.fail .badFunction
    | some func =>
      if (s.ch c).func ≠ .none then s.fail .pinTwoFunctions
      else match safeOf flags with
      | none => s.fail .safeUndefined
      | some safe =>
        let s := s.setCh c fun ch => { ch with safe := safe, activeHigh := flags &&& 4 != 0 }
        -- a driven safe state must be the inactive level, never the active one
        if safe = (s.ch c).active true then s.fail .safeIsActive
        else (true, s.setCh c fun ch => { ch with func := func })

def ioMapParam (pin param : U8) (value : U16) (s : Engine) : Bool × Engine :=
  if s.mapState ≠ .loading then s.fail .notLoading
  else match boardPinChannel pin with
  | none => s.fail .pinNotAllowed
  | some c =>
    if (s.ch c).func ≠ .ptt then s.fail .badParam
    else if param = 1 then (true, s.setCh c fun ch => { ch with maxOn := value })
    else if param = 2 then (true, s.setCh c fun ch => { ch with minOff := value })
    else if param = 3 then (true, s.setCh c fun ch => { ch with lead := value })
    else if param = 4 then (true, s.setCh c fun ch => { ch with lag := value })
    else if param = 5 then
      match boardPinChannel (value.truncate 8) with
      | none => s.fail .partner
      | some k =>
        if k = c then s.fail .partner
        else (true, s.setCh c fun ch => { ch with partner := some k })
    else s.fail .badParam

def ioMapHeartbeat (lapse : U16) (s : Engine) : Bool × Engine :=
  if s.mapState ≠ .loading then s.fail .notLoading
  else if lapse = 0 then s.fail .noHeartbeat
  else (true, { s with hbTimeout := lapse })

/-- Checks a mapped channel, and takes the keyline of a ptt channel for it. -/
def commitChan (c : Ch) (s : Engine) : Except MapError Engine :=
  match (s.ch c).func with
  | .ptt =>
    if (s.ch c).maxOn = 0 then .error .noTimeout
    else match (s.ch c).partner with
    | some k =>
      if (s.ch k).func ≠ .keyline ∨ (s.ch k).owner ≠ none then .error .partner
      else .ok (s.setCh k fun ch => { ch with owner := some c })
    | none =>
      if (s.ch c).lead ≠ 0 ∨ (s.ch c).lag ≠ 0 then .error .leadLagNoKeyline else .ok s
  | .power => .ok (s.setCh c fun ch => { ch with partner := none })
  | _ => .ok s

/-- Checks the mapped channels in turn; what it did to the channels before one that fails stays. -/
def commitChans : List Ch → Engine → Option MapError × Engine
  | [], s => (none, s)
  | c :: cs, s =>
    match commitChan c s with
    | .ok s => commitChans cs s
    | .error e => (some e, s)

/-- The map is valid: every mapped pin goes to its safe state now. -/
def settle (s : Engine) : Engine :=
  let s := { s with mapState := .valid, edges := [] }
  let s := s.forCh fun c s => if (s.ch c).func ≠ .none then s.pinSafe c else s
  { s with settled := s.edges, edges := [] }

def ioMapCommit (s : Engine) : Bool × Engine :=
  if s.mapState ≠ .loading then s.fail .notLoading
  else
    let s := s.forCh fun c s => s.setCh c fun ch => { ch with owner := none }
    match commitChans (List.finRange IO_NCH) s with
    | (some e, s) => s.fail e
    | (none, s) =>
      if ∃ c, (s.ch c).func = .keyline ∧ (s.ch c).owner = none then s.fail .partner
      else if ∀ c, (s.ch c).func = .none then s.fail .badFunction
      else (true, s.settle)

/-! ### Keying -/

def refuse (why : Refusal) (s : Engine) : Bool × Engine := (false, { s with refusal := why })

/-- The line of a channel goes on. -/
def lineOn (c : Ch) (s : Engine) : Engine :=
  (s.pinActive c true).setCh c fun ch => { ch with st := .on }

/-- The host asks for a channel to go up: its keyline lags, or goes off. -/
def keyUp (c : Ch) (s : Engine) : Engine :=
  if (s.ch c).keyed then
    let s := ((s.pinSafe c).stampOff c).logRelease .host c
    if (s.ch c).partner ≠ none ∧ (s.ch c).lag ≠ 0 then
      s.setCh c fun ch => { ch with st := .lag, tPhase := s.now16 }
    else s.keylineOff c
  else s

/-- The time of a key-down is marked. -/
def markKey (c : Ch) (s : Engine) : Engine :=
  { s.setCh c fun ch => { ch with tMark := s.now16, tPhase := s.now16 } with
    raised := Function.update s.raised c s.ms }

/-- The keyline of a channel is asserted, and its line, unless the keyline leads. -/
def keyDown (c : Ch) (s : Engine) : Engine :=
  let s := s.markKey c
  match (s.ch c).partner with
  | some k =>
    let s := s.pinActive k true
    if (s.ch c).lead ≠ 0 then s.setCh c fun ch => { ch with st := .lead } else s.lineOn c
  | none => s.lineOn c

def ioKey (pin down : U8) (s : Engine) : Bool × Engine :=
  if s.mapState ≠ .valid then s.refuse .noMap
  else match boardPinChannel pin with
  | none => s.refuse .badChannel
  | some c =>
    if !(s.ch c).isPrimary then s.refuse .badChannel
    else if down = 0 then (true, s.keyUp c)
    else if (s.ch c).keyed then (true, s)
    else if !s.alive then s.refuse .noHeartbeat
    else if (s.ch c).st = .lag then s.refuse .busy
    else if (s.ch c).offValid ∧
        Wrap.elapsed s.now16 (s.ch c).tOff < (s.ch c).minOff.toNat then s.refuse .minOff
    else (true, s.keyDown c)

/-! ### Supervision -/

/-- What is wrong with a heartbeat. -/
def hbReason (seq : U16) (commanded : U8) (s : Engine) : Option Release :=
  if s.haveSeq ∧ seq = s.lastSeq then some .hbSequence
  else if commanded ≠ s.keyedMask then some .hbMismatch
  else none

def ioHeartbeat (seq : U16) (commanded : U8) (s : Engine) : Engine :=
  if s.mapState ≠ .valid then s
  else
    let reason := s.hbReason seq commanded
    let s := { s with lastSeq := seq, haveSeq := true }
    match reason with
    | none => { s with alive := true, oos := false, hbT := s.now16, lastGood := s.ms }
    | some reason =>
      { s with alive := false, oos := commanded &&& ~~~s.keyedMask != 0 }.ioReleaseAll reason

/-- The minimum off time is served: the stamp is forgotten before it wraps. -/
def serveOff (c : Ch) (s : Engine) : Engine :=
  if (s.ch c).st = .idle ∧ (s.ch c).offValid ∧
      (s.ch c).minOff.toNat ≤ Wrap.elapsed s.now16 (s.ch c).tOff then
    s.setCh c fun ch => { ch with offValid := false }
  else s

/-- The maximum on-time runs from the key-down command. -/
def checkTimeout (c : Ch) (s : Engine) : Engine :=
  if (s.ch c).func = .ptt ∧ (s.ch c).maxOn.toNat ≤ Wrap.elapsed s.now16 (s.ch c).tMark then
    s.releaseChannel .timeout c
  else s

/-- The phase of a channel goes on. -/
def advance (c : Ch) (s : Engine) : Engine :=
  match (s.ch c).st with
  | .lead =>
    (if (s.ch c).lead.toNat ≤ Wrap.elapsed s.now16 (s.ch c).tPhase then s.lineOn c
    else s).checkTimeout c
  | .on => s.checkTimeout c
  | .lag =>
    if (s.ch c).lag.toNat ≤ Wrap.elapsed s.now16 (s.ch c).tPhase then s.keylineOff c else s
  | .idle => s

def tickChan (c : Ch) (s : Engine) : Engine :=
  if (s.ch c).isPrimary then (s.serveOff c).advance c else s

/-- The lapse of the heartbeat. -/
def checkLapse (s : Engine) : Engine :=
  if s.alive ∧ s.hbTimeout.toNat ≤ Wrap.elapsed s.now16 s.hbT then
    { s with alive := false }.ioReleaseAll .hbLapse
  else s

def ioTick (s : Engine) : Engine :=
  if s.mapState ≠ .valid then s
  else (s.forCh tickChan).checkLapse

end Engine

end HamsOpen.StationIo
