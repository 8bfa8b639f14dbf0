import HamsOpen.Rig.Units

/-!
# Commands and observations

The command vocabulary shared by the actor and the protocol engines, and the values a rig reports
back (`op.rs`), with the typed errors (`error.rs`) and status-change events (`event.rs`) they
travel in. A few commands jump the queue (`Op.isEmergency`), and of these one is the unkey
(`Op.isUnkey`); two can put RF on the air (`Op.transmits`).
-/

namespace HamsOpen.Rig

/-- A command to a rig. -/
inductive Op
  | getFrequency (vfo : Vfo)
  | setFrequency (vfo : Vfo) (hz : Hz)
  | getMode
  | setMode (mode : Mode)
  | getPtt
  | setPtt (on : Bool)
  | getSignal
  | getPower
  | sendCw (text : String)
  | stopCw
  | setTransceive (on : Bool)
  | getSplit
  | getTxVfo
  | setSplit (on : Bool)
  | getRit
  | setRit (on : Bool)
  | getXit
  | setXit (on : Bool)
  | getRitOffset
  | setRitOffset (hz : Int)
  | getFilterWidth
  | setFilterWidth (hz : Hz)
  | getLevel (level : Level)
  | setLevel (level : Level) (value : Nat)
  | getSwr
  | getMeter (meter : Meter)
  | getModelId
  | getFirmware
  | getPowerAmplifier
  | setScopeOutput (on : Bool)
  | getScopeOutput
  | setScopeAxis (rx : Nat) (axis : ScopeAxis)
  | getScopeAxis (rx : Nat)
  | setScopeSpan (rx : Nat) (span : Hz)
  | getScopeSpan (rx : Nat)
  | setScopeEdges (range edge : Nat) (lower upper : Hz)
  | setScopeReference (rx : Nat) (centiDb : Int)
  | getScopeReference (rx : Nat)
  | setScopeSetting (rx : Nat) (setting : ScopeSetting) (code : Nat)
  | getScopeSetting (rx : Nat) (setting : ScopeSetting)
  | scopeAction (rx : Nat) (action : ScopeAction)
  deriving DecidableEq

/-- A kind of value the actor caches. -/
inductive Field
  | frequency (vfo : Vfo)
  | mode
  | ptt
  | signal
  | power
  | split
  | rxVfo
  | txVfo
  | activeTxFrequency
  | rit
  | xit
  | ritOffset
  | filterWidth
  | level (level : Level)
  | swr
  | meter (meter : Meter)
  | modelId
  | firmware
  | powerAmplifier
  | scopeOutput
  | scopeAxis (rx : Nat)
  | scopeSpan (rx : Nat)
  | scopeReference (rx : Nat)
  | scopeSetting (rx : Nat) (setting : ScopeSetting)
  | alarm
  deriving DecidableEq

/-- A safety condition the actor reports on its own. -/
inductive Alarm
  | transmitTimeout | heartbeatLapsed | unkeyFailed | linkDown | linkRestored
  deriving DecidableEq

/-- A value reported by a rig, solicited or not. -/
inductive Observation
  | frequency (vfo : Vfo) (hz : Hz)
  | mode (mode : Mode)
  | ptt (on : Bool)
  | signal (level : Nat)
  | power (level : Nat)
  | split (on : Bool)
  | rxVfo (vfo : Vfo)
  | txVfo (vfo : Vfo)
  | activeTxFrequency (hz : Hz)
  | rit (on : Bool)
  | xit (on : Bool)
  | ritOffset (hz : Int)
  | filterWidth (hz : Hz)
  | level (level : Level) (value : Nat)
  | swr (tenths : Nat)
  | meter (meter : Meter) (value : Nat)
  | modelId (id : Nat)
  | firmware (major minor : Nat)
  | powerAmplifier (installed : Bool)
  | scopeOutput (on : Bool)
  | scopeAxis (rx : Nat) (axis : ScopeAxis)
  | scopeSpan (rx : Nat) (span : Hz)
  | scopeReference (rx : Nat) (centiDb : Int)
  | scopeSetting (rx : Nat) (setting : ScopeSetting) (code : Nat)
  | alarm (alarm : Alarm)
  deriving DecidableEq

/-- The cache field this observation updates. -/
def Observation.field : Observation → Field
  | .frequency vfo _ => .frequency vfo
  | .mode _ => .mode
  | .ptt _ => .ptt
  | .signal _ => .signal
  | .power _ => .power
  | .split _ => .split
  | .rxVfo _ => .rxVfo
  | .txVfo _ => .txVfo
  | .activeTxFrequency _ => .activeTxFrequency
  | .rit _ => .rit
  | .xit _ => .xit
  | .ritOffset _ => .ritOffset
  | .filterWidth _ => .filterWidth
  | .level l _ => .level l
  | .swr _ => .swr
  | .meter m _ => .meter m
  | .modelId _ => .modelId
  | .firmware _ _ => .firmware
  | .powerAmplifier _ => .powerAmplifier
  | .scopeOutput _ => .scopeOutput
  | .scopeAxis rx _ => .scopeAxis rx
  | .scopeSpan rx _ => .scopeSpan rx
  | .scopeReference rx _ => .scopeReference rx
  | .scopeSetting rx setting _ => .scopeSetting rx setting
  | .alarm _ => .alarm

namespace Op

/-- The capability a rig needs for this command. -/
def requiredCapability : Op → Capability
  | getFrequency .a => .readFrequency
  | getFrequency .b => .secondVfo
  | setFrequency .a _ => .setFrequency
  | setFrequency .b _ => .secondVfo
  | getMode => .readMode
  | setMode _ => .setMode
  | getPtt => .readPtt
  | setPtt _ => .setPtt
  | getSignal => .readSignal
  | getPower => .readPower
  | sendCw _ | stopCw => .sendCw
  | setTransceive _ => .transceive
  | getSplit | setSplit _ | getTxVfo => .split
  | getRit | setRit _ | getXit | setXit _ | getRitOffset | setRitOffset _ => .ritXit
  | getFilterWidth | setFilterWidth _ => .filter
  | getLevel _ | setLevel _ _ => .levels
  | getSwr => .readSwr
  | getMeter _ => .readMeters
  | getModelId | getFirmware | getPowerAmplifier => .identify
  | setScopeOutput _ | getScopeOutput | setScopeAxis _ _ | getScopeAxis _ | setScopeSpan _ _
  | getScopeSpan _ | setScopeEdges _ _ _ _ | setScopeReference _ _ | getScopeReference _
  | setScopeSetting _ _ _ | getScopeSetting _ _ | scopeAction _ _ => .scope

/-- True when the command can put RF on the air. Unkeying never transmits. -/
def transmits : Op → Bool
  | setPtt on => on
  | sendCw _ => true
  | _ => false

/-- True for the commands that jump the queue: unkeying the transmitter and stopping Morse. -/
def isEmergency : Op → Bool
  | setPtt false | stopCw => true
  | _ => false

/-- True for the one command whose failure means the rig may still be on the air. -/
def isUnkey : Op → Bool
  | setPtt false => true
  | _ => false

end Op

/-! ### Errors and events -/

/-- What went wrong, in terms a caller can act on. -/
inductive ErrorKind
  | timeout | rejected | unsupported | linkDown | cancelled | transmitGateClosed
  | transmitFrequencyUnknown | malformed | queueFull
  deriving DecidableEq

/-- The error type of every rig operation, without its retry hint and transcript tail. -/
structure RigError where
  kind : ErrorKind
  detail : String
  deriving DecidableEq

instance instDecidableEqExcept {ε α : Type*} [DecidableEq ε] [DecidableEq α] :
    DecidableEq (Except ε α)
  | .error e, .error e' => decidable_of_iff (e = e') ⟨congrArg _, Except.error.inj⟩
  | .ok a, .ok a' => decidable_of_iff (a = a') ⟨congrArg _, Except.ok.inj⟩
  | .error _, .ok _ | .ok _, .error _ => .isFalse nofun

/-- The answer to a command: the value read, nothing for a set, or an error. -/
abbrev Reply := Except RigError (Option Observation)

/-- True for an answer that carries a result. -/
def Reply.isOk : Reply → Bool
  | .ok _ => true
  | .error _ => false

/-- Where a change came from. -/
inductive Source
  | api | poll | transceive | splitter | watchdog
  deriving DecidableEq

/-- One changed field with its old and new value. -/
structure Change where
  field : Field
  old : Option Observation
  new : Observation
  deriving DecidableEq

/-- A status change of one rig. -/
structure RigEvent where
  source : Source
  changes : List Change
  deriving DecidableEq

end HamsOpen.Rig
