import Mathlib.Tactic.Simps.Basic
import HamsOpen.Rig.Memory

/-!
# The rig actor

One actor task per rig owns the transport and the protocol engine and runs commands one at a time
(`rig.rs`). Its asynchronous functions are given here as the state machine they compile to: a
`Phase` is a place where the actor waits or may be overtaken by another task, with the local
variables that live across it, and each function of the source is the computation up to the next
such place. Between two places nothing else happens, so the clock `now` stands still there.

The protocol engine is a parameter with a hidden state. The transport is a list of chunks to read,
each with the index of the request on the wire it answers, and a list of the writes handed over.
`log` records what happened, newest first, and is only ever added to: like the index of a chunk it
is there for the statements and nothing reads it back.

The transcript and the counters of the source are left out; nothing but diagnostics reads them.
-/

namespace HamsOpen.Rig

/-! ### Parameters -/

/-- One step of a control-line sequence. -/
structure LineStep where
  line : Nat
  asserted : Bool
  hold : Duration
  deriving DecidableEq

/-- A protocol engine for one rig, with the description it was built from. -/
structure Engine (σ : Type) where
  capabilities : CapabilitySet
  timeout : Duration
  retries : Nat
  interCommand : Duration
  encode : σ → Op → Except RigError Request × σ
  encodeLines : σ → Op → Except RigError (Option (List LineStep)) × σ
  feed : σ → List UInt8 → Instant → List Inbound × σ
  linkRestored : σ → List Request × σ
  openRequests : σ → List Request × σ

/-- What a rig is spawned with: its engine and the options of its owner. -/
structure Setup (σ : Type) where
  engine : Engine σ
  queueCapacity : Nat
  poll : PollConfig
  maxTransmit : Duration
  heartbeat : Option Duration
  controlLines : Bool

/-- How many emergency commands may wait. -/
def EMERGENCY_QUEUE : Nat := 16

/-- How often an unkey of the actor's own is written at most. -/
def UNKEY_ATTEMPTS : Nat := 3

/-- The wait before the second unkey attempt; the third waits twice as long. -/
def UNKEY_BACKOFF : Duration := 100

/-! ### State -/

/-- A command in a queue; `reply` names the channel its answer goes to. -/
structure Command where
  op : Op
  deadline : Instant
  source : Source
  reply : Nat
  deriving DecidableEq

/-- The state of the physical link; `generation` counts opens, starting at 1. -/
inductive LinkStatus
  | connected (generation : Nat)
  | reconnecting
  | closed
  deriving DecidableEq

/-- Bytes to read, with the index of the request on the wire they answer. -/
structure Chunk where
  bytes : List UInt8
  answers : Option Nat
  deriving DecidableEq

/-- Where a call of `RigHandle::submit` stands after its checks. -/
inductive CallStage
  | checked | counted | sent | full | riding | uncount
  deriving DecidableEq

/-- A call of `RigHandle::submit` in progress on some thread. -/
structure Call where
  command : Command
  stage : CallStage
  deriving DecidableEq

/-- What other tasks change: the clock, the handles' side of the shared state and of the queues,
the link status and the bytes that arrived. -/
structure Env where
  now : Instant
  gate : Bool
  emergencyPending : Nat
  emergencyWake : Bool
  lastHeartbeat : Instant
  heartbeatWake : Bool
  emergency : List Command
  normal : List Command
  handlesGone : Bool
  calls : List Call
  nextReply : Nat
  link : LinkStatus
  linkUnseen : Bool
  linkWatch : Bool
  watchClosed : Bool
  opens : Nat
  rx : List Chunk
  rxEnd : Option String

/-- Who wrote to the rig. -/
inductive Writer
  | command (op : Op) (reply : Option Nat)
  | unkey
  | session
  deriving DecidableEq

/-- A write handed to the transport. `complete` is false when it failed or ran out of time, so that
any part of its bytes may have gone out; `session` is the link generation it went to. -/
structure Wrote where
  writer : Writer
  seq : Nat
  kind : ReplyKind
  complete : Bool
  when : Instant
  session : Option Nat
  gate : Bool
  deriving DecidableEq

/-- Who called `run_command`: the serving of a queued command, or a poll, after which a queued
command may be served. -/
inductive Caller
  | served (command : Command)
  | polled (entry : PollEntry) (before : Option Observation) (next : Option Command)
  deriving DecidableEq

/-- The arguments of one `run_command`. -/
structure Run where
  op : Op
  deadline : Instant
  source : Source
  mayPreempt : Bool
  caller : Caller
  deriving DecidableEq

/-- Who called `unkey_fail_closed`. -/
inductive Unkeyer
  | writeTimedOut (r : Run)
  | notAnswered (r : Run)
  | watchdog
  | linkRestored (starting : Bool)
  | stopping
  deriving DecidableEq

/-- Who called `write_session_requests`. -/
inductive SessionCaller
  | restore (starting : Bool)
  | opening
  deriving DecidableEq

/-- Where the actor stands. `left` counts the attempts after the current one; `watchdog` is when
the transmit watchdog fires, as computed when the wait began. -/
inductive Phase
  | starting
  | opening
  | select (watchdog : Option Instant)
  | polling (now : Instant) (transmitting : Bool)
  | begin (r : Run)
  | lines (r : Run)
  | spacing (r : Run) (q : Request) (seq left : Nat) (ready : Instant)
  | draining (r : Run) (q : Request) (seq left : Nat) (limit : Instant)
  | writing (r : Run) (q : Request) (seq left : Nat)
  | awaiting (r : Run) (q : Request) (seq left : Nat) (limit : Instant) (watchdog : Option Instant)
  | unkeyBackoff (u : Unkeyer) (source : Source) (q : Request) (seq attempt : Nat) (limit : Instant)
  | unkeyWriting (u : Unkeyer) (source : Source) (q : Request) (seq attempt : Nat) (limit : Instant)
  | unkeyAwaiting (u : Unkeyer) (source : Source) (q : Request) (seq attempt : Nat)
      (limit : Instant)
  | sessionWriting (k : SessionCaller) (q : Request) (rest : List Request) (limit : Instant)
  | sessionAwaiting (k : SessionCaller) (q : Request) (seq : Nat) (rest : List Request)
      (limit : Instant)
  | stopped
  deriving DecidableEq

/-- What happened, for the statements only. -/
inductive Event
  | accepted (c : Command)
  | joined (reply : Nat)
  | took (c : Command)
  | wrote (index : Nat)
  | absorbed (items : List Item) (now : Instant)
  | applied (op : Op) (now : Instant)
  | credited (seq : Nat) (result : Reply) (write : Option Nat)
  | returned (op : Op) (result : Reply)
  | answered (reply : Nat) (result : Reply) (via : Command)
  | fired (now : Instant)
  | alarm (alarm : Alarm)
  | linkDown
  | opened (generation : Nat)
  deriving DecidableEq

/-- The rig actor with everything it shares. -/
structure State (σ : Type) where
  env : Env
  linkUp : Bool
  unkeyWaiters : List Nat
  engine : σ
  memory : Memory
  commandSeq : Nat
  lastWrite : Option Instant
  linkGeneration : Nat
  sessionOpened : Bool
  phase : Phase
  wire : List Wrote
  log : List Event

namespace State

variable {σ : Type}

/-! ### Small updates -/

@[simps] def setPhase (s : State σ) (p : Phase) : State σ := { s with phase := p }

@[simps] def setEnv (s : State σ) (e : Env) : State σ := { s with env := e }

@[simps] def setMemory (s : State σ) (m : Memory) : State σ := { s with memory := m }

@[simps] def setEngine (s : State σ) (e : σ) : State σ := { s with engine := e }

@[simps] def setLinkUp (s : State σ) (up : Bool) : State σ := { s with linkUp := up }

@[simps] def record (s : State σ) (e : Event) : State σ := { s with log := e :: s.log }

/-- The actor has looked at the link status. -/
@[simps!] def seeLink (s : State σ) : State σ := s.setEnv { s.env with linkUnseen := false }

/-- The link is up, in a session the actor has not seen before. -/
@[simps] def linkOpened (s : State σ) (generation : Nat) : State σ :=
  { s with linkGeneration := generation, linkUp := true }

/-- The open or restore requests have been asked of the engine. -/
@[simps] def sessionStarted (s : State σ) (engine : σ) : State σ :=
  { s with sessionOpened := true, engine }

/-- The first command is taken off the emergency queue. -/
@[simps!] def takeEmergency (s : State σ) (c : Command) (rest : List Command) : State σ :=
  (s.setEnv { s.env with
    emergency := rest, emergencyPending := s.env.emergencyPending - 1 }).record (.took c)

/-- The first command is taken off the command queue. -/
@[simps!] def takeNormal (s : State σ) (c : Command) (rest : List Command) : State σ :=
  (s.setEnv { s.env with normal := rest }).record (.took c)

/-- The watchdog stops as it fires. -/
@[simps!] def disarm (s : State σ) : State σ :=
  (s.setMemory { s.memory with keyedSince := none }).record (.fired s.env.now)

/-- A fresh identity for one command (its retries share it). -/
@[simps] def nextSeq (s : State σ) : State σ := { s with commandSeq := s.commandSeq + 1 }

/-- The link generation a write goes to, when the port is open. -/
def session (s : State σ) : Option Nat :=
  match s.env.link with
  | .connected generation => some generation
  | _ => none

/-- Hands a request's bytes to the transport. -/
@[simps] def put (s : State σ) (writer : Writer) (seq : Nat) (q : Request) (complete : Bool) :
    State σ :=
  { s with
    wire := s.wire ++
      [⟨writer, seq, q.reply, complete, s.env.now, s.session, s.env.gate⟩]
    log := .wrote s.wire.length :: s.log }

/-- Emits an alarm event. -/
@[simps!] def alarm (s : State σ) (a : Alarm) (source : Source) : State σ :=
  (s.setMemory (s.memory.alarm a source)).record (.alarm a)

/-- The transport failed; the loss is reported once. -/
def linkDown (s : State σ) : State σ :=
  let t := (s.setLinkUp false).record .linkDown
  if s.linkUp then t.alarm .linkDown .api else t

/-- Records a successful set in the cache. -/
@[simps!] def applySet (s : State σ) (op : Op) (source : Source) : State σ :=
  (s.setMemory (s.memory.applySet op source s.env.now)).record (.applied op s.env.now)

/-- A write went out whole: note the time, and remember the request when it expects a reply. -/
@[simps!] def noteWritten (s : State σ) (kind : ReplyKind) (seq : Nat) (timeout : Duration)
    (write : Nat) : State σ :=
  { s with
    lastWrite := some s.env.now
    memory := s.memory.noteWritten kind seq timeout write s.env.now }

end State

end HamsOpen.Rig
