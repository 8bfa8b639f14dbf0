import HamsOpen.Lib.Machine
import HamsOpen.Rig.Step

/-!
# Handles, the link supervisor and the whole rig

What runs beside the actor: the calls of `RigHandle::submit` on any number of threads, each one
atomic operation of the source at a time, the gate and the heartbeat of the handles, the supervisor
of the port, the bytes that arrive and the clock. `Rig.machine` interleaves all of it with the
actor's steps.

A call of `submit` is a `Call` with the stage it has reached. An emergency command is first counted,
then tried on the queue; after that the call either wakes the actor, or takes its count back, and an
unkey that found the queue full then joins the waiters.
-/

namespace HamsOpen.Rig

/-- What can happen next: the actor goes on, or one of the tasks beside it does something. -/
inductive Act
  | actor (i : Resume)
  | tick (n : Duration)
  | submit (op : Op) (timeout : Duration) (source : Source)
  | call (i : Nat)
  | openGate
  | closeGate
  | heartbeat
  | heartbeatNotify
  | dropHandles
  | portLost
  | portOpened
  | portClosed
  | watchDropped
  | deliver (chunk : Chunk)
  | streamEnded (why : String)
  deriving DecidableEq

namespace State

variable {σ : Type} (cfg : Setup σ)

/-! ### `RigHandle::submit` -/

/-- The checks of `submit`; a command that passes them gets a deadline and a reply channel. -/
def submit (s : State σ) (op : Op) (timeout : Duration) (source : Source) : State σ :=
  if !cfg.engine.capabilities.has op.requiredCapability then s
  else if op.transmits && !s.env.gate then s
  else
    s.setEnv { s.env with
      calls := s.env.calls ++
        [⟨⟨op, deadlineAfter s.env.now timeout, source, s.env.nextReply⟩, .checked⟩]
      nextReply := s.env.nextReply + 1 }

/-- The call at index `i` has reached another stage. -/
def advance (env : Env) (i : Nat) (stage : CallStage) : Env :=
  { env with calls := env.calls.modify i fun c => { c with stage } }

/-- The call at index `i` has returned. -/
def finish (env : Env) (i : Nat) : Env := { env with calls := env.calls.eraseIdx i }

/-- The next atomic operation of the call at index `i`. -/
def callStep (s : State σ) (i : Nat) (c : Call) : State σ :=
  let env := s.env
  match c.stage with
  | .checked =>
    if c.command.op.isEmergency then
      s.setEnv (advance { env with emergencyPending := env.emergencyPending + 1 } i .counted)
    else if env.normal.length < max cfg.queueCapacity 1 then
      (s.setEnv (finish { env with normal := env.normal ++ [c.command] } i)).record
        (.accepted c.command)
    else s.setEnv (finish env i)
  | .counted =>
    if env.emergency.length < EMERGENCY_QUEUE then
      (s.setEnv (advance { env with emergency := env.emergency ++ [c.command] } i .sent)).record
        (.accepted c.command)
    -- An unkey is never refused: it rides on a pending one.
    else if c.command.op.isUnkey then s.setEnv (advance env i .full)
    else s.setEnv (advance env i .uncount)
  | .sent => s.setEnv (finish { env with emergencyWake := true } i)
  | .full =>
    s.setEnv (advance { env with emergencyPending := env.emergencyPending - 1 } i .riding)
  | .riding =>
    (({ s with unkeyWaiters := s.unkeyWaiters ++ [c.command.reply] }).setEnv
      (finish env i)).record (.joined c.command.reply)
  | .uncount =>
    s.setEnv (finish { env with emergencyPending := env.emergencyPending - 1 } i)

/-! ### One step of anything -/

/-- A change of what the handles share, while there is a handle. -/
def byHandle (s : State σ) (env : Env) : Option (State σ) :=
  if s.env.handlesGone then none else some (s.setEnv env)

/-- A new link status from the supervisor of the port, while there is one. -/
def setLink (s : State σ) (link : LinkStatus) (opens : Nat) : Option (State σ) :=
  if s.env.linkWatch && !s.env.watchClosed && s.env.link != .closed then
    some (s.setEnv { s.env with link, opens, linkUnseen := true })
  else none

/-- The state after `act`, when it is possible. -/
def step (s : State σ) : Act → Option (State σ)
  | .actor i => s.resume cfg i
  | .tick n => some (s.setEnv { s.env with now := s.env.now + n })
  | .submit op timeout source =>
    if s.env.handlesGone then none else some (s.submit cfg op timeout source)
  | .call i => (s.env.calls[i]?).map (s.callStep cfg i)
  | .openGate => s.byHandle { s.env with gate := true }
  | .closeGate => s.byHandle { s.env with gate := false }
  | .heartbeat => s.byHandle { s.env with lastHeartbeat := s.env.now }
  | .heartbeatNotify => s.byHandle { s.env with heartbeatWake := true }
  | .dropHandles =>
    if s.env.calls.isEmpty then s.byHandle { s.env with handlesGone := true } else none
  | .portLost => s.setLink .reconnecting s.env.opens
  | .portOpened =>
    (s.setLink (.connected (s.env.opens + 1)) (s.env.opens + 1)).map
      (·.record (.opened (s.env.opens + 1)))
  | .portClosed => s.setLink .closed s.env.opens
  | .watchDropped => some (s.setEnv { s.env with watchClosed := true })
  | .deliver chunk =>
    if s.env.rxEnd.isNone then some (s.setEnv { s.env with rx := s.env.rx ++ [chunk] }) else none
  | .streamEnded why =>
    if s.env.rxEnd.isNone then some (s.setEnv { s.env with rxEnd := some why }) else none

/-- A rig just spawned, with nothing queued and its gate closed. -/
def initial (engine : σ) (now : Instant) (link : LinkStatus) (opens : Nat)
    (linkWatch linkUnseen : Bool) : State σ where
  env :=
    { now, gate := false, emergencyPending := 0, emergencyWake := false, lastHeartbeat := now,
      heartbeatWake := false, emergency := [], normal := [], handlesGone := false, calls := [],
      nextReply := 0, link, linkUnseen, linkWatch, watchClosed := false, opens, rx := [],
      rxEnd := none }
  linkUp := true
  unkeyWaiters := []
  engine
  memory :=
    { cache := fun _ => none, outstanding := [],
      poll := .forCapabilities cfg.engine.capabilities cfg.poll now, keyedSince := none,
      events := [] }
  commandSeq := 0
  lastWrite := none
  linkGeneration := 0
  sessionOpened := false
  phase := .starting
  wire := []
  log := []

/-- Where a rig may start: the port, when it is open, has been opened `opens` times. -/
inductive Initial : State σ → Prop
  | intro (engine : σ) (now : Instant) (link : LinkStatus) (opens : Nat)
      (linkWatch linkUnseen : Bool) (hlink : ∀ g, link = .connected g → g = opens ∧ 0 < g) :
      Initial (initial cfg engine now link opens linkWatch linkUnseen)

/-- Nothing has been written, read, queued or logged at the start. -/
theorem Initial.start {cfg : Setup σ} {s : State σ} (h : s.Initial cfg) :
    s.phase = .starting ∧ s.wire = [] ∧ s.log = [] ∧ s.memory.outstanding = [] ∧
      s.env.rx = [] ∧ s.env.calls = [] ∧ s.env.emergency = [] ∧ s.env.normal = [] ∧
      s.unkeyWaiters = [] := by
  cases h
  exact ⟨rfl, rfl, rfl, rfl, rfl, rfl, rfl, rfl, rfl⟩

end State

/-- The rig actor with its handles, its port and its clock. -/
def machine {σ : Type} (cfg : Setup σ) : Machine (State σ) Act where
  init := State.Initial cfg
  step := State.step cfg

/-! ### A rig to compute with -/

/-- An engine each of whose input bytes decodes to one item of `table`, for a rig that gives each
command the kind of reply `reply` says. -/
def benchEngine (capabilities : CapabilitySet) (timeout : Duration) (retries : Nat)
    (interCommand : Duration) (reply : Op → ReplyKind) (table : List Inbound) : Engine Unit where
  capabilities
  timeout
  retries
  interCommand
  encode _ op := (.ok ⟨[], reply op⟩, ())
  encodeLines _ _ := (.ok none, ())
  feed _ bytes _ := (bytes.filterMap fun b => table[b.toNat]?, ())
  linkRestored _ := ([], ())
  openRequests _ := ([], ())

/-- A rig on the bench: nothing is polled, and transmissions are limited to a second. -/
def bench (engine : Engine Unit) : Setup Unit where
  engine
  queueCapacity := 4
  poll := ⟨false, 0, 0, 0, 0, 0⟩
  maxTransmit := 1000
  heartbeat := none
  controlLines := false

/-- The bench rig just spawned, on a port opened once. -/
def benchStart (engine : Engine Unit) : State Unit :=
  .initial (bench engine) () 0 (.connected 1) 1 true false

theorem benchStart_reachable (engine : Engine Unit) :
    (machine (bench engine)).Reachable (benchStart engine) :=
  .init ⟨(), 0, .connected 1, 1, true, false, by simp⟩

/-- The actor goes on; what it reads is one chunk, and what it writes goes out whole. -/
def Act.go : Act := .actor ⟨0, .done, .ok ()⟩

end HamsOpen.Rig
