import HamsOpen.Rig.Actor

/-!
# The actor's functions and its step

Each function of the actor (`rig.rs`) from one waiting place to the next, in the order they call
one another, and `State.resume`, which takes the actor from the place where it stands to the next.
A waiting place with several ways on tries them in the order of the source's `select!`.
-/

namespace HamsOpen.Rig

/-- How a write to the transport ended. -/
inductive WriteOutcome
  | done
  | failed (why : String)
  | timedOut
  deriving DecidableEq

/-- What the surroundings decide when the actor resumes: how many chunks a read returns beyond the
first, how a write ended, and how a control-line sequence ended. -/
structure Resume where
  chunks : Nat
  write : WriteOutcome
  lines : Except RigError Unit
  deriving DecidableEq

/-- Who writes in `run_command`: the operation, and the answer it is run for. -/
def Run.writer (r : Run) : Writer :=
  .command r.op
    (match r.caller with
    | .served c => some c.reply
    | .polled _ _ _ => none)

namespace State

variable {σ : Type} (cfg : Setup σ)

/-- When the transmit watchdog fires, while the rig transmits: the earlier of the transmit time
limit and the lapse of the caller's heartbeat. -/
def watchdogDue (s : State σ) : Option Instant :=
  s.memory.keyedSince.map fun keyed =>
    let limit := deadlineAfter keyed cfg.maxTransmit
    match cfg.heartbeat with
    | none => limit
    | some period => min limit (deadlineAfter (max s.env.lastHeartbeat keyed) period)

/-- Back to the actor's loop. -/
def toSelect (s : State σ) : State σ := s.setPhase (.select (s.watchdogDue cfg))

/-! ### Answering a command -/

/-- The end of `serve`: an unkey that failed is reported, the waiters that rode on it get its
result, and so does its own caller. -/
def answer (s : State σ) (c : Command) (result : Reply) : State σ :=
  let s :=
    if c.op.isUnkey then
      let s := if Reply.isOk result then s else s.alarm .unkeyFailed c.source
      { s with
        unkeyWaiters := []
        log := (s.unkeyWaiters.map fun w => .answered w result c).reverse ++ s.log }
    else s
  s.record (.answered c.reply result c)

/-- `run_command` as `serve` calls it. -/
def serveRun (c : Command) (mayPreempt : Bool) : Run :=
  ⟨c.op, c.deadline, c.source, mayPreempt, .served c⟩

/-- `run_command` has returned. -/
def returnRun (s : State σ) (r : Run) (result : Reply) : State σ :=
  let s := s.record (.returned r.op result)
  match r.caller with
  | .served c => (s.answer c result).toSelect cfg
  | .polled entry before next =>
    let after := s.memory.value entry.field
    let s := s.setMemory
      { s.memory with
        poll := s.memory.poll.report entry.field (before != after) (!Reply.isOk result) s.env.now }
    match next with
    | some c => s.setPhase (.begin (serveRun c true))
    | none => s.toSelect cfg

/-! ### Session requests and the fail-closed unkey -/

/-- `link_status_changed` has returned: the start goes on to the open requests. -/
def linkStatusReturned (s : State σ) (starting : Bool) : State σ :=
  if starting then s.setPhase .opening else s.toSelect cfg

/-- `write_session_requests` has returned to its caller. -/
def sessionReturned (s : State σ) : SessionCaller → State σ
  | .restore starting => (s.alarm .linkRestored .api).linkStatusReturned cfg starting
  | .opening => s.toSelect cfg

/-- Writes session requests once each, in order; the rest are dropped when the link is down. -/
def writeSessionRequests (s : State σ) (k : SessionCaller) : List Request → State σ
  | [] => s.sessionReturned cfg k
  | q :: rest =>
    if s.linkUp then
      s.setPhase (.sessionWriting k q rest (deadlineAfter s.env.now cfg.engine.timeout))
    else s.sessionReturned cfg k

/-- Writes the requests the engine returns for a restored link, after the unkey. -/
def restoreSession (s : State σ) (starting : Bool) : State σ :=
  let (requests, engine) := cfg.engine.linkRestored s.engine
  (s.sessionStarted engine).writeSessionRequests cfg (.restore starting) requests

/-- Once, as the actor starts with the link up: writes the engine's open requests. -/
def openSession (s : State σ) : State σ :=
  if s.sessionOpened || !s.linkUp then s.toSelect cfg
  else
    let (requests, engine) := cfg.engine.openRequests s.engine
    (s.sessionStarted engine).writeSessionRequests cfg .opening requests

/-- `unkey_fail_closed` has returned to its caller. -/
def unkeyReturned (s : State σ) : Unkeyer → State σ
  | .writeTimedOut r =>
    s.returnRun cfg r (.error ⟨.timeout, "write did not finish before the deadline"⟩)
  | .notAnswered r => s.returnRun cfg r (.error ⟨.timeout, "no reply from the rig"⟩)
  | .watchdog => s.toSelect cfg
  | .linkRestored starting => s.restoreSession cfg starting
  | .stopping => s.setPhase .stopped

/-- The end of `unkey_fail_closed`: the unkey is recorded, or reported as failed. -/
def unkeyFinished (s : State σ) (u : Unkeyer) (source : Source) (done : Bool) : State σ :=
  let s :=
    if done then s.applySet (.setPtt false) source
    else s.alarm .unkeyFailed source
  s.unkeyReturned cfg u

/-- One turn of the attempt loop of `unkey_fail_closed`, up to its write or its backoff. -/
def unkeyAttempt (s : State σ) (u : Unkeyer) (source : Source) (q : Request) (seq attempt : Nat) :
    State σ :=
  if UNKEY_ATTEMPTS ≤ attempt || !s.linkUp then s.unkeyFinished cfg u source false
  else if 0 < attempt then
    s.setPhase (.unkeyBackoff u source q seq attempt
      (deadlineAfter s.env.now (UNKEY_BACKOFF * attempt)))
  else
    s.setPhase (.unkeyWriting u source q seq attempt
      (deadlineAfter s.env.now cfg.engine.timeout))

/-- Writes an unkey to the rig and waits for its answer within the engine's timeout, not
preemptible, up to `UNKEY_ATTEMPTS` times with a short backoff. An unkey that cannot be done is
reported as an alarm. -/
def unkeyFailClosed (s : State σ) (u : Unkeyer) (source : Source) : State σ :=
  if cfg.engine.capabilities.has .setPtt then
    let (request, engine) := cfg.engine.encode s.engine (.setPtt false)
    let s := (s.setEngine engine).nextSeq
    match request with
    | .ok q => s.unkeyAttempt cfg u source q s.commandSeq 0
    | .error _ => s.unkeyFinished cfg u source false
  else s.nextSeq.unkeyFinished cfg u source false

/-! ### Running a command -/

/-- Before a normal command is written: while an abandoned command's reply may still come, wait and
take in input until the last such expectation lapses, or the deadline. -/
def drainStale (s : State σ) (r : Run) (q : Request) (seq left : Nat) : State σ :=
  let s := s.setMemory (s.memory.pruneOutstanding s.env.now)
  match (s.memory.outstanding.map (·.expires)).max? with
  | none => s.setPhase (.writing r q seq left)
  | some last =>
    let limit := min last r.deadline
    if limit ≤ s.env.now then s.setPhase (.writing r q seq left)
    else s.setPhase (.draining r q seq left limit)

/-- When the next command may be written, if that is in the future. -/
def spacing (s : State σ) (deadline : Instant) : Option Instant :=
  s.lastWrite.bind fun last =>
    let ready := min (deadlineAfter last cfg.engine.interCommand) deadline
    if s.env.now < ready then some ready else none

/-- One turn of the attempt loop of `run_command`, up to its first wait. An emergency command waits
neither for the spacing nor for an abandoned command's late reply. -/
def attempt (s : State σ) (r : Run) (q : Request) (seq left : Nat) : State σ :=
  if r.op.isEmergency then s.setPhase (.writing r q seq left)
  else
    match s.spacing cfg r.deadline with
    | some ready => s.setPhase (.spacing r q seq left ready)
    | none => s.drainStale r q seq left

/-- How many times a command is written at most, beyond the first. A transmit command is never
repeated. -/
def extraAttempts (op : Op) : Nat := if op.transmits then 0 else cfg.engine.retries

/-- Drives a control-line sequence, up to the blocking thread that runs it. -/
def runLineSteps (s : State σ) (r : Run) : State σ :=
  if r.op.transmits then
    s.returnRun cfg r
      (.error ⟨.unsupported, "a control-line sequence never carries a transmit command"⟩)
  else if !cfg.controlLines then
    s.returnRun cfg r
      (.error ⟨.unsupported, "this transport has no control lines to drive"⟩)
  else if !s.linkUp then s.returnRun cfg r (.error ⟨.linkDown, "transport is down"⟩)
  else s.setPhase (.lines r)

/-- Whether the frequency the rig would transmit on is known from the rig's own reports. -/
def knownTxFrequency (s : State σ) : Bool :=
  (s.memory.txState.knownForTransmit (cfg.engine.capabilities.has .split)).isSome

/-- The checks and the encoding of `run_command`, up to its first wait. -/
def runCommand (s : State σ) (r : Run) : State σ :=
  if !s.linkUp then s.returnRun cfg r (.error ⟨.linkDown, "transport is down"⟩)
  else if r.deadline ≤ s.env.now then
    s.returnRun cfg r (.error ⟨.timeout, "deadline passed before the command ran"⟩)
  else if r.op.transmits && !s.env.gate then
    s.returnRun cfg r
      (.error ⟨.transmitGateClosed, "transmit gate is closed for this rig"⟩)
  else if r.op.transmits && !s.knownTxFrequency cfg then
    s.returnRun cfg r
      (.error ⟨.transmitFrequencyUnknown, "the frequency the rig would transmit on is not known (split state or transmit VFO frequency unread)"⟩)
  else
    let (lines, engine) := cfg.engine.encodeLines s.engine r.op
    let s := s.setEngine engine
    match lines with
    | .error e => s.returnRun cfg r (.error e)
    | .ok (some _) => s.runLineSteps cfg r
    | .ok none =>
      let (request, engine) := cfg.engine.encode s.engine r.op
      let s := s.setEngine engine
      match request with
      | .error e => s.returnRun cfg r (.error e)
      | .ok q => s.nextSeq.attempt cfg r q s.nextSeq.commandSeq (extraAttempts cfg r.op)

/-- Reads one polled field; `next` is the queued command the read was put ahead of. -/
def pollEntry (s : State σ) (entry : PollEntry) (next : Option Command) : State σ :=
  s.setPhase (.begin ⟨entry.op, deadlineAfter s.env.now cfg.engine.timeout, .poll, true,
    .polled entry (s.memory.value entry.field) next⟩)

/-- Before a queued command is served, the PTT state is read if that has not been done for
`PollConfig::ptt_reserve`. -/
def pollReserved (s : State σ) (c : Command) : State σ :=
  match
    if s.linkUp then s.memory.poll.takeStarved .ptt s.env.now cfg.poll.pttReserve else none
  with
  | some entry => s.pollEntry cfg entry (some c)
  | none => s.setPhase (.begin (serveRun c true))

/-! ### The loop's own branches -/

/-- Applies the transport's current link status; a reopen unkeys the rig before anything else. -/
def linkStatusChanged (s : State σ) (starting : Bool) : State σ :=
  if !s.env.linkWatch then s.linkStatusReturned cfg starting
  else
    let s := s.seeLink
    match s.env.link with
    | .connected generation =>
      let first := s.linkGeneration == 0
      if generation = s.linkGeneration then s.linkStatusReturned cfg starting
      else
        let wasUp := s.linkUp
        let s := s.linkOpened generation
        if first && wasUp then s.linkStatusReturned cfg starting
        else s.unkeyFailClosed cfg (.linkRestored starting) .api
    | .reconnecting | .closed => s.linkDown.linkStatusReturned cfg starting

/-- The watchdog lapsed: report why, disarm, and unkey through the fail-closed path. -/
def watchdogFire (s : State σ) : State σ :=
  match s.memory.keyedSince with
  | none => s.toSelect cfg
  | some keyed =>
    let s := s.disarm
    let alarm :=
      if deadlineAfter keyed cfg.maxTransmit ≤ s.env.now then Alarm.transmitTimeout
      else .heartbeatLapsed
    (s.alarm alarm .watchdog).unkeyFailClosed cfg .watchdog .watchdog

/-- The last handle is gone: a rig that may be transmitting is unkeyed before the actor ends. -/
def unkeyOnStop (s : State σ) : State σ :=
  if s.memory.value .ptt == some (.ptt true) || s.env.gate then
    s.unkeyFailClosed cfg .stopping .api
  else s.setPhase .stopped

/-! ### Reading -/

/-- What the engine makes of some chunks, each item with the request its chunk answers. -/
def feedAll (engine : Engine σ) (now : Instant) : σ → List Chunk → List Item × σ
  | e, [] => ([], e)
  | e, c :: cs =>
    let (items, e) := engine.feed e c.bytes now
    let (rest, e) := feedAll engine now e cs
    (items.map (·, c.answers) ++ rest, e)

/-- Reads the first `n + 1` chunks: the decoded items, with the chunks taken off the transport. -/
def read (s : State σ) (n : Nat) : List Item × State σ :=
  let (items, engine) := feedAll cfg.engine s.env.now s.engine (s.env.rx.take (n + 1))
  (items,
    ((s.setEngine engine).setEnv { s.env with rx := s.env.rx.drop (n + 1) }).record
      (.absorbed items s.env.now))

/-- Reads and takes in bytes while no command waits. -/
def ingest (s : State σ) (n : Nat) : State σ :=
  let (items, s) := s.read cfg n
  s.setMemory (s.memory.ingest cfg.engine.capabilities s.env.now items)

/-- Reads and takes in bytes for a command that waits; its result once it is decided. -/
def absorb (s : State σ) (n : Nat) (expect : ReplyKind) (seq : Nat) (source : Source) :
    State σ × Option Reply :=
  let (items, s) := s.read cfg n
  let (memory, done) :=
    Memory.absorb cfg.engine.capabilities expect seq source s.env.now s.memory none items
  let s := s.setMemory memory
  match done with
  | some (result, write) => (s.record (.credited seq result write), some result)
  | none => (s, none)

/-! ### The step from each waiting place -/

/-- A command abandoned for an emergency command, or for the watchdog. -/
def preempted (s : State σ) (r : Run) : State σ :=
  s.returnRun cfg r (.error ⟨.cancelled, "abandoned for an emergency command"⟩)

/-- A command whose read found the transport gone. -/
def linkLost (s : State σ) (r : Run) (why : String) : State σ :=
  s.linkDown.returnRun cfg r (.error ⟨.linkDown, why⟩)

/-- Takes the stored wake-up of the emergency path. -/
def takeEmergencyWake (s : State σ) : State σ := s.setEnv { s.env with emergencyWake := false }

/-- Takes the stored wake-up of a heartbeat. -/
def takeHeartbeatWake (s : State σ) : State σ := s.setEnv { s.env with heartbeatWake := false }

/-- The actor's loop: the emergency channel, a link change, the watchdog, a heartbeat, the command
queue, received bytes, and a due poll, in this order. -/
def selectStep (s : State σ) (watchdog : Option Instant) (n : Nat) : Option (State σ) :=
  match s.env.emergency with
  | c :: rest =>
    some ((s.takeEmergency c rest).setPhase (.begin (serveRun c false)))
  | [] =>
    if s.env.handlesGone then some (s.unkeyOnStop cfg)
    else if s.env.linkWatch && s.env.linkUnseen then some (s.linkStatusChanged cfg false)
    else if s.env.linkWatch && s.env.watchClosed then
      some ((s.setEnv { s.env with linkWatch := false }).linkDown.toSelect cfg)
    else if watchdog.any (· ≤ s.env.now) then some (s.watchdogFire cfg)
    else if s.env.heartbeatWake && watchdog.isSome then some (s.takeHeartbeatWake.toSelect cfg)
    else
      match s.env.normal with
      | c :: rest =>
        some ((s.takeNormal c rest).pollReserved cfg c)
      | [] =>
        if !s.linkUp then none
        else if !s.env.rx.isEmpty then some ((s.ingest cfg n).toSelect cfg)
        else if s.env.rxEnd.isSome then some (s.linkDown.toSelect cfg)
        else if s.memory.poll.nextDue.any (· ≤ s.env.now) then
          some (s.setPhase
            (.polling s.env.now (s.memory.value .ptt == some (.ptt true))))
        else none

/-- One turn of the loop of `poll_once`: the next due entry is read or pushed back. -/
def pollStep (s : State σ) (now : Instant) (transmitting : Bool) : State σ :=
  if s.memory.poll.nextDue.any (· ≤ now) then
    match s.memory.poll.takeDue now transmitting with
    | (some entry, _) => s.pollEntry cfg entry none
    | (none, poll) => s.setMemory { s.memory with poll }
  else s.toSelect cfg

/-- The control-line thread has ended. -/
def linesStep (s : State σ) (r : Run) : Except RigError Unit → State σ
  | .ok () => (s.applySet r.op r.source).returnRun cfg r (.ok none)
  | .error e =>
    (if e.kind = .linkDown then s.linkDown else s).returnRun cfg r (.error e)

/-- One turn of the loop of `drain_stale`. -/
def drainStep (s : State σ) (r : Run) (q : Request) (seq left : Nat) (limit : Instant) (n : Nat) :
    Option (State σ) :=
  if r.mayPreempt && s.env.emergencyWake then
    let s := s.takeEmergencyWake
    if 0 < s.env.emergencyPending then some (s.preempted cfg r)
    else some (s.drainStale r q seq left)
  else if !s.env.rx.isEmpty then some ((s.ingest cfg n).drainStale r q seq left)
  else
    match s.env.rxEnd with
    | some why => some (s.linkLost cfg r why)
    | none => if limit ≤ s.env.now then some (s.setPhase (.writing r q seq left)) else none

/-- The write of one attempt has ended. -/
def writeStep (s : State σ) (r : Run) (q : Request) (seq left : Nat) :
    WriteOutcome → Option (State σ)
  | .timedOut =>
    if r.deadline ≤ s.env.now then
      let s := s.put r.writer seq q false
      -- Part of a transmit command may already be on the wire.
      if r.op.transmits then some (s.unkeyFailClosed cfg (.writeTimedOut r) r.source)
      else some (s.returnRun cfg r
        (.error ⟨.timeout, "write did not finish before the deadline"⟩))
    else none
  | .failed why => some ((s.put r.writer seq q false).linkLost cfg r why)
  | .done =>
    let index := s.wire.length
    let s := (s.put r.writer seq q true).noteWritten q.reply seq cfg.engine.timeout index
    if q.reply = .none then some ((s.applySet r.op r.source).returnRun cfg r (.ok none))
    else
      some (s.setPhase (.awaiting r q seq left
        (min r.deadline (deadlineAfter s.env.now cfg.engine.timeout)) (s.watchdogDue cfg)))

/-- The reply did not come in time: the next attempt, or the end. A transmit command that was
written and never answered may have keyed the rig, so it is unkeyed. -/
def replyTimedOut (s : State σ) (r : Run) (q : Request) (seq left : Nat) : State σ :=
  match left with
  | left + 1 =>
    if r.deadline ≤ s.env.now then giveUp s else s.attempt cfg r q seq left
  | 0 => giveUp s
where
  giveUp (s : State σ) : State σ :=
    if r.op.transmits then s.unkeyFailClosed cfg (.notAnswered r) r.source
    else s.returnRun cfg r (.error ⟨.timeout, "no reply from the rig"⟩)

/-- A command's reply has decided it. -/
def replied (s : State σ) (r : Run) (result : Reply) : State σ :=
  (if Reply.isOk result then s.applySet r.op r.source else s).returnRun cfg r result

/-- One turn of the loop of `await_reply` for a command. The watchdog also preempts a command that
waits for a reply, so that a slow rig cannot hold the actor past the transmit limit. -/
def awaitStep (s : State σ) (r : Run) (q : Request) (seq left : Nat) (limit : Instant)
    (watchdog : Option Instant) (n : Nat) : Option (State σ) :=
  let again (s : State σ) : State σ :=
    s.setPhase (.awaiting r q seq left limit (s.watchdogDue cfg))
  if r.mayPreempt && s.env.emergencyWake then
    let s := s.takeEmergencyWake
    if 0 < s.env.emergencyPending then some (s.preempted cfg r) else some (again s)
  else if r.mayPreempt && watchdog.any (· ≤ s.env.now) then some (s.preempted cfg r)
  else if r.mayPreempt && s.env.heartbeatWake && watchdog.isSome then
    some (again s.takeHeartbeatWake)
  else if !s.env.rx.isEmpty then
    match s.absorb cfg n q.reply seq r.source with
    | (s, some result) => some (s.replied cfg r result)
    | (s, none) => some (again s)
  else
    match s.env.rxEnd with
    | some why => some (s.linkLost cfg r why)
    | none => if limit ≤ s.env.now then some (s.replyTimedOut cfg r q seq left) else none

/-- The write of one unkey attempt has ended. -/
def unkeyWriteStep (s : State σ) (u : Unkeyer) (source : Source) (q : Request) (seq attempt : Nat)
    (limit : Instant) : WriteOutcome → Option (State σ)
  | .timedOut =>
    if limit ≤ s.env.now then
      some ((s.put .unkey seq q false).unkeyAttempt cfg u source q seq (attempt + 1))
    else none
  | .failed _ => some ((s.put .unkey seq q false).linkDown.unkeyFinished cfg u source false)
  | .done =>
    let index := s.wire.length
    let s := (s.put .unkey seq q true).noteWritten q.reply seq cfg.engine.timeout index
    if q.reply = .none then some (s.unkeyFinished cfg u source true)
    else some (s.setPhase (.unkeyAwaiting u source q seq attempt limit))

/-- One turn of the loop of `await_reply` for an unkey of the actor's own. -/
def unkeyAwaitStep (s : State σ) (u : Unkeyer) (source : Source) (q : Request) (seq attempt : Nat)
    (limit : Instant) (n : Nat) : Option (State σ) :=
  if !s.env.rx.isEmpty then
    match s.absorb cfg n q.reply seq source with
    | (s, some (.ok _)) => some (s.unkeyFinished cfg u source true)
    | (s, some (.error _)) => some (s.unkeyAttempt cfg u source q seq (attempt + 1))
    | (s, none) => some s
  else if s.env.rxEnd.isSome || limit ≤ s.env.now then
    some (s.unkeyAttempt cfg u source q seq (attempt + 1))
  else none

/-- The write of one session request has ended. -/
def sessionWriteStep (s : State σ) (k : SessionCaller) (q : Request) (rest : List Request)
    (limit : Instant) : WriteOutcome → Option (State σ)
  | .timedOut =>
    if limit ≤ s.env.now then
      some ((s.put .session s.commandSeq q false).writeSessionRequests cfg k rest)
    else none
  | .failed _ => some ((s.put .session s.commandSeq q false).linkDown.sessionReturned cfg k)
  | .done =>
    let index := s.wire.length
    let s := s.nextSeq
    let seq := s.commandSeq
    let s := (s.put .session seq q true).noteWritten q.reply seq cfg.engine.timeout index
    if q.reply = .none then some (s.writeSessionRequests cfg k rest)
    else some (s.setPhase (.sessionAwaiting k q seq rest limit))

/-- One turn of the loop of `await_reply` for a session request, whatever its result. -/
def sessionAwaitStep (s : State σ) (k : SessionCaller) (q : Request) (seq : Nat)
    (rest : List Request) (limit : Instant) (n : Nat) : Option (State σ) :=
  if !s.env.rx.isEmpty then
    match s.absorb cfg n q.reply seq .api with
    | (s, some _) => some (s.writeSessionRequests cfg k rest)
    | (s, none) => some s
  else if s.env.rxEnd.isSome || limit ≤ s.env.now then
    some (s.writeSessionRequests cfg k rest)
  else none

/-- The actor goes on from where it stands, if nothing it waits for is missing. -/
def resume (s : State σ) (i : Resume) : Option (State σ) :=
  match s.phase with
  | .starting => some (s.linkStatusChanged cfg true)
  | .opening => some (s.openSession cfg)
  | .select watchdog => s.selectStep cfg watchdog i.chunks
  | .polling now transmitting => some (s.pollStep cfg now transmitting)
  | .begin r => some (s.runCommand cfg r)
  | .lines r => some (s.linesStep cfg r i.lines)
  | .spacing r q seq left ready =>
    if ready ≤ s.env.now then some (s.drainStale r q seq left) else none
  | .draining r q seq left limit => s.drainStep cfg r q seq left limit i.chunks
  | .writing r q seq left => s.writeStep cfg r q seq left i.write
  | .awaiting r q seq left limit watchdog => s.awaitStep cfg r q seq left limit watchdog i.chunks
  | .unkeyBackoff u source q seq attempt limit =>
    if limit ≤ s.env.now then
      some (s.setPhase (.unkeyWriting u source q seq attempt
        (deadlineAfter s.env.now cfg.engine.timeout)))
    else none
  | .unkeyWriting u source q seq attempt limit =>
    s.unkeyWriteStep cfg u source q seq attempt limit i.write
  | .unkeyAwaiting u source q seq attempt limit =>
    s.unkeyAwaitStep cfg u source q seq attempt limit i.chunks
  | .sessionWriting k q rest limit => s.sessionWriteStep cfg k q rest limit i.write
  | .sessionAwaiting k q seq rest limit => s.sessionAwaitStep cfg k q seq rest limit i.chunks
  | .stopped => none

end State

end HamsOpen.Rig
