import HamsOpen.Rig.Handle

/-!
# What one step can do

`State.resume` is a tree of functions. `Move` lists, once, every way through its waiting places:
where the actor stood, what it found there, and which function it then ran. `Beside` does the same
for the steps of everything beside the actor, and `Aside` says what those leave as it is. An invariant is proved by cases on these two.
-/

namespace HamsOpen.Rig

/-- The run whose draining or reply the actor waits for. -/
def Phase.waitsFor : Phase → Option Run
  | .draining r _ _ _ _ | .awaiting r _ _ _ _ _ => some r
  | _ => none

/-- An event that something beside the actor logs. -/
def Event.aside : Event → Bool
  | .accepted _ | .joined _ | .opened _ => true
  | _ => false

namespace State

variable {σ : Type} {cfg : Setup σ} {s t : State σ}

/-- The actor is at its loop, with no emergency command, no end and no link change to see to. -/
structure Idle (s : State σ) (watchdog : Option Instant) : Prop where
  phase : s.phase = .select watchdog
  emergency : s.env.emergency = []
  handles : s.env.handlesGone = false
  link : (s.env.linkWatch && s.env.linkUnseen) = false

/-- One step of the actor. -/
inductive Move (cfg : Setup σ) (s : State σ) : State σ → Prop
  | start (hphase : s.phase = .starting) : Move cfg s (s.linkStatusChanged cfg true)
  | openSession (hphase : s.phase = .opening) : Move cfg s (s.openSession cfg)
  -- The loop.
  | takeEmergency {w : Option Instant} {c : Command} {rest : List Command}
      (hphase : s.phase = .select w) (hqueue : s.env.emergency = c :: rest) :
      Move cfg s ((s.takeEmergency c rest).setPhase (.begin (serveRun c false)))
  | stop {w : Option Instant} (hphase : s.phase = .select w) (hqueue : s.env.emergency = [])
      (hgone : s.env.handlesGone = true) : Move cfg s (s.unkeyOnStop cfg)
  | linkChanged {w : Option Instant} (hphase : s.phase = .select w)
      (hqueue : s.env.emergency = []) (hwatch : s.env.linkWatch = true)
      (hunseen : s.env.linkUnseen = true) : Move cfg s (s.linkStatusChanged cfg false)
  | watchGone {w : Option Instant} (hidle : s.Idle w) (hwatch : s.env.linkWatch = true) :
      Move cfg s ((s.setEnv { s.env with linkWatch := false }).linkDown.toSelect cfg)
  | fire {w : Option Instant} (hidle : s.Idle w) (hdue : w.any (· ≤ s.env.now) = true) :
      Move cfg s (s.watchdogFire cfg)
  | beat {w : Option Instant} (hidle : s.Idle w) : Move cfg s (s.takeHeartbeatWake.toSelect cfg)
  | takeNormal {w : Option Instant} {c : Command} {rest : List Command} (hidle : s.Idle w)
      (hqueue : s.env.normal = c :: rest) :
      Move cfg s ((s.takeNormal c rest).pollReserved cfg c)
  | hear {w : Option Instant} (n : Nat) (hidle : s.Idle w) (hrx : s.env.rx ≠ []) :
      Move cfg s ((s.ingest cfg n).toSelect cfg)
  | ended {w : Option Instant} (hidle : s.Idle w) : Move cfg s (s.linkDown.toSelect cfg)
  | duePoll {w : Option Instant} (transmitting : Bool) (hidle : s.Idle w) (hup : s.linkUp = true) :
      Move cfg s (s.setPhase (.polling s.env.now transmitting))
  | poll {now : Instant} {transmitting : Bool} (hphase : s.phase = .polling now transmitting) :
      Move cfg s (s.pollStep cfg now transmitting)
  -- A command.
  | run {r : Run} (hphase : s.phase = .begin r) : Move cfg s (s.runCommand cfg r)
  | lines {r : Run} (result : Except RigError Unit) (hphase : s.phase = .lines r) :
      Move cfg s (s.linesStep cfg r result)
  | spaced {r : Run} {q : Request} {seq left : Nat} {ready : Instant}
      (hphase : s.phase = .spacing r q seq left ready) : Move cfg s (s.drainStale r q seq left)
  | drainWoken {r : Run} {q : Request} {seq left : Nat} {limit : Instant}
      (hphase : s.phase = .draining r q seq left limit) (hwake : s.env.emergencyWake = true) :
      Move cfg s (s.takeEmergencyWake.drainStale r q seq left)
  | drainHeard {r : Run} {q : Request} {seq left : Nat} {limit : Instant} (n : Nat)
      (hphase : s.phase = .draining r q seq left limit) (hrx : s.env.rx ≠ []) :
      Move cfg s ((s.ingest cfg n).drainStale r q seq left)
  | drained {r : Run} {q : Request} {seq left : Nat} {limit : Instant}
      (hphase : s.phase = .draining r q seq left limit) (hlimit : limit ≤ s.env.now)
      (hrx : s.env.rx = []) : Move cfg s (s.setPhase (.writing r q seq left))
  | preempted {r : Run} {s' : State σ} (hwaits : s.phase.waitsFor = some r)
      (hmay : r.mayPreempt = true) (hs' : s' = s ∨ s' = s.takeEmergencyWake) :
      Move cfg s (s'.preempted cfg r)
  | lost {r : Run} (why : String) (hwaits : s.phase.waitsFor = some r) :
      Move cfg s (s.linkLost cfg r why)
  | writeCut {r : Run} {q : Request} {seq left : Nat} (hphase : s.phase = .writing r q seq left)
      (htransmits : r.op.transmits = true) :
      Move cfg s ((s.put r.writer seq q false).unkeyFailClosed cfg (.writeTimedOut r) r.source)
  | writeLate {r : Run} {q : Request} {seq left : Nat} (hphase : s.phase = .writing r q seq left)
      (htransmits : r.op.transmits = false) :
      Move cfg s ((s.put r.writer seq q false).returnRun cfg r
        (.error ⟨.timeout, "write did not finish before the deadline"⟩))
  | writeFailed {r : Run} {q : Request} {seq left : Nat} (why : String)
      (hphase : s.phase = .writing r q seq left) :
      Move cfg s ((s.put r.writer seq q false).linkLost cfg r why)
  | writeDone {r : Run} {q : Request} {seq left : Nat} (hphase : s.phase = .writing r q seq left)
      (hreply : q.reply = .none) :
      Move cfg s ((((s.put r.writer seq q true).noteWritten q.reply seq cfg.engine.timeout
        s.wire.length).applySet r.op r.source).returnRun cfg r (.ok none))
  | written {r : Run} {q : Request} {seq left : Nat} {s' : State σ}
      (hphase : s.phase = .writing r q seq left) (hreply : q.reply ≠ .none)
      (hs' : s' = (s.put r.writer seq q true).noteWritten q.reply seq cfg.engine.timeout
        s.wire.length) :
      Move cfg s (s'.setPhase (.awaiting r q seq left
        (min r.deadline (deadlineAfter s.env.now cfg.engine.timeout)) (s'.watchdogDue cfg)))
  | awaitWoken {r : Run} {q : Request} {seq left : Nat} {limit : Instant} {w : Option Instant}
      {s' : State σ} (hphase : s.phase = .awaiting r q seq left limit w)
      (hs' : s' = s.takeEmergencyWake ∧ s.env.emergencyWake = true ∨
        s' = s.takeHeartbeatWake ∧ s.env.heartbeatWake = true) :
      Move cfg s (s'.setPhase (.awaiting r q seq left limit (s'.watchdogDue cfg)))
  | undecided {r : Run} {q : Request} {seq left : Nat} {limit : Instant} {w : Option Instant}
      {s' : State σ} (n : Nat) (hphase : s.phase = .awaiting r q seq left limit w)
      (hrx : s.env.rx ≠ []) (habsorb : s.absorb cfg n q.reply seq r.source = (s', none)) :
      Move cfg s (s'.setPhase (.awaiting r q seq left limit (s'.watchdogDue cfg)))
  | decided {r : Run} {q : Request} {seq left : Nat} {limit : Instant} {w : Option Instant}
      {s' : State σ} (n : Nat) (result : Reply)
      (hphase : s.phase = .awaiting r q seq left limit w) (hrx : s.env.rx ≠ [])
      (habsorb : s.absorb cfg n q.reply seq r.source = (s', some result)) :
      Move cfg s (s'.replied cfg r result)
  | replyTimedOut {r : Run} {q : Request} {seq left : Nat} {limit : Instant} {w : Option Instant}
      (hphase : s.phase = .awaiting r q seq left limit w) (hrx : s.env.rx = [])
      (hlimit : limit ≤ s.env.now) : Move cfg s (s.replyTimedOut cfg r q seq left)
  -- An unkey of the actor's own.
  | backedOff {u : Unkeyer} {source : Source} {q : Request} {seq attempt : Nat} {limit : Instant}
      (hphase : s.phase = .unkeyBackoff u source q seq attempt limit) :
      Move cfg s (s.setPhase (.unkeyWriting u source q seq attempt
        (deadlineAfter s.env.now cfg.engine.timeout)))
  | unkeyLate {u : Unkeyer} {source : Source} {q : Request} {seq attempt : Nat} {limit : Instant}
      (hphase : s.phase = .unkeyWriting u source q seq attempt limit) :
      Move cfg s ((s.put .unkey seq q false).unkeyAttempt cfg u source q seq (attempt + 1))
  | unkeyFailed {u : Unkeyer} {source : Source} {q : Request} {seq attempt : Nat} {limit : Instant}
      (hphase : s.phase = .unkeyWriting u source q seq attempt limit) :
      Move cfg s ((s.put .unkey seq q false).linkDown.unkeyFinished cfg u source false)
  | unkeyDone {u : Unkeyer} {source : Source} {q : Request} {seq attempt : Nat} {limit : Instant}
      (hphase : s.phase = .unkeyWriting u source q seq attempt limit) (hreply : q.reply = .none) :
      Move cfg s (((s.put .unkey seq q true).noteWritten q.reply seq cfg.engine.timeout
        s.wire.length).unkeyFinished cfg u source true)
  | unkeyWritten {u : Unkeyer} {source : Source} {q : Request} {seq attempt : Nat}
      {limit : Instant} (hphase : s.phase = .unkeyWriting u source q seq attempt limit)
      (hreply : q.reply ≠ .none) :
      Move cfg s (((s.put .unkey seq q true).noteWritten q.reply seq cfg.engine.timeout
        s.wire.length).setPhase (.unkeyAwaiting u source q seq attempt limit))
  | unkeyUndecided {u : Unkeyer} {source : Source} {q : Request} {seq attempt : Nat}
      {limit : Instant} {s' : State σ} (n : Nat)
      (hphase : s.phase = .unkeyAwaiting u source q seq attempt limit) (hrx : s.env.rx ≠ [])
      (habsorb : s.absorb cfg n q.reply seq source = (s', none)) : Move cfg s s'
  | unkeyAnswered {u : Unkeyer} {source : Source} {q : Request} {seq attempt : Nat}
      {limit : Instant} {s' : State σ} (n : Nat) (v : Option Observation)
      (hphase : s.phase = .unkeyAwaiting u source q seq attempt limit) (hrx : s.env.rx ≠ [])
      (habsorb : s.absorb cfg n q.reply seq source = (s', some (.ok v))) :
      Move cfg s (s'.unkeyFinished cfg u source true)
  | unkeyRefused {u : Unkeyer} {source : Source} {q : Request} {seq attempt : Nat}
      {limit : Instant} {s' : State σ} (n : Nat) (e : RigError)
      (hphase : s.phase = .unkeyAwaiting u source q seq attempt limit) (hrx : s.env.rx ≠ [])
      (habsorb : s.absorb cfg n q.reply seq source = (s', some (.error e))) :
      Move cfg s (s'.unkeyAttempt cfg u source q seq (attempt + 1))
  | unkeyTimedOut {u : Unkeyer} {source : Source} {q : Request} {seq attempt : Nat}
      {limit : Instant} (hphase : s.phase = .unkeyAwaiting u source q seq attempt limit)
      (hrx : s.env.rx = []) : Move cfg s (s.unkeyAttempt cfg u source q seq (attempt + 1))
  -- Session requests.
  | sessionLate {k : SessionCaller} {q : Request} {rest : List Request} {limit : Instant}
      (hphase : s.phase = .sessionWriting k q rest limit) :
      Move cfg s ((s.put .session s.commandSeq q false).writeSessionRequests cfg k rest)
  | sessionFailed {k : SessionCaller} {q : Request} {rest : List Request} {limit : Instant}
      (hphase : s.phase = .sessionWriting k q rest limit) :
      Move cfg s ((s.put .session s.commandSeq q false).linkDown.sessionReturned cfg k)
  | sessionDone {k : SessionCaller} {q : Request} {rest : List Request} {limit : Instant}
      (hphase : s.phase = .sessionWriting k q rest limit) (hreply : q.reply = .none) :
      Move cfg s (((s.nextSeq.put .session s.nextSeq.commandSeq q true).noteWritten q.reply
        s.nextSeq.commandSeq cfg.engine.timeout s.wire.length).writeSessionRequests cfg k rest)
  | sessionWritten {k : SessionCaller} {q : Request} {rest : List Request} {limit : Instant}
      (hphase : s.phase = .sessionWriting k q rest limit) (hreply : q.reply ≠ .none) :
      Move cfg s (((s.nextSeq.put .session s.nextSeq.commandSeq q true).noteWritten q.reply
        s.nextSeq.commandSeq cfg.engine.timeout s.wire.length).setPhase
          (.sessionAwaiting k q s.nextSeq.commandSeq rest limit))
  | sessionUndecided {k : SessionCaller} {q : Request} {seq : Nat} {rest : List Request}
      {limit : Instant} {s' : State σ} (n : Nat)
      (hphase : s.phase = .sessionAwaiting k q seq rest limit) (hrx : s.env.rx ≠ [])
      (habsorb : s.absorb cfg n q.reply seq .api = (s', none)) : Move cfg s s'
  | sessionAnswered {k : SessionCaller} {q : Request} {seq : Nat} {rest : List Request}
      {limit : Instant} {s' : State σ} (n : Nat) (result : Reply)
      (hphase : s.phase = .sessionAwaiting k q seq rest limit) (hrx : s.env.rx ≠ [])
      (habsorb : s.absorb cfg n q.reply seq .api = (s', some result)) :
      Move cfg s (s'.writeSessionRequests cfg k rest)
  | sessionTimedOut {k : SessionCaller} {q : Request} {seq : Nat} {rest : List Request}
      {limit : Instant} (hphase : s.phase = .sessionAwaiting k q seq rest limit)
      (hrx : s.env.rx = []) : Move cfg s (s.writeSessionRequests cfg k rest)

theorem rx_ne_nil (h : (!s.env.rx.isEmpty) = true) : s.env.rx ≠ [] := by
  simpa using h

theorem rx_eq_nil (h : ¬(!s.env.rx.isEmpty) = true) : s.env.rx = [] := by
  simpa using h

theorem selectStep_move {w : Option Instant} {n : Nat} (hphase : s.phase = .select w)
    (h : s.selectStep cfg w n = some t) : Move cfg s t := by
  unfold selectStep at h
  split at h
  · obtain rfl := Option.some.inj h
    exact .takeEmergency hphase ‹_›
  rename_i hqueue
  split at h
  · obtain rfl := Option.some.inj h
    exact .stop hphase hqueue ‹_›
  rename_i hgone
  split at h
  · rename_i hlink
    obtain rfl := Option.some.inj h
    rw [Bool.and_eq_true] at hlink
    exact .linkChanged hphase hqueue hlink.1 hlink.2
  rename_i hlink
  have hidle : s.Idle w := ⟨hphase, hqueue, by simpa using hgone, by simpa using hlink⟩
  split at h
  · rename_i hclosed
    obtain rfl := Option.some.inj h
    rw [Bool.and_eq_true] at hclosed
    exact .watchGone hidle hclosed.1
  split at h
  · obtain rfl := Option.some.inj h
    exact .fire hidle ‹_›
  split at h
  · obtain rfl := Option.some.inj h
    exact .beat hidle
  split at h
  · obtain rfl := Option.some.inj h
    exact .takeNormal hidle ‹_›
  split at h
  · cases h
  rename_i hup
  split at h
  · obtain rfl := Option.some.inj h
    exact .hear n hidle (rx_ne_nil ‹_›)
  split at h
  · obtain rfl := Option.some.inj h
    exact .ended hidle
  split at h
  · obtain rfl := Option.some.inj h
    exact .duePoll _ hidle (by simpa using hup)
  · cases h

theorem drainStep_move {r : Run} {q : Request} {seq left n : Nat} {limit : Instant}
    (hphase : s.phase = .draining r q seq left limit)
    (h : s.drainStep cfg r q seq left limit n = some t) : Move cfg s t := by
  have hwaits : s.phase.waitsFor = some r := by rw [hphase]; rfl
  unfold drainStep at h
  split at h
  · rename_i hwake
    rw [Bool.and_eq_true] at hwake
    dsimp only at h
    split at h
    · obtain rfl := Option.some.inj h
      exact .preempted hwaits hwake.1 (.inr rfl)
    · obtain rfl := Option.some.inj h
      exact .drainWoken hphase hwake.2
  split at h
  · obtain rfl := Option.some.inj h
    exact .drainHeard n hphase (rx_ne_nil ‹_›)
  rename_i hrx
  split at h
  · obtain rfl := Option.some.inj h
    exact .lost _ hwaits
  split at h
  · obtain rfl := Option.some.inj h
    exact .drained hphase ‹_› (rx_eq_nil hrx)
  · cases h

theorem writeStep_move {r : Run} {q : Request} {seq left : Nat} {outcome : WriteOutcome}
    (hphase : s.phase = .writing r q seq left)
    (h : s.writeStep cfg r q seq left outcome = some t) : Move cfg s t := by
  cases outcome with
  | timedOut =>
    simp only [writeStep] at h
    split at h
    · split at h
      · obtain rfl := Option.some.inj h
        exact .writeCut hphase ‹_›
      · obtain rfl := Option.some.inj h
        exact .writeLate hphase (by simpa using ‹¬r.op.transmits = true›)
    · cases h
  | failed why =>
    obtain rfl := Option.some.inj h
    exact .writeFailed why hphase
  | done =>
    simp only [writeStep] at h
    split at h
    · obtain rfl := Option.some.inj h
      exact .writeDone hphase ‹_›
    · obtain rfl := Option.some.inj h
      exact .written hphase ‹_› rfl

theorem awaitStep_move {r : Run} {q : Request} {seq left n : Nat} {limit : Instant}
    {w : Option Instant} (hphase : s.phase = .awaiting r q seq left limit w)
    (h : s.awaitStep cfg r q seq left limit w n = some t) : Move cfg s t := by
  have hwaits : s.phase.waitsFor = some r := by rw [hphase]; rfl
  simp only [awaitStep] at h
  split at h
  · rename_i hwake
    rw [Bool.and_eq_true] at hwake
    split at h
    · obtain rfl := Option.some.inj h
      exact .preempted hwaits hwake.1 (.inr rfl)
    · obtain rfl := Option.some.inj h
      exact .awaitWoken hphase (.inl ⟨rfl, hwake.2⟩)
  split at h
  · rename_i hdue
    rw [Bool.and_eq_true] at hdue
    obtain rfl := Option.some.inj h
    exact .preempted hwaits hdue.1 (.inl rfl)
  split at h
  · rename_i hbeat
    rw [Bool.and_eq_true, Bool.and_eq_true] at hbeat
    obtain rfl := Option.some.inj h
    exact .awaitWoken hphase (.inr ⟨rfl, hbeat.1.2⟩)
  split at h
  · rename_i hrx
    split at h
    · rename_i habsorb
      obtain rfl := Option.some.inj h
      exact .decided n _ hphase (rx_ne_nil hrx) habsorb
    · rename_i habsorb
      obtain rfl := Option.some.inj h
      exact .undecided n hphase (rx_ne_nil hrx) habsorb
  rename_i hrx
  split at h
  · obtain rfl := Option.some.inj h
    exact .lost _ hwaits
  split at h
  · obtain rfl := Option.some.inj h
    exact .replyTimedOut hphase (rx_eq_nil hrx) ‹_›
  · cases h

theorem unkeyWriteStep_move {u : Unkeyer} {source : Source} {q : Request} {seq attempt : Nat}
    {limit : Instant} {outcome : WriteOutcome}
    (hphase : s.phase = .unkeyWriting u source q seq attempt limit)
    (h : s.unkeyWriteStep cfg u source q seq attempt limit outcome = some t) : Move cfg s t := by
  cases outcome with
  | timedOut =>
    simp only [unkeyWriteStep] at h
    split at h
    · obtain rfl := Option.some.inj h
      exact .unkeyLate hphase
    · cases h
  | failed why =>
    obtain rfl := Option.some.inj h
    exact .unkeyFailed hphase
  | done =>
    simp only [unkeyWriteStep] at h
    split at h
    · obtain rfl := Option.some.inj h
      exact .unkeyDone hphase ‹_›
    · obtain rfl := Option.some.inj h
      exact .unkeyWritten hphase ‹_›

theorem unkeyAwaitStep_move {u : Unkeyer} {source : Source} {q : Request} {seq attempt n : Nat}
    {limit : Instant} (hphase : s.phase = .unkeyAwaiting u source q seq attempt limit)
    (h : s.unkeyAwaitStep cfg u source q seq attempt limit n = some t) : Move cfg s t := by
  unfold unkeyAwaitStep at h
  split at h
  · rename_i hrx
    split at h
    · rename_i habsorb
      obtain rfl := Option.some.inj h
      exact .unkeyAnswered n _ hphase (rx_ne_nil hrx) habsorb
    · rename_i habsorb
      obtain rfl := Option.some.inj h
      exact .unkeyRefused n _ hphase (rx_ne_nil hrx) habsorb
    · rename_i habsorb
      obtain rfl := Option.some.inj h
      exact .unkeyUndecided n hphase (rx_ne_nil hrx) habsorb
  rename_i hrx
  split at h
  · obtain rfl := Option.some.inj h
    exact .unkeyTimedOut hphase (rx_eq_nil hrx)
  · cases h

theorem sessionWriteStep_move {k : SessionCaller} {q : Request} {rest : List Request}
    {limit : Instant} {outcome : WriteOutcome}
    (hphase : s.phase = .sessionWriting k q rest limit)
    (h : s.sessionWriteStep cfg k q rest limit outcome = some t) : Move cfg s t := by
  cases outcome with
  | timedOut =>
    simp only [sessionWriteStep] at h
    split at h
    · obtain rfl := Option.some.inj h
      exact .sessionLate hphase
    · cases h
  | failed why =>
    obtain rfl := Option.some.inj h
    exact .sessionFailed hphase
  | done =>
    simp only [sessionWriteStep] at h
    split at h
    · obtain rfl := Option.some.inj h
      exact .sessionDone hphase ‹_›
    · obtain rfl := Option.some.inj h
      exact .sessionWritten hphase ‹_›

theorem sessionAwaitStep_move {k : SessionCaller} {q : Request} {seq n : Nat}
    {rest : List Request} {limit : Instant}
    (hphase : s.phase = .sessionAwaiting k q seq rest limit)
    (h : s.sessionAwaitStep cfg k q seq rest limit n = some t) : Move cfg s t := by
  unfold sessionAwaitStep at h
  split at h
  · rename_i hrx
    split at h
    · rename_i habsorb
      obtain rfl := Option.some.inj h
      exact .sessionAnswered n _ hphase (rx_ne_nil hrx) habsorb
    · rename_i habsorb
      obtain rfl := Option.some.inj h
      exact .sessionUndecided n hphase (rx_ne_nil hrx) habsorb
  rename_i hrx
  split at h
  · obtain rfl := Option.some.inj h
    exact .sessionTimedOut hphase (rx_eq_nil hrx)
  · cases h

/-- Every step of the actor is a move. -/
theorem resume_move {i : Resume} (h : s.resume cfg i = some t) : Move cfg s t := by
  unfold resume at h
  split at h <;> rename_i hphase
  · obtain rfl := Option.some.inj h
    exact .start hphase
  · obtain rfl := Option.some.inj h
    exact .openSession hphase
  · exact selectStep_move hphase h
  · obtain rfl := Option.some.inj h
    exact .poll hphase
  · obtain rfl := Option.some.inj h
    exact .run hphase
  · obtain rfl := Option.some.inj h
    exact .lines _ hphase
  · split at h
    · obtain rfl := Option.some.inj h
      exact .spaced hphase
    · cases h
  · exact drainStep_move hphase h
  · exact writeStep_move hphase h
  · exact awaitStep_move hphase h
  · split at h
    · obtain rfl := Option.some.inj h
      exact .backedOff hphase
    · cases h
  · exact unkeyWriteStep_move hphase h
  · exact unkeyAwaitStep_move hphase h
  · exact sessionWriteStep_move hphase h
  · exact sessionAwaitStep_move hphase h
  · cases h

/-! ### The functions with several ways out -/

@[simp] theorem linkDown_env (s : State σ) : s.linkDown.env = s.env := by
  unfold linkDown; split <;> rfl

@[simp] theorem linkDown_linkUp (s : State σ) : s.linkDown.linkUp = false := by
  unfold linkDown; split <;> rfl

@[simp] theorem linkDown_unkeyWaiters (s : State σ) :
    s.linkDown.unkeyWaiters = s.unkeyWaiters := by
  unfold linkDown; split <;> rfl

@[simp] theorem linkDown_wire (s : State σ) : s.linkDown.wire = s.wire := by
  unfold linkDown; split <;> rfl

@[simp] theorem linkDown_phase (s : State σ) : s.linkDown.phase = s.phase := by
  unfold linkDown; split <;> rfl

@[simp] theorem linkDown_commandSeq (s : State σ) : s.linkDown.commandSeq = s.commandSeq := by
  unfold linkDown; split <;> rfl

@[simp] theorem linkDown_linkGeneration (s : State σ) :
    s.linkDown.linkGeneration = s.linkGeneration := by
  unfold linkDown; split <;> rfl

@[simp] theorem linkDown_outstanding (s : State σ) :
    s.linkDown.memory.outstanding = s.memory.outstanding := by
  unfold linkDown; split <;> rfl

/-- `drain_stale` prunes, and then either goes on to the write or waits. -/
theorem drainStale_cases (s : State σ) (r : Run) (q : Request) (seq left : Nat) :
    ∃ p, s.drainStale r q seq left =
        (s.setMemory (s.memory.pruneOutstanding s.env.now)).setPhase p ∧
      (p = .writing r q seq left ∨ ∃ limit, p = .draining r q seq left limit) := by
  unfold drainStale
  dsimp only
  split
  · exact ⟨_, rfl, .inl rfl⟩
  split
  · exact ⟨_, rfl, .inl rfl⟩
  · exact ⟨_, rfl, .inr ⟨_, rfl⟩⟩

/-- An attempt begins with its write, when it is an emergency command's, with the spacing, or with
the draining. -/
theorem attempt_cases (cfg : Setup σ) (s : State σ) (r : Run) (q : Request) (seq left : Nat) :
    r.op.isEmergency = true ∧ s.attempt cfg r q seq left = s.setPhase (.writing r q seq left) ∨
    r.op.isEmergency = false ∧
      ((∃ ready, s.attempt cfg r q seq left = s.setPhase (.spacing r q seq left ready)) ∨
        s.attempt cfg r q seq left = s.drainStale r q seq left) := by
  unfold attempt
  split
  · exact .inl ⟨‹_›, rfl⟩
  rename_i hop
  refine .inr ⟨by simpa using hop, ?_⟩
  split
  · exact .inl ⟨_, rfl⟩
  · exact .inr rfl

/-- The errors with which `run_command` refuses an operation before it writes anything. -/
inductive Refusal (cfg : Setup σ) (op : Op) : RigError → Prop
  | linkDown : Refusal cfg op ⟨.linkDown, "transport is down"⟩
  | late : Refusal cfg op ⟨.timeout, "deadline passed before the command ran"⟩
  | transmits (err : RigError) (h : op.transmits = true) : Refusal cfg op err
  | noLines (h : cfg.controlLines = false) :
      Refusal cfg op ⟨.unsupported, "this transport has no control lines to drive"⟩
  | lines (e : σ) {err : RigError} (h : (cfg.engine.encodeLines e op).1 = .error err) :
      Refusal cfg op err
  | encode (e : σ) {err : RigError} (h : (cfg.engine.encode e op).1 = .error err) :
      Refusal cfg op err

/-- `run_command` refuses the command, drives its control lines, or makes its first attempt. -/
theorem runCommand_cases (cfg : Setup σ) (s : State σ) (r : Run) :
    (∃ e err, Refusal cfg r.op err ∧
      s.runCommand cfg r = (s.setEngine e).returnRun cfg r (.error err)) ∨
    (∃ e, s.linkUp = true ∧ r.op.transmits = false ∧
      (∃ steps, (cfg.engine.encodeLines s.engine r.op).1 = .ok (some steps)) ∧
      s.runCommand cfg r = (s.setEngine e).setPhase (.lines r)) ∨
    ∃ e q, s.linkUp = true ∧ s.env.now < r.deadline ∧
      (r.op.transmits = true → s.env.gate = true ∧ s.knownTxFrequency cfg = true) ∧
      s.runCommand cfg r = (s.setEngine e).nextSeq.attempt cfg r q (s.commandSeq + 1)
        (extraAttempts cfg r.op) := by
  unfold runCommand
  split
  · exact .inl ⟨s.engine, _, .linkDown, rfl⟩
  rename_i hup
  split
  · exact .inl ⟨s.engine, _, .late, rfl⟩
  rename_i hdeadline
  split
  · rename_i hgate
    rw [Bool.and_eq_true] at hgate
    exact .inl ⟨s.engine, _, .transmits _ hgate.1, rfl⟩
  rename_i hgate
  split
  · rename_i hknown
    rw [Bool.and_eq_true] at hknown
    exact .inl ⟨s.engine, _, .transmits _ hknown.1, rfl⟩
  rename_i hknown
  have hlink : s.linkUp = true := by simpa using hup
  dsimp only
  split
  · rename_i hlines
    exact .inl ⟨_, _, .lines _ hlines, rfl⟩
  · rename_i steps hlines
    unfold runLineSteps
    split
    · rename_i htransmits
      exact .inl ⟨_, _, .transmits _ htransmits, rfl⟩
    rename_i htransmits
    split
    · rename_i hcontrol
      exact .inl ⟨_, _, .noLines (by simpa using hcontrol), rfl⟩
    split
    · exact .inl ⟨_, _, .linkDown, rfl⟩
    · exact .inr (.inl ⟨_, hlink, by simpa using htransmits, ⟨steps, hlines⟩, rfl⟩)
  · split
    · rename_i hencode
      exact .inl ⟨_, _, .encode _ hencode, rfl⟩
    · refine .inr (.inr ⟨_, _, hlink, Nat.lt_of_not_le hdeadline, fun htransmits => ?_, rfl⟩)
      simp only [htransmits, Bool.true_and, Bool.not_eq_true', Bool.not_eq_false] at hgate hknown
      exact ⟨hgate, hknown⟩

/-- What `link_status_changed` finds: no watch, the session it knows, its first session, a reopen,
or a link that is not up. -/
theorem linkStatusChanged_cases (cfg : Setup σ) (s : State σ) (starting : Bool) :
    s.env.linkWatch = false ∧
      s.linkStatusChanged cfg starting = s.linkStatusReturned cfg starting ∨
    s.env.linkWatch = true ∧ s.env.link = .connected s.linkGeneration ∧
      s.linkStatusChanged cfg starting = s.seeLink.linkStatusReturned cfg starting ∨
    (∃ g, s.env.linkWatch = true ∧ s.env.link = .connected g ∧ s.linkGeneration = 0 ∧
      s.linkUp = true ∧
      s.linkStatusChanged cfg starting =
        (s.seeLink.linkOpened g).linkStatusReturned cfg starting) ∨
    (∃ g, s.env.linkWatch = true ∧ s.env.link = .connected g ∧ g ≠ s.linkGeneration ∧
      s.linkStatusChanged cfg starting =
        (s.seeLink.linkOpened g).unkeyFailClosed cfg (.linkRestored starting) .api) ∨
    s.env.linkWatch = true ∧ (∀ g, s.env.link ≠ .connected g) ∧
      s.linkStatusChanged cfg starting = s.seeLink.linkDown.linkStatusReturned cfg starting := by
  unfold linkStatusChanged
  split
  · exact .inl ⟨by simpa using ‹(!s.env.linkWatch) = true›, rfl⟩
  rename_i hwatch
  rw [Bool.not_eq_true', Bool.not_eq_false] at hwatch
  dsimp only
  split
  · rename_i g hlink
    split
    · rename_i hg
      subst hg
      exact .inr (.inl ⟨hwatch, hlink, rfl⟩)
    rename_i hg
    split
    · rename_i hfirst
      rw [Bool.and_eq_true, beq_iff_eq] at hfirst
      exact .inr (.inr (.inl ⟨g, hwatch, hlink, hfirst.1, hfirst.2, rfl⟩))
    · exact .inr (.inr (.inr (.inl ⟨g, hwatch, hlink, hg, rfl⟩)))
  · rename_i hlink
    have hnone (g : Nat) : s.env.link ≠ .connected g := fun hg => by cases hg.symm.trans hlink
    exact .inr (.inr (.inr (.inr ⟨hwatch, hnone, rfl⟩)))
  · rename_i hlink
    have hnone (g : Nat) : s.env.link ≠ .connected g := fun hg => by cases hg.symm.trans hlink
    exact .inr (.inr (.inr (.inr ⟨hwatch, hnone, rfl⟩)))

/-- A turn of `poll_once` reads an entry, pushes one back, or is the last. -/
theorem pollStep_cases (cfg : Setup σ) (s : State σ) (now : Instant) (transmitting : Bool) :
    (∃ entry, s.pollStep cfg now transmitting = s.pollEntry cfg entry none) ∨
    (∃ poll, s.pollStep cfg now transmitting = s.setMemory { s.memory with poll }) ∨
    s.pollStep cfg now transmitting = s.toSelect cfg := by
  unfold pollStep
  split
  · split
    · exact .inl ⟨_, rfl⟩
    · exact .inr (.inl ⟨_, rfl⟩)
  · exact .inr (.inr rfl)

/-- A control-line sequence succeeded, failed, or lost the link. -/
theorem linesStep_cases (cfg : Setup σ) (s : State σ) (r : Run) (result : Except RigError Unit) :
    s.linesStep cfg r result = (s.applySet r.op r.source).returnRun cfg r (.ok none) ∨
    ∃ e, s.linesStep cfg r result = s.returnRun cfg r (.error e) ∨
      s.linesStep cfg r result = s.linkDown.returnRun cfg r (.error e) := by
  cases result with
  | ok _ => exact .inl rfl
  | error e =>
    refine .inr ⟨e, ?_⟩
    simp only [linesStep]
    split
    · exact .inr rfl
    · exact .inl rfl

/-- A reply that did not come in time: another attempt, the fail-closed unkey, or an error. -/
theorem replyTimedOut_cases (cfg : Setup σ) (s : State σ) (r : Run) (q : Request)
    (seq left : Nat) :
    (∃ left', left = left' + 1 ∧
      s.replyTimedOut cfg r q seq left = s.attempt cfg r q seq left') ∨
    r.op.transmits = true ∧
      s.replyTimedOut cfg r q seq left = s.unkeyFailClosed cfg (.notAnswered r) r.source ∨
    r.op.transmits = false ∧ s.replyTimedOut cfg r q seq left =
      s.returnRun cfg r (.error ⟨.timeout, "no reply from the rig"⟩) := by
  have hgive : r.op.transmits = true ∧
      replyTimedOut.giveUp cfg r s = s.unkeyFailClosed cfg (.notAnswered r) r.source ∨
      r.op.transmits = false ∧ replyTimedOut.giveUp cfg r s =
        s.returnRun cfg r (.error ⟨.timeout, "no reply from the rig"⟩) := by
    unfold replyTimedOut.giveUp
    split
    · exact .inl ⟨‹_›, rfl⟩
    · exact .inr ⟨by simpa using ‹¬r.op.transmits = true›, rfl⟩
  cases left with
  | zero => exact .inr hgive
  | succ left =>
    simp only [replyTimedOut]
    split
    · exact .inr hgive
    · exact .inl ⟨left, rfl, rfl⟩

/-- The watchdog has nothing to stop, or it stops and the rig is unkeyed. -/
theorem watchdogFire_cases (cfg : Setup σ) (s : State σ) :
    s.memory.keyedSince = none ∧ s.watchdogFire cfg = s.toSelect cfg ∨
    ∃ a, s.watchdogFire cfg =
      (s.disarm.alarm a .watchdog).unkeyFailClosed cfg .watchdog .watchdog := by
  unfold watchdogFire
  split
  · exact .inl ⟨‹_›, rfl⟩
  · exact .inr ⟨_, rfl⟩

/-- What taking in chunks leaves as it is: everything but the chunks, the engine's state, the
memory and the log. -/
structure Heard (n : Nat) (s t : State σ) : Prop where
  env : t.env = { s.env with rx := s.env.rx.drop (n + 1) }
  linkUp : t.linkUp = s.linkUp
  unkeyWaiters : t.unkeyWaiters = s.unkeyWaiters
  commandSeq : t.commandSeq = s.commandSeq
  lastWrite : t.lastWrite = s.lastWrite
  linkGeneration : t.linkGeneration = s.linkGeneration
  sessionOpened : t.sessionOpened = s.sessionOpened
  phase : t.phase = s.phase
  wire : t.wire = s.wire

theorem absorb_heard {n : Nat} {expect : ReplyKind} {seq : Nat} {source : Source}
    {result : Option Reply} (h : s.absorb cfg n expect seq source = (t, result)) :
    Heard n s t := by
  unfold absorb at h
  dsimp only at h
  split at h <;>
  · obtain ⟨rfl, -⟩ := Prod.mk.inj h
    exact ⟨rfl, rfl, rfl, rfl, rfl, rfl, rfl, rfl, rfl⟩

/-! ### Beside the actor -/

/-- One step of something beside the actor. -/
inductive Beside (cfg : Setup σ) (s : State σ) : Act → State σ → Prop
  | tick (n : Duration) : Beside cfg s (.tick n) (s.setEnv { s.env with now := s.env.now + n })
  | refused (op : Op) (timeout : Duration) (source : Source) :
      Beside cfg s (.submit op timeout source) s
  | submit (op : Op) (timeout : Duration) (source : Source) (hhandles : s.env.handlesGone = false)
      (hcapable : cfg.engine.capabilities.has op.requiredCapability = true)
      (hgate : op.transmits = true → s.env.gate = true) :
      Beside cfg s (.submit op timeout source) (s.setEnv { s.env with
        calls := s.env.calls ++
          [⟨⟨op, deadlineAfter s.env.now timeout, source, s.env.nextReply⟩, .checked⟩]
        nextReply := s.env.nextReply + 1 })
  | call (i : Nat) (c : Call) (hcall : s.env.calls[i]? = some c) :
      Beside cfg s (.call i) (s.callStep cfg i c)
  | openGate (hhandles : s.env.handlesGone = false) :
      Beside cfg s .openGate (s.setEnv { s.env with gate := true })
  | closeGate (hhandles : s.env.handlesGone = false) :
      Beside cfg s .closeGate (s.setEnv { s.env with gate := false })
  | heartbeat (hhandles : s.env.handlesGone = false) :
      Beside cfg s .heartbeat (s.setEnv { s.env with lastHeartbeat := s.env.now })
  | heartbeatNotify (hhandles : s.env.handlesGone = false) :
      Beside cfg s .heartbeatNotify (s.setEnv { s.env with heartbeatWake := true })
  | dropHandles (hcalls : s.env.calls = []) :
      Beside cfg s .dropHandles (s.setEnv { s.env with handlesGone := true })
  | portLost (hwatch : s.env.linkWatch = true) :
      Beside cfg s .portLost (s.setEnv { s.env with link := .reconnecting, linkUnseen := true })
  | portOpened (hwatch : s.env.linkWatch = true) :
      Beside cfg s .portOpened ((s.setEnv { s.env with
        link := .connected (s.env.opens + 1), opens := s.env.opens + 1
        linkUnseen := true }).record (.opened (s.env.opens + 1)))
  | portClosed (hwatch : s.env.linkWatch = true) :
      Beside cfg s .portClosed (s.setEnv { s.env with link := .closed, linkUnseen := true })
  | watchDropped : Beside cfg s .watchDropped (s.setEnv { s.env with watchClosed := true })
  | deliver (chunk : Chunk) :
      Beside cfg s (.deliver chunk) (s.setEnv { s.env with rx := s.env.rx ++ [chunk] })
  | streamEnded (why : String) :
      Beside cfg s (.streamEnded why) (s.setEnv { s.env with rxEnd := some why })

theorem byHandle_eq_some {e : Env} (h : s.byHandle e = some t) :
    s.env.handlesGone = false ∧ t = s.setEnv e := by
  unfold byHandle at h
  split at h
  · cases h
  · exact ⟨by simpa using ‹¬s.env.handlesGone = true›, (Option.some.inj h).symm⟩

theorem setLink_eq_some {link : LinkStatus} {opens : Nat} (h : s.setLink link opens = some t) :
    s.env.linkWatch = true ∧ t = s.setEnv { s.env with link, opens, linkUnseen := true } := by
  unfold setLink at h
  split at h
  · rename_i hwatch
    rw [Bool.and_eq_true, Bool.and_eq_true] at hwatch
    exact ⟨hwatch.1.1, (Option.some.inj h).symm⟩
  · cases h

/-- Every step is a move of the actor or happens beside it. -/
theorem step_cases {a : Act} (h : s.step cfg a = some t) :
    (∃ i, a = .actor i ∧ Move cfg s t) ∨ Beside cfg s a t := by
  cases a with
  | actor i => exact .inl ⟨i, rfl, resume_move h⟩
  | tick n =>
    obtain rfl := Option.some.inj h
    exact .inr (.tick n)
  | submit op timeout source =>
    right
    simp only [step] at h
    split at h
    · cases h
    rename_i hhandles
    obtain rfl := Option.some.inj h
    unfold State.submit
    split
    · exact .refused op timeout source
    rename_i hcapable
    split
    · exact .refused op timeout source
    rename_i hgate
    refine .submit op timeout source (by simpa using hhandles) (by simpa using hcapable) ?_
    intro htransmits
    simpa [htransmits] using hgate
  | call i =>
    obtain ⟨c, hc, rfl⟩ := Option.map_eq_some_iff.mp h
    exact .inr (.call i c hc)
  | openGate =>
    obtain ⟨hhandles, rfl⟩ := byHandle_eq_some h
    exact .inr (.openGate hhandles)
  | closeGate =>
    obtain ⟨hhandles, rfl⟩ := byHandle_eq_some h
    exact .inr (.closeGate hhandles)
  | heartbeat =>
    obtain ⟨hhandles, rfl⟩ := byHandle_eq_some h
    exact .inr (.heartbeat hhandles)
  | heartbeatNotify =>
    obtain ⟨hhandles, rfl⟩ := byHandle_eq_some h
    exact .inr (.heartbeatNotify hhandles)
  | dropHandles =>
    simp only [step] at h
    split at h
    · obtain ⟨-, rfl⟩ := byHandle_eq_some h
      exact .inr (.dropHandles (by simpa using ‹s.env.calls.isEmpty = true›))
    · cases h
  | portLost =>
    obtain ⟨hwatch, rfl⟩ := setLink_eq_some h
    exact .inr (.portLost hwatch)
  | portOpened =>
    obtain ⟨u, hu, rfl⟩ := Option.map_eq_some_iff.mp h
    obtain ⟨hwatch, rfl⟩ := setLink_eq_some hu
    exact .inr (.portOpened hwatch)
  | portClosed =>
    obtain ⟨hwatch, rfl⟩ := setLink_eq_some h
    exact .inr (.portClosed hwatch)
  | watchDropped =>
    obtain rfl := Option.some.inj h
    exact .inr .watchDropped
  | deliver chunk =>
    simp only [step] at h
    split at h
    · obtain rfl := Option.some.inj h
      exact .inr (.deliver chunk)
    · cases h
  | streamEnded why =>
    simp only [step] at h
    split at h
    · obtain rfl := Option.some.inj h
      exact .inr (.streamEnded why)
    · cases h

/-- A call of `submit` changes nothing of the surroundings but the queues, the count and the wake-up
of the emergency path, and the calls; it may log that its command was accepted or joined. -/
theorem callStep_cases (cfg : Setup σ) (s : State σ) (i : Nat) (c : Call) :
    ∃ emergencyPending emergencyWake emergency normal calls unkeyWaiters es,
      s.callStep cfg i c = { s with
        env := { s.env with emergencyPending, emergencyWake, emergency, normal, calls }
        unkeyWaiters
        log := es ++ s.log } ∧
      ∀ e ∈ es, e = .accepted c.command ∨ e = .joined c.command.reply := by
  unfold State.callStep
  dsimp only
  split
  · split
    · exact ⟨_, _, _, _, _, _, [], rfl, by simp⟩
    split
    · exact ⟨_, _, _, _, _, _, [.accepted c.command], rfl, by simp⟩
    · exact ⟨_, _, _, _, _, _, [], rfl, by simp⟩
  · split
    · exact ⟨_, _, _, _, _, _, [.accepted c.command], rfl, by simp⟩
    split
    · exact ⟨_, _, _, _, _, _, [], rfl, by simp⟩
    · exact ⟨_, _, _, _, _, _, [], rfl, by simp⟩
  · exact ⟨_, _, _, _, _, _, [], rfl, by simp⟩
  · exact ⟨_, _, _, _, _, _, [], rfl, by simp⟩
  · exact ⟨_, _, _, _, _, _, [.joined c.command.reply], rfl, by simp⟩
  · exact ⟨_, _, _, _, _, _, [], rfl, by simp⟩

/-- What a step beside the actor leaves as it is: everything the actor alone owns. -/
structure Aside (s t : State σ) : Prop where
  linkUp : t.linkUp = s.linkUp
  engine : t.engine = s.engine
  memory : t.memory = s.memory
  commandSeq : t.commandSeq = s.commandSeq
  lastWrite : t.lastWrite = s.lastWrite
  linkGeneration : t.linkGeneration = s.linkGeneration
  sessionOpened : t.sessionOpened = s.sessionOpened
  phase : t.phase = s.phase
  wire : t.wire = s.wire
  log : ∃ es, t.log = es ++ s.log ∧ ∀ e ∈ es, e.aside = true

theorem Beside.aside {a : Act} (h : Beside cfg s a t) : Aside s t := by
  cases h with
  | call i c hcall =>
    obtain ⟨_, _, _, _, _, _, es, heq, hes⟩ := callStep_cases cfg s i c
    rw [heq]
    refine ⟨rfl, rfl, rfl, rfl, rfl, rfl, rfl, rfl, rfl, es, rfl, fun e he => ?_⟩
    rcases hes e he with rfl | rfl <;> rfl
  | portOpened hwatch =>
    exact ⟨rfl, rfl, rfl, rfl, rfl, rfl, rfl, rfl, rfl, [.opened (s.env.opens + 1)], rfl, by
      simp [Event.aside]⟩
  | _ => exact ⟨rfl, rfl, rfl, rfl, rfl, rfl, rfl, rfl, rfl, [], rfl, by simp⟩

end State

end HamsOpen.Rig
