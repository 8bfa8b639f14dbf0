import HamsOpen.Rig.Effects

/-!
# Reading and writing

In one step the actor reads from the transport, writes one request, fires its watchdog, or does none
of these; then it goes on to its next place with nothing of the kind (`Still`). `Traffic` splits a
step so. It says what the step adds to the wire and to the log, and what becomes of the list of
requests whose reply is owed, which only these steps change.
-/

namespace HamsOpen.Rig

/-- An event that tells of no reading, no writing and no firing of the watchdog. -/
def Event.still : Event → Bool
  | .absorbed _ _ | .credited _ _ _ | .wrote _ | .fired _ => false
  | _ => true

theorem Event.still_of_settling {e : Event} (h : e.settling = true) : e.still = true := by
  cases e <;> first | rfl | cases h

/-- The request whose reply the actor waits for: who wrote it, and its command's number. -/
def Phase.awaits : Phase → Option (Writer × Nat)
  | .awaiting r _ seq _ _ _ => some (r.writer, seq)
  | .unkeyAwaiting _ _ _ seq _ _ => some (.unkey, seq)
  | .sessionAwaiting _ _ seq _ _ => some (.session, seq)
  | _ => none

/-- The next write is an unkey of the actor's own. -/
def Phase.unkeying : Phase → Bool
  | .unkeyBackoff _ _ _ _ _ _ | .unkeyWriting _ _ _ _ _ _ => true
  | _ => false

/-- A place where the actor reads what has arrived. -/
def Phase.reads : Phase → Bool
  | .select _ | .draining _ _ _ _ _ | .awaiting _ _ _ _ _ _ | .unkeyAwaiting _ _ _ _ _ _
  | .sessionAwaiting _ _ _ _ _ => true
  | _ => false

namespace State

variable {σ : Type} {cfg : Setup σ} {s t u : State σ}

/-- Effects beside which nothing is read or written and the watchdog does not fire. Requests whose reply is no longer expected may
be forgotten. -/
structure Still (cfg : Setup σ) (s t : State σ) : Prop where
  now : t.env.now = s.env.now
  gate : t.env.gate = s.env.gate
  rx : t.env.rx = s.env.rx
  wire : t.wire = s.wire
  forgotten : t.memory.outstanding.Sublist s.memory.outstanding
  expected : ∀ o ∈ s.memory.outstanding, s.env.now < o.expires → o ∈ t.memory.outstanding
  commandSeq : s.commandSeq ≤ t.commandSeq
  log : ∃ es, t.log = es ++ s.log ∧ ∀ e ∈ es, e.still = true
  effects : Effects cfg s t

namespace Still

theorem of_same (hnow : t.env.now = s.env.now) (hgate : t.env.gate = s.env.gate) (hrx : t.env.rx = s.env.rx)
    (hwire : t.wire = s.wire) (hmemory : t.memory = s.memory)
    (hseq : s.commandSeq ≤ t.commandSeq) (hlog : t.log = s.log) : Still cfg s t where
  now := hnow
  gate := hgate
  rx := hrx
  wire := hwire
  forgotten := by
    simp only [hmemory, List.Sublist.refl]
  expected o ho _ := by rwa [hmemory]
  commandSeq := hseq
  log := ⟨[], hlog, by simp⟩
  effects := .of_eq hlog hmemory

theorem refl : Still cfg s s := of_same rfl rfl rfl rfl rfl (Nat.le_refl _) rfl

theorem trans (h : Still cfg s t) (h' : Still cfg t u) : Still cfg s u where
  now := h'.now.trans h.now
  gate := h'.gate.trans h.gate
  rx := h'.rx.trans h.rx
  wire := h'.wire.trans h.wire
  forgotten := h'.forgotten.trans h.forgotten
  expected o ho hnow := h'.expected o (h.expected o ho hnow) (by rwa [h.now])
  commandSeq := Nat.le_trans h.commandSeq h'.commandSeq
  log := by
    obtain ⟨es, hlog, hes⟩ := h.log
    obtain ⟨es', hlog', hes'⟩ := h'.log
    refine ⟨es' ++ es, by rw [hlog', hlog, List.append_assoc], fun e he => ?_⟩
    exact (List.mem_append.mp he).elim (hes' e) (hes e)
  effects := h.effects.trans h'.effects

theorem of_frame (h : Frame cfg s t) : Still cfg s t where
  now := by rw [h.env]
  gate := by rw [h.env]
  rx := by rw [h.env]
  wire := h.wire
  forgotten := by
    simp only [h.outstanding, List.Sublist.refl]
  expected o ho _ := by rwa [h.outstanding]
  commandSeq := h.commandSeq
  log := by
    obtain ⟨es, hlog, hes⟩ := h.log
    exact ⟨es, hlog, fun e he => Event.still_of_settling (hes e he)⟩
  effects := h.effects

/-- The end of a step that settles after it has done something else. -/
theorem settle (h : Still cfg s t) (h' : Frame cfg t t → Settled cfg t u) : Still cfg s u :=
  h.trans (of_frame (h' .refl).toFrame)

theorem setPhase (h : Still cfg s t) (p : Phase) : Still cfg s (t.setPhase p) :=
  h.trans (of_frame (Frame.refl.setPhase p))

theorem setEngine (h : Still cfg s t) (e : σ) : Still cfg s (t.setEngine e) :=
  h.trans (of_frame (Frame.refl.setEngine e))

theorem nextSeq (h : Still cfg s t) : Still cfg s t.nextSeq :=
  h.trans (of_frame Frame.refl.nextSeq)

/-- Quiet events are logged. -/
theorem of_record {e : Event} (he : e.quiet = true) (hstill : e.still = true)
    (hnow : t.env.now = s.env.now) (hgate : t.env.gate = s.env.gate) (hrx : t.env.rx = s.env.rx)
    (hwire : t.wire = s.wire) (hmemory : t.memory = s.memory) (hseq : t.commandSeq = s.commandSeq)
    (hlog : t.log = e :: s.log) : Still cfg s t where
  now := hnow
  gate := hgate
  rx := hrx
  wire := hwire
  forgotten := by
    simp only [hmemory, List.Sublist.refl]
  expected o ho _ := by rwa [hmemory]
  commandSeq := Nat.le_of_eq hseq.symm
  log := ⟨[e], hlog, by simpa using hstill⟩
  effects := .of_record he hlog hmemory

theorem takeEmergency (h : Still cfg s t) (c : Command) (rest : List Command) :
    Still cfg s (t.takeEmergency c rest) :=
  h.trans (of_record (e := .took c) rfl rfl rfl rfl rfl rfl rfl rfl rfl)

theorem takeNormal (h : Still cfg s t) (c : Command) (rest : List Command) :
    Still cfg s (t.takeNormal c rest) :=
  h.trans (of_record (e := .took c) rfl rfl rfl rfl rfl rfl rfl rfl rfl)

theorem takeEmergencyWake (h : Still cfg s t) : Still cfg s t.takeEmergencyWake :=
  h.trans (of_same rfl rfl rfl rfl rfl (Nat.le_refl _) rfl)

theorem takeHeartbeatWake (h : Still cfg s t) : Still cfg s t.takeHeartbeatWake :=
  h.trans (of_same rfl rfl rfl rfl rfl (Nat.le_refl _) rfl)

theorem linkDown (h : Still cfg s t) : Still cfg s t.linkDown := by
  have hdown : Still cfg s ((t.setLinkUp false).record .linkDown) :=
    h.trans (of_record (e := .linkDown) rfl rfl rfl rfl rfl rfl rfl rfl rfl)
  unfold State.linkDown
  split
  · exact hdown.trans (of_frame (Frame.refl.alarm .linkDown .api))
  · exact hdown

theorem linkLost (h : Still cfg s t) (r : Run) (why : String) :
    Still cfg s (t.linkLost cfg r why) :=
  h.linkDown.settle (·.returnRun r _)

theorem drainStale (h : Still cfg s t) (r : Run) (q : Request) (seq left : Nat) :
    Still cfg s (t.drainStale r q seq left) := by
  have hprune : Still cfg t (t.setMemory (t.memory.pruneOutstanding t.env.now)) :=
    { now := rfl
      gate := rfl
      rx := rfl
      wire := rfl
      forgotten := List.filter_sublist
      expected := fun o ho hnow => List.mem_filter.mpr ⟨ho, by simpa using hnow⟩
      commandSeq := Nat.le_refl _
      log := ⟨[], rfl, by simp⟩
      effects := .single (.quiet [] (by simp) rfl rfl rfl rfl) }
  obtain ⟨p, heq, -⟩ := t.drainStale_cases r q seq left
  rw [heq]
  exact (h.trans hprune).setPhase p

theorem attempt (h : Still cfg s t) (r : Run) (q : Request) (seq left : Nat) :
    Still cfg s (t.attempt cfg r q seq left) := by
  rcases attempt_cases cfg t r q seq left with ⟨-, heq⟩ | ⟨-, ⟨ready, heq⟩ | heq⟩ <;> rw [heq]
  · exact h.setPhase _
  · exact h.setPhase _
  · exact h.drainStale r q seq left

theorem runCommand (h : Still cfg s t) (r : Run) : Still cfg s (t.runCommand cfg r) := by
  rcases runCommand_cases cfg t r with ⟨e, err, -, heq⟩ | ⟨e, -, -, -, heq⟩ | ⟨e, q, -, -, -, heq⟩ <;>
    rw [heq]
  · exact (h.setEngine e).settle (·.returnRun r _)
  · exact (h.setEngine e).setPhase _
  · exact (h.setEngine e).nextSeq.attempt r q _ _

theorem pollStep (h : Still cfg s t) (now : Instant) (transmitting : Bool) :
    Still cfg s (t.pollStep cfg now transmitting) := by
  rcases pollStep_cases cfg t now transmitting with ⟨entry, heq⟩ | ⟨poll, heq⟩ | heq <;> rw [heq]
  · exact h.setPhase _
  · exact h.trans (of_frame (Frame.refl.poll poll))
  · exact h.setPhase _

theorem linesStep (h : Still cfg s t) (r : Run) (result : Except RigError Unit) :
    Still cfg s (t.linesStep cfg r result) := by
  rcases linesStep_cases cfg t r result with heq | ⟨e, heq | heq⟩ <;> rw [heq]
  · exact h.settle fun hf => (hf.applySet r.op r.source).returnRun r _
  · exact h.settle (·.returnRun r _)
  · exact h.linkDown.settle (·.returnRun r _)

theorem unkeyAttempt (h : Still cfg s t) (u : Unkeyer) (source : Source) (q : Request)
    (seq attempt : Nat) : Still cfg s (t.unkeyAttempt cfg u source q seq attempt) := by
  unfold State.unkeyAttempt
  split
  · exact h.settle (·.unkeyFinished u source false)
  split
  · exact h.setPhase _
  · exact h.setPhase _

theorem linkStatusChanged (h : Still cfg s t) (starting : Bool) :
    Still cfg s (t.linkStatusChanged cfg starting) := by
  have hseen : Still cfg s t.seeLink := h.trans (of_same rfl rfl rfl rfl rfl (Nat.le_refl _) rfl)
  have hopened (g : Nat) : Still cfg s (t.seeLink.linkOpened g) :=
    hseen.trans (of_same rfl rfl rfl rfl rfl (Nat.le_refl _) rfl)
  rcases linkStatusChanged_cases cfg t starting with ⟨-, heq⟩ | ⟨-, -, heq⟩ | ⟨g, -, -, -, -, heq⟩ |
    ⟨g, -, -, -, heq⟩ | ⟨-, -, heq⟩ <;> rw [heq]
  · exact h.settle (·.linkStatusReturned starting)
  · exact hseen.settle (·.linkStatusReturned starting)
  · exact (hopened g).settle (·.linkStatusReturned starting)
  · exact (hopened g).settle (·.unkeyFailClosed _ _)
  · exact hseen.linkDown.settle (·.linkStatusReturned starting)

theorem replyTimedOut (h : Still cfg s t) (r : Run) (q : Request) (seq left : Nat) :
    Still cfg s (t.replyTimedOut cfg r q seq left) := by
  rcases replyTimedOut_cases cfg t r q seq left with ⟨left', -, heq⟩ | ⟨-, heq⟩ | ⟨-, heq⟩ <;>
    rw [heq]
  · exact h.attempt r q seq left'
  · exact h.settle (·.unkeyFailClosed _ _)
  · exact h.settle (·.returnRun r _)

theorem replied (h : Still cfg s t) (r : Run) (result : Reply) :
    Still cfg s (t.replied cfg r result) := by
  unfold State.replied
  split
  · exact h.settle fun hf => (hf.applySet r.op r.source).returnRun r result
  · exact h.settle (·.returnRun r result)

end Still

/-! ### Reads and writes -/

/-- A write that can be made from where the actor stands. -/
inductive Writes (s : State σ) (w : Wrote) : Prop
  | run {r : Run} {q : Request} {seq left : Nat} (complete : Bool)
      (hphase : s.phase = .writing r q seq left)
      (hw : w = ⟨r.writer, seq, q.reply, complete, s.env.now, s.session, s.env.gate⟩)
  | unkey {u : Unkeyer} {source : Source} {q : Request} {seq attempt : Nat} {limit : Instant}
      (complete : Bool) (hphase : s.phase = .unkeyWriting u source q seq attempt limit)
      (hw : w = ⟨.unkey, seq, q.reply, complete, s.env.now, s.session, s.env.gate⟩)
  | session {k : SessionCaller} {q : Request} {rest : List Request} {limit : Instant} (seq : Nat)
      (complete : Bool) (hphase : s.phase = .sessionWriting k q rest limit)
      (hw : w = ⟨.session, seq, q.reply, complete, s.env.now, s.session, s.env.gate⟩)

/-- What a write leaves behind: it is on the wire, and if it went out whole its reply is owed. A
session request has a number of its own once it is out. -/
structure Written (cfg : Setup σ) (s : State σ) (w : Wrote) (u : State σ) : Prop where
  writes : Writes s w
  env : u.env = s.env
  wire : u.wire = s.wire ++ [w]
  log : u.log = .wrote s.wire.length :: s.log
  memory : u.memory = if w.complete then
    s.memory.noteWritten w.kind w.seq cfg.engine.timeout s.wire.length w.when else s.memory
  seq : u.commandSeq = s.commandSeq ∧ w.writer ≠ .session ∨
    s.commandSeq ≤ u.commandSeq ∧ w.seq = u.commandSeq

/-- One step: still, after at most one read, one write or one firing of the watchdog. -/
inductive Traffic (cfg : Setup σ) (s t : State σ) : Prop
  | still (h : Still cfg s t)
  | fired (a : Alarm) (h : Still cfg s.disarm t)
      (ht : t = (s.disarm.alarm a .watchdog).unkeyFailClosed cfg .watchdog .watchdog)
  | read {u : State σ} {result : Option Reply} (n : Nat) (expect : ReplyKind) (seq : Nat)
      (source : Source) (hreads : s.phase.reads = true)
      (hawaits : expect = .none ∨ ∃ v, s.phase.awaits = some (v, seq))
      (habsorb : s.absorb cfg n expect seq source = (u, result)) (h : Still cfg u t)
  | wrote {u : State σ} {w : Wrote} (hwritten : Written cfg s w u) (h : Still cfg u t)

/-- What arrives while no command waits decides nothing. -/
theorem absorb_none_done {caps : CapabilitySet} {seq : Nat} {source : Source} {now : Instant}
    (m : Memory) (items : List Item) :
    (Memory.absorb caps .none seq source now m none items).2 = none := by
  induction items generalizing m with
  | nil => rfl
  | cons item items ih =>
    have hitem : (Memory.absorbItem caps .none seq source now m none item).2 = none := by
      obtain ⟨inbound, write⟩ := item
      cases inbound <;> simp [Memory.absorbItem]
    unfold Memory.absorb
    rw [show Memory.absorbItem caps .none seq source now m none item =
      (_, none) from Prod.ext rfl hitem]
    exact ih _

/-- Taking in bytes at the loop is taking them in for a command that expects no reply. -/
theorem ingest_absorb (cfg : Setup σ) (s : State σ) (n : Nat) :
    s.absorb cfg n .none 0 .transceive = (s.ingest cfg n, none) := by
  unfold State.absorb State.ingest Memory.ingest
  dsimp only
  rw [absorb_none_done]

theorem Written.cut {writer : Writer} {seq : Nat} {q : Request}
    (hwrites : Writes s ⟨writer, seq, q.reply, false, s.env.now, s.session, s.env.gate⟩)
    (hseq : writer = .session → seq = s.commandSeq) :
    Written cfg s ⟨writer, seq, q.reply, false, s.env.now, s.session, s.env.gate⟩
      (s.put writer seq q false) where
  writes := hwrites
  env := rfl
  wire := rfl
  log := rfl
  memory := rfl
  seq := by
    by_cases hwriter : writer = .session
    · exact .inr ⟨Nat.le_refl _, hseq hwriter⟩
    · exact .inl ⟨rfl, hwriter⟩

theorem Written.whole {writer : Writer} {seq : Nat} {q : Request}
    (hwrites : Writes s ⟨writer, seq, q.reply, true, s.env.now, s.session, s.env.gate⟩)
    (hwriter : writer ≠ .session) :
    Written cfg s ⟨writer, seq, q.reply, true, s.env.now, s.session, s.env.gate⟩
      ((s.put writer seq q true).noteWritten q.reply seq cfg.engine.timeout s.wire.length) where
  writes := hwrites
  env := rfl
  wire := rfl
  log := rfl
  memory := rfl
  seq := .inl ⟨rfl, hwriter⟩

theorem Written.session {q : Request}
    (hwrites : Writes s ⟨.session, s.commandSeq + 1, q.reply, true, s.env.now, s.session,
      s.env.gate⟩) :
    Written cfg s ⟨.session, s.commandSeq + 1, q.reply, true, s.env.now, s.session, s.env.gate⟩
      ((s.nextSeq.put .session s.nextSeq.commandSeq q true).noteWritten q.reply
        s.nextSeq.commandSeq cfg.engine.timeout s.wire.length) where
  writes := hwrites
  env := rfl
  wire := rfl
  log := rfl
  memory := rfl
  seq := .inr ⟨Nat.le_succ _, rfl⟩

/-- Every move of the actor is still, after at most one read, one write or one firing. -/
theorem Move.traffic (h : Move cfg s t) : Traffic cfg s t := by
  have hrefl : Still cfg s s := .refl
  cases h with
  | start hphase => exact .still (hrefl.linkStatusChanged true)
  | openSession hphase => exact .still (hrefl.settle (·.openSession))
  | takeEmergency hphase hqueue => exact .still ((hrefl.takeEmergency _ _).setPhase _)
  | stop hphase hqueue hgone => exact .still (hrefl.settle (·.unkeyOnStop))
  | linkChanged hphase hqueue hwatch hunseen => exact .still (hrefl.linkStatusChanged false)
  | watchGone hidle hwatch =>
    have hgone : Still cfg s (s.setEnv { s.env with linkWatch := false }) :=
      .of_same rfl rfl rfl rfl rfl (Nat.le_refl _) rfl
    exact .still (hgone.linkDown.setPhase _)
  | fire hidle hdue =>
    rcases watchdogFire_cases cfg s with ⟨-, heq⟩ | ⟨a, heq⟩ <;> rw [heq]
    · exact .still (hrefl.settle (·.toSelect))
    · exact .fired a (Still.refl.settle fun hf =>
        (hf.alarm a .watchdog).unkeyFailClosed .watchdog .watchdog) rfl
  | beat hidle => exact .still (hrefl.takeHeartbeatWake.setPhase _)
  | takeNormal hidle hqueue => exact .still ((hrefl.takeNormal _ _).settle (·.pollReserved _))
  | hear n hidle hrx =>
    exact .read n .none 0 .transceive (by rw [hidle.phase]; rfl) (.inl rfl)
      (ingest_absorb cfg s n) (Still.refl.setPhase _)
  | ended hidle => exact .still (hrefl.linkDown.setPhase _)
  | duePoll transmitting hidle hup => exact .still (hrefl.setPhase _)
  | poll hphase => exact .still (hrefl.pollStep _ _)
  | run hphase => exact .still (hrefl.runCommand _)
  | lines result hphase => exact .still (hrefl.linesStep _ result)
  | spaced hphase => exact .still (hrefl.drainStale _ _ _ _)
  | drainWoken hphase hwake => exact .still (hrefl.takeEmergencyWake.drainStale _ _ _ _)
  | drainHeard n hphase hrx =>
    exact .read n .none 0 .transceive (by rw [hphase]; rfl) (.inl rfl) (ingest_absorb cfg s n)
      (Still.refl.drainStale _ _ _ _)
  | drained hphase hlimit hrx => exact .still (hrefl.setPhase _)
  | preempted hwaits hmay hs' =>
    rcases hs' with rfl | rfl
    · exact .still (hrefl.settle (·.returnRun _ _))
    · exact .still (hrefl.takeEmergencyWake.settle (·.returnRun _ _))
  | lost why hwaits => exact .still (hrefl.linkLost _ why)
  | writeCut hphase htransmits =>
    exact .wrote (.cut (.run false hphase rfl) nofun) (Still.refl.settle (·.unkeyFailClosed _ _))
  | writeLate hphase htransmits =>
    exact .wrote (.cut (.run false hphase rfl) nofun) (Still.refl.settle (·.returnRun _ _))
  | writeFailed why hphase =>
    exact .wrote (.cut (.run false hphase rfl) nofun) (Still.refl.linkLost _ why)
  | writeDone hphase hreply =>
    exact .wrote (.whole (.run true hphase rfl) nofun)
      (Still.refl.settle fun hf => (hf.applySet _ _).returnRun _ _)
  | written hphase hreply hs' =>
    subst hs'
    exact .wrote (.whole (.run true hphase rfl) nofun) (Still.refl.setPhase _)
  | awaitWoken hphase hs' =>
    rcases hs' with ⟨rfl, -⟩ | ⟨rfl, -⟩
    · exact .still (hrefl.takeEmergencyWake.setPhase _)
    · exact .still (hrefl.takeHeartbeatWake.setPhase _)
  | undecided n hphase hrx habsorb =>
    exact .read n _ _ _ (by rw [hphase]; rfl) (.inr ⟨_, by rw [hphase]; rfl⟩) habsorb
      (Still.refl.setPhase _)
  | decided n result hphase hrx habsorb =>
    exact .read n _ _ _ (by rw [hphase]; rfl) (.inr ⟨_, by rw [hphase]; rfl⟩) habsorb
      (Still.refl.replied _ result)
  | replyTimedOut hphase hrx hlimit => exact .still (hrefl.replyTimedOut _ _ _ _)
  | backedOff hphase => exact .still (hrefl.setPhase _)
  | unkeyLate hphase =>
    exact .wrote (.cut (.unkey false hphase rfl) nofun) (Still.refl.unkeyAttempt _ _ _ _ _)
  | unkeyFailed hphase =>
    exact .wrote (.cut (.unkey false hphase rfl) nofun)
      (Still.refl.linkDown.settle (·.unkeyFinished _ _ false))
  | unkeyDone hphase hreply =>
    exact .wrote (.whole (.unkey true hphase rfl) nofun)
      (Still.refl.settle (·.unkeyFinished _ _ true))
  | unkeyWritten hphase hreply =>
    exact .wrote (.whole (.unkey true hphase rfl) nofun) (Still.refl.setPhase _)
  | unkeyUndecided n hphase hrx habsorb =>
    exact .read n _ _ _ (by rw [hphase]; rfl) (.inr ⟨_, by rw [hphase]; rfl⟩) habsorb .refl
  | unkeyAnswered n v hphase hrx habsorb =>
    exact .read n _ _ _ (by rw [hphase]; rfl) (.inr ⟨_, by rw [hphase]; rfl⟩) habsorb
      (Still.refl.settle (·.unkeyFinished _ _ true))
  | unkeyRefused n e hphase hrx habsorb =>
    exact .read n _ _ _ (by rw [hphase]; rfl) (.inr ⟨_, by rw [hphase]; rfl⟩) habsorb
      (Still.refl.unkeyAttempt _ _ _ _ _)
  | unkeyTimedOut hphase hrx => exact .still (hrefl.unkeyAttempt _ _ _ _ _)
  | sessionLate hphase =>
    exact .wrote (.cut (.session _ false hphase rfl) fun _ => rfl)
      (Still.refl.settle (·.writeSessionRequests _ _))
  | sessionFailed hphase =>
    exact .wrote (.cut (.session _ false hphase rfl) fun _ => rfl)
      (Still.refl.linkDown.settle (·.sessionReturned _))
  | sessionDone hphase hreply =>
    exact .wrote (.session (.session _ true hphase rfl))
      (Still.refl.settle (·.writeSessionRequests _ _))
  | sessionWritten hphase hreply =>
    exact .wrote (.session (.session _ true hphase rfl)) (Still.refl.setPhase _)
  | sessionUndecided n hphase hrx habsorb =>
    exact .read n _ _ _ (by rw [hphase]; rfl) (.inr ⟨_, by rw [hphase]; rfl⟩) habsorb .refl
  | sessionAnswered n result hphase hrx habsorb =>
    exact .read n _ _ _ (by rw [hphase]; rfl) (.inr ⟨_, by rw [hphase]; rfl⟩) habsorb
      (Still.refl.settle (·.writeSessionRequests _ _))
  | sessionTimedOut hphase hrx => exact .still (hrefl.settle (·.writeSessionRequests _ _))

/-! ### What follows for every step -/

/-- What `absorb` leaves behind: what `Memory.absorb` makes of the items read, and in the log the
items, with the result if one was decided. -/
theorem absorb_cases {n : Nat} {expect : ReplyKind} {seq : Nat} {source : Source}
    {result : Option Reply} (h : s.absorb cfg n expect seq source = (t, result))
    {memory : Memory} {done : Option Memory.Decided}
    (hdone : Memory.absorb cfg.engine.capabilities expect seq source s.env.now s.memory none
      (s.read cfg n).1 = (memory, done)) :
    t.memory = memory ∧
      (done = none ∧ t.log = .absorbed (s.read cfg n).1 s.env.now :: s.log ∨
        ∃ reply write, done = some (reply, write) ∧
          t.log = .credited seq reply write :: .absorbed (s.read cfg n).1 s.env.now :: s.log) := by
  have hmemory : (s.read cfg n).2.memory = s.memory := rfl
  have hnow : (s.read cfg n).2.env.now = s.env.now := rfl
  unfold State.absorb at h
  simp only [hmemory, hnow, hdone] at h
  cases done with
  | none =>
    obtain ⟨rfl, -⟩ := Prod.mk.inj h
    exact ⟨rfl, .inl ⟨rfl, rfl⟩⟩
  | some d =>
    obtain ⟨rfl, -⟩ := Prod.mk.inj h
    exact ⟨rfl, .inr ⟨d.1, d.2, rfl, rfl⟩⟩

theorem absorb_log {n : Nat} {expect : ReplyKind} {seq : Nat} {source : Source}
    {result : Option Reply} (h : s.absorb cfg n expect seq source = (t, result)) :
    ∃ es, t.log = es ++ s.log ∧ ∀ e ∈ es, (∃ items now, e = .absorbed items now) ∨
      ∃ seq reply write, e = .credited seq reply write := by
  obtain ⟨-, ⟨-, hlog⟩ | ⟨reply, write, -, hlog⟩⟩ := absorb_cases h rfl
  · exact ⟨[_], hlog, by simp⟩
  · exact ⟨[_, _], hlog, by simp⟩

theorem Effects.of_absorb {n : Nat} {expect : ReplyKind} {seq : Nat} {source : Source}
    {result : Option Reply} (h : s.absorb cfg n expect seq source = (t, result)) :
    Effects cfg s t := by
  have htaken : Effects cfg s ((s.read cfg n).2.setMemory
      (s.memory.absorb cfg.engine.capabilities expect seq source s.env.now none
        (s.read cfg n).1).1) := .single (.absorb expect seq source (s.read cfg n).1 rfl rfl)
  obtain ⟨hmemory, ⟨-, hlog⟩ | ⟨reply, write, -, hlog⟩⟩ := absorb_cases h rfl
  · exact htaken.trans (.of_eq hlog hmemory)
  · exact htaken.trans (.of_record (e := .credited seq reply write) rfl hlog hmemory)

theorem Effects.of_written {w : Wrote} (h : Written cfg s w t) : Effects cfg s t := by
  refine .single (.quiet [.wrote s.wire.length] (by simp [Event.quiet]) h.log ?_ ?_ ?_) <;>
  · rw [h.memory]
    split <;> simp

/-- A move of the actor is a sequence of effects. -/
theorem Move.effects (h : Move cfg s t) : Effects cfg s t := by
  cases h.traffic with
  | still h => exact h.effects
  | fired a h ht => exact (Effects.single (.fire rfl rfl)).trans h.effects
  | read n expect seq source hreads hawaits habsorb h =>
    exact (Effects.of_absorb habsorb).trans h.effects
  | wrote hwritten h => exact (Effects.of_written hwritten).trans h.effects

/-- A move of the actor adds at most one write to the wire, made from where it stood. -/
theorem Move.wire (h : Move cfg s t) :
    t.wire = s.wire ∨ ∃ w, t.wire = s.wire ++ [w] ∧ Writes s w := by
  cases h.traffic with
  | still h | fired a h ht => exact .inl h.wire
  | read n expect seq source hreads hawaits habsorb h =>
    exact .inl (h.wire.trans (absorb_heard habsorb).wire)
  | wrote hwritten h => exact .inr ⟨_, h.wire.trans hwritten.wire, hwritten.writes⟩

/-- The actor leaves the gate to the handles. -/
theorem Move.gate (h : Move cfg s t) : t.env.gate = s.env.gate := by
  cases h.traffic with
  | still h | fired a h ht => exact h.gate
  | read n expect seq source hreads hawaits habsorb h =>
    rw [h.gate, (absorb_heard habsorb).env]
  | wrote hwritten h => rw [h.gate, hwritten.env]

theorem Writes.session_eq {w : Wrote} (h : Writes s w) : w.session = s.session := by
  cases h with
  | run complete hphase hw | unkey complete hphase hw | session seq complete hphase hw => rw [hw]

/-- The actor only adds to the log, and none of what others log. -/
theorem Effects.log_eq (h : Effects cfg s t) :
    ∃ es, t.log = es ++ s.log ∧ ∀ e ∈ es, e.aside = false := by
  refine h.keeps (P := fun u => ∃ es, u.log = es ++ s.log ∧ ∀ e ∈ es, e.aside = false) ?_
    ⟨[], rfl, by simp⟩
  rintro u v heffect ⟨es, hlog, hes⟩
  have hone {e : Event} (he : e.aside = false) (hv : v.log = e :: u.log) :
      ∃ es, v.log = es ++ s.log ∧ ∀ e ∈ es, e.aside = false :=
    ⟨e :: es, by rw [hv, hlog]; rfl, by simpa [he] using hes⟩
  cases heffect with
  | quiet es' hquiet hv hcache hkeyed hevents =>
    refine ⟨es' ++ es, by rw [hv, hlog, List.append_assoc], fun e he => ?_⟩
    rcases List.mem_append.mp he with he | he
    · have hq := hquiet e he
      cases e <;> first | rfl | cases hq
    · exact hes e he
  | alarm a source => exact hone (e := .alarm a) rfl rfl
  | applySet op source => exact hone (e := .applied op u.env.now) rfl rfl
  | absorb expect seq source items hv hmemory => exact hone rfl hv
  | fire hv hmemory => exact hone rfl hv

end State

/-- What every effect keeps, and everything beside the actor, holds in every reachable state. -/
theorem Reachable.of_effect {σ : Type} {cfg : Setup σ} {P : State σ → Prop}
    (hinit : ∀ s, (machine cfg).init s → P s) (hP : ∀ s t, State.Effect cfg s t → P s → P t)
    (haside : ∀ s t, State.Aside s t → P s → P t) {s : State σ}
    (h : (machine cfg).Reachable s) : P s := by
  refine h.invariant hinit fun s a t hs hstep => ?_
  rcases State.step_cases hstep with ⟨-, -, hmove⟩ | hbeside
  · exact hmove.effects.keeps hP hs
  · exact haside s t hbeside.aside hs

end HamsOpen.Rig
