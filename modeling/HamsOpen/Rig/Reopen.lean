import HamsOpen.Rig.Frames

/-!
# The first write after a reopen

When the port comes back the actor unkeys the rig before anything else, once it is back at its loop
and looks at the link. What it was doing when the port came back may still write before that: a
command's spacing, draining, write or retry, a queued command behind a reserved poll, the session
requests of an earlier reopen. And a queued emergency command is taken ahead of the link change. In
a run where neither happens, the first write of every new session is the fail-closed unkey.
-/

namespace HamsOpen.Rig

/-- The queued command that is served when the run has ended. -/
def Run.next (r : Run) : Option Command :=
  match r.caller with
  | .served _ => none
  | .polled _ _ next => next

/-- Something else may be written after this unkey, before the actor is back at its loop. -/
def Unkeyer.goesOn : Unkeyer → Bool
  | .writeTimedOut r | .notAnswered r => r.next.isSome
  | .linkRestored _ => true
  | .watchdog | .stopping => false

/-- A rig that can be unkeyed: it has the command, and the engine can encode it. -/
structure CanUnkey {σ : Type} (engine : Engine σ) : Prop where
  capable : engine.capabilities.has .setPtt = true
  encodes : ∀ e, ∃ q, (engine.encode e (.setPtt false)).1 = .ok q

namespace State

variable {σ : Type} {cfg : Setup σ} {s t : State σ} {g : Nat}

/-- The actor may write something else than an unkey of its own before it is back at its loop. -/
def writesOn (s : State σ) : Bool :=
  match s.phase with
  | .starting | .spacing _ _ _ _ _ | .draining _ _ _ _ _ | .writing _ _ _ _
  | .sessionWriting _ _ _ _ => true
  | .opening => s.linkUp && !s.sessionOpened
  | .select _ | .stopped | .unkeyBackoff _ _ _ _ _ _ | .unkeyWriting _ _ _ _ _ _ => false
  | .polling _ _ | .begin _ => s.linkUp
  | .lines r => r.next.isSome
  | .awaiting r _ _ left _ _ => 0 < left || r.next.isSome
  | .unkeyAwaiting u _ _ _ _ _ => u.goesOn
  | .sessionAwaiting _ _ _ rest _ => !rest.isEmpty || !s.sessionOpened

/-- The port is open in a session the actor has not seen. -/
def reopenUnseen (s : State σ) : Bool :=
  match s.env.link with
  | .connected generation => generation != s.linkGeneration
  | _ => false

/-- The port does not come back while the actor may still write, and no emergency command runs on
a reopened link the actor has not looked at. -/
def reopenKept (s : State σ) : Act → Bool
  | .portOpened => !s.writesOn
  | .actor _ =>
    match s.phase with
    | .select _ => s.env.emergency.isEmpty || !s.linkUp || !s.reopenUnseen
    | _ => true
  | _ => true

/-- Session `g` gets no write before an unkey: the actor is about to write one, or it is going back
to its loop without a write, where it finds the reopen. -/
def Ahead (s : State σ) (g : Nat) : Prop :=
  s.phase.unkeying = true ∨
    s.writesOn = false ∧ g ≠ s.linkGeneration ∧ s.env.linkWatch = true ∧ s.env.linkUnseen = true

/-! ### Where the functions lead -/

theorem returnRun_phase (s : State σ) (r : Run) (result : Reply) :
    (∃ w, (s.returnRun cfg r result).phase = .select w) ∨
      ∃ c, r.next = some c ∧ (s.returnRun cfg r result).phase = .begin (serveRun c true) := by
  unfold returnRun Run.next
  cases r.caller with
  | served c => exact .inl ⟨_, rfl⟩
  | polled entry before next =>
    cases next with
    | none => exact .inl ⟨_, rfl⟩
    | some c => exact .inr ⟨c, rfl, rfl⟩

/-- A run that returns with no command behind it, or with the link down, writes no more. -/
theorem returnRun_writesOn (r : Run) (result : Reply) (h : r.next = none ∨ s.linkUp = false) :
    (s.returnRun cfg r result).writesOn = false := by
  unfold writesOn
  rcases s.returnRun_phase r result with ⟨w, heq⟩ | ⟨c, hc, heq⟩ <;> rw [heq]
  have hdown : s.linkUp = false := h.resolve_left (by simp [hc])
  simp [hdown]

theorem unkeyFinished_writesOn (u : Unkeyer) (source : Source) (done : Bool)
    (h : u.goesOn = false) : (s.unkeyFinished cfg u source done).writesOn = false := by
  unfold unkeyFinished
  cases u with
  | writeTimedOut r => exact returnRun_writesOn r _ (.inl (by simpa [Unkeyer.goesOn] using h))
  | notAnswered r => exact returnRun_writesOn r _ (.inl (by simpa [Unkeyer.goesOn] using h))
  | linkRestored starting => cases h
  | watchdog => rfl
  | stopping => rfl

/-- After an unkey's attempt, another is made or nothing more is written. -/
theorem unkeyAttempt_writesOn (u : Unkeyer) (source : Source) (q : Request) (seq attempt : Nat)
    (h : u.goesOn = false) :
    (s.unkeyAttempt cfg u source q seq attempt).phase.unkeying = true ∨
      (s.unkeyAttempt cfg u source q seq attempt).writesOn = false := by
  unfold unkeyAttempt
  split
  · exact .inr (unkeyFinished_writesOn u source false h)
  split
  · exact .inl rfl
  · exact .inl rfl

/-- A fail-closed unkey writes next, when the link is up. -/
theorem unkeyFailClosed_unkeying (hcan : CanUnkey cfg.engine) (u : Unkeyer) (source : Source)
    (h : s.linkUp = true) : (s.unkeyFailClosed cfg u source).phase.unkeying = true := by
  obtain ⟨q, hq⟩ := hcan.encodes s.engine
  unfold unkeyFailClosed
  simp only [hcan.capable, if_true, hq]
  unfold unkeyAttempt
  simp [h, UNKEY_ATTEMPTS, Phase.unkeying]

theorem unkeyFailClosed_writesOn (u : Unkeyer) (source : Source) (h : u.goesOn = false) :
    (s.unkeyFailClosed cfg u source).phase.unkeying = true ∨
      (s.unkeyFailClosed cfg u source).writesOn = false := by
  unfold unkeyFailClosed
  split
  · dsimp only
    split
    · exact unkeyAttempt_writesOn u source _ _ 0 h
    · exact .inr (unkeyFinished_writesOn u source false h)
  · exact .inr (unkeyFinished_writesOn u source false h)

/-! ### One step -/

/-- Without a retry left, a reply that does not come leads to an unkey or to no write. -/
theorem replyTimedOut_writesOn (r : Run) (q : Request) (seq : Nat) (h : r.next = none) :
    (s.replyTimedOut cfg r q seq 0).phase.unkeying = true ∨
      (s.replyTimedOut cfg r q seq 0).writesOn = false := by
  rcases replyTimedOut_cases cfg s r q seq 0 with ⟨left', hleft, -⟩ | ⟨-, heq⟩ | ⟨-, heq⟩
  · cases hleft
  · rw [heq]
    exact unkeyFailClosed_writesOn _ _ (by simp [Unkeyer.goesOn, h])
  · rw [heq]
    exact .inr (returnRun_writesOn r _ (.inl h))

theorem sessionReturned_writesOn (k : SessionCaller) (h : s.sessionOpened = true) :
    (s.sessionReturned cfg k).writesOn = false := by
  cases k with
  | opening => rfl
  | restore starting =>
    simp only [sessionReturned, linkStatusReturned]
    split
    · simp [writesOn, h]
    · rfl

theorem runCommand_writesOn (r : Run) (h : s.linkUp = false) :
    (s.runCommand cfg r).writesOn = false := by
  unfold runCommand
  rw [if_pos (by simp [h])]
  exact returnRun_writesOn r _ (.inr h)

/-- An unkey about to be written is written. -/
theorem Move.unkeying (h : Move cfg s t) (hkeying : s.phase.unkeying = true) :
    (∃ w, t.wire = s.wire ++ [w] ∧ w.writer = .unkey) ∨ t.phase.unkeying = true := by
  cases h with
  | backedOff hphase => exact .inr rfl
  | unkeyLate hphase | unkeyFailed hphase | unkeyDone hphase | unkeyWritten hphase =>
    left
    simp
  | preempted hwaits | lost why hwaits =>
    cases hphase : s.phase <;> simp_all [Phase.waitsFor, Phase.unkeying]
  | watchGone hi | fire hi | beat hi | takeNormal hi | hear n hi | ended hi
  | duePoll transmitting hi => simp [hi.phase, Phase.unkeying] at hkeying
  | start hphase | openSession hphase | takeEmergency hphase | stop hphase | linkChanged hphase
  | poll hphase | run hphase | lines result hphase | spaced hphase | drainWoken hphase
  | drainHeard n hphase | drained hphase | writeCut hphase | writeLate hphase
  | writeFailed why hphase | writeDone hphase | written hphase | awaitWoken hphase
  | undecided n hphase | decided n result hphase | replyTimedOut hphase
  | unkeyUndecided n hphase | unkeyAnswered n v hphase | unkeyRefused n e hphase
  | unkeyTimedOut hphase | sessionLate hphase | sessionFailed hphase | sessionDone hphase
  | sessionWritten hphase | sessionUndecided n hphase | sessionAnswered n result hphase
  | sessionTimedOut hphase => simp [hphase, Phase.unkeying] at hkeying

/-- From where the actor writes nothing before it looks at the link, a move leads to an unkey, or to
such a place again. -/
theorem Move.writesOn (hcan : CanUnkey cfg.engine) (h : Move cfg s t)
    (hwrites : s.writesOn = false) (hreopen : s.reopenUnseen = true)
    (hlink : s.env.linkWatch = true ∧ s.env.linkUnseen = true)
    (hknown : s.linkGeneration ≠ 0 ∨ s.linkUp = false)
    (hemergency : ∀ w, s.phase = .select w → s.env.emergency = [] ∨ s.linkUp = false)
    (hkeying : s.phase.unkeying = false) :
    t.phase.unkeying = true ∨ t.writesOn = false ∧ t.linkGeneration = s.linkGeneration ∧
      t.env.linkWatch = true ∧ t.env.linkUnseen = true := by
  have hidle (w : Option Instant) : ¬s.Idle w := fun hi => by
    have hquiet := hi.link
    simp [hlink] at hquiet
  have hon {u : State σ} (henv : u.env.linkWatch = true ∧ u.env.linkUnseen = true)
      (hgen : u.linkGeneration = s.linkGeneration)
      (h : u.phase.unkeying = true ∨ u.writesOn = false) :
      u.phase.unkeying = true ∨ u.writesOn = false ∧ u.linkGeneration = s.linkGeneration ∧
        u.env.linkWatch = true ∧ u.env.linkUnseen = true :=
    h.imp_right fun h => ⟨h, hgen, henv⟩
  cases h with
  | start hphase | spaced hphase | drainWoken hphase | drainHeard n hphase | drained hphase
  | writeCut hphase | writeLate hphase | writeFailed why hphase | writeDone hphase
  | written hphase | sessionLate hphase | sessionFailed hphase | sessionDone hphase
  | sessionWritten hphase => simp [State.writesOn, hphase] at hwrites
  | backedOff hphase | unkeyLate hphase | unkeyFailed hphase | unkeyDone hphase
  | unkeyWritten hphase => simp [hphase, Phase.unkeying] at hkeying
  | watchGone hi | fire hi | beat hi | takeNormal hi | hear n hi | ended hi
  | duePoll transmitting hi => exact absurd hi (hidle _)
  | openSession hphase =>
    have hdone : (s.sessionOpened || !s.linkUp) = true := by
      simp only [State.writesOn, hphase] at hwrites
      cases hup : s.linkUp <;> simp_all
    unfold State.openSession
    rw [if_pos hdone]
    exact hon hlink rfl (.inr rfl)
  | takeEmergency hphase hqueue =>
    have hdown : s.linkUp = false := (hemergency _ hphase).resolve_left (by simp [hqueue])
    exact hon hlink rfl (.inr hdown)
  | stop hphase =>
    refine hon (by simpa using hlink) (by simp) ?_
    unfold unkeyOnStop
    split
    · exact unkeyFailClosed_writesOn _ _ rfl
    · exact .inr rfl
  | linkChanged hphase =>
    left
    rcases linkStatusChanged_cases cfg s false with ⟨hwatch, -⟩ | ⟨-, hsame, -⟩ |
      ⟨g, -, -, hfirst, hup, -⟩ | ⟨g, -, -, -, heq⟩ | ⟨-, hnone, -⟩
    · simp [hlink.1] at hwatch
    · simp [reopenUnseen, hsame] at hreopen
    · rcases hknown with hknown | hknown
      · exact absurd hfirst hknown
      · simp [hup] at hknown
    · rw [heq]
      exact unkeyFailClosed_unkeying hcan _ _ rfl
    · unfold reopenUnseen at hreopen
      split at hreopen
      · exact absurd ‹_› (hnone _)
      · cases hreopen
  | poll hphase =>
    have hdown : s.linkUp = false := by simpa [State.writesOn, hphase] using hwrites
    refine hon (by simpa using hlink) (by simp) (.inr ?_)
    rcases pollStep_cases cfg s _ _ with ⟨entry, heq⟩ | ⟨poll, heq⟩ | heq <;> rw [heq]
    · exact hdown
    · simpa [State.writesOn, hphase] using hdown
    · rfl
  | run hphase =>
    have hdown : s.linkUp = false := by simpa [State.writesOn, hphase] using hwrites
    exact hon (by simpa using hlink) (by simp) (.inr (runCommand_writesOn _ hdown))
  | @lines r result hphase =>
    have hnext : r.next = none := by simpa [State.writesOn, hphase] using hwrites
    rcases linesStep_cases cfg s _ result with heq | ⟨e, heq | heq⟩ <;> rw [heq] <;>
      exact hon (by simpa using hlink) (by simp) (.inr (returnRun_writesOn _ _ (.inl hnext)))
  | @preempted r s' hwaits hmay hs' =>
    have hnext : r.next = none := by
      cases hphase : s.phase <;> simp_all [Phase.waitsFor, State.writesOn]
    rcases hs' with rfl | rfl <;>
      exact hon (by simpa [State.preempted, takeEmergencyWake] using hlink)
        (by simp [State.preempted, takeEmergencyWake])
        (.inr (returnRun_writesOn _ _ (.inl hnext)))
  | @lost r why hwaits =>
    have hnext : r.next = none := by
      cases hphase : s.phase <;> simp_all [Phase.waitsFor, State.writesOn]
    exact hon (by simpa [linkLost] using hlink) (by simp [linkLost])
      (.inr (returnRun_writesOn _ _ (.inl hnext)))
  | awaitWoken hphase hs' =>
    rcases hs' with ⟨rfl, -⟩ | ⟨rfl, -⟩ <;>
      exact hon hlink rfl (.inr (by simpa [State.writesOn, hphase] using hwrites))
  | undecided n hphase hrx habsorb =>
    have hheard := absorb_heard habsorb
    exact hon (by simpa [hheard.env] using hlink) (by simp [hheard.linkGeneration])
      (.inr (by simpa [State.writesOn, hphase] using hwrites))
  | decided n result hphase hrx habsorb =>
    have hheard := absorb_heard habsorb
    simp only [State.writesOn, hphase, Bool.or_eq_false_iff, Option.isSome_eq_false_iff,
      Option.isNone_iff_eq_none] at hwrites
    refine hon (by simpa [hheard.env] using hlink) (by simp [hheard.linkGeneration]) (.inr ?_)
    exact returnRun_writesOn _ _ (.inl hwrites.2)
  | replyTimedOut hphase =>
    simp only [State.writesOn, hphase, Bool.or_eq_false_iff, decide_eq_false_iff_not,
      Nat.not_lt, Nat.le_zero, Option.isSome_eq_false_iff, Option.isNone_iff_eq_none] at hwrites
    obtain ⟨rfl, hnext⟩ := hwrites
    exact hon (by simpa using hlink) (by simp) (replyTimedOut_writesOn _ _ _ hnext)
  | unkeyUndecided n hphase hrx habsorb =>
    have hheard := absorb_heard habsorb
    refine hon (by simpa [hheard.env] using hlink) hheard.linkGeneration (.inr ?_)
    simpa [State.writesOn, hheard.phase, hphase] using hwrites
  | unkeyAnswered n v hphase hrx habsorb =>
    have hheard := absorb_heard habsorb
    simp only [State.writesOn, hphase] at hwrites
    exact hon (by simpa [hheard.env] using hlink) (by simp [hheard.linkGeneration])
      (.inr (unkeyFinished_writesOn _ _ _ hwrites))
  | unkeyRefused n e hphase hrx habsorb =>
    have hheard := absorb_heard habsorb
    simp only [State.writesOn, hphase] at hwrites
    exact hon (by simpa [hheard.env] using hlink) (by simp [hheard.linkGeneration])
      (unkeyAttempt_writesOn _ _ _ _ _ hwrites)
  | unkeyTimedOut hphase =>
    simp only [State.writesOn, hphase] at hwrites
    exact hon (by simpa using hlink) (by simp) (unkeyAttempt_writesOn _ _ _ _ _ hwrites)
  | sessionUndecided n hphase hrx habsorb =>
    have hheard := absorb_heard habsorb
    refine hon (by simpa [hheard.env] using hlink) hheard.linkGeneration (.inr ?_)
    simpa [State.writesOn, hheard.phase, hphase, hheard.sessionOpened] using hwrites
  | sessionAnswered n result hphase hrx habsorb =>
    have hheard := absorb_heard habsorb
    simp only [State.writesOn, hphase, Bool.or_eq_false_iff, Bool.not_eq_false',
      List.isEmpty_iff] at hwrites
    obtain ⟨rfl, hopened⟩ := hwrites
    exact hon (by simpa [hheard.env] using hlink) (by simp [hheard.linkGeneration])
      (.inr (sessionReturned_writesOn _ (hheard.sessionOpened.trans hopened)))
  | sessionTimedOut hphase =>
    simp only [State.writesOn, hphase, Bool.or_eq_false_iff, Bool.not_eq_false',
      List.isEmpty_iff] at hwrites
    obtain ⟨rfl, hopened⟩ := hwrites
    exact hon (by simpa using hlink) (by simp) (.inr (sessionReturned_writesOn _ hopened))

/-- What a move does to the actor's view of the link. Only the surroundings change the link; the
actor takes up the session that is open, or keeps its own and at most gives the link up. -/
theorem Move.link (h : Move cfg s t) :
    t.env.link = s.env.link ∧ t.env.opens = s.env.opens ∧
      (t.env.linkWatch = true → s.env.linkWatch = true) ∧
      (s.env.link = .connected t.linkGeneration ∨ t.linkGeneration = s.linkGeneration ∧
        (t.linkUp = false ∨ t.linkUp = s.linkUp ∧
          (s.phase = .starting → t.env.linkWatch = false))) := by
  have hchanged (starting : Bool) (hstart : s.phase = .starting → starting = true) :
      (s.linkStatusChanged cfg starting).env.link = s.env.link ∧
        (s.linkStatusChanged cfg starting).env.opens = s.env.opens ∧
        ((s.linkStatusChanged cfg starting).env.linkWatch = true → s.env.linkWatch = true) ∧
        (s.env.link = .connected (s.linkStatusChanged cfg starting).linkGeneration ∨
          (s.linkStatusChanged cfg starting).linkGeneration = s.linkGeneration ∧
          ((s.linkStatusChanged cfg starting).linkUp = false ∨
            (s.linkStatusChanged cfg starting).linkUp = s.linkUp ∧
            (s.phase = .starting → (s.linkStatusChanged cfg starting).env.linkWatch = false))) := by
    rcases linkStatusChanged_cases cfg s starting with ⟨hwatch, heq⟩ | ⟨-, hlink, heq⟩ |
      ⟨g, -, hlink, -, -, heq⟩ | ⟨g, -, hlink, -, heq⟩ | ⟨-, -, heq⟩ <;> rw [heq]
    · simp [hwatch]
    · simp [hlink, seeLink]
    · simp [hlink, seeLink]
    · simp [hlink, seeLink]
    · simp [seeLink]
  cases h with
  | start hphase => exact hchanged true fun _ => rfl
  | linkChanged hphase => exact hchanged false fun hstart => by simp [hphase] at hstart
  | preempted hwaits hmay hs' =>
    have hphase : s.phase ≠ .starting := by
      intro hstart
      simp [hstart, Phase.waitsFor] at hwaits
    rcases hs' with rfl | rfl <;> simp [State.preempted, takeEmergencyWake, hphase]
  | lost why hwaits => simp [linkLost]
  | awaitWoken hphase hs' =>
    rcases hs' with ⟨rfl, -⟩ | ⟨rfl, -⟩ <;> simp [takeEmergencyWake, takeHeartbeatWake, hphase]
  | watchGone hi | ended hi => simp
  | fire hi | beat hi | takeNormal hi | hear n hi | duePoll transmitting hi =>
    simp [hi.phase, takeHeartbeatWake, State.takeNormal, ingest, read]
  | lines result hphase =>
    rcases linesStep_cases cfg s _ result with heq | ⟨e, heq | heq⟩ <;> rw [heq] <;> simp [hphase]
  | undecided n hphase hrx habsorb | unkeyUndecided n hphase hrx habsorb
  | sessionUndecided n hphase hrx habsorb =>
    have hheard := absorb_heard habsorb
    simp [hheard.env, hheard.linkGeneration, hheard.linkUp, hphase]
  | decided n result hphase hrx habsorb | unkeyAnswered n v hphase hrx habsorb
  | unkeyRefused n e hphase hrx habsorb | sessionAnswered n result hphase hrx habsorb =>
    have hheard := absorb_heard habsorb
    simp [hheard.env, hheard.linkGeneration, hheard.linkUp, hphase]
  | written hphase hreply hs' =>
    subst hs'
    simp [hphase]
  | openSession hphase | takeEmergency hphase | stop hphase | poll hphase | run hphase
  | spaced hphase | drainWoken hphase | drainHeard n hphase | drained hphase | writeCut hphase
  | writeLate hphase | writeFailed why hphase | writeDone hphase | replyTimedOut hphase
  | backedOff hphase | unkeyLate hphase | unkeyFailed hphase | unkeyDone hphase
  | unkeyWritten hphase | unkeyTimedOut hphase | sessionLate hphase | sessionFailed hphase
  | sessionDone hphase | sessionWritten hphase | sessionTimedOut hphase =>
    simp [hphase, State.takeEmergency, takeEmergencyWake, ingest, read, linkLost]

/-! ### Any run -/

/-- The invariant: a session opened in this run gets an unkey first. -/
structure Reopened (s : State σ) : Prop where
  first : ∀ g, .opened g ∈ s.log → ∀ w, s.wire.find? (·.session == some g) = some w →
    w.writer = .unkey
  sessions : ∀ w ∈ s.wire, ∀ g, w.session = some g → g ≤ s.env.opens
  opened : ∀ g, .opened g ∈ s.log → g ≤ s.env.opens
  current : ∀ g, s.env.link = .connected g → g = s.env.opens ∧ 0 < g
  known : s.linkGeneration ≤ s.env.opens
  looked : s.phase = .starting ∨ s.env.linkWatch = false ∨ s.linkGeneration ≠ 0 ∨
    s.linkUp = false
  ahead : ∀ g, s.env.link = .connected g → .opened g ∈ s.log →
    (∀ w ∈ s.wire, w.session ≠ some g) → s.Ahead g

/-- Where session `g` gets no write before an unkey, only an unkey can be written. -/
theorem Ahead.writer (h : s.Ahead g) {w : Wrote} (hw : Writes s w) : w.writer = .unkey := by
  cases hw with
  | unkey complete hphase hw => rw [hw]
  | run complete hphase hw | session seq complete hphase hw =>
    rcases h with h | ⟨h, -⟩
    · simp [hphase, Phase.unkeying] at h
    · simp [writesOn, hphase] at h

theorem Reopened.move (hcan : CanUnkey cfg.engine) (h : s.Reopened) (hmove : Move cfg s t)
    (hemergency : ∀ w, s.phase = .select w →
      s.env.emergency = [] ∨ s.linkUp = false ∨ s.reopenUnseen = false) : t.Reopened := by
  obtain ⟨hlink, hopens, hwatch, hsession⟩ := hmove.link
  obtain ⟨es, hlog, hes⟩ := hmove.effects.log_eq
  have hopened (g : Nat) : .opened g ∈ t.log ↔ .opened g ∈ s.log := by
    rw [hlog, List.mem_append]
    exact or_iff_right fun hg => by cases hes _ hg
  have hconnected {w : Wrote} {g : Nat} (hw : Writes s w) (hg : w.session = some g) :
      s.env.link = .connected g := by
    rw [hw.session_eq] at hg
    unfold State.session at hg
    split at hg
    · rwa [← Option.some.inj hg]
    · cases hg
  refine ⟨fun g hg w hfind => ?_, fun w hw g hg => ?_, fun g hg => ?_, fun g hg => ?_, ?_, ?_,
    fun g hg hgo hnone => ?_⟩
  · have hold := h.first g ((hopened g).mp hg) w
    rcases hmove.wire with hwire | ⟨w', hwire, hw'⟩ <;> rw [hwire] at hfind
    · exact hold hfind
    rw [List.find?_append] at hfind
    cases hfirst : s.wire.find? (·.session == some g) with
    | some w₀ =>
      rw [hfirst] at hfind hold
      exact hold hfind
    | none =>
      -- The first write of the session is this one.
      simp only [hfirst, Option.none_or, List.find?_singleton] at hfind
      split at hfind
      · rename_i hg'
        obtain rfl := Option.some.inj hfind
        refine (h.ahead g (hconnected hw' (by simpa using hg')) ((hopened g).mp hg) ?_).writer hw'
        simpa using hfirst
      · cases hfind
  · rw [hopens]
    rcases hmove.wire with hwire | ⟨w', hwire, hw'⟩ <;> rw [hwire] at hw
    · exact h.sessions w hw g hg
    rcases List.mem_append.mp hw with hw | hw
    · exact h.sessions w hw g hg
    · rw [List.mem_singleton.mp hw] at hg
      exact Nat.le_of_eq (h.current g (hconnected hw' hg)).1
  · rw [hopens]
    exact h.opened g ((hopened g).mp hg)
  · rw [hopens]
    exact h.current g (hlink ▸ hg)
  · rw [hopens]
    rcases hsession with hsession | ⟨hgen, -⟩
    · exact Nat.le_of_eq (h.current _ hsession).1
    · exact hgen ▸ h.known
  · right
    rcases hsession with hsession | ⟨hgen, hdown | ⟨hup, hstart⟩⟩
    · exact .inr (.inl (Nat.ne_of_gt (h.current _ hsession).2))
    · exact .inr (.inr hdown)
    · rw [hgen, hup]
      rcases h.looked with hphase | hnowatch | hknown
      · exact .inl (hstart hphase)
      · refine .inl ?_
        cases hw : t.env.linkWatch with
        | false => rfl
        | true => simp [hwatch hw] at hnowatch
      · exact .inr hknown
  · rw [hlink] at hg
    have hold : ∀ w ∈ s.wire, w.session ≠ some g := by
      intro w hw
      rcases hmove.wire with hwire | ⟨w', hwire, -⟩ <;> rw [hwire] at hnone
      · exact hnone w hw
      · exact hnone w (List.mem_append_left _ hw)
    have hahead := h.ahead g hg ((hopened g).mp hgo) hold
    cases hkeying : s.phase.unkeying with
    | true =>
      rcases hmove.unkeying hkeying with ⟨w, hwire, -⟩ | hkeying'
      · -- It was written, to this session.
        rcases hmove.wire with hwire' | ⟨w', hwire', hw'⟩
        · simp [hwire'] at hwire
        · refine absurd ?_ (hnone w' (by simp [hwire']))
          rw [hw'.session_eq, State.session, hg]
      · exact .inl hkeying'
    | false =>
      obtain ⟨hwrites, hgen, hlinks⟩ := hahead.resolve_left (by simp [hkeying])
      have hreopen : s.reopenUnseen = true := by simp [reopenUnseen, hg, hgen]
      have hlooked : s.linkGeneration ≠ 0 ∨ s.linkUp = false := by
        rcases h.looked with hphase | hnowatch | hknown
        · simp [writesOn, hphase] at hwrites
        · simp [hlinks.1] at hnowatch
        · exact hknown
      have hwaiting : ∀ w, s.phase = .select w → s.env.emergency = [] ∨ s.linkUp = false := by
        intro w hphase
        rcases hemergency w hphase with hempty | hdown | hseen
        · exact .inl hempty
        · exact .inr hdown
        · simp [hreopen] at hseen
      rcases hmove.writesOn hcan hwrites hreopen hlinks hlooked hwaiting hkeying with
        hkeying' | ⟨hwrites', hgen', hlinks'⟩
      · exact .inl hkeying'
      · exact .inr ⟨hwrites', by rwa [hgen'], hlinks'⟩

theorem Reopened.beside {a : Act} (h : s.Reopened) (hbeside : Beside cfg s a t)
    (hok : s.reopenKept a = true) : t.Reopened := by
  have haside := hbeside.aside
  have hwritesOn : t.writesOn = s.writesOn := by
    unfold writesOn
    rw [haside.phase, haside.linkUp, haside.sessionOpened]
  -- A step that neither opens the port nor loses it.
  have hsame (henv : t.env.link = s.env.link ∧ t.env.opens = s.env.opens ∧
      t.env.linkWatch = s.env.linkWatch ∧ t.env.linkUnseen = s.env.linkUnseen)
      (hopened : ∀ g, .opened g ∈ t.log → .opened g ∈ s.log) : t.Reopened := by
    obtain ⟨hlink, hopens, hwatch, hunseen⟩ := henv
    refine ⟨?_, ?_, ?_, ?_, ?_, ?_, ?_⟩
    · rw [haside.wire]
      exact fun g hg => h.first g (hopened g hg)
    · rw [haside.wire, hopens]
      exact h.sessions
    · rw [hopens]
      exact fun g hg => h.opened g (hopened g hg)
    · rw [hlink, hopens]
      exact h.current
    · rw [haside.linkGeneration, hopens]
      exact h.known
    · rw [haside.phase, hwatch, haside.linkGeneration, haside.linkUp]
      exact h.looked
    · unfold Ahead
      rw [hlink, haside.wire, haside.phase, hwritesOn, haside.linkGeneration, hwatch, hunseen]
      exact fun g hg hgo => h.ahead g hg (hopened g hgo)
  -- A step that leaves the port without a session.
  have hlost (hlink : ∀ g, t.env.link ≠ .connected g) (hopens : t.env.opens = s.env.opens)
      (hwatch : t.env.linkWatch = s.env.linkWatch) (hlog : t.log = s.log) : t.Reopened := by
    refine ⟨?_, ?_, ?_, fun g hg => absurd hg (hlink g), ?_, ?_, fun g hg => absurd hg (hlink g)⟩
    · rw [haside.wire, hlog]
      exact h.first
    · rw [haside.wire, hopens]
      exact h.sessions
    · rw [hlog, hopens]
      exact h.opened
    · rw [haside.linkGeneration, hopens]
      exact h.known
    · rw [haside.phase, hwatch, haside.linkGeneration, haside.linkUp]
      exact h.looked
  cases hbeside with
  | portLost hwatch => exact hlost nofun rfl rfl rfl
  | portClosed hwatch => exact hlost nofun rfl rfl rfl
  | portOpened hwatch =>
    have hwrites : s.writesOn = false := by simpa [reopenKept] using hok
    refine ⟨fun g hg w hfind => ?_, fun w hw g hg => ?_, fun g hg => ?_, fun g hg => ?_, ?_,
      h.looked, fun g hg hgo hnone => ?_⟩
    · rcases List.mem_cons.mp hg with hg | hg
      · -- Nothing has been written to the session just opened.
        obtain rfl := Event.opened.inj hg
        have hle := h.sessions w (List.mem_of_find?_eq_some hfind) (s.env.opens + 1)
          (by simpa using List.find?_some hfind)
        omega
      · exact h.first g hg w hfind
    · exact Nat.le_succ_of_le (h.sessions w hw g hg)
    · rcases List.mem_cons.mp hg with hg | hg
      · exact Nat.le_of_eq (Event.opened.inj hg)
      · exact Nat.le_succ_of_le (h.opened g hg)
    · obtain rfl := LinkStatus.connected.inj hg
      exact ⟨rfl, Nat.succ_pos _⟩
    · exact Nat.le_succ_of_le h.known
    · obtain rfl := LinkStatus.connected.inj hg
      exact .inr ⟨hwritesOn.trans hwrites, Nat.ne_of_gt (Nat.lt_succ_of_le h.known), hwatch, rfl⟩
  | call i c hcall =>
    obtain ⟨_, _, _, _, _, _, es, heq, hes⟩ := callStep_cases cfg s i c
    rw [heq] at hsame ⊢
    refine hsame ⟨rfl, rfl, rfl, rfl⟩ fun g hg => ?_
    rcases List.mem_append.mp hg with hg | hg
    · rcases hes _ hg with hg | hg <;> cases hg
    · exact hg
  | _ => exact hsame ⟨rfl, rfl, rfl, rfl⟩ fun g hg => hg

theorem Initial.reopened (h : s.Initial cfg) : s.Reopened := by
  obtain ⟨engine, now, link, opens, linkWatch, linkUnseen, hlink⟩ := h
  exact
    { first := fun g hg => by simp [initial] at hg
      sessions := fun w hw => by simp [initial] at hw
      opened := fun g hg => by simp [initial] at hg
      current := hlink
      known := Nat.zero_le _
      looked := .inl rfl
      ahead := fun g _ hg => by simp [initial] at hg }

end State

/-- In every run in which the port does not come back while the actor may still write, and no
emergency command runs ahead of a reopen, the first write to each session opened in the run is the
fail-closed unkey, for a rig that can be unkeyed. -/
theorem first_write_unkey {σ : Type} {cfg : Setup σ} (hcan : CanUnkey cfg.engine) {s : State σ}
    (h : (machine cfg).Reach (fun s a => s.reopenKept a = true) s) {g : Nat}
    (hg : .opened g ∈ s.log) {w : Wrote} (hw : s.wire.find? (·.session == some g) = some w) :
    w.writer = .unkey := by
  have hreopened : s.Reopened := by
    apply h.invariant
    · exact fun s hs => hs.reopened
    · intro s a t hs hok hstep
      rcases State.step_cases hstep with ⟨i, rfl, hmove⟩ | hbeside
      · refine hs.move hcan hmove fun w hphase => ?_
        simp only [State.reopenKept, hphase, Bool.or_eq_true, List.isEmpty_iff,
          Bool.not_eq_true'] at hok
        rcases hok with (hempty | hdown) | hseen
        · exact .inl hempty
        · exact .inr (.inl hdown)
        · exact .inr (.inr hseen)
      · exact hs.beside hbeside hok
  exact hreopened.first g hg w hw

/-! #### A retry on a new session

A read of the frequency is not answered; the port is lost and comes back while the actor waits, and
the retry is the first thing written to the new session. -/

/-- A rig whose commands are tried twice. -/
def retryBench : Engine Unit :=
  benchEngine [.readFrequency, .setPtt] 100 1 0
    (fun op => if op = .setPtt false then .none else .observation (.frequency .a)) []

/-- A read of the frequency, written once. -/
def readUnanswered : List Act :=
  [.go, .go, .submit (.getFrequency .a) 1000 .api, .call 0, .go, .go, .go]

theorem retry_first_after_reopen :
    ∃ s, (machine (bench retryBench)).Reachable s ∧ .opened 2 ∈ s.log ∧
      (s.wire.find? (·.session == some 2)).map (·.writer) =
        some (.command (.getFrequency .a) (some 0)) :=
  (benchStart_reachable retryBench).exists_of_run
    (readUnanswered ++ [.portLost, .portOpened, .tick 100, .go, .tick 100, .go, .go]) (by decide)

theorem first_write_unkey_retry :
    ∃ s : State Unit, .opened 2 ∈ s.log ∧
      ∃ w, s.wire.find? (·.session == some 2) = some w ∧ w.writer = .unkey := by
  have hstart : (machine (bench retryBench)).Reach (fun s a => s.reopenKept a = true)
      (benchStart retryBench) := .init ⟨(), 0, .connected 1, 1, true, false, by simp⟩
  obtain ⟨s, hs, hopened, hwritten⟩ := hstart.exists_of_runWhile
    (P := fun s => .opened 2 ∈ s.log ∧ (s.wire.find? (·.session == some 2)).isSome = true)
    (readUnanswered ++ [.tick 100, .go, .tick 100, .go, .go, .tick 100, .go, .portLost, .go,
      .portOpened, .go, .go]) (by decide)
  obtain ⟨w, hw⟩ := Option.isSome_iff_exists.mp hwritten
  have hcan : CanUnkey retryBench := ⟨by decide, fun _ => ⟨_, rfl⟩⟩
  exact ⟨s, hopened, w, hw, first_write_unkey hcan hs hopened hw⟩

end HamsOpen.Rig
