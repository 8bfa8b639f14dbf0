import HamsOpen.Rig.Traffic

/-!
# The attempts of a command

`run_command` makes its checks once and then up to `retries + 1` attempts, each with its spacing,
its drain, its write and its wait. A command that can put RF on the air gets one attempt only.
-/

namespace HamsOpen.Rig

/-- The run whose bytes are still to go out. -/
def Phase.pending : Phase → Option Run
  | .spacing r _ _ _ _ | .draining r _ _ _ _ | .writing r _ _ _ => some r
  | _ => none

/-- The run in its attempt loop, with the attempts left after this one. -/
def Phase.attempting : Phase → Option (Run × Nat)
  | .spacing r _ _ left _ | .draining r _ _ left _ | .writing r _ _ left
  | .awaiting r _ _ left _ _ => some (r, left)
  | _ => none

namespace State

variable {σ : Type} {cfg : Setup σ} {s t u : State σ}

theorem Fresh.attempting (h : s.Fresh) : s.phase.attempting = none := by
  unfold Fresh at h
  cases hphase : s.phase <;> simp_all [Phase.attempting]

/-- The attempt loop of run `r`, with `left` attempts after this one. -/
def Attempting (t : State σ) (r : Run) (left : Nat) : Prop :=
  t.phase.attempting = some (r, left)

theorem Attempting.drainStale (s : State σ) (r : Run) (q : Request) (seq left : Nat) :
    (s.drainStale r q seq left).Attempting r left := by
  obtain ⟨p, heq, rfl | ⟨limit, rfl⟩⟩ := s.drainStale_cases r q seq left
  · rw [heq]
    rfl
  · rw [heq]
    rfl

theorem Attempting.attempt (s : State σ) (r : Run) (q : Request) (seq left : Nat) :
    (s.attempt cfg r q seq left).Attempting r left := by
  rcases attempt_cases cfg s r q seq left with ⟨-, heq⟩ | ⟨-, ⟨ready, heq⟩ | heq⟩ <;> rw [heq]
  · rfl
  · rfl
  · exact .drainStale s r q seq left

/-- Where a move leads: out of any attempt loop, on in the loop where the actor stood, from a reply
that did not come to the next attempt, or from the checks of `run_command` to the first. -/
inductive Attempts (cfg : Setup σ) (s t : State σ) : Prop
  | none (h : t.phase.attempting = none)
  | same {r : Run} {left : Nat} (ht : t.Attempting r left) (hs : s.Attempting r left)
      (hpending : t.phase.pending = some r → s.phase.pending = some r)
  | next {r : Run} {left : Nat} (ht : t.Attempting r left) (hs : s.Attempting r (left + 1))
  | first {r : Run} (ht : t.Attempting r (extraAttempts cfg r.op)) (hs : s.phase = .begin r)
      (hgate : r.op.transmits = true → s.env.gate = true)

theorem Attempts.settle (h : Frame cfg t t → Settled cfg t u) : Attempts cfg s u :=
  .none (h .refl).fresh.attempting

theorem Attempts.linkStatusChanged (s u : State σ) (starting : Bool) :
    Attempts cfg s (u.linkStatusChanged cfg starting) := by
  rcases linkStatusChanged_cases cfg u starting with ⟨-, heq⟩ | ⟨-, -, heq⟩ | ⟨g, -, -, -, -, heq⟩ |
    ⟨g, -, -, -, heq⟩ | ⟨-, -, heq⟩ <;> rw [heq]
  · exact .settle (·.linkStatusReturned starting)
  · exact .settle (·.linkStatusReturned starting)
  · exact .settle (·.linkStatusReturned starting)
  · exact .settle (·.unkeyFailClosed _ _)
  · exact .settle (·.linkStatusReturned starting)

theorem Attempts.unkeyAttempt (s u : State σ) (k : Unkeyer) (source : Source) (q : Request)
    (seq attempt : Nat) : Attempts cfg s (u.unkeyAttempt cfg k source q seq attempt) := by
  unfold State.unkeyAttempt
  split
  · exact .settle (·.unkeyFinished k source false)
  split
  · exact .none rfl
  · exact .none rfl

theorem Move.attempting (h : Move cfg s t) : Attempts cfg s t := by
  cases h with
  | start hphase => exact .linkStatusChanged s s true
  | openSession hphase => exact .settle (·.openSession)
  | takeEmergency hphase hqueue => exact .none rfl
  | stop hphase hqueue hgone => exact .settle (·.unkeyOnStop)
  | linkChanged hphase hqueue hwatch hunseen => exact .linkStatusChanged s s false
  | watchGone hidle hwatch => exact .none rfl
  | fire hidle hdue =>
    rcases watchdogFire_cases cfg s with ⟨-, heq⟩ | ⟨a, heq⟩ <;> rw [heq]
    · exact .none rfl
    · exact .settle (·.unkeyFailClosed _ _)
  | beat hidle => exact .none rfl
  | takeNormal hidle hqueue => exact .settle (·.pollReserved _)
  | hear n hidle hrx => exact .none rfl
  | ended hidle => exact .none rfl
  | duePoll transmitting hidle hup => exact .none rfl
  | poll hphase =>
    rcases pollStep_cases cfg s _ _ with ⟨entry, heq⟩ | ⟨poll, heq⟩ | heq <;> rw [heq]
    · exact .none rfl
    · exact .none (by simp [hphase, Phase.attempting])
    · exact .none rfl
  | run hphase =>
    rcases runCommand_cases cfg s _ with ⟨e, err, -, heq⟩ | ⟨e, -, -, -, heq⟩ | ⟨e, q, -, -, hgate, heq⟩ <;>
      rw [heq]
    · exact .settle (·.returnRun _ _)
    · exact .none rfl
    · exact .first (.attempt _ _ q _ _) hphase fun ht => (hgate ht).1
  | lines result hphase =>
    rcases linesStep_cases cfg s _ result with heq | ⟨e, heq | heq⟩ <;> rw [heq] <;>
      exact .settle (·.returnRun _ _)
  | spaced hphase | drainWoken hphase | drainHeard n hphase =>
    exact .same (.drainStale _ _ _ _ _) (congrArg Phase.attempting hphase) fun _ => by
      rw [hphase]
      rfl
  | drained hphase =>
    exact .same rfl (congrArg Phase.attempting hphase) fun _ => by
      rw [hphase]
      rfl
  | preempted hwaits hmay hs' => exact .settle (·.returnRun _ _)
  | lost why hwaits => exact .settle (·.returnRun _ _)
  | writeCut hphase htransmits => exact .settle (·.unkeyFailClosed _ _)
  | writeLate hphase htransmits => exact .settle (·.returnRun _ _)
  | writeFailed why hphase => exact .settle (·.returnRun _ _)
  | writeDone hphase hreply => exact .settle (·.returnRun _ _)
  | written hphase hreply hs' => exact .same rfl (congrArg Phase.attempting hphase) nofun
  | awaitWoken hphase hs' => exact .same rfl (congrArg Phase.attempting hphase) nofun
  | undecided n hphase hrx habsorb => exact .same rfl (congrArg Phase.attempting hphase) nofun
  | decided n result hphase hrx habsorb =>
    unfold State.replied
    exact .settle (·.returnRun _ _)
  | @replyTimedOut r q seq left limit w hphase hrx hlimit =>
    rcases replyTimedOut_cases cfg s r q seq left with ⟨left', rfl, heq⟩ | ⟨-, heq⟩ | ⟨-, heq⟩ <;>
      rw [heq]
    · exact .next (.attempt _ _ _ _ _) (congrArg Phase.attempting hphase)
    · exact .settle (·.unkeyFailClosed _ _)
    · exact .settle (·.returnRun _ _)
  | backedOff hphase => exact .none rfl
  | unkeyLate hphase => exact .unkeyAttempt _ _ _ _ _ _ _
  | unkeyFailed hphase => exact .settle (·.unkeyFinished _ _ false)
  | unkeyDone hphase hreply => exact .settle (·.unkeyFinished _ _ true)
  | unkeyWritten hphase hreply => exact .none rfl
  | unkeyUndecided n hphase hrx habsorb | sessionUndecided n hphase hrx habsorb =>
    refine .none ?_
    rw [(absorb_heard habsorb).phase, hphase]
    rfl
  | unkeyAnswered n v hphase hrx habsorb => exact .settle (·.unkeyFinished _ _ true)
  | unkeyRefused n e hphase hrx habsorb => exact .unkeyAttempt _ _ _ _ _ _ _
  | unkeyTimedOut hphase hrx => exact .unkeyAttempt _ _ _ _ _ _ _
  | sessionLate hphase => exact .settle (·.writeSessionRequests _ _)
  | sessionFailed hphase => exact .settle (·.sessionReturned _)
  | sessionDone hphase hreply => exact .settle (·.writeSessionRequests _ _)
  | sessionWritten hphase hreply => exact .none rfl
  | sessionAnswered n result hphase hrx habsorb => exact .settle (·.writeSessionRequests _ _)
  | sessionTimedOut hphase hrx => exact .settle (·.writeSessionRequests _ _)

end State

/-- A transmit command never has an attempt left. -/
theorem Reachable.once {σ : Type} {cfg : Setup σ} {s : State σ} (h : (machine cfg).Reachable s) :
    ∀ r left, s.Attempting r left → r.op.transmits = true → left = 0 := by
  refine h.invariant (I := fun s => ∀ r left, s.Attempting r left → r.op.transmits = true →
    left = 0) (fun s hs r left hattempting => ?_) fun s a t hs hstep r left hattempting ht => ?_
  · rw [State.Attempting, (State.Initial.start hs).1] at hattempting
    cases hattempting
  · rcases State.step_cases hstep with ⟨-, -, hmove⟩ | hbeside
    · cases hmove.attempting with
      | none hnone => cases hnone.symm.trans hattempting
      | same hthere hwas =>
        obtain ⟨rfl, rfl⟩ := Prod.mk.inj (Option.some.inj (hthere.symm.trans hattempting))
        exact hs _ _ hwas ht
      | next hthere hwas =>
        obtain ⟨rfl, rfl⟩ := Prod.mk.inj (Option.some.inj (hthere.symm.trans hattempting))
        cases hs _ _ hwas ht
      | first hthere hwas hgate =>
        obtain ⟨rfl, rfl⟩ := Prod.mk.inj (Option.some.inj (hthere.symm.trans hattempting))
        simp [State.extraAttempts, ht]
    · rw [State.Attempting, hbeside.aside.phase] at hattempting
      exact hs r left hattempting ht

end HamsOpen.Rig
