import HamsOpen.Rig.Traffic

/-!
# What the actor's functions leave as it is

The functions that a step ends in write nothing and leave the surroundings and the link alone. These
are rewrite rules: with them `simp` sees the wire, the surroundings and the link state through any
of the functions.
-/

namespace HamsOpen.Rig

namespace State

variable {σ : Type} {cfg : Setup σ} {s t u : State σ}

/-- The part of a frame the rewrite rules below are about. -/
theorem Frame.same (h : Frame cfg s t) :
    t.env = s.env ∧ t.linkUp = s.linkUp ∧ t.wire = s.wire ∧ t.linkGeneration = s.linkGeneration :=
  ⟨h.env, h.linkUp, h.wire, h.linkGeneration⟩

@[simp] theorem toSelect_frame (s : State σ) :
    (s.toSelect cfg).env = s.env ∧
      (s.toSelect cfg).linkUp = s.linkUp ∧
      (s.toSelect cfg).wire = s.wire ∧
      (s.toSelect cfg).linkGeneration = s.linkGeneration :=
  (Frame.refl : Frame cfg s s).toSelect.same

@[simp] theorem returnRun_frame (s : State σ) (r : Run) (result : Reply) :
    (s.returnRun cfg r result).env = s.env ∧
      (s.returnRun cfg r result).linkUp = s.linkUp ∧
      (s.returnRun cfg r result).wire = s.wire ∧
      (s.returnRun cfg r result).linkGeneration = s.linkGeneration :=
  (Frame.refl.returnRun r result).same

@[simp] theorem linkStatusReturned_frame (s : State σ) (starting : Bool) :
    (s.linkStatusReturned cfg starting).env = s.env ∧
      (s.linkStatusReturned cfg starting).linkUp = s.linkUp ∧
      (s.linkStatusReturned cfg starting).wire = s.wire ∧
      (s.linkStatusReturned cfg starting).linkGeneration = s.linkGeneration :=
  (Frame.refl.linkStatusReturned starting).same

@[simp] theorem sessionReturned_frame (s : State σ) (k : SessionCaller) :
    (s.sessionReturned cfg k).env = s.env ∧
      (s.sessionReturned cfg k).linkUp = s.linkUp ∧
      (s.sessionReturned cfg k).wire = s.wire ∧
      (s.sessionReturned cfg k).linkGeneration = s.linkGeneration :=
  (Frame.refl.sessionReturned k).same

@[simp] theorem writeSessionRequests_frame (s : State σ) (k : SessionCaller)
    (requests : List Request) :
    (s.writeSessionRequests cfg k requests).env = s.env ∧
      (s.writeSessionRequests cfg k requests).linkUp = s.linkUp ∧
      (s.writeSessionRequests cfg k requests).wire = s.wire ∧
      (s.writeSessionRequests cfg k requests).linkGeneration = s.linkGeneration :=
  (Frame.refl.writeSessionRequests k requests).same

@[simp] theorem openSession_frame (s : State σ) :
    (s.openSession cfg).env = s.env ∧
      (s.openSession cfg).linkUp = s.linkUp ∧
      (s.openSession cfg).wire = s.wire ∧
      (s.openSession cfg).linkGeneration = s.linkGeneration :=
  Frame.refl.openSession.same

@[simp] theorem unkeyFinished_frame (s : State σ) (u : Unkeyer) (source : Source) (done : Bool) :
    (s.unkeyFinished cfg u source done).env = s.env ∧
      (s.unkeyFinished cfg u source done).linkUp = s.linkUp ∧
      (s.unkeyFinished cfg u source done).wire = s.wire ∧
      (s.unkeyFinished cfg u source done).linkGeneration = s.linkGeneration :=
  (Frame.refl.unkeyFinished u source done).same

@[simp] theorem unkeyFailClosed_frame (s : State σ) (u : Unkeyer) (source : Source) :
    (s.unkeyFailClosed cfg u source).env = s.env ∧
      (s.unkeyFailClosed cfg u source).linkUp = s.linkUp ∧
      (s.unkeyFailClosed cfg u source).wire = s.wire ∧
      (s.unkeyFailClosed cfg u source).linkGeneration = s.linkGeneration :=
  (Frame.refl.unkeyFailClosed u source).same

@[simp] theorem unkeyOnStop_frame (s : State σ) :
    (s.unkeyOnStop cfg).env = s.env ∧
      (s.unkeyOnStop cfg).linkUp = s.linkUp ∧
      (s.unkeyOnStop cfg).wire = s.wire ∧
      (s.unkeyOnStop cfg).linkGeneration = s.linkGeneration :=
  Frame.refl.unkeyOnStop.same

@[simp] theorem pollReserved_frame (s : State σ) (c : Command) :
    (s.pollReserved cfg c).env = s.env ∧
      (s.pollReserved cfg c).linkUp = s.linkUp ∧
      (s.pollReserved cfg c).wire = s.wire ∧
      (s.pollReserved cfg c).linkGeneration = s.linkGeneration :=
  (Frame.refl.pollReserved c).same

@[simp] theorem unkeyAttempt_frame (s : State σ) (u : Unkeyer) (source : Source) (q : Request)
    (seq attempt : Nat) :
    (s.unkeyAttempt cfg u source q seq attempt).env = s.env ∧
      (s.unkeyAttempt cfg u source q seq attempt).linkUp = s.linkUp ∧
      (s.unkeyAttempt cfg u source q seq attempt).wire = s.wire ∧
      (s.unkeyAttempt cfg u source q seq attempt).linkGeneration = s.linkGeneration := by
  unfold State.unkeyAttempt
  split
  · simp
  split
  · simp
  · simp

@[simp] theorem drainStale_frame (s : State σ) (r : Run) (q : Request) (seq left : Nat) :
    (s.drainStale r q seq left).env = s.env ∧
      (s.drainStale r q seq left).linkUp = s.linkUp ∧
      (s.drainStale r q seq left).wire = s.wire ∧
      (s.drainStale r q seq left).linkGeneration = s.linkGeneration := by
  obtain ⟨p, heq, -⟩ := s.drainStale_cases r q seq left
  simp [heq]

@[simp] theorem attempt_frame (s : State σ) (r : Run) (q : Request) (seq left : Nat) :
    (s.attempt cfg r q seq left).env = s.env ∧
      (s.attempt cfg r q seq left).linkUp = s.linkUp ∧
      (s.attempt cfg r q seq left).wire = s.wire ∧
      (s.attempt cfg r q seq left).linkGeneration = s.linkGeneration := by
  rcases attempt_cases cfg s r q seq left with ⟨-, heq⟩ | ⟨-, ⟨ready, heq⟩ | heq⟩ <;> simp [heq]

@[simp] theorem linkStatusChanged_wire (s : State σ) (starting : Bool) :
    (s.linkStatusChanged cfg starting).wire = s.wire := by
  rcases linkStatusChanged_cases cfg s starting with ⟨-, heq⟩ | ⟨-, -, heq⟩ | ⟨g, -, -, -, -, heq⟩ |
    ⟨g, -, -, -, heq⟩ | ⟨-, -, heq⟩ <;> simp [heq, seeLink]

@[simp] theorem watchdogFire_frame (s : State σ) :
    (s.watchdogFire cfg).env = s.env ∧
      (s.watchdogFire cfg).linkUp = s.linkUp ∧
      (s.watchdogFire cfg).wire = s.wire ∧
      (s.watchdogFire cfg).linkGeneration = s.linkGeneration := by
  rcases watchdogFire_cases cfg s with ⟨-, heq⟩ | ⟨a, heq⟩ <;> simp [heq]

@[simp] theorem runCommand_frame (s : State σ) (r : Run) :
    (s.runCommand cfg r).env = s.env ∧
      (s.runCommand cfg r).linkUp = s.linkUp ∧
      (s.runCommand cfg r).wire = s.wire ∧
      (s.runCommand cfg r).linkGeneration = s.linkGeneration := by
  rcases runCommand_cases cfg s r with ⟨e, err, -, heq⟩ | ⟨e, -, -, -, heq⟩ | ⟨e, q, -, -, -, heq⟩ <;>
    simp [heq]

@[simp] theorem pollStep_frame (s : State σ) (now : Instant) (transmitting : Bool) :
    (s.pollStep cfg now transmitting).env = s.env ∧
      (s.pollStep cfg now transmitting).linkUp = s.linkUp ∧
      (s.pollStep cfg now transmitting).wire = s.wire ∧
      (s.pollStep cfg now transmitting).linkGeneration = s.linkGeneration := by
  rcases pollStep_cases cfg s now transmitting with ⟨entry, heq⟩ | ⟨poll, heq⟩ | heq <;>
    simp [heq, pollEntry]

@[simp] theorem linesStep_wire (s : State σ) (r : Run) (result : Except RigError Unit) :
    (s.linesStep cfg r result).wire = s.wire := by
  rcases linesStep_cases cfg s r result with heq | ⟨e, heq | heq⟩ <;> simp [heq]

@[simp] theorem replyTimedOut_frame (s : State σ) (r : Run) (q : Request) (seq left : Nat) :
    (s.replyTimedOut cfg r q seq left).env = s.env ∧
      (s.replyTimedOut cfg r q seq left).linkUp = s.linkUp ∧
      (s.replyTimedOut cfg r q seq left).wire = s.wire ∧
      (s.replyTimedOut cfg r q seq left).linkGeneration = s.linkGeneration := by
  rcases replyTimedOut_cases cfg s r q seq left with ⟨left', -, heq⟩ | ⟨-, heq⟩ | ⟨-, heq⟩ <;>
    simp [heq]

@[simp] theorem replied_frame (s : State σ) (r : Run) (result : Reply) :
    (s.replied cfg r result).env = s.env ∧
      (s.replied cfg r result).linkUp = s.linkUp ∧
      (s.replied cfg r result).wire = s.wire ∧
      (s.replied cfg r result).linkGeneration = s.linkGeneration := by
  unfold State.replied
  split <;> simp

end State

end HamsOpen.Rig
