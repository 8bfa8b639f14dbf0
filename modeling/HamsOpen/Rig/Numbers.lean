import HamsOpen.Rig.Frames

/-!
# Command numbers

Every command the actor runs has a number of its own, which its retries share; it tells a reply to a
command given up from one to the command that waits. Numbers only grow, so the command at work bears
the greatest, the requests on the wire are in the order of their numbers, and while the actor waits
for a reply the last request on the wire is that command's, and went out whole.
-/

namespace HamsOpen.Rig

/-- The number of the command at work, once it has one. -/
def Phase.seq : Phase → Option Nat
  | .spacing _ _ seq _ _ | .draining _ _ seq _ _ | .writing _ _ seq _
  | .awaiting _ _ seq _ _ _ | .unkeyBackoff _ _ _ seq _ _ | .unkeyWriting _ _ _ seq _ _
  | .unkeyAwaiting _ _ _ seq _ _ | .sessionAwaiting _ _ seq _ _ => some seq
  | _ => none

theorem Phase.seq_of_awaits {p : Phase} {v : Writer} {n : Nat} (h : p.awaits = some (v, n)) :
    p.seq = some n := by
  cases p <;> simp_all [Phase.awaits, Phase.seq]

namespace State

variable {σ : Type} {cfg : Setup σ} {s t u : State σ} {n : Nat}

/-- The command at work bears the greatest number, the wire is in the order of the numbers, and it
ends with the request whose reply the actor waits for. -/
structure Numbered (s : State σ) : Prop where
  phase : ∀ n, s.phase.seq = some n → n = s.commandSeq
  wire : s.wire.Pairwise (·.seq ≤ ·.seq)
  bound : ∀ w ∈ s.wire, w.seq ≤ s.commandSeq
  last : ∀ v n, s.phase.awaits = some (v, n) →
    ∃ w, s.wire.getLast? = some w ∧ w.writer = v ∧ w.seq = n ∧ w.complete = true

theorem Fresh.seq (h : s.Fresh) (hn : s.phase.seq = some n) : n = s.commandSeq := by
  unfold Fresh at h
  cases hphase : s.phase <;> simp_all [Phase.seq]

theorem Fresh.awaits (h : s.Fresh) : s.phase.awaits = none := by
  unfold Fresh at h
  cases hphase : s.phase <;> simp_all [Phase.awaits]

/-- A place where the actor waits for no reply, and the command at work has the latest number. -/
def AtWork (s : State σ) : Prop :=
  (∀ n, s.phase.seq = some n → n = s.commandSeq) ∧ s.phase.awaits = none

theorem AtWork.settle (h : Frame cfg s s → Settled cfg s t) : t.AtWork :=
  ⟨fun _ => (h .refl).fresh.seq, (h .refl).fresh.awaits⟩

theorem AtWork.drainStale (r : Run) (q : Request) {seq : Nat} (left : Nat)
    (h : seq = s.commandSeq) : (s.drainStale r q seq left).AtWork := by
  obtain ⟨p, heq, hp⟩ := s.drainStale_cases r q seq left
  rw [heq]
  rcases hp with rfl | ⟨limit, rfl⟩
  · exact ⟨fun n hn => (Option.some.inj hn).symm.trans h, rfl⟩
  · exact ⟨fun n hn => (Option.some.inj hn).symm.trans h, rfl⟩

theorem AtWork.attempt (r : Run) (q : Request) {seq : Nat} (left : Nat)
    (h : seq = s.commandSeq) : (s.attempt cfg r q seq left).AtWork := by
  rcases attempt_cases cfg s r q seq left with ⟨-, heq⟩ | ⟨-, ⟨ready, heq⟩ | heq⟩ <;> rw [heq]
  · exact ⟨fun n hn => (Option.some.inj hn).symm.trans h, rfl⟩
  · exact ⟨fun n hn => (Option.some.inj hn).symm.trans h, rfl⟩
  · exact .drainStale r q left h

theorem AtWork.linkStatusChanged (s : State σ) (starting : Bool) :
    (s.linkStatusChanged cfg starting).AtWork := by
  rcases linkStatusChanged_cases cfg s starting with ⟨-, heq⟩ | ⟨-, -, heq⟩ | ⟨g, -, -, -, -, heq⟩ |
    ⟨g, -, -, -, heq⟩ | ⟨-, -, heq⟩ <;> rw [heq]
  · exact .settle (·.linkStatusReturned starting)
  · exact .settle (·.linkStatusReturned starting)
  · exact .settle (·.linkStatusReturned starting)
  · exact .settle (·.unkeyFailClosed _ _)
  · exact .settle (·.linkStatusReturned starting)

theorem AtWork.unkeyAttempt (u : Unkeyer) (source : Source) (q : Request) {seq : Nat}
    (attempt : Nat) (h : seq = s.commandSeq) :
    (s.unkeyAttempt cfg u source q seq attempt).AtWork :=
  .settle fun hf => hf.unkeyAttempt u source q h attempt

/-- Where a move leads: to a place where no reply is waited for, or to the wait for a reply, that of
the request just written or the one waited for already. -/
theorem Move.number (h : Move cfg s t) (hseq : ∀ n, s.phase.seq = some n → n = s.commandSeq) :
    t.AtWork ∨ (∀ n, t.phase.seq = some n → n = t.commandSeq) ∧
      (s.phase.awaits = t.phase.awaits ∧ t.wire = s.wire ∨ ∃ w, t.wire = s.wire ++ [w] ∧
        t.phase.awaits = some (w.writer, w.seq) ∧ w.complete = true) := by
  have hnone (p : Phase) (hp : p.seq = none) (u : State σ) : (u.setPhase p).AtWork := by
    refine ⟨fun n hn => ?_, ?_⟩
    · cases hp.symm.trans hn
    · cases hawaits : p.awaits with
      | none => exact hawaits
      | some v => cases hp.symm.trans (Phase.seq_of_awaits hawaits)
  cases h with
  | start hphase => exact .inl (.linkStatusChanged s true)
  | openSession hphase => exact .inl (.settle (·.openSession))
  | takeEmergency hphase hqueue => exact .inl (hnone _ rfl _)
  | stop hphase hqueue hgone => exact .inl (.settle (·.unkeyOnStop))
  | linkChanged hphase hqueue hwatch hunseen => exact .inl (.linkStatusChanged s false)
  | watchGone hidle hwatch => exact .inl (.settle (·.toSelect))
  | fire hidle hdue =>
    rcases watchdogFire_cases cfg s with ⟨-, heq⟩ | ⟨a, heq⟩ <;> rw [heq]
    · exact .inl (.settle (·.toSelect))
    · exact .inl (.settle (·.unkeyFailClosed _ _))
  | beat hidle => exact .inl (.settle (·.toSelect))
  | takeNormal hidle hqueue => exact .inl (.settle (·.pollReserved _))
  | hear n hidle hrx => exact .inl (.settle (·.toSelect))
  | ended hidle => exact .inl (.settle (·.toSelect))
  | duePoll transmitting hidle hup => exact .inl (hnone _ rfl _)
  | poll hphase =>
    rcases pollStep_cases cfg s _ _ with ⟨entry, heq⟩ | ⟨poll, heq⟩ | heq <;> rw [heq]
    · exact .inl (hnone _ rfl _)
    · exact .inl ⟨by simp [hphase, Phase.seq], by simp [hphase, Phase.awaits]⟩
    · exact .inl (.settle (·.toSelect))
  | run hphase =>
    rcases runCommand_cases cfg s _ with ⟨e, err, -, heq⟩ | ⟨e, -, -, -, heq⟩ | ⟨e, q, -, -, -, heq⟩ <;>
      rw [heq]
    · exact .inl (.settle (·.returnRun _ _))
    · exact .inl (hnone _ rfl _)
    · exact .inl (.attempt _ q _ rfl)
  | lines result hphase =>
    rcases linesStep_cases cfg s _ result with heq | ⟨e, heq | heq⟩ <;> rw [heq] <;>
      exact .inl (.settle (·.returnRun _ _))
  | spaced hphase => exact .inl (.drainStale _ _ _ (hseq _ (by rw [hphase]; rfl)))
  | drainWoken hphase hwake => exact .inl (.drainStale _ _ _ (hseq _ (by rw [hphase]; rfl)))
  | drainHeard n hphase hrx => exact .inl (.drainStale _ _ _ (hseq _ (by rw [hphase]; rfl)))
  | drained hphase hlimit hrx =>
    have hnow := hseq _ (by rw [hphase]; rfl)
    exact .inl ⟨fun n hn => (Option.some.inj hn).symm.trans hnow, rfl⟩
  | preempted hwaits hmay hs' => exact .inl (.settle (·.returnRun _ _))
  | lost why hwaits => exact .inl (.settle (·.returnRun _ _))
  | writeCut hphase htransmits => exact .inl (.settle (·.unkeyFailClosed _ _))
  | writeLate hphase htransmits => exact .inl (.settle (·.returnRun _ _))
  | writeFailed why hphase => exact .inl (.settle (·.returnRun _ _))
  | writeDone hphase hreply => exact .inl (.settle (·.returnRun _ _))
  | written hphase hreply hs' =>
    subst hs'
    have hnow := hseq _ (by rw [hphase]; rfl)
    exact .inr ⟨fun n hn => (Option.some.inj hn).symm.trans hnow, .inr ⟨_, rfl, rfl, rfl⟩⟩
  | awaitWoken hphase hs' =>
    have hnow := hseq _ (by rw [hphase]; rfl)
    have hawaits := congrArg Phase.awaits hphase
    rcases hs' with ⟨rfl, -⟩ | ⟨rfl, -⟩ <;>
      exact .inr ⟨fun n hn => (Option.some.inj hn).symm.trans hnow, .inl ⟨hawaits, rfl⟩⟩
  | undecided n hphase hrx habsorb =>
    have hheard := absorb_heard habsorb
    have hnow := hseq _ (by rw [hphase]; rfl)
    have hawaits : s.phase.awaits = some _ := congrArg Phase.awaits hphase
    refine .inr ⟨fun n hn => ?_, .inl ⟨hawaits, hheard.wire⟩⟩
    exact ((Option.some.inj hn).symm.trans hnow).trans hheard.commandSeq.symm
  | decided n result hphase hrx habsorb =>
    left
    unfold State.replied
    exact .settle (·.returnRun _ _)
  | replyTimedOut hphase hrx hlimit =>
    rcases replyTimedOut_cases cfg s _ _ _ _ with ⟨left', -, heq⟩ | ⟨-, heq⟩ | ⟨-, heq⟩ <;> rw [heq]
    · exact .inl (.attempt _ _ _ (hseq _ (by rw [hphase]; rfl)))
    · exact .inl (.settle (·.unkeyFailClosed _ _))
    · exact .inl (.settle (·.returnRun _ _))
  | backedOff hphase =>
    have hnow := hseq _ (by rw [hphase]; rfl)
    exact .inl ⟨fun n hn => (Option.some.inj hn).symm.trans hnow, rfl⟩
  | unkeyLate hphase => exact .inl (.unkeyAttempt _ _ _ _ (hseq _ (by rw [hphase]; rfl)))
  | unkeyFailed hphase => exact .inl (.settle (·.unkeyFinished _ _ false))
  | unkeyDone hphase hreply => exact .inl (.settle (·.unkeyFinished _ _ true))
  | unkeyWritten hphase hreply =>
    have hnow := hseq _ (by rw [hphase]; rfl)
    exact .inr ⟨fun n hn => (Option.some.inj hn).symm.trans hnow, .inr ⟨_, rfl, rfl, rfl⟩⟩
  | unkeyUndecided n hphase hrx habsorb =>
    have hheard := absorb_heard habsorb
    have hnow := hseq _ (by rw [hphase]; rfl)
    have hsame : t.phase = _ := hheard.phase.trans hphase
    refine .inr ⟨fun n hn => ?_, .inl ⟨by rw [hheard.phase], hheard.wire⟩⟩
    rw [hsame] at hn
    exact ((Option.some.inj hn).symm.trans hnow).trans hheard.commandSeq.symm
  | unkeyAnswered n v hphase hrx habsorb => exact .inl (.settle (·.unkeyFinished _ _ true))
  | unkeyRefused n e hphase hrx habsorb =>
    refine .inl (.unkeyAttempt _ _ _ _ ?_)
    rw [(absorb_heard habsorb).commandSeq]
    exact hseq _ (by rw [hphase]; rfl)
  | unkeyTimedOut hphase hrx =>
    exact .inl (.unkeyAttempt _ _ _ _ (hseq _ (by rw [hphase]; rfl)))
  | sessionLate hphase => exact .inl (.settle (·.writeSessionRequests _ _))
  | sessionFailed hphase => exact .inl (.settle (·.sessionReturned _))
  | sessionDone hphase hreply => exact .inl (.settle (·.writeSessionRequests _ _))
  | sessionWritten hphase hreply =>
    exact .inr ⟨fun n hn => (Option.some.inj hn).symm, .inr ⟨_, rfl, rfl, rfl⟩⟩
  | sessionUndecided n hphase hrx habsorb =>
    have hheard := absorb_heard habsorb
    have hnow := hseq _ (by rw [hphase]; rfl)
    have hsame : t.phase = _ := hheard.phase.trans hphase
    refine .inr ⟨fun n hn => ?_, .inl ⟨by rw [hheard.phase], hheard.wire⟩⟩
    rw [hsame] at hn
    exact ((Option.some.inj hn).symm.trans hnow).trans hheard.commandSeq.symm
  | sessionAnswered n result hphase hrx habsorb => exact .inl (.settle (·.writeSessionRequests _ _))
  | sessionTimedOut hphase hrx => exact .inl (.settle (·.writeSessionRequests _ _))

theorem Writes.seq {w : Wrote} (h : Writes s w) (hwriter : w.writer ≠ .session) :
    s.phase.seq = some w.seq := by
  cases h with
  | run complete hphase hw | unkey complete hphase hw =>
    rw [hphase, hw]
    rfl
  | session seq complete hphase hw => exact absurd (by rw [hw]) hwriter

/-- A request on the wire bears the number of the command it was written for, which is the latest,
and none before it bears a greater one. -/
theorem Numbered.wrote (h : s.Numbered) {w : Wrote} (hwritten : Written cfg s w u)
    (hstill : Still cfg u t) :
    t.wire.Pairwise (·.seq ≤ ·.seq) ∧ ∀ w ∈ t.wire, w.seq ≤ t.commandSeq := by
  have hnow : s.commandSeq ≤ w.seq ∧ w.seq ≤ u.commandSeq := by
    rcases hwritten.seq with ⟨hsame, hwriter⟩ | ⟨hle, hw⟩
    · have hw := h.phase _ (hwritten.writes.seq hwriter)
      exact ⟨Nat.le_of_eq hw.symm, Nat.le_of_eq (hw.trans hsame.symm)⟩
    · exact ⟨by rwa [hw], Nat.le_of_eq hw⟩
  rw [hstill.wire, hwritten.wire]
  refine ⟨List.pairwise_append.mpr ⟨h.wire, List.pairwise_singleton _ _, ?_⟩, fun v hv => ?_⟩
  · intro v hv w' hw'
    obtain rfl := List.mem_singleton.mp hw'
    exact Nat.le_trans (h.bound v hv) hnow.1
  · refine Nat.le_trans ?_ hstill.commandSeq
    rcases List.mem_append.mp hv with hv | hv
    · exact Nat.le_trans (h.bound v hv) (Nat.le_trans hnow.1 hnow.2)
    · obtain rfl := List.mem_singleton.mp hv
      exact hnow.2

theorem Numbered.move (h : s.Numbered) (hmove : Move cfg s t) : t.Numbered := by
  have hwire : t.wire.Pairwise (·.seq ≤ ·.seq) ∧ ∀ w ∈ t.wire, w.seq ≤ t.commandSeq := by
    cases hmove.traffic with
    | still hstill | fired a hstill ht =>
      rw [hstill.wire]
      exact ⟨h.wire, fun w hw => Nat.le_trans (h.bound w hw) hstill.commandSeq⟩
    | read n expect seq source hreads hawaits habsorb hstill =>
      have hheard := absorb_heard habsorb
      rw [hstill.wire, hheard.wire]
      refine ⟨h.wire, fun w hw => Nat.le_trans (h.bound w hw) ?_⟩
      rw [← hheard.commandSeq]
      exact hstill.commandSeq
    | wrote hwritten hstill => exact h.wrote hwritten hstill
  rcases hmove.number h.phase with hwork | ⟨hnow, hlast⟩
  · exact ⟨hwork.1, hwire.1, hwire.2, fun v n hn => by simp [hwork.2] at hn⟩
  · refine ⟨hnow, hwire.1, hwire.2, fun v n hn => ?_⟩
    rcases hlast with ⟨hsame, hsamewire⟩ | ⟨w, hwrote, hw, hcomplete⟩
    · rw [hsamewire]
      exact h.last v n (hsame.trans hn)
    · obtain ⟨rfl, rfl⟩ := Prod.mk.inj (Option.some.inj (hw.symm.trans hn))
      exact ⟨w, by simp [hwrote], rfl, rfl, hcomplete⟩

end State

theorem Reachable.numbered {σ : Type} {cfg : Setup σ} {s : State σ}
    (h : (machine cfg).Reachable s) : s.Numbered := by
  apply h.invariant
  · intro s hs
    obtain ⟨hphase, hwire, -⟩ := State.Initial.start hs
    refine ⟨?_, ?_, ?_, ?_⟩ <;> simp [hphase, hwire, Phase.seq, Phase.awaits]
  · intro s a t hs hstep
    rcases State.step_cases hstep with ⟨-, -, hmove⟩ | hbeside
    · exact hs.move hmove
    · have haside := hbeside.aside
      refine ⟨?_, ?_, ?_, ?_⟩
      · rw [haside.phase, haside.commandSeq]
        exact hs.phase
      · rw [haside.wire]
        exact hs.wire
      · rw [haside.wire, haside.commandSeq]
        exact hs.bound
      · rw [haside.phase, haside.wire]
        exact hs.last

end HamsOpen.Rig
