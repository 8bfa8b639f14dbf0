import Mathlib.Logic.Relation
import HamsOpen.Rig.Moves

/-!
# What a step does to the memory and the log

Every function of the actor is a sequence of a few kinds of effect on its memory and on the log
(`Effect`). A property of those two that each kind of effect keeps is therefore kept by every step
of the actor, whatever path it takes.
-/

namespace HamsOpen.Rig

/-- An event the actor logs of its own accord, and after which the cache and the watchdog are as
before it. -/
def Event.quiet : Event → Bool
  | .took _ | .wrote _ | .credited _ _ _ | .returned _ _ | .answered _ _ _ | .alarm _
  | .linkDown => true
  | _ => false

/-- An event a step logs as it settles: an answer, an alarm, or a set recorded. -/
def Event.settling : Event → Bool
  | .applied _ _ | .returned _ _ | .answered _ _ _ | .alarm _ => true
  | _ => false

namespace State

variable {σ : Type} {cfg : Setup σ} {s t u : State σ}

/-- One change of the memory and the log. -/
inductive Effect (cfg : Setup σ) : State σ → State σ → Prop
  /-- Neither the cache, the watchdog nor the events sent change; what else does is not said. -/
  | quiet {s t : State σ} (es : List Event) (hquiet : ∀ e ∈ es, e.quiet = true)
      (hlog : t.log = es ++ s.log) (hcache : t.memory.cache = s.memory.cache)
      (hkeyed : t.memory.keyedSince = s.memory.keyedSince)
      (hevents : t.memory.events = s.memory.events) : Effect cfg s t
  /-- An alarm event goes out. -/
  | alarm {s : State σ} (a : Alarm) (source : Source) : Effect cfg s (s.alarm a source)
  /-- A successful set is recorded. -/
  | applySet {s : State σ} (op : Op) (source : Source) : Effect cfg s (s.applySet op source)
  /-- Decoded items are taken in. -/
  | absorb {s t : State σ} (expect : ReplyKind) (seq : Nat) (source : Source) (items : List Item)
      (hlog : t.log = .absorbed items s.env.now :: s.log)
      (hmemory : t.memory = (s.memory.absorb cfg.engine.capabilities expect seq source s.env.now
        none items).1) : Effect cfg s t
  /-- The watchdog fires. -/
  | fire {s t : State σ} (hlog : t.log = .fired s.env.now :: s.log)
      (hmemory : t.memory = { s.memory with keyedSince := none }) : Effect cfg s t

/-- Any number of effects. -/
def Effects (cfg : Setup σ) : State σ → State σ → Prop := Relation.ReflTransGen (Effect cfg)

namespace Effects

theorem refl : Effects cfg s s := Relation.ReflTransGen.refl

theorem trans (h : Effects cfg s t) (h' : Effects cfg t u) : Effects cfg s u :=
  Relation.ReflTransGen.trans h h'

theorem single (h : Effect cfg s t) : Effects cfg s t := Relation.ReflTransGen.single h

/-- What every effect keeps, any number of effects keep. -/
theorem keeps {P : State σ → Prop} (hP : ∀ s t, Effect cfg s t → P s → P t)
    (h : Effects cfg s t) (hs : P s) : P t := by
  induction h with
  | refl => exact hs
  | tail _ hlast ih => exact hP _ _ hlast ih

/-- Nothing happens to the memory, and nothing is logged. -/
theorem of_eq (hlog : t.log = s.log) (hmemory : t.memory = s.memory) : Effects cfg s t :=
  single (.quiet [] (by simp) hlog (by rw [hmemory]) (by rw [hmemory]) (by rw [hmemory]))

/-- A quiet event is logged. -/
theorem of_record {e : Event} (he : e.quiet = true) (hlog : t.log = e :: s.log)
    (hmemory : t.memory = s.memory) : Effects cfg s t :=
  single (.quiet [e] (by simpa using he) hlog (by rw [hmemory]) (by rw [hmemory])
    (by rw [hmemory]))

theorem linkDown (s : State σ) : Effects cfg s s.linkDown := by
  have hdown : Effects cfg s ((s.setLinkUp false).record .linkDown) :=
    of_record (e := .linkDown) rfl rfl rfl
  unfold State.linkDown
  split
  · exact hdown.trans (single (.alarm .linkDown .api))
  · exact hdown

end Effects

/-! ### Settling

A step ends in one of a few functions that answer, report and go on, and neither write, read nor
touch the link. What they all have in common is a `Frame`. -/

/-- Effects beside which nothing is written or read, and the link stays as it is. -/
structure Frame (cfg : Setup σ) (s t : State σ) : Prop where
  env : t.env = s.env
  linkUp : t.linkUp = s.linkUp
  wire : t.wire = s.wire
  lastWrite : t.lastWrite = s.lastWrite
  linkGeneration : t.linkGeneration = s.linkGeneration
  outstanding : t.memory.outstanding = s.memory.outstanding
  commandSeq : s.commandSeq ≤ t.commandSeq
  log : ∃ es, t.log = es ++ s.log ∧ ∀ e ∈ es, e.settling = true
  effects : Effects cfg s t

/-- The actor stands where no command of a caller is being written; an unkey of its own bears the
latest command number. -/
def Fresh (s : State σ) : Prop :=
  match s.phase with
  | .opening | .select _ | .begin _ | .sessionWriting _ _ _ _ | .stopped => True
  | .unkeyBackoff _ _ _ seq _ _ | .unkeyWriting _ _ _ seq _ _ => seq = s.commandSeq
  | _ => False

/-- A frame that ends with nothing half done. -/
structure Settled (cfg : Setup σ) (s t : State σ) : Prop extends Frame cfg s t where
  fresh : t.Fresh

namespace Frame

theorem refl : Frame cfg s s :=
  ⟨rfl, rfl, rfl, rfl, rfl, rfl, Nat.le_refl _, ⟨[], rfl, by simp⟩, .refl⟩

theorem trans (h : Frame cfg s t) (h' : Frame cfg t u) : Frame cfg s u where
  env := h'.env.trans h.env
  linkUp := h'.linkUp.trans h.linkUp
  wire := h'.wire.trans h.wire
  lastWrite := h'.lastWrite.trans h.lastWrite
  linkGeneration := h'.linkGeneration.trans h.linkGeneration
  outstanding := h'.outstanding.trans h.outstanding
  commandSeq := Nat.le_trans h.commandSeq h'.commandSeq
  log := by
    obtain ⟨es, hlog, hes⟩ := h.log
    obtain ⟨es', hlog', hes'⟩ := h'.log
    refine ⟨es' ++ es, by rw [hlog', hlog, List.append_assoc], fun e he => ?_⟩
    exact (List.mem_append.mp he).elim (hes' e) (hes e)
  effects := h.effects.trans h'.effects

theorem setPhase (h : Frame cfg s t) (p : Phase) : Frame cfg s (t.setPhase p) :=
  h.trans ⟨rfl, rfl, rfl, rfl, rfl, rfl, Nat.le_refl _, ⟨[], rfl, by simp⟩, .of_eq rfl rfl⟩

theorem setEngine (h : Frame cfg s t) (e : σ) : Frame cfg s (t.setEngine e) :=
  h.trans ⟨rfl, rfl, rfl, rfl, rfl, rfl, Nat.le_refl _, ⟨[], rfl, by simp⟩, .of_eq rfl rfl⟩

theorem nextSeq (h : Frame cfg s t) : Frame cfg s t.nextSeq :=
  h.trans ⟨rfl, rfl, rfl, rfl, rfl, rfl, Nat.le_succ _, ⟨[], rfl, by simp⟩, .of_eq rfl rfl⟩

theorem record (h : Frame cfg s t) {e : Event} (he : e.quiet = true) (hsettling : e.settling = true) :
    Frame cfg s (t.record e) :=
  h.trans ⟨rfl, rfl, rfl, rfl, rfl, rfl, Nat.le_refl _, ⟨[e], rfl, by simpa using hsettling⟩,
    .of_record he rfl rfl⟩

theorem alarm (h : Frame cfg s t) (a : Alarm) (source : Source) :
    Frame cfg s (t.alarm a source) :=
  h.trans ⟨rfl, rfl, rfl, rfl, rfl, rfl, Nat.le_refl _, ⟨[.alarm a], rfl, by simp [Event.settling]⟩,
    .single (.alarm a source)⟩

theorem applySet (h : Frame cfg s t) (op : Op) (source : Source) :
    Frame cfg s (t.applySet op source) :=
  h.trans ⟨rfl, rfl, rfl, rfl, rfl, by simp, Nat.le_refl _,
    ⟨[.applied op t.env.now], rfl, by simp [Event.settling]⟩, .single (.applySet op source)⟩

theorem poll (h : Frame cfg s t) (p : PollSchedule) :
    Frame cfg s (t.setMemory { t.memory with poll := p }) :=
  h.trans ⟨rfl, rfl, rfl, rfl, rfl, rfl, Nat.le_refl _, ⟨[], rfl, by simp⟩,
    .single (.quiet [] (by simp) rfl rfl rfl rfl)⟩

/-- Settling goes on from any frame. -/
theorem settle (h : Frame cfg s t) (p : Phase) (hp : (t.setPhase p).Fresh) :
    Settled cfg s (t.setPhase p) :=
  ⟨h.setPhase p, hp⟩

theorem toSelect (h : Frame cfg s t) : Settled cfg s (t.toSelect cfg) := h.settle _ trivial

theorem answer (h : Frame cfg s t) (c : Command) (result : Reply) :
    Frame cfg s (t.answer c result) := by
  unfold State.answer
  refine record ?_ rfl rfl
  split
  · refine trans (t := if Reply.isOk result then t else t.alarm .unkeyFailed c.source) ?_
      ⟨rfl, rfl, rfl, rfl, rfl, rfl, Nat.le_refl _, ⟨_, rfl, ?_⟩,
        .single (.quiet _ ?_ rfl rfl rfl rfl)⟩
    · split
      · exact h
      · exact h.alarm _ _
    all_goals
      simp only [List.mem_reverse, List.mem_map, forall_exists_index, and_imp]
      rintro _ w _ rfl
      rfl
  · exact h

theorem returnRun (h : Frame cfg s t) (r : Run) (result : Reply) :
    Settled cfg s (t.returnRun cfg r result) := by
  have hret : Frame cfg s (t.record (.returned r.op result)) := h.record rfl rfl
  unfold State.returnRun
  split
  · exact (hret.answer _ _).toSelect
  · dsimp only
    split
    · exact (hret.poll _).settle _ trivial
    · exact (hret.poll _).toSelect

theorem linkStatusReturned (h : Frame cfg s t) (starting : Bool) :
    Settled cfg s (t.linkStatusReturned cfg starting) := by
  unfold State.linkStatusReturned
  split
  · exact h.settle _ trivial
  · exact h.toSelect

theorem sessionReturned (h : Frame cfg s t) (k : SessionCaller) :
    Settled cfg s (t.sessionReturned cfg k) := by
  cases k with
  | restore starting => exact (h.alarm .linkRestored .api).linkStatusReturned starting
  | opening => exact h.toSelect

theorem writeSessionRequests (h : Frame cfg s t) (k : SessionCaller) (requests : List Request) :
    Settled cfg s (t.writeSessionRequests cfg k requests) := by
  unfold State.writeSessionRequests
  split
  · exact h.sessionReturned k
  · split
    · exact h.settle _ trivial
    · exact h.sessionReturned k

theorem sessionStarted (h : Frame cfg s t) (e : σ) : Frame cfg s (t.sessionStarted e) :=
  h.trans ⟨rfl, rfl, rfl, rfl, rfl, rfl, Nat.le_refl _, ⟨[], rfl, by simp⟩, .of_eq rfl rfl⟩

theorem restoreSession (h : Frame cfg s t) (starting : Bool) :
    Settled cfg s (t.restoreSession cfg starting) :=
  (h.sessionStarted _).writeSessionRequests _ _

theorem openSession (h : Frame cfg s t) : Settled cfg s (t.openSession cfg) := by
  unfold State.openSession
  split
  · exact h.toSelect
  · exact (h.sessionStarted _).writeSessionRequests _ _

theorem unkeyReturned (h : Frame cfg s t) (u : Unkeyer) :
    Settled cfg s (t.unkeyReturned cfg u) := by
  cases u with
  | writeTimedOut r => exact h.returnRun r _
  | notAnswered r => exact h.returnRun r _
  | watchdog => exact h.toSelect
  | linkRestored starting => exact h.restoreSession starting
  | stopping => exact h.settle _ trivial

theorem unkeyFinished (h : Frame cfg s t) (u : Unkeyer) (source : Source) (done : Bool) :
    Settled cfg s (t.unkeyFinished cfg u source done) := by
  cases done with
  | true => exact (h.applySet (.setPtt false) source).unkeyReturned u
  | false => exact (h.alarm .unkeyFailed source).unkeyReturned u

theorem unkeyAttempt (h : Frame cfg s t) (u : Unkeyer) (source : Source) (q : Request)
    {seq : Nat} (hseq : seq = t.commandSeq) (attempt : Nat) :
    Settled cfg s (t.unkeyAttempt cfg u source q seq attempt) := by
  unfold State.unkeyAttempt
  split
  · exact h.unkeyFinished u source false
  · split
    · exact h.settle _ hseq
    · exact h.settle _ hseq

theorem unkeyFailClosed (h : Frame cfg s t) (u : Unkeyer) (source : Source) :
    Settled cfg s (t.unkeyFailClosed cfg u source) := by
  unfold State.unkeyFailClosed
  split
  · dsimp only
    split
    · exact (h.setEngine _).nextSeq.unkeyAttempt u source _ rfl 0
    · exact (h.setEngine _).nextSeq.unkeyFinished u source false
  · exact h.nextSeq.unkeyFinished u source false

theorem unkeyOnStop (h : Frame cfg s t) : Settled cfg s (t.unkeyOnStop cfg) := by
  unfold State.unkeyOnStop
  split
  · exact h.unkeyFailClosed _ _
  · exact h.settle _ trivial

theorem pollReserved (h : Frame cfg s t) (c : Command) : Settled cfg s (t.pollReserved cfg c) := by
  unfold State.pollReserved
  split
  · exact h.settle _ trivial
  · exact h.settle _ trivial

end Frame

end State

end HamsOpen.Rig
