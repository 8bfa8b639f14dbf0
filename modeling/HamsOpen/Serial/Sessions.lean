import HamsOpen.Serial.Link
import Mathlib

/-!
# Bytes and the sessions they are written to

What the actor writes is taken in order, and is written to the port, dropped and counted, or left
behind by a write that failed. It is written to the session that it belongs to when nothing waits
at the moment a session is announced; then nothing read in the session before is to come either.
-/

namespace HamsOpen.Serial

/-- The supervisor has announced a session and not yet its end. -/
def Phase.inSession : Phase → Bool
  | announced | session | writing _ _ _ | ending _ => true
  | sleeping | opened | closed => false

namespace State

/-- The write to the port fails, and ends the session. -/
def WriteFails (s : State) : WriteResult → Prop
  | .wrote 0 | .failed => True
  | .timedOut => match s.phase with
    | .writing _ _ timeouts => WRITE_RETRIES ≤ timeouts
    | _ => False
  | _ => False

instance (s : State) (result : WriteResult) : Decidable (s.WriteFails result) := by
  unfold WriteFails
  split
  · infer_instance
  · infer_instance
  · split <;> infer_instance
  · infer_instance

/-- A session is announced with no byte on its way to the port or to the actor, and no write to the
port fails. -/
def Clean (s : State) : Act → Prop
  | .announce => s.waiting = [] ∧ s.coming = []
  | .port result => ¬ s.WriteFails result
  | _ => True

instance (s : State) (a : Act) : Decidable (s.Clean a) := by
  cases a <;> unfold Clean <;> infer_instance

/-- What is said of the bytes of a link. -/
structure Kept (s : State) : Prop where
  /-- Every byte that the actor wrote is accounted for once, in order. -/
  numbered : s.sent.map Sent.n = List.range s.sent.length
  accounted : s.log.map Prod.fst ++ s.waiting = s.sent
  /-- It was dropped, or written to the session that was current when the actor wrote it. -/
  fates : ∀ b f, (b, f) ∈ s.log → f = .dropped ∨ ∃ g, f = .written g ∧ b.session = some g
  counted : s.counters.bytesDropped = s.log.countP (·.2 = .dropped)
  /-- What the actor reads was read in the session announced last. -/
  delivered : ∀ b g, (b, g) ∈ s.delivered → b.session = g

/-! ### What a step does -/

variable {s t : State}

/-- What becomes of a byte in a state. -/
inductive Fated (s : State) : Fate → Prop
  | dropped : s.Fated .dropped
  | written : s.phase.inSession = true → s.Fated (.written s.generation)

/-- What a step does to the bytes that the actor wrote. -/
inductive Up (s t : State) : Prop
  | wrote (bytes : List UInt8) (generation : s.generation ≠ 0)
      (sent : t.sent = s.sent ++ s.tagged bytes)
      (waiting : t.waiting = s.waiting ++ s.tagged bytes) (log : t.log = s.log)
      (dropped : t.counters.bytesDropped = s.counters.bytesDropped)
  | settled (bytes : List Sent) (fate : Fate) (fated : s.Fated fate) (sent : t.sent = s.sent)
      (waiting : s.waiting = bytes ++ t.waiting) (log : t.log = s.log ++ bytes.map (·, fate))
      (dropped : t.counters.bytesDropped =
        s.counters.bytesDropped + if fate = .dropped then bytes.length else 0)

theorem Up.same (hsent : t.sent = s.sent) (hwaiting : t.waiting = s.waiting) (hlog : t.log = s.log)
    (hdropped : t.counters.bytesDropped = s.counters.bytesDropped) : s.Up t := by
  apply Up.settled [] .dropped .dropped hsent
  · rw [hwaiting]
    rfl
  · rw [hlog, List.map_nil, List.append_nil]
  · rw [hdropped]
    rfl

/-- What a step does to the bytes that were read from the port. -/
inductive Down (s t : State) : Prop
  | came (bytes : List UInt8) (coming : t.coming = s.coming ++ bytes.map (⟨·, s.generation⟩))
      (delivered : t.delivered = s.delivered)
  | gone (bytes : List Received) (coming : s.coming = bytes ++ t.coming)
      (delivered : t.delivered = s.delivered ++ bytes.map (·, s.generation))
  | fewer (coming : t.coming ⊆ s.coming) (delivered : t.delivered = s.delivered)

theorem Down.same (hcoming : t.coming = s.coming) (hdelivered : t.delivered = s.delivered) :
    s.Down t :=
  .fewer (by rw [hcoming]; exact List.Subset.refl _) hdelivered

/-- The bridge has ended when the link is asked to end. -/
structure Sealed (s : State) : Prop where
  fresh : s.generation = 0 → s.waiting = []
  queued : .shutdown ∈ s.commands → s.bridge = .closed
  ended : s.phase = .ending true → s.bridge = .closed
  closed : s.phase = .closed → s.bridge = .closed ∨ s.generation = 0

theorem step_up {a : Act} (hsealed : s.Sealed) (hclean : s.Clean a) (hstep : s.step a = some t) :
    s.Up t := by
  cases a with
  | write bytes =>
    simp only [step, write] at hstep
    split at hstep <;> cases hstep
    next hopen => exact .wrote bytes hopen.1 rfl (by simp only [waiting, List.append_assoc]) rfl rfl
  | close =>
    cases hstep
    exact .same rfl rfl rfl rfl
  | read _ | pass _ | portLost =>
    simp only [step, read, pass, portLost] at hstep
    split at hstep <;> cases hstep
    exact .same rfl rfl rfl rfl
  | feed | check | portRead _ =>
    simp only [step, feed, check, portRead] at hstep
    split at hstep
    · split at hstep <;> cases hstep <;> exact .same rfl rfl rfl rfl
    · cases hstep
  | carry n =>
    simp only [step, carry] at hstep
    split at hstep <;> cases hstep
    next hcarry =>
      refine .same rfl ?_ rfl rfl
      simp only [waiting, hcarry.1, Bridge.hand, List.take_append_drop, List.nil_append]
  | send =>
    simp only [step, send] at hstep
    split at hstep
    next chunk hbridge =>
      split at hstep
      next hover =>
        cases hstep
        -- the link was given up before the actor had its end of the stream
        rcases hsealed.closed hover with hdone | hgeneration
        · rw [hbridge] at hdone
          cases hdone
        · have hnone := hsealed.fresh hgeneration
          refine .same rfl ?_ rfl rfl
          rw [hnone]
          simp only [waiting, hbridge, Bridge.hand, List.append_eq_nil_iff] at hnone ⊢
          exact ⟨hnone.1, hnone.2.1, trivial, hnone.2.2.2⟩
      next =>
        split at hstep <;> cases hstep
        refine .same rfl ?_ rfl rfl
        simp [waiting, hbridge, Bridge.hand, Command.bytes]
    next => cases hstep
  | finish =>
    simp only [step, finish] at hstep
    split at hstep
    next hidle =>
      split at hstep
      · cases hstep
        refine .same rfl ?_ rfl rfl
        simp only [waiting, hidle.1, Bridge.hand]
      · split at hstep <;> cases hstep
        refine .same rfl ?_ rfl rfl
        simp [waiting, hidle.1, Bridge.hand, Command.bytes]
    next => cases hstep
  | openPort ok =>
    simp only [step, openPort] at hstep
    split at hstep <;> cases hstep
    next hphase =>
      refine .same rfl ?_ rfl rfl
      cases ok <;> simp only [waiting, hphase, Phase.hand, if_true, Bool.false_eq_true, if_false]
  | giveUp =>
    simp only [step, giveUp] at hstep
    split at hstep <;> cases hstep
    next hphase =>
      refine .same rfl ?_ rfl rfl
      simp only [waiting, hphase.1, Phase.hand]
  | announce =>
    simp only [step, announce] at hstep
    split at hstep <;> cases hstep
    next hphase =>
      refine .same rfl ?_ rfl rfl
      simp only [waiting, hphase, Phase.hand]
  | startReader ok =>
    simp only [step, startReader] at hstep
    split at hstep
    next hphase =>
      split at hstep <;> cases hstep <;> refine .same rfl ?_ rfl rfl <;>
        simp only [waiting, hphase, Phase.hand]
    next => cases hstep
  | noteLost =>
    simp only [step, noteLost] at hstep
    split at hstep <;> cases hstep
    next hphase =>
      refine .same rfl ?_ rfl rfl
      simp only [waiting, hphase.1, Phase.hand]
  | receive =>
    simp only [step, receive] at hstep
    split at hstep
    next bytes rest hphase hcommands =>
      cases hstep
      refine .same rfl ?_ rfl rfl
      simp [waiting, hphase, hcommands, Phase.hand, Command.bytes]
    next rest hphase hcommands =>
      cases hstep
      refine .same rfl ?_ rfl rfl
      simp [waiting, hphase, hcommands, Phase.hand, Command.bytes]
    next bytes rest hphase hcommands =>
      cases hstep
      refine .settled bytes .dropped .dropped rfl ?_ rfl rfl
      simp [waiting, hphase, hcommands, Phase.hand, Command.bytes]
    next rest hphase hcommands =>
      cases hstep
      refine .same rfl ?_ rfl rfl
      simp [waiting, hphase, hcommands, Phase.hand, Command.bytes]
    next => cases hstep
  | port result =>
    simp only [step, port] at hstep
    split at hstep
    next b rest total timeouts hphase =>
      have hsession : s.phase.inSession = true := by rw [hphase]; rfl
      split at hstep
      next => exact absurd trivial hclean
      next n _ =>
        split at hstep <;> cases hstep
        refine .settled ((b :: rest).take n) _ (.written hsession) rfl ?_ rfl rfl
        simp only [waiting, hphase, Phase.hand]
        rw [← List.append_assoc (List.take n (b :: rest)), List.take_append_drop]
      next =>
        cases hstep
        exact .same rfl rfl rfl rfl
      next =>
        split at hstep
        next =>
          cases hstep
          refine .same rfl ?_ rfl rfl
          simp only [waiting, hphase, Phase.hand]
        next htimeouts =>
          exfalso
          apply hclean
          simp only [WriteFails, hphase]
          exact Nat.le_of_not_lt htimeouts
      next => exact absurd trivial hclean
    next => cases hstep
  | flush ok =>
    simp only [step, flush] at hstep
    split at hstep
    next total timeouts hphase =>
      split at hstep
      next =>
        cases hstep
        refine .same rfl ?_ rfl rfl
        simp only [waiting, hphase, Phase.hand]
      next =>
        cases hstep
        refine .same rfl ?_ (List.append_nil _) rfl
        simp only [waiting, hphase, Phase.hand, failWrite]
    next => cases hstep
  | joined =>
    simp only [step, joined] at hstep
    split at hstep
    next shutdown hphase =>
      split at hstep <;> cases hstep
      refine .same rfl ?_ rfl rfl
      cases shutdown <;>
        simp only [waiting, hphase, Phase.hand, if_true, Bool.false_eq_true, if_false]
    next => cases hstep
  | deliver =>
    simp only [step, deliver] at hstep
    split at hstep
    · split at hstep
      · cases hstep
        exact .same rfl rfl rfl rfl
      · split at hstep <;> cases hstep
        exact .same rfl rfl rfl rfl
    · cases hstep

theorem step_down {a : Act} (hclean : s.Clean a) (hstep : s.step a = some t) : s.Down t := by
  cases a with
  | read n =>
    simp only [step, read] at hstep
    split at hstep <;> cases hstep
    refine .gone (s.inbound.take n) ?_ rfl
    simp only [coming]
    rw [← List.append_assoc (s.inbound.take n), List.take_append_drop]
  | feed =>
    simp only [step, feed] at hstep
    split at hstep
    next chunk rest hfeeding htoActor =>
      split at hstep <;> cases hstep
      refine .same ?_ rfl
      simp [coming, hfeeding, htoActor]
    next => cases hstep
  | pass n =>
    simp only [step, pass] at hstep
    split at hstep <;> cases hstep
    refine .same ?_ rfl
    simp only [coming, List.append_assoc]
    rw [← List.append_assoc (s.feeding.take n), List.take_append_drop]
  | startReader ok =>
    simp only [step, startReader] at hstep
    split at hstep
    · split at hstep <;> cases hstep
      · refine .fewer ?_ rfl
        intro b hb
        simp only [coming, Reader.hand, List.append_nil, List.mem_append] at hb ⊢
        tauto
      · exact .same rfl rfl
    · cases hstep
  | check =>
    simp only [step, check] at hstep
    split at hstep
    next hreader =>
      split at hstep <;> cases hstep <;> refine .same ?_ rfl <;>
        simp only [coming, hreader, Reader.hand]
    next => cases hstep
  | portRead bytes =>
    simp only [step, portRead] at hstep
    split at hstep
    next hreader =>
      split at hstep
      next =>
        cases hstep
        refine .same ?_ rfl
        simp only [coming, hreader.1, Reader.hand]
      next =>
        cases hstep
        refine .came bytes ?_ rfl
        simp only [coming, hreader.1, Reader.hand, List.append_nil, List.append_assoc]
    next => cases hstep
  | portLost =>
    simp only [step, portLost] at hstep
    split at hstep <;> cases hstep
    next hreader =>
      refine .same ?_ rfl
      simp only [coming, hreader, Reader.hand]
  | deliver =>
    simp only [step, deliver] at hstep
    split at hstep
    next chunk hreader =>
      split at hstep
      next =>
        cases hstep
        refine .fewer ?_ rfl
        intro b hb
        simp only [coming, Reader.hand, List.append_nil, List.mem_append] at hb ⊢
        tauto
      next =>
        split at hstep <;> cases hstep
        refine .same ?_ rfl
        simp [coming, hreader, Reader.hand]
    next => cases hstep
  | close =>
    cases hstep
    exact .same rfl rfl
  | write _ | carry _ | openPort _ | giveUp | announce | noteLost =>
    simp only [step, write, carry, openPort, giveUp, announce, noteLost] at hstep
    split at hstep <;> cases hstep
    exact .same rfl rfl
  | receive =>
    simp only [step, receive] at hstep
    split at hstep <;> cases hstep <;> exact .same rfl rfl
  | send | finish =>
    simp only [step, send, finish] at hstep
    split at hstep
    · split at hstep
      · cases hstep
        exact .same rfl rfl
      · split at hstep <;> cases hstep
        exact .same rfl rfl
    · cases hstep
  | flush _ | joined =>
    simp only [step, flush, joined] at hstep
    split at hstep
    · split at hstep <;> cases hstep <;> exact .same rfl rfl
    · cases hstep
  | port result =>
    simp only [step, port] at hstep
    split at hstep
    · split at hstep
      · exact absurd trivial hclean
      · split at hstep <;> cases hstep
        exact .same rfl rfl
      · cases hstep
        exact .same rfl rfl
      · split at hstep <;> cases hstep <;> exact .same rfl rfl
      · exact absurd trivial hclean
    · cases hstep

/-- What a step does to the status. -/
inductive Status (s t : State) : Prop
  | announced (waiting : t.waiting = []) (coming : t.coming = [])
      (generation : t.generation = s.generation + 1) (connected : t.connected = true)
  | kept (generation : t.generation = s.generation) (connected : t.connected = s.connected)
      (phase : t.phase.inSession = true → s.phase.inSession = true)
  | ended (generation : t.generation = s.generation) (connected : t.connected = false)
      (phase : t.phase.inSession = false)

theorem step_status {a : Act} (hclean : s.Clean a) (hstep : s.step a = some t) : s.Status t := by
  cases a with
  | announce =>
    simp only [step, announce] at hstep
    split at hstep <;> cases hstep
    next hphase =>
      refine .announced ?_ hclean.2 rfl rfl
      rw [← hclean.1]
      simp only [waiting, hphase, Phase.hand]
  | joined =>
    simp only [step, joined] at hstep
    split at hstep
    · split at hstep <;> cases hstep
      refine .ended rfl rfl ?_
      split <;> rfl
    · cases hstep
  | openPort ok =>
    simp only [step, openPort] at hstep
    split at hstep <;> cases hstep
    refine .kept rfl rfl ?_
    cases ok <;> (intros; contradiction)
  | giveUp =>
    simp only [step, giveUp] at hstep
    split at hstep <;> cases hstep
    exact .kept rfl rfl (by intros; contradiction)
  | startReader ok =>
    simp only [step, startReader] at hstep
    split at hstep
    next hphase =>
      split at hstep <;> cases hstep <;> exact .kept rfl rfl fun _ => by rw [hphase]; rfl
    next => cases hstep
  | noteLost =>
    simp only [step, noteLost] at hstep
    split at hstep <;> cases hstep
    next hphase => exact .kept rfl rfl fun _ => by rw [hphase.1]; rfl
  | receive =>
    simp only [step, receive] at hstep
    split at hstep
    next hphase _ =>
      cases hstep
      exact .kept rfl rfl fun _ => by rw [hphase]; rfl
    next hphase _ =>
      cases hstep
      exact .kept rfl rfl fun _ => by rw [hphase]; rfl
    next =>
      cases hstep
      exact .kept rfl rfl id
    next =>
      cases hstep
      exact .kept rfl rfl (by intros; contradiction)
    next => cases hstep
  | port result =>
    simp only [step, port] at hstep
    split at hstep
    next hphase =>
      have hsession : s.phase.inSession = true := by rw [hphase]; rfl
      split at hstep
      · exact absurd trivial hclean
      · split at hstep <;> cases hstep
        exact .kept rfl rfl fun _ => hsession
      · cases hstep
        exact .kept rfl rfl id
      · split at hstep <;> cases hstep <;> exact .kept rfl rfl fun _ => hsession
      · exact absurd trivial hclean
    next => cases hstep
  | flush ok =>
    simp only [step, flush] at hstep
    split at hstep
    next hphase =>
      split at hstep <;> cases hstep <;> exact .kept rfl rfl fun _ => by rw [hphase]; rfl
    next => cases hstep
  | close =>
    cases hstep
    exact .kept rfl rfl id
  | write _ | read _ | carry _ | pass _ | portLost =>
    simp only [step, write, read, carry, pass, portLost] at hstep
    split at hstep <;> cases hstep
    exact .kept rfl rfl id
  | send | finish | deliver =>
    simp only [step, send, finish, deliver] at hstep
    split at hstep
    · split at hstep
      · cases hstep
        exact .kept rfl rfl id
      · split at hstep <;> cases hstep
        exact .kept rfl rfl id
    · cases hstep
  | feed | check | portRead _ =>
    simp only [step, feed, check, portRead] at hstep
    split at hstep
    · split at hstep <;> cases hstep <;> exact .kept rfl rfl id
    · cases hstep

/-! ### Runs -/

theorem Sealed.step {a : Act} (h : s.Sealed) (hclean : s.Clean a) (hstep : s.step a = some t) :
    t.Sealed := by
  have hfresh : t.generation = 0 → t.waiting = [] := by
    intro hgeneration
    have hzero : s.generation = 0 := by
      cases step_status hclean hstep with
      | announced _ _ hnext _ => omega
      | kept hsame _ _ => omega
      | ended hsame _ _ => omega
    have hnone := h.fresh hzero
    cases step_up h hclean hstep with
    | wrote _ hopen => exact absurd hzero hopen
    | settled bytes fate _ _ hwaiting =>
      rw [hnone] at hwaiting
      exact (List.append_eq_nil_iff.mp hwaiting.symm).2
  have hkeep : t.commands = s.commands → t.bridge = s.bridge → t.generation = s.generation →
      (t.phase = .ending true → s.phase = .ending true) → (t.phase = .closed → s.phase = .closed) →
      t.Sealed := by
    intro hcommands hbridge hgeneration hended hover
    refine ⟨hfresh, ?_, ?_, ?_⟩
    · rw [hcommands, hbridge]
      exact h.queued
    · rw [hbridge]
      exact h.ended ∘ hended
    · rw [hbridge, hgeneration]
      exact h.closed ∘ hover
  cases a with
  | send =>
    simp only [State.step, send] at hstep
    split at hstep
    next chunk hbridge =>
      split at hstep
      · cases hstep
        exact ⟨hfresh, fun _ => rfl, fun _ => rfl, fun _ => .inl rfl⟩
      next hphase =>
        split at hstep <;> cases hstep
        refine ⟨hfresh, ?_, ?_, fun hover => absurd hover hphase⟩
        · intro hmem
          rcases List.mem_append.mp hmem with hmem | hmem
          · have hover := h.queued hmem
            rw [hbridge] at hover
            cases hover
          · cases List.mem_singleton.mp hmem
        · intro hended
          have hover := h.ended hended
          rw [hbridge] at hover
          cases hover
    next => cases hstep
  | finish =>
    simp only [State.step, finish] at hstep
    split at hstep
    · split at hstep
      · cases hstep
        exact ⟨hfresh, fun _ => rfl, fun _ => rfl, fun _ => .inl rfl⟩
      · split at hstep <;> cases hstep
        exact ⟨hfresh, fun _ => rfl, fun _ => rfl, fun _ => .inl rfl⟩
    · cases hstep
  | carry n =>
    simp only [State.step, carry] at hstep
    split at hstep <;> cases hstep
    next hidle =>
      have hnever : s.bridge ≠ .closed := by
        rw [hidle.1]
        nofun
      exact ⟨hfresh, fun hmem => absurd (h.queued hmem) hnever,
        fun hended => absurd (h.ended hended) hnever,
        fun hover => .inr ((h.closed hover).resolve_left hnever)⟩
  | receive =>
    simp only [State.step, receive] at hstep
    split at hstep
    next bytes rest hphase hcommands =>
      cases hstep
      refine ⟨hfresh, ?_, nofun, nofun⟩
      intro hmem
      apply h.queued
      rw [hcommands]
      exact List.mem_cons_of_mem _ hmem
    next rest hphase hcommands =>
      cases hstep
      have hover : s.bridge = .closed := h.queued (by rw [hcommands]; exact List.mem_cons_self)
      exact ⟨hfresh, fun _ => hover, fun _ => hover, nofun⟩
    next bytes rest hphase hcommands =>
      cases hstep
      refine ⟨hfresh, ?_, h.ended, h.closed⟩
      intro hmem
      apply h.queued
      rw [hcommands]
      exact List.mem_cons_of_mem _ hmem
    next rest hphase hcommands =>
      cases hstep
      have hover : s.bridge = .closed := h.queued (by rw [hcommands]; exact List.mem_cons_self)
      exact ⟨hfresh, fun _ => hover, fun _ => hover, fun _ => .inl hover⟩
    next => cases hstep
  | giveUp =>
    simp only [State.step, giveUp] at hstep
    split at hstep <;> cases hstep
    next hphase => exact ⟨hfresh, h.queued, nofun, fun _ => .inr hphase.2⟩
  | joined =>
    simp only [State.step, joined] at hstep
    split at hstep
    next shutdown hphase =>
      split at hstep <;> cases hstep
      cases shutdown with
      | true => exact ⟨hfresh, h.queued, nofun, fun _ => .inl (h.ended hphase)⟩
      | false => exact ⟨hfresh, h.queued, nofun, nofun⟩
    next => cases hstep
  | announce =>
    simp only [State.step, announce] at hstep
    split at hstep <;> cases hstep
    exact ⟨hfresh, h.queued, nofun, nofun⟩
  | openPort ok =>
    simp only [State.step, openPort] at hstep
    split at hstep <;> cases hstep
    refine hkeep rfl rfl rfl ?_ ?_ <;> cases ok <;> nofun
  | close =>
    cases hstep
    exact hkeep rfl rfl rfl id id
  | write _ | read _ | pass _ | portLost =>
    simp only [State.step, write, read, pass, portLost] at hstep
    split at hstep <;> cases hstep
    exact hkeep rfl rfl rfl id id
  | noteLost =>
    simp only [State.step, noteLost] at hstep
    split at hstep <;> cases hstep
    exact hkeep rfl rfl rfl nofun nofun
  | feed | check | portRead _ =>
    simp only [State.step, feed, check, portRead] at hstep
    split at hstep
    · split at hstep <;> cases hstep <;> exact hkeep rfl rfl rfl id id
    · cases hstep
  | startReader _ | flush _ =>
    simp only [State.step, startReader, flush] at hstep
    split at hstep
    · split at hstep <;> cases hstep <;> exact hkeep rfl rfl rfl nofun nofun
    · cases hstep
  | deliver =>
    simp only [State.step, deliver] at hstep
    split at hstep
    · split at hstep
      · cases hstep
        exact hkeep rfl rfl rfl id id
      · split at hstep <;> cases hstep
        exact hkeep rfl rfl rfl id id
    · cases hstep
  | port result =>
    simp only [State.step, port] at hstep
    split at hstep
    · split at hstep
      · exact absurd trivial hclean
      · split at hstep <;> cases hstep
        exact hkeep rfl rfl rfl nofun nofun
      · cases hstep
        exact hkeep rfl rfl rfl id id
      · split at hstep <;> cases hstep <;> exact hkeep rfl rfl rfl nofun nofun
      · exact absurd trivial hclean
    · cases hstep

/-- The invariant: what waits in a session was written in it, and what comes was read in the session
announced last. -/
structure Tagged (s : State) : Prop where
  session : s.phase.inSession = true → s.connected = true
  waiting : s.connected = true → ∀ b ∈ s.waiting, b.session = some s.generation
  coming : ∀ b ∈ s.coming, b.session = s.generation

theorem numbered_tagged (s : State) (bytes : List UInt8) :
    (s.tagged bytes).map Sent.n = (List.range bytes.length).map (s.sent.length + ·) := by
  apply List.ext_getElem
  · simp [tagged]
  · intro i hi hi'
    simp [tagged]

theorem mem_tagged {bytes : List UInt8} {b : Sent} (h : b ∈ s.tagged bytes) :
    b.session = s.current := by
  obtain ⟨i, hi, rfl⟩ := List.mem_mapIdx.mp h
  rfl

/-- What waits after a step waited before it, or is of the session that is current. -/
theorem Up.mem_waiting (h : s.Up t) {b : Sent} (hb : b ∈ t.waiting) :
    b ∈ s.waiting ∨ b.session = s.current := by
  cases h with
  | wrote bytes _ _ hwaiting =>
    rw [hwaiting] at hb
    exact (List.mem_append.mp hb).imp_right mem_tagged
  | settled bytes fate _ _ hwaiting =>
    left
    rw [hwaiting]
    exact List.mem_append_right _ hb

/-- What comes after a step came before it, or is read in the session announced last. -/
theorem Down.mem_coming (h : s.Down t) {b : Received} (hb : b ∈ t.coming) :
    b ∈ s.coming ∨ b.session = s.generation := by
  cases h with
  | came bytes hcoming =>
    rw [hcoming] at hb
    rcases List.mem_append.mp hb with hb | hb
    · exact .inl hb
    · right
      obtain ⟨byte, -, rfl⟩ := List.mem_map.mp hb
      rfl
  | gone bytes hcoming =>
    left
    rw [hcoming]
    exact List.mem_append_right _ hb
  | fewer hcoming => exact .inl (hcoming hb)

theorem Tagged.step {a : Act} (h : s.Tagged) (hsealed : s.Sealed) (hclean : s.Clean a)
    (hstep : s.step a = some t) : t.Tagged := by
  have hup := step_up hsealed hclean hstep
  have hdown := step_down hclean hstep
  cases step_status hclean hstep with
  | announced hwaiting hcoming hgeneration hconnected =>
    -- nothing of an earlier session is on its way
    refine ⟨fun _ => hconnected, ?_, ?_⟩
    · rw [hwaiting]
      nofun
    · rw [hcoming]
      nofun
  | kept hgeneration hconnected hphase =>
    constructor
    · intro hsession
      rw [hconnected]
      exact h.session (hphase hsession)
    · intro hcurrent b hb
      rw [hconnected] at hcurrent
      rw [hgeneration]
      rcases hup.mem_waiting hb with hold | hnew
      · exact h.waiting hcurrent b hold
      · rw [hnew, current, if_pos hcurrent]
    · intro b hb
      rw [hgeneration]
      exact (hdown.mem_coming hb).elim (h.coming b) id
  | ended hgeneration hconnected hphase =>
    constructor
    · intro hsession
      rw [hphase] at hsession
      cases hsession
    · intro hcurrent
      rw [hconnected] at hcurrent
      cases hcurrent
    · intro b hb
      rw [hgeneration]
      exact (hdown.mem_coming hb).elim (h.coming b) id

theorem Kept.step {a : Act} (h : s.Kept) (htagged : s.Tagged) (hsealed : s.Sealed)
    (hclean : s.Clean a) (hstep : s.step a = some t) : t.Kept := by
  have hdelivered : ∀ b g, (b, g) ∈ t.delivered → b.session = g := by
    intro b g hb
    cases step_down hclean hstep with
    | came _ _ hsame =>
      rw [hsame] at hb
      exact h.delivered b g hb
    | fewer _ hsame =>
      rw [hsame] at hb
      exact h.delivered b g hb
    | gone bytes hcoming hread =>
      rw [hread] at hb
      rcases List.mem_append.mp hb with hb | hb
      · exact h.delivered b g hb
      · obtain ⟨b', hb', heq⟩ := List.mem_map.mp hb
        cases heq
        apply htagged.coming
        rw [hcoming]
        exact List.mem_append_left _ hb'
  cases step_up hsealed hclean hstep with
  | wrote bytes _ hsent hwaiting hlog hdropped =>
    refine ⟨?_, ?_, ?_, ?_, hdelivered⟩
    · have hlength : (s.tagged bytes).length = bytes.length := List.length_mapIdx
      rw [hsent, List.map_append, h.numbered, numbered_tagged, List.length_append, hlength,
        List.range_add]
    · rw [hlog, hwaiting, hsent, ← List.append_assoc, h.accounted]
    · rw [hlog]
      exact h.fates
    · rw [hlog, hdropped]
      exact h.counted
  | settled bytes fate hfated hsent hwaiting hlog hdropped =>
    refine ⟨?_, ?_, ?_, ?_, hdelivered⟩
    · rw [hsent]
      exact h.numbered
    · have hfst : (bytes.map fun b => (b, fate)).map Prod.fst = bytes := by
        rw [List.map_map]
        exact List.map_id bytes
      rw [hlog, hsent, ← h.accounted, hwaiting, List.map_append, hfst, List.append_assoc]
    · intro b f hb
      rw [hlog] at hb
      rcases List.mem_append.mp hb with hb | hb
      · exact h.fates b f hb
      · obtain ⟨b', hb', heq⟩ := List.mem_map.mp hb
        cases heq
        cases hfated with
        | dropped => exact .inl rfl
        | written hsession =>
          refine .inr ⟨_, rfl, htagged.waiting (htagged.session hsession) b ?_⟩
          rw [hwaiting]
          exact List.mem_append_left _ hb'
    · rw [hlog, hdropped, h.counted, List.countP_append]
      congr 1
      rw [List.countP_map]
      split
      next hfate =>
        rw [hfate]
        exact (List.countP_eq_length.mpr fun b _ => by simp).symm
      next hfate =>
        exact (List.countP_eq_zero.mpr fun b _ => by simpa using hfate).symm

theorem kept_of_reach (h : machine.Reach Clean s) : s.Sealed ∧ s.Tagged ∧ s.Kept := by
  apply h.invariant
  · rintro s rfl
    refine ⟨⟨fun _ => rfl, nofun, nofun, nofun⟩, ⟨nofun, nofun, nofun⟩, ?_⟩
    exact ⟨rfl, rfl, nofun, rfl, nofun⟩
  · rintro s a t ⟨hsealed, htagged, hkept⟩ hclean hstep
    exact ⟨hsealed.step hclean hstep, htagged.step hsealed hclean hstep,
      hkept.step htagged hsealed hclean hstep⟩

end State

open State

/-- Bytes are written to the session that they belong to, or dropped and counted. -/
theorem sessions_kept (s : State) (h : machine.Reach Clean s) : s.Kept :=
  (kept_of_reach h).2.2

/-- The first open, with the reader at the port. -/
def opening : List Act :=
  [.openPort true, .announce, .startReader true, .check]

/-- The port is lost, and the status is that of a reconnect. -/
def losing : List Act := [.portLost, .noteLost, .joined]

/-- A command is written to the first session, one after the loss is dropped, and another is written
to the second session. -/
theorem sessions_kept_reopened : ∃ s, machine.Reach Clean s ∧
    (s.log.map Prod.snd = [.written 1, .dropped, .written 2] ∧ s.counters.bytesDropped = 1) ∧
    s.Kept := by
  have hstart : machine.Reach Clean initial := .init rfl
  obtain ⟨s, hs, hlog⟩ := hstart.exists_of_runWhile
    (P := fun s => s.log.map Prod.snd = [.written 1, .dropped, .written 2] ∧
      s.counters.bytesDropped = 1)
    (opening ++ [.write [1], .carry 1, .send, .receive, .port (.wrote 1), .flush true] ++ losing ++
      [.write [2], .carry 1, .send, .receive] ++ opening ++
      [.write [3], .carry 1, .send, .receive, .port (.wrote 1)]) (by decide +kernel)
  exact ⟨s, hs, hlog, sessions_kept s hs⟩

/-- A command that the actor writes while the port is down waits in the queue as the port is opened
again, and is written to the later session. -/
theorem written_later : ∃ s, machine.Reachable s ∧
    s.log = [(⟨0, 1, none⟩, .written 2)] ∧ ¬ s.Kept := by
  have hstart : machine.Reachable initial := .init rfl
  obtain ⟨s, hs, hlog⟩ := hstart.exists_of_run (P := fun s => s.log = [(⟨0, 1, none⟩, .written 2)])
    (opening ++ losing ++ [.write [1], .carry 1, .send] ++ opening ++
      [.receive, .port (.wrote 1)]) (by decide +kernel)
  refine ⟨s, hs, hlog, ?_⟩
  intro hkept
  rcases hkept.fates ⟨0, 1, none⟩ (.written 2) (by rw [hlog]; exact List.mem_cons_self) with
    hdropped | ⟨g, -, hsession⟩
  · cases hdropped
  · cases hsession

end HamsOpen.Serial
