import HamsOpen.Lib.History
import HamsOpen.Rig.Watchdog
import HamsOpen.Rig.Gate
import HamsOpen.Rig.Numbers

/-!
# What covers a key

A transmit command is covered by the watchdog from its acknowledgement on, and before that by its
own end: an answer that does not come is followed by the fail-closed unkey. What is left out on
purpose is a rig that reports it is not keyed, a link that is gone (the next session starts with an
unkey), and an unkey that could not be done, which is reported. A command abandoned for an emergency
command is left out too.
-/

namespace HamsOpen.Rig

/-- True for a writer that unkeys the rig. -/
def Writer.unkeys : Writer → Bool
  | .unkey => true
  | .command op _ => op.isUnkey
  | .session => false

/-- The result of a command that returned. -/
def Event.result : Event → Option Reply
  | .returned _ result => some result
  | _ => none

/-- The rig was told or found not to be keyed, or an unkey was reported as failed. -/
def Event.clears (e : Event) : Bool := e.keyReports.contains .unkeyed || e == .alarm .unkeyFailed

/-- How the command that wrote the request at index `i` returned. -/
def outcome (i : Nat) (log : List Event) : Option Reply :=
  History.firstSince (.wrote i) Event.result log

/-- The rig refused the command, or it was cut short by a lost link or an emergency command. -/
def Reply.excused : Reply → Bool
  | .error e => e.kind == .rejected || e.kind == .linkDown || e.kind == .cancelled
  | .ok _ => false

section Log

variable {i : Nat} {es es' log : List Event}

/-- The first command to return since the request was written is the one that wrote it. -/
theorem outcome_returned {op : Op} {result : Reply} (h : .wrote i ∉ es ++ es')
    (hes : ∀ e ∈ es', e.result = none) (hnone : outcome i log = none) :
    outcome i (es ++ .returned op result :: (es' ++ log)) = some result := by
  have hquiet : es'.filterMap Event.result = [] := List.filterMap_eq_nil_iff.mpr hes
  have hwrote : .wrote i ∉ es ++ .returned op result :: es' := by
    simpa [and_comm] using h
  rw [show es ++ .returned op result :: (es' ++ log) = (es ++ .returned op result :: es') ++ log by
    simp, outcome, History.firstSince_append_of_none hwrote hnone]
  simp [hquiet, Event.result]

theorem outcome_none_append (h : .wrote i ∉ es) (hes : ∀ e ∈ es, e.result = none)
    (hnone : outcome i log = none) : outcome i (es ++ log) = none := by
  rw [outcome, History.firstSince_append_of_none h hnone, List.filterMap_eq_nil_iff.mpr hes]
  rfl

theorem keyReports_concat (es log : List Event) :
    keyReports (es ++ log) = keyReports log ++ keyReports es := by
  induction es with
  | nil => simp [keyReports]
  | cons e es ih => simp [keyReports, ih]

theorem mem_keyReports {r : KeyReport} : r ∈ keyReports es ↔ ∃ e ∈ es, r ∈ e.keyReports := by
  induction es with
  | nil => simp [keyReports]
  | cons e es ih => simp [keyReports, ih, or_comm]

/-- Only a firing tells of a firing. -/
theorem Event.eq_fired {e : Event} (h : .fired ∈ e.keyReports) : ∃ now, e = .fired now := by
  cases e with
  | fired now => exact ⟨now, rfl⟩
  | absorbed items now =>
    obtain ⟨v, -, hv⟩ := List.mem_filterMap.mp h
    cases v with
    | ptt on => cases on <;> cases hv
    | _ => cases hv
  | applied op now =>
    cases op with
    | setPtt on => cases on <;> simp [Event.keyReports, KeyReport.ofSet] at h
    | _ => simp [Event.keyReports, KeyReport.ofSet] at h
  | _ => cases h

end Log

namespace State

variable {σ : Type} {cfg : Setup σ} {s t u : State σ} {i : Nat}

/-- What covers the transmit command whose request is at index `i` of the wire. -/
inductive Covered (s : State σ) (i : Nat) : Prop
  /-- The watchdog runs. -/
  | armed (h : s.memory.keyedSince.isSome = true)
  /-- An unkey has been written since. -/
  | unkeyed {j : Nat} {w : Wrote} (hafter : i < j) (hw : s.wire[j]? = some w)
      (hunkeys : w.writer.unkeys = true) (hcomplete : w.complete = true)
  /-- Its reply is still waited for. -/
  | awaited {r : Run} {q : Request} {seq left : Nat} {limit : Instant} {watchdog : Option Instant}
      (hphase : s.phase = .awaiting r q seq left limit watchdog) (hlast : i + 1 = s.wire.length)
      (htransmits : r.op.transmits = true) (hnone : outcome i s.log = none)
  /-- The actor writes an unkey of its own next. -/
  | unkeying (h : s.phase.unkeying = true)
  /-- The rig was told or found not to be keyed since, or an unkey was reported as failed. -/
  | cleared {e : Event} (he : e ∈ History.since (.wrote i) s.log) (hclears : e.clears = true)
  /-- The rig refused the command, or a lost link or an emergency command cut it short. -/
  | excused {result : Reply} (h : outcome i s.log = some result)
      (hexcused : Reply.excused result = true)

/-! ### What the functions log -/

/-- A command that returns logs its result, and then at most an alarm and the answers. -/
theorem returnRun_log (s : State σ) (r : Run) (result : Reply) :
    ∃ es, (s.returnRun cfg r result).log = es ++ .returned r.op result :: s.log ∧
      ∀ e ∈ es, e.settling = true ∧ e.result = none := by
  unfold returnRun
  cases r.caller with
  | polled entry before next =>
    cases next with
    | none => exact ⟨[], by simp [toSelect], by simp⟩
    | some c => exact ⟨[], by simp, by simp⟩
  | served c =>
    simp only [toSelect, setPhase_log, answer, record_log]
    split
    · refine ⟨.answered c.reply result c ::
        ((s.unkeyWaiters.map fun w => Event.answered w result c).reverse ++
          if Reply.isOk result then [] else [.alarm .unkeyFailed]), ?_, fun e he => ?_⟩
      · split <;> simp
      · rcases List.mem_cons.mp he with rfl | he
        · exact ⟨rfl, rfl⟩
        rcases List.mem_append.mp he with he | he
        · obtain ⟨w, -, rfl⟩ := List.mem_map.mp (List.mem_reverse.mp he)
          exact ⟨rfl, rfl⟩
        · split at he
          · cases he
          · obtain rfl := List.mem_singleton.mp he
            exact ⟨rfl, rfl⟩
    · exact ⟨[.answered c.reply result c], rfl, by simp [Event.settling, Event.result]⟩

theorem linkDown_log (s : State σ) :
    ∃ es, s.linkDown.log = es ++ s.log ∧ ∀ e ∈ es, e.still = true ∧ e.result = none := by
  unfold linkDown
  split
  · exact ⟨[.alarm .linkDown, .linkDown], rfl, by simp [Event.still, Event.result]⟩
  · exact ⟨[.linkDown], rfl, by simp [Event.still, Event.result]⟩

/-- An unkey of the actor's own that could not be done is reported. -/
theorem unkeyFinished_alarm (s : State σ) (u : Unkeyer) (source : Source) :
    ∃ es, (s.unkeyFinished cfg u source false).log = es ++ .alarm .unkeyFailed :: s.log ∧
      ∀ e ∈ es, e.settling = true :=
  ((Frame.refl : Frame cfg (s.alarm .unkeyFailed source) _).unkeyReturned u).log

/-- The actor goes on to write an unkey, or has reported that it could not be done. -/
theorem unkeyAttempt_alarm (s : State σ) (u : Unkeyer) (source : Source) (q : Request)
    (seq attempt : Nat) :
    (s.unkeyAttempt cfg u source q seq attempt).phase.unkeying = true ∨
      ∃ es, (s.unkeyAttempt cfg u source q seq attempt).log = es ++ .alarm .unkeyFailed :: s.log ∧
        ∀ e ∈ es, e.settling = true := by
  unfold unkeyAttempt
  split
  · exact .inr (unkeyFinished_alarm s u source)
  split
  · exact .inl rfl
  · exact .inl rfl

theorem unkeyFailClosed_alarm (s : State σ) (u : Unkeyer) (source : Source) :
    (s.unkeyFailClosed cfg u source).phase.unkeying = true ∨
      ∃ es, (s.unkeyFailClosed cfg u source).log = es ++ .alarm .unkeyFailed :: s.log ∧
        ∀ e ∈ es, e.settling = true := by
  unfold unkeyFailClosed
  split
  · dsimp only
    split
    · exact unkeyAttempt_alarm _ u source _ _ 0
    · exact .inr (unkeyFinished_alarm _ u source)
  · exact .inr (unkeyFinished_alarm _ u source)

/-- What a move logs: it tells of a write only for the next index of the wire, and of a firing only
if it goes on to the unkey. -/
theorem Move.log (h : Move cfg s t) :
    ∃ es, t.log = es ++ s.log ∧ (∀ i, .wrote i ∈ es → i = s.wire.length) ∧
      (.fired ∈ keyReports es →
        ∃ a, t = (s.disarm.alarm a .watchdog).unkeyFailClosed cfg .watchdog .watchdog) := by
  have hquiet {es : List Event} (hes : ∀ e ∈ es, e.still = true) :
      (∀ i, .wrote i ∉ es) ∧ .fired ∉ keyReports es := by
    refine ⟨fun i hi => Bool.false_ne_true (hes _ hi), fun hfired => ?_⟩
    obtain ⟨e, he, hr⟩ := mem_keyReports.mp hfired
    obtain ⟨now, rfl⟩ := Event.eq_fired hr
    exact Bool.false_ne_true (hes _ he)
  cases h.traffic with
  | still h =>
    obtain ⟨es, hlog, hes⟩ := h.log
    exact ⟨es, hlog, fun i hi => absurd hi ((hquiet hes).1 i), fun hf => absurd hf (hquiet hes).2⟩
  | fired a h ht =>
    obtain ⟨es, hlog, hes⟩ := h.log
    refine ⟨es ++ [.fired s.env.now], by rw [hlog]; simp, fun i hi => ?_, fun _ => ⟨a, ht⟩⟩
    rcases List.mem_append.mp hi with hi | hi
    · exact absurd hi ((hquiet hes).1 i)
    · cases List.mem_singleton.mp hi
  | read n expect seq source hreads hawaits habsorb h =>
    obtain ⟨es, hlog, hes⟩ := h.log
    obtain ⟨es', hlog', hes'⟩ := absorb_log habsorb
    refine ⟨es ++ es', by rw [hlog, hlog', List.append_assoc], fun i hi => ?_, fun hf => ?_⟩
    · rcases List.mem_append.mp hi with hi | hi
      · exact absurd hi ((hquiet hes).1 i)
      · rcases hes' _ hi with ⟨_, _, he⟩ | ⟨_, _, _, he⟩ <;> cases he
    · rw [keyReports_concat, List.mem_append] at hf
      obtain ⟨e, he, hr⟩ := mem_keyReports.mp (hf.resolve_right (hquiet hes).2)
      obtain ⟨now, rfl⟩ := Event.eq_fired hr
      rcases hes' _ he with ⟨_, _, he⟩ | ⟨_, _, _, he⟩ <;> cases he
  | wrote hwritten h =>
    obtain ⟨es, hlog, hes⟩ := h.log
    refine ⟨es ++ [.wrote s.wire.length], by rw [hlog, hwritten.log]; simp, fun i hi => ?_,
      fun hf => ?_⟩
    · rcases List.mem_append.mp hi with hi | hi
      · exact absurd hi ((hquiet hes).1 i)
      · exact Event.wrote.inj (List.mem_singleton.mp hi)
    · rw [keyReports_concat] at hf
      exact absurd (by simpa [keyReports, Event.keyReports] using hf) (hquiet hes).2

/-! ### One step -/

/-- Once the rig was told keyed, the watchdog runs, unless it was told otherwise since or the
watchdog fired. -/
theorem Covered.of_keyed (hstart : t.memory.keyedSince = watchStart (keyReports t.log))
    {es base : List Event} (hlog : t.log = es ++ base) (hsince : ∀ e ∈ es, e ∈ History.since (.wrote i) t.log)
    (hkeyed : watchStart (keyReports base) ≠ none ∨ ∃ now, .keyed now ∈ keyReports es)
    (hfired : .fired ∈ keyReports es → t.Covered i) : t.Covered i := by
  by_cases harmed : t.memory.keyedSince.isSome = true
  · exact .armed harmed
  have hnone : watchStart (keyReports base ++ keyReports es) = none := by
    rw [← keyReports_concat, ← hlog, ← hstart]
    simpa using harmed
  have hlast := (watchStart_eq_none_iff _).mp hnone
  cases hes : (keyReports es).getLast? with
  | none =>
    rw [List.getLast?_eq_none_iff] at hes
    rw [hes, List.append_nil] at hnone
    rcases hkeyed with hbase | ⟨now, hnow⟩
    · exact absurd hnone hbase
    · simp [hes] at hnow
  | some r =>
    have hmem := List.mem_of_getLast? hes
    rcases hlast r (by rw [List.getLast?_append, hes]; rfl) with rfl | rfl
    · obtain ⟨e, he, hr⟩ := mem_keyReports.mp hmem
      exact .cleared (hsince e he) (by simp [Event.clears, hr])
    · exact hfired hmem

/-- An unkey of the actor's own covers: it is written next, or was reported as failed. -/
theorem Covered.of_alarm {base : List Event}
    (h : t.phase.unkeying = true ∨ ∃ es, t.log = es ++ .alarm .unkeyFailed :: base ∧
      ∀ e ∈ es, e.settling = true)
    (hsince : ∀ es, t.log = es ++ base → (∀ e ∈ es, e.settling = true) →
      ∀ e ∈ es, e ∈ History.since (.wrote i) t.log) : t.Covered i := by
  rcases h with hkeying | ⟨es, hlog, hes⟩
  · exact .unkeying hkeying
  · refine .cleared (e := .alarm .unkeyFailed)
      (hsince (es ++ [.alarm .unkeyFailed]) (by simp [hlog]) (fun e he => ?_) _ (by simp)) rfl
    rcases List.mem_append.mp he with he | he
    · exact hes e he
    · rw [List.mem_singleton.mp he]
      rfl

/-- A command that waited returned with an excuse. -/
theorem Covered.of_returned {op : Op} {result : Reply} {es es' : List Event}
    (hnot : ∀ es, t.log = es ++ s.log → .wrote i ∉ es)
    (hlog : t.log = es ++ .returned op result :: (es' ++ s.log))
    (hes' : ∀ e ∈ es', e.result = none) (hnone : outcome i s.log = none)
    (hexcused : Reply.excused result = true) : t.Covered i := by
  have hwrote := hnot (es ++ .returned op result :: es') (by rw [hlog]; simp)
  refine .excused ?_ hexcused
  rw [hlog]
  exact outcome_returned (by simpa [and_comm] using hwrote) hes' hnone

/-- A key that was acknowledged, or that expects no answer, is told as keyed. -/
theorem keyReports_applied {op : Op} (h : op.transmits = true) (now : Instant) :
    .keyed now ∈ (Event.applied op now).keyReports := by
  cases op with
  | setPtt on =>
    cases on with
    | true => simp [Event.keyReports, KeyReport.ofSet]
    | false => cases h
  | sendCw text => simp [Event.keyReports, KeyReport.ofSet]
  | _ => cases h

/-- The only error that received bytes decide is a refusal. -/
theorem absorb_rejected {n : Nat} {expect : ReplyKind} {seq : Nat} {source : Source}
    {e : RigError} (h : s.absorb cfg n expect seq source = (t, some (.error e))) :
    e.kind = .rejected := by
  have hitems (now : Instant) (items : List Item) (m : Memory) (done : Option Memory.Decided)
      (hdone : ∀ e w, done = some (.error e, w) → e.kind = .rejected) :
      ∀ e w, (Memory.absorb cfg.engine.capabilities expect seq source now m done items).2 =
        some (.error e, w) → e.kind = .rejected := by
    induction items generalizing m done with
    | nil => exact hdone
    | cons item items ih =>
      refine ih _ _ fun e w he => ?_
      obtain ⟨inbound, write⟩ := item
      cases inbound with
      | nak =>
        dsimp only [Memory.absorbItem] at he
        split at he
        · obtain ⟨herror, -⟩ := Prod.mk.inj (Option.some.inj he)
          obtain rfl := Except.error.inj herror
          rfl
        · exact hdone e w he
      | observation value | ack =>
        dsimp only [Memory.absorbItem] at he
        split at he
        · cases he
        · exact hdone e w he
      | scopeFrame | filterScopeFrame | unrecognised => exact hdone e w he
  unfold State.absorb at h
  dsimp only at h
  split at h
  · rename_i result write hresult
    obtain ⟨-, hsome⟩ := Prod.mk.inj h
    obtain rfl := Option.some.inj hsome
    exact hitems _ _ _ none nofun _ _ hresult
  · cases (Prod.mk.inj h).2

/-- One step keeps a transmit command covered. -/
theorem Covered.move (h : s.Covered i) (hi : i < s.wire.length) (hmove : Move cfg s t)
    (hs : s.memory.keyedSince = watchStart (keyReports s.log))
    (ht : t.memory.keyedSince = watchStart (keyReports t.log))
    (honce : ∀ r left, s.Attempting r left → r.op.transmits = true → left = 0) :
    t.Covered i := by
  obtain ⟨es, hlog, hwrote, hfire⟩ := hmove.log
  have hnot : .wrote i ∉ es := fun hmem => Nat.ne_of_lt hi (hwrote i hmem)
  have hnots (es' : List Event) (h' : t.log = es' ++ s.log) : .wrote i ∉ es' := by
    obtain rfl := List.append_cancel_right (hlog.symm.trans h')
    exact hnot
  have hsince {es' : List Event} (x : List Event) (h' : t.log = es' ++ (x ++ s.log)) :
      ∀ e ∈ es', e ∈ History.since (.wrote i) t.log := by
    intro e he
    rw [← List.append_assoc] at h'
    obtain rfl := List.append_cancel_right (hlog.symm.trans h')
    rw [hlog, History.since_append hnot]
    exact List.mem_append_left _ (List.mem_append_left _ he)
  have hfired : .fired ∈ keyReports es → t.Covered i := by
    intro hmem
    obtain ⟨a, rfl⟩ := hfire hmem
    exact .of_alarm (unkeyFailClosed_alarm _ _ _) fun es' h' _ =>
      hsince [.alarm a, .fired s.env.now] h'
  have hkept {u : State σ} {r : Run} {result : Reply} {x : List Event}
      (heq : t = u.returnRun cfg r result) (hu : u.log = x ++ s.log)
      (hx : ∀ e ∈ x, e.result = none) (hnone : outcome i s.log = none)
      (hexcused : Reply.excused result = true) : t.Covered i := by
    obtain ⟨es', hes', -⟩ := u.returnRun_log r result
    rw [← heq, hu] at hes'
    exact .of_returned hnots hes' hx hnone hexcused
  have hunkeyed {w : Wrote} (hwire : t.wire = s.wire ++ [w]) (hunkeys : w.writer.unkeys = true)
      (hcomplete : w.complete = true) : t.Covered i :=
    .unkeyed hi (by simp [hwire]) hunkeys hcomplete
  cases h with
  | armed harmed =>
    refine .of_keyed ht hlog (hsince [] hlog) (.inl ?_) hfired
    rw [← hs]
    exact Option.isSome_iff_ne_none.mp harmed
  | unkeyed hafter hw hunkeys hcomplete =>
    refine .unkeyed hafter ?_ hunkeys hcomplete
    rcases hmove.wire with heq | ⟨w', heq, -⟩ <;> rw [heq]
    · exact hw
    · rwa [List.getElem?_append_left (List.getElem?_eq_some_iff.mp hw).1]
  | cleared he hclears =>
    refine .cleared ?_ hclears
    rw [hlog, History.since_append hnot]
    exact List.mem_append_right _ he
  | excused hresult hexcused =>
    refine .excused ?_ hexcused
    rw [hlog]
    exact History.firstSince_append_of_some hnot hresult
  | unkeying hkeying =>
    cases hmove with
    | backedOff hphase => exact .unkeying rfl
    | unkeyLate hphase =>
      exact .of_alarm (unkeyAttempt_alarm _ _ _ _ _ _) fun es' h' _ =>
        hsince [.wrote s.wire.length] h'
    | unkeyFailed hphase =>
      obtain ⟨x, hx, -⟩ := linkDown_log (s.put .unkey _ _ false)
      refine .of_alarm (.inr (unkeyFinished_alarm _ _ _)) fun es' h' _ => ?_
      rw [hx] at h'
      exact hsince (x ++ [.wrote s.wire.length]) (by rw [h']; simp)
    | unkeyDone hphase hreply => exact hunkeyed (unkeyFinished_frame _ _ _ _).2.2.1 rfl rfl
    | unkeyWritten hphase hreply => exact hunkeyed rfl rfl rfl
    | preempted hwaits | lost why hwaits =>
      cases hphase : s.phase <;> simp_all [Phase.waitsFor, Phase.unkeying]
    | watchGone hidle | fire hidle | beat hidle | takeNormal hidle | hear n hidle | ended hidle
    | duePoll transmitting hidle => simp [hidle.phase, Phase.unkeying] at hkeying
    | start hphase | openSession hphase | takeEmergency hphase | stop hphase | linkChanged hphase
    | poll hphase | run hphase | lines result hphase | spaced hphase | drainWoken hphase
    | drainHeard n hphase | drained hphase | writeCut hphase | writeLate hphase
    | writeFailed why hphase | writeDone hphase | written hphase | awaitWoken hphase
    | undecided n hphase | decided n result hphase | replyTimedOut hphase
    | unkeyUndecided n hphase | unkeyAnswered n v hphase | unkeyRefused n e hphase
    | unkeyTimedOut hphase | sessionLate hphase | sessionFailed hphase | sessionDone hphase
    | sessionWritten hphase | sessionUndecided n hphase | sessionAnswered n result hphase
    | sessionTimedOut hphase => simp [hphase, Phase.unkeying] at hkeying
  | @awaited r q seq left limit watchdog hawaiting hlast htransmits hnone =>
    cases hmove with
    | @preempted r' s' hwaits hmay hs' =>
      obtain rfl : r = r' := by simpa [hawaiting, Phase.waitsFor] using hwaits
      have hsame : s'.log = [] ++ s.log := by rcases hs' with rfl | rfl <;> rfl
      exact hkept rfl hsame (by simp) hnone rfl
    | @lost r' why hwaits =>
      obtain rfl : r = r' := by simpa [hawaiting, Phase.waitsFor] using hwaits
      obtain ⟨x, hx, hxs⟩ := linkDown_log s
      exact hkept rfl hx (fun e he => (hxs e he).2) hnone rfl
    | awaitWoken hphase hs' =>
      obtain ⟨rfl, rfl, rfl, rfl, rfl, rfl⟩ := Phase.awaiting.inj (hawaiting.symm.trans hphase)
      rcases hs' with ⟨rfl, -⟩ | ⟨rfl, -⟩ <;> exact .awaited rfl hlast htransmits hnone
    | undecided n hphase hrx habsorb =>
      obtain ⟨rfl, rfl, rfl, rfl, rfl, rfl⟩ := Phase.awaiting.inj (hawaiting.symm.trans hphase)
      obtain ⟨x, hx, hxs⟩ := absorb_log habsorb
      refine .awaited rfl ?_ htransmits ?_
      · exact hlast.trans (by rw [← (absorb_heard habsorb).wire]; rfl)
      · refine (congrArg _ hx).trans (outcome_none_append (hnots x hx) (fun e he => ?_) hnone)
        rcases hxs e he with ⟨_, _, rfl⟩ | ⟨_, _, _, rfl⟩ <;> rfl
    | decided n result hphase hrx habsorb =>
      obtain ⟨rfl, rfl, rfl, rfl, rfl, rfl⟩ := Phase.awaiting.inj (hawaiting.symm.trans hphase)
      obtain ⟨x, hx, hxs⟩ := absorb_log habsorb
      have hquiet : ∀ e ∈ x, e.result = none := fun e he => by
        rcases hxs e he with ⟨_, _, rfl⟩ | ⟨_, _, _, rfl⟩ <;> rfl
      cases result with
      | error e =>
        refine hkept rfl hx hquiet hnone ?_
        simp [Reply.excused, absorb_rejected habsorb]
      | ok v =>
        obtain ⟨es', hes', -⟩ := returnRun_log (State.applySet _ r.op r.source) r (.ok v)
        rw [applySet_log, hx] at hes'
        obtain rfl := List.append_cancel_right (hlog.symm.trans (hes'.trans
          (List.append_assoc es' (_ :: _ :: x) s.log).symm))
        exact .of_keyed ht hlog (hsince [] hlog) (.inr ⟨_, mem_keyReports.mpr
          ⟨_, List.mem_append_right _ (.tail _ (.head _)), keyReports_applied htransmits _⟩⟩) hfired
    | replyTimedOut hphase hrx hlimit =>
      obtain ⟨rfl, rfl, rfl, rfl, rfl, rfl⟩ := Phase.awaiting.inj (hawaiting.symm.trans hphase)
      rcases replyTimedOut_cases cfg s r q seq left with ⟨left', rfl, -⟩ | ⟨-, heq⟩ | ⟨hnot', -⟩
      · cases honce r _ (congrArg Phase.attempting hawaiting) htransmits
      · rw [heq] at hsince ⊢
        exact .of_alarm (unkeyFailClosed_alarm s _ _) fun es' h' _ => hsince [] h'
      · simp [htransmits] at hnot'
    | watchGone hidle | fire hidle | beat hidle | takeNormal hidle | hear n hidle | ended hidle
    | duePoll transmitting hidle => cases hawaiting.symm.trans hidle.phase
    | start hphase | openSession hphase | takeEmergency hphase | stop hphase | linkChanged hphase
    | poll hphase | run hphase | lines result hphase | spaced hphase | drainWoken hphase
    | drainHeard n hphase | drained hphase | writeCut hphase | writeLate hphase
    | writeFailed why hphase | writeDone hphase | written hphase | backedOff hphase
    | unkeyLate hphase | unkeyFailed hphase | unkeyDone hphase | unkeyWritten hphase
    | unkeyUndecided n hphase | unkeyAnswered n v hphase | unkeyRefused n e hphase
    | unkeyTimedOut hphase | sessionLate hphase | sessionFailed hphase | sessionDone hphase
    | sessionWritten hphase | sessionUndecided n hphase | sessionAnswered n result hphase
    | sessionTimedOut hphase => cases hawaiting.symm.trans hphase

/-- A transmit command is covered as soon as it is on the wire. -/
theorem Covered.wrote (hmove : Move cfg s t) {w : Wrote} (hwire : t.wire = s.wire ++ [w])
    (ht : w.writer.transmits = true)
    (hstart : t.memory.keyedSince = watchStart (keyReports t.log)) :
    t.Covered s.wire.length := by
  have hsettling {es : List Event} (hes : ∀ e ∈ es, e.settling = true) :
      .wrote s.wire.length ∉ es ∧ .fired ∉ keyReports es := by
    refine ⟨fun hmem => Bool.false_ne_true (hes _ hmem), fun hfired => ?_⟩
    obtain ⟨e, he, hr⟩ := mem_keyReports.mp hfired
    obtain ⟨now, rfl⟩ := Event.eq_fired hr
    exact Bool.false_ne_true (hes _ he)
  have hsince (es : List Event) (h' : t.log = es ++ .wrote s.wire.length :: s.log)
      (hes : ∀ e ∈ es, e.settling = true) : ∀ e ∈ es, e ∈ History.since (.wrote s.wire.length) t.log := by
    rw [h', History.since_of_append_cons (hsettling hes).1]
    exact fun e he => he
  have hnone : outcome s.wire.length (.wrote s.wire.length :: s.log) = none := by
    simp [outcome]
  rcases hmove.wire with hsame | ⟨w', hwire', hw'⟩
  · simp [hsame] at hwire
  obtain rfl : w' = w := by simpa using hwire'.symm.trans hwire
  cases hw' with
  | unkey complete hphase hw | session seq complete hphase hw =>
    rw [hw] at ht
    cases ht
  | @run r q seq left complete hwriting hw =>
    have htransmits : r.op.transmits = true := by rwa [hw] at ht
    cases hmove with
    | writeCut hphase => exact .of_alarm (unkeyFailClosed_alarm _ _ _) hsince
    | writeLate hphase hnot =>
      obtain ⟨rfl, rfl, rfl, rfl⟩ := Phase.writing.inj (hwriting.symm.trans hphase)
      simp [htransmits] at hnot
    | @writeFailed r' q' seq' left' why hphase =>
      obtain ⟨x, hx, hxs⟩ := linkDown_log (s.put r'.writer seq' q' false)
      obtain ⟨es, hes, hess⟩ := returnRun_log (s.put r'.writer seq' q' false).linkDown
        r' (.error ⟨.linkDown, why⟩)
      rw [hx] at hes
      have hexcused : Reply.excused (.error ⟨.linkDown, why⟩) = true := rfl
      refine .excused ((congrArg _ hes).trans ?_) hexcused
      refine outcome_returned (fun hmem => ?_) (fun e he => (hxs e he).2) hnone
      rcases List.mem_append.mp hmem with hmem | hmem
      · exact Bool.false_ne_true (hess _ hmem).1
      · exact Bool.false_ne_true (hxs _ hmem).1
    | @writeDone r' q' seq' left' hphase hreply =>
      obtain ⟨rfl, rfl, rfl, rfl⟩ := Phase.writing.inj (hwriting.symm.trans hphase)
      obtain ⟨es, hes, hess⟩ := returnRun_log (((s.put r.writer seq q true).noteWritten
        q.reply seq cfg.engine.timeout s.wire.length).applySet r.op r.source) r (.ok none)
      have hall : ∀ e ∈ es ++ [.returned r.op (.ok none), .applied r.op s.env.now],
          e.settling = true := by
        intro e he
        rcases List.mem_append.mp he with he | he
        · exact (hess e he).1
        · rcases List.mem_cons.mp he with rfl | he
          · rfl
          · rw [List.mem_singleton.mp he]
            rfl
      have hlog := hes.trans (List.append_assoc es [_, _] (.wrote s.wire.length :: s.log)).symm
      refine .of_keyed hstart hlog (hsince _ hlog hall) (.inr ⟨_, mem_keyReports.mpr
        ⟨_, List.mem_append_right _ (.tail _ (.head _)), keyReports_applied htransmits _⟩⟩) ?_
      exact fun hfired => absurd hfired (hsettling hall).2
    | written hphase hreply hs' =>
      subst hs'
      obtain ⟨rfl, rfl, rfl, rfl⟩ := Phase.writing.inj (hwriting.symm.trans hphase)
      exact .awaited rfl (by simp) htransmits hnone
    | preempted hwaits | lost why hwaits => simp [hwriting, Phase.waitsFor] at hwaits
    | watchGone hidle | fire hidle | beat hidle | takeNormal hidle | hear n hidle | ended hidle
    | duePoll transmitting hidle => cases hwriting.symm.trans hidle.phase
    | start hphase | openSession hphase | takeEmergency hphase | stop hphase | linkChanged hphase
    | poll hphase | run hphase | lines result hphase | spaced hphase | drainWoken hphase
    | drainHeard n hphase | drained hphase | awaitWoken hphase | undecided n hphase
    | decided n result hphase | replyTimedOut hphase | backedOff hphase | unkeyLate hphase
    | unkeyFailed hphase | unkeyDone hphase | unkeyWritten hphase | unkeyUndecided n hphase
    | unkeyAnswered n v hphase | unkeyRefused n e hphase | unkeyTimedOut hphase
    | sessionLate hphase | sessionFailed hphase | sessionDone hphase | sessionWritten hphase
    | sessionUndecided n hphase | sessionAnswered n result hphase | sessionTimedOut hphase =>
      cases hwriting.symm.trans hphase

/-- A step beside the actor neither writes nor tells anything about the key. -/
theorem Covered.beside (h : s.Covered i) {a : Act} (hbeside : Beside cfg s a t) : t.Covered i := by
  have haside := hbeside.aside
  obtain ⟨es, hlog, hes⟩ := haside.log
  have hnot : .wrote i ∉ es := fun hmem => Bool.false_ne_true (hes _ hmem)
  have hquiet : ∀ e ∈ es, e.result = none := by
    intro e he
    have hside := hes e he
    cases e <;> first | rfl | cases hside
  cases h with
  | armed h => exact .armed (by rwa [haside.memory])
  | unkeyed hafter hw hunkeys hcomplete =>
    exact .unkeyed hafter (by rwa [haside.wire]) hunkeys hcomplete
  | awaited hphase hlast htransmits hnone =>
    refine .awaited (haside.phase.trans hphase) (by rwa [haside.wire]) htransmits ?_
    rw [hlog]
    exact outcome_none_append hnot hquiet hnone
  | unkeying h => exact .unkeying (by rwa [haside.phase])
  | cleared he hclears =>
    refine .cleared ?_ hclears
    rw [hlog, History.since_append hnot]
    exact List.mem_append_right _ he
  | excused h hexcused =>
    refine .excused ?_ hexcused
    rw [hlog]
    exact History.firstSince_append_of_some hnot h

end State

/-- Every transmit command on the wire is covered, in every state after it was handed over. -/
theorem transmit_covered {σ : Type} {cfg : Setup σ} {s : State σ} (h : (machine cfg).Reachable s)
    {i : Nat} {w : Wrote} (hw : s.wire[i]? = some w) (ht : w.writer.transmits = true) :
    s.Covered i := by
  have hinvariant : ∀ i w, s.wire[i]? = some w → w.writer.transmits = true → s.Covered i := by
    refine h.invariant_with (K := fun s => (machine cfg).Reachable s)
      (I := fun s => ∀ i w, s.wire[i]? = some w → w.writer.transmits = true → s.Covered i)
      (fun hs => hs) (fun s hs i w hw => ?_) fun s a t hs hcovered _ hstep i w hw ht => ?_
    · simp [(State.Initial.start hs).2.1] at hw
    · have hstart := (watches_keyReports (hs.step trivial hstep)).start
      rcases State.step_cases hstep with ⟨-, -, hmove⟩ | hbeside
      · rcases hmove.wire with heq | ⟨w', heq, -⟩
        · rw [heq] at hw
          exact (hcovered i w hw ht).move (List.getElem?_eq_some_iff.mp hw).1 hmove
            (watches_keyReports hs).start hstart (Reachable.once hs)
        · rw [heq] at hw
          rcases Nat.lt_or_ge i s.wire.length with hlt | hge
          · rw [List.getElem?_append_left hlt] at hw
            exact (hcovered i w hw ht).move hlt hmove (watches_keyReports hs).start hstart
              (Reachable.once hs)
          · rw [List.getElem?_append_right hge, List.getElem?_singleton] at hw
            split at hw
            · obtain rfl := Option.some.inj hw
              obtain rfl : i = s.wire.length := by omega
              exact .wrote hmove heq ht hstart
            · cases hw
      · rw [hbeside.aside.wire] at hw
        exact (hcovered i w hw ht).beside hbeside
  exact hinvariant i w hw ht

/-! #### Keys without a running watchdog

The rig is keyed. Its reply is waited for; or it was keyed, and then reports that it is not; or the
link goes before the reply; or the reply does not come, and the unkey cannot be written. -/

/-- A rig that reports its frequency, an ack, and that it is not keyed. -/
def keyBench : Engine Unit :=
  benchEngine [.readFrequency, .setPtt] 100 0 0 (fun _ => .ack)
    [.observation (.frequency .a 14000000), .ack, .observation (.ptt false)]

/-- The rig is keyed, and its reply is waited for. -/
def keyWritten : List Act :=
  [.go, .go, .deliver ⟨[0], none⟩, .go, .openGate, .submit (.setPtt true) 1000 .api, .call 0, .go,
    .go, .go]

/-- A transmit command at the head of the wire with no watchdog and no unkey behind it, which has
returned as told. -/
def Unguarded (returned : Option Reply) (s : State Unit) : Prop :=
  (s.wire.head?.any fun w => w.writer.transmits && w.complete) = true ∧
    s.memory.keyedSince = none ∧ (∀ w ∈ s.wire, (w.writer.unkeys && w.complete) = false) ∧
    outcome 0 s.log = returned

instance (returned : Option Reply) : DecidablePred (Unguarded returned) := fun _ =>
  inferInstanceAs (Decidable (_ ∧ _ ∧ _ ∧ _))

theorem transmit_unguarded :
    (∃ s, (machine (bench keyBench)).Reachable s ∧ Unguarded none s) ∧
    (∃ s, (machine (bench keyBench)).Reachable s ∧ Unguarded (some (.ok none)) s) ∧
    (∃ s, (machine (bench keyBench)).Reachable s ∧
      Unguarded (some (.error ⟨.linkDown, "gone"⟩)) s) ∧
    ∃ s, (machine (bench keyBench)).Reachable s ∧
      Unguarded (some (.error ⟨.timeout, "no reply from the rig"⟩)) s := by
  have hstart := benchStart_reachable keyBench
  refine ⟨?_, ?_, ?_, ?_⟩
  · exact hstart.exists_of_run keyWritten (by decide)
  · exact hstart.exists_of_run
      (keyWritten ++ [.deliver ⟨[1], some 0⟩, .go, .deliver ⟨[2], none⟩, .go]) (by decide)
  · exact hstart.exists_of_run (keyWritten ++ [.streamEnded "gone", .go]) (by decide)
  · exact hstart.exists_of_run
      (keyWritten ++ [.tick 100, .go, .actor ⟨0, .failed "gone", .ok ()⟩]) (by decide)

theorem transmit_covered_keyed :
    ∃ s, (machine (bench keyBench)).Reachable s ∧
      ∃ w, s.wire[0]? = some w ∧ w.writer.transmits = true ∧ s.Covered 0 := by
  obtain ⟨s, hs, hsent⟩ := (benchStart_reachable keyBench).exists_of_run
    (P := fun s => (s.wire[0]?.any (·.writer.transmits)) = true)
    (keyWritten ++ [.deliver ⟨[1], some 0⟩, .go]) (by decide)
  obtain ⟨w, hw, ht⟩ := (Option.any_eq_true _ _).mp hsent
  exact ⟨s, hs, w, hw, ht, transmit_covered hs hw ht⟩

end HamsOpen.Rig
