import HamsOpen.StationIo.Phases
import Mathlib.Logic.Relation

/-!
# What happens under a valid map

As long as no new map is begun, an input under a valid map is a chain of operations: each goes on
with one channel, or changes only what the engine notes, or is the clock. So an invariant of a valid
map is shown operation by operation.
-/

namespace HamsOpen.StationIo

/-- What is asked of the key-downs and of the releases. -/
structure Rules where
  down : Engine → Ch → Prop
  release : Release → Prop

/-- Nothing is asked. -/
def Rules.any : Rules := ⟨fun _ _ => True, fun _ => True⟩

namespace Engine

variable {s t u : Engine} {c d : Ch} {R : Rules}

/-- The engine notes something beside its channels. -/
def Notes (s t : Engine) : Prop :=
  t = { s with
    mapError := t.mapError
    refusal := t.refusal
    alive := t.alive
    haveSeq := t.haveSeq
    oos := t.oos
    lastSeq := t.lastSeq
    hbT := t.hbT
    lastGood := t.lastGood }

/-- An operation under a valid map, as far as the rules allow it. -/
inductive Op (R : Rules) (s : Engine) : Engine → Prop
  | notes {t : Engine} : Notes s t → Op R s t
  | clock : Op R s { s with ms := s.ms + 1 }
  | serveOff (c : Ch) : (s.map c).isPrimary = true → Op R s (s.serveOff c)
  | lineOn (c : Ch) : (s.map c).isPrimary = true → (s.ch c).st = .lead →
      (s.map c).lead.toNat ≤ Wrap.elapsed s.now16 (s.ch c).tPhase → Op R s (s.lineOn c)
  | keylineOff (c : Ch) : (s.map c).isPrimary = true → (s.ch c).st = .lag →
      (s.map c).lag.toNat ≤ Wrap.elapsed s.now16 (s.ch c).tPhase → Op R s (s.keylineOff c)
  | releaseChannel (c : Ch) (reason : Release) : (s.map c).isPrimary = true →
      (reason = .timeout → (s.ch c).keyed = true) → R.release reason →
      Op R s (s.releaseChannel reason c)
  | keyUp (c : Ch) : (s.map c).isPrimary = true → Op R s (s.keyUp c)
  | keyDown (c : Ch) : (s.map c).isPrimary = true → s.alive = true → (s.ch c).st = .idle →
      ¬ ((s.ch c).offValid = true ∧
        Wrap.elapsed s.now16 (s.ch c).tOff < (s.map c).minOff.toNat) →
      R.down s c → Op R s (s.keyDown c)

/-- A chain of operations. -/
abbrev Steps (R : Rules) : Engine → Engine → Prop := Relation.ReflTransGen (Op R)

/-! ### The phases are kept -/

/-- The engine runs on after an operation on a channel, when that channel is in its phase. -/
theorem Running.confined (h : Confined c s t) (hs : s.Running) (hc : (s.map c).isPrimary = true)
    (hp : t.Phase c) : t.Running where
  wired := h.map ▸ hs.wired
  linked := h.linked hs.linked
  traced := h.traced hs.traced
  phase d := by
    by_cases hd : d = c
    · exact hd ▸ hp
    · exact Phase.confined h hs hc hd

/-- Nothing that the phases depend on has changed. -/
theorem Running.notes (h : Notes s t) (hs : s.Running) : t.Running := by
  rw [h]
  exact ⟨hs.wired, hs.linked, hs.traced, fun c =>
    ⟨(hs.phase c).idle, (hs.phase c).line, (hs.phase c).keyline, (hs.phase c).past,
      (hs.phase c).mark, (hs.phase c).phase, (hs.phase c).led, (hs.phase c).held⟩⟩

theorem Running.clock (hs : s.Running) : { s with ms := s.ms + 1 }.Running :=
  ⟨hs.wired, hs.linked, hs.traced, fun c =>
    ⟨(hs.phase c).idle, (hs.phase c).line, (hs.phase c).keyline,
      Nat.le_succ_of_le (hs.phase c).past, (hs.phase c).mark, (hs.phase c).phase,
      fun hon => Nat.le_succ_of_le ((hs.phase c).led hon), (hs.phase c).held⟩⟩

theorem phase_serveOff (h : s.Phase c) : (s.serveOff c).Phase c := by
  unfold serveOff
  split
  · have hconf : Confined c s (s.setCh c fun ch => { ch with offValid := false }) :=
      confined_setCh rfl rfl
    have hself : (s.setCh c fun ch => { ch with offValid := false }).ch c =
        { s.ch c with offValid := false } := setCh_self _
    refine ⟨?_, ?_, ?_, h.past, ?_, ?_, ?_, ?_⟩
    · rw [hconf.map, hself]
      exact h.idle
    · rw [hconf.map, hself]
      exact h.line
    · intro k hk
      rw [hconf.map] at hk ⊢
      rw [hself]
      by_cases hkc : k = c
      · subst hkc
        rw [hself]
        exact h.keyline k hk
      · rw [setCh_ch, Function.update_of_ne hkc]
        exact h.keyline k hk
    · rw [hself]
      exact h.mark
    · rw [hself]
      exact h.phase
    · rw [hself, hconf.map]
      exact h.led
    · rw [hself, hconf.map]
      exact h.held
  · exact h

/-- The line of a channel that leads goes on when its lead time has passed. -/
theorem Phase.lineOn (hs : s.Running) (hc : (s.map c).isPrimary = true)
    (hlead : (s.ch c).st = .lead)
    (htime : (s.map c).lead.toNat ≤ Wrap.elapsed s.now16 (s.ch c).tPhase) :
    (s.lineOn c).Phase c := by
  have hp : s.Phase c := hs.phase c
  have hkeyed : (s.ch c).keyed = true := by
    rw [Chan.keyed, hlead]
    rfl
  have hled : s.raised c + (s.map c).lead.toNat ≤ s.ms := by
    rw [now16, hp.phase hlead] at htime
    have hle := Wrap.elapsed_le (w := 16) hp.past
    have hpast := hp.past
    omega
  refine phase_lineOn hc hs.linked (hp.mark hkeyed) hled fun k hk => ?_
  have hlevel := hp.keyline k hk
  rw [hlead] at hlevel
  exact ⟨hs.wired.keyline_ne hk, hlevel, hp.held hkeyed k hk⟩

/-- A keyline that lags goes off. -/
theorem Phase.keylineOff (hs : s.Running) (hlag : (s.ch c).st = .lag) :
    (s.keylineOff c).Phase c := by
  refine phase_keylineOff hs.wired (hs.phase c).past fun hc => ?_
  have hline := (hs.phase c).line hc
  rw [hlag] at hline
  exact hline

/-- An operation keeps the phases. -/
theorem running_op (hs : s.Running) (h : Op R s t) : t.Running := by
  cases h with
  | notes h => exact hs.notes h
  | clock => exact hs.clock
  | serveOff c hc => exact hs.confined confined_serveOff hc (phase_serveOff (hs.phase c))
  | lineOn c hc hlead htime => exact hs.confined confined_lineOn hc (.lineOn hs hc hlead htime)
  | keylineOff c hc hlag _ =>
    exact hs.confined (confined_keylineOff (hs.wired.sequences c)) hc (.keylineOff hs hlag)
  | releaseChannel c reason hc =>
    exact hs.confined (confined_releaseChannel (hs.wired.sequences c) reason) hc
      (phase_releaseChannel hs.wired (hs.phase c).past reason)
  | keyUp c hc =>
    exact hs.confined (confined_keyUp (hs.wired.sequences c)) hc (phase_keyUp hs hc)
  | keyDown c hc _ hidle _ _ =>
    exact hs.confined (confined_keyDown (hs.wired.sequences c)) hc (phase_keyDown hs hc hidle)

/-- An operation is confined to a channel, changes only what the engine notes, or is the clock. -/
theorem Op.confined (hs : s.Running) (h : Op R s t) : Notes s t ∨ t = { s with ms := s.ms + 1 } ∨
    ∃ c, (s.map c).isPrimary = true ∧ Confined c s t := by
  cases h with
  | notes h => exact .inl h
  | clock => exact .inr (.inl rfl)
  | serveOff c hc => exact .inr (.inr ⟨c, hc, confined_serveOff⟩)
  | lineOn c hc => exact .inr (.inr ⟨c, hc, confined_lineOn⟩)
  | keylineOff c hc =>
    exact .inr (.inr ⟨c, hc, confined_keylineOff (hs.wired.sequences c)⟩)
  | releaseChannel c reason hc =>
    exact .inr (.inr ⟨c, hc, confined_releaseChannel (hs.wired.sequences c) reason⟩)
  | keyUp c hc => exact .inr (.inr ⟨c, hc, confined_keyUp (hs.wired.sequences c)⟩)
  | keyDown c hc => exact .inr (.inr ⟨c, hc, confined_keyDown (hs.wired.sequences c)⟩)

/-- What an operation leaves as it is. -/
structure Frame (s t : Engine) : Prop where
  map : t.map = s.map
  mapState : t.mapState = s.mapState
  hbTimeout : t.hbTimeout = s.hbTimeout
  settled : t.settled = s.settled
  ports : t.OEB = s.OEB ∧ t.OED = s.OED
  ms : s.ms ≤ t.ms

theorem op_frame (hs : s.Running) (h : Op R s t) : Frame s t := by
  rcases h.confined hs with h | rfl | ⟨c, -, h⟩
  · rw [h]
    exact ⟨rfl, rfl, rfl, rfl, ⟨rfl, rfl⟩, Nat.le_refl _⟩
  · exact ⟨rfl, rfl, rfl, rfl, ⟨rfl, rfl⟩, Nat.le_succ _⟩
  · exact ⟨h.map, h.mapState, h.hbTimeout, h.settled, h.ports, Nat.le_of_eq h.ms.symm⟩

/-- What every operation keeps, a chain of them keeps. -/
theorem Steps.kept {P : Engine → Prop} (hP : ∀ s t, s.Running → P s → Op R s t → P t)
    (h : Steps R s t) (hs : s.Running) (hp : P s) : t.Running ∧ P t := by
  induction h with
  | refl => exact ⟨hs, hp⟩
  | tail _ hop ih => exact ⟨running_op ih.1 hop, hP _ _ ih.1 ih.2 hop⟩

theorem Frame.trans (h : Frame s t) (h' : Frame t u) : Frame s u :=
  ⟨h'.map.trans h.map, h'.mapState.trans h.mapState, h'.hbTimeout.trans h.hbTimeout,
    h'.settled.trans h.settled, ⟨h'.ports.1.trans h.ports.1, h'.ports.2.trans h.ports.2⟩,
    Nat.le_trans h.ms h'.ms⟩

/-- The engine runs on after a chain of operations. -/
theorem Steps.frame (h : Steps R s t) (hs : s.Running) : t.Running ∧ Frame s t :=
  h.kept (fun _ _ hu hframe hop => hframe.trans (op_frame hu hop)) hs
    ⟨rfl, rfl, rfl, rfl, ⟨rfl, rfl⟩, Nat.le_refl _⟩

/-! ### An input is a chain of operations -/

theorem steps_notes (h : Notes s t) : Steps R s t := .single (.notes h)

theorem steps_ioReleaseAll {reason : Release} (hne : reason ≠ .timeout) (hR : R.release reason) :
    Steps R s (s.ioReleaseAll reason) := by
  refine forCh_kept (P := fun t => Steps R s t) (fun c t ht => ?_) .refl
  split
  next hc =>
    exact ht.tail (.releaseChannel c reason (Bool.and_eq_true_iff.mp hc).1
      (fun heq => absurd heq hne) hR)
  next => exact ht

section Clock

variable (hR : R.release .timeout)

include hR

theorem steps_checkTimeout (hc : (s.map c).isPrimary = true) (hkeyed : (s.ch c).keyed = true) :
    Steps R s (s.checkTimeout c) := by
  unfold checkTimeout
  split
  · exact .single (.releaseChannel c .timeout hc (fun _ => hkeyed) hR)
  · exact .refl

theorem steps_advance (hc : (s.map c).isPrimary = true) : Steps R s (s.advance c) := by
  unfold advance
  split
  next hlead =>
    split
    next htime =>
      have hconf : Confined c s (s.lineOn c) := confined_lineOn
      have hc' : ((s.lineOn c).map c).isPrimary = true := by rwa [hconf.map]
      have hkeyed : ((s.lineOn c).ch c).keyed = true := by
        rw [lineOn, setCh_self]
        rfl
      exact (Relation.ReflTransGen.single (.lineOn c hc hlead htime)).trans
        (steps_checkTimeout hR hc' hkeyed)
    next =>
      refine steps_checkTimeout hR hc ?_
      rw [Chan.keyed, hlead]
      rfl
  next hon =>
    refine steps_checkTimeout hR hc ?_
    rw [Chan.keyed, hon]
    rfl
  next hlag =>
    split
    next htime => exact .single (.keylineOff c hc hlag htime)
    next => exact .refl
  next => exact .refl

theorem steps_tickChan (c : Ch) : Steps R s (s.tickChan c) := by
  unfold tickChan
  split
  next hc =>
    have hserve : Confined c s (s.serveOff c) := confined_serveOff
    have hc' : ((s.serveOff c).map c).isPrimary = true := by rwa [hserve.map]
    exact (Relation.ReflTransGen.single (.serveOff c hc)).trans (steps_advance hR hc')
  next => exact .refl

theorem steps_appTick (hs : s.Running) (hlapse : s.Lapses → R.release .hbLapse) :
    Steps R s s.appTick := by
  have hclock : Steps R s { s with ms := s.ms + 1 } := .single .clock
  unfold appTick ioTick
  split
  · exact hclock
  let late := { s with ms := s.ms + 1 }
  -- the turns of the channels leave the heartbeat as it is
  have hturns : Steps R late (late.forCh tickChan) ∧ (late.forCh tickChan).Running ∧
      (late.forCh tickChan).alive = s.alive ∧ (late.forCh tickChan).hbTimeout = s.hbTimeout ∧
      (late.forCh tickChan).hbT = s.hbT ∧ (late.forCh tickChan).ms = s.ms + 1 := by
    refine forCh_kept (P := fun t => Steps R late t ∧ t.Running ∧ t.alive = s.alive ∧
      t.hbTimeout = s.hbTimeout ∧ t.hbT = s.hbT ∧ t.ms = s.ms + 1) ?_
      ⟨.refl, hs.clock, rfl, rfl, rfl, rfl⟩
    rintro c t ⟨hsteps, hrun, halive, hhbTimeout, hhbT, hms⟩
    have hconf : Confined c t (t.tickChan c) := confined_tickChan (hrun.wired.sequences c)
    have hchan : Steps R t (t.tickChan c) := steps_tickChan hR c
    exact ⟨hsteps.trans hchan, (hchan.frame hrun).1, hconf.alive.trans halive,
      hconf.hbTimeout.trans hhbTimeout, hconf.hbT.trans hhbT, hconf.ms.trans hms⟩
  obtain ⟨hsteps, -, halive, hhbTimeout, hhbT, hms⟩ := hturns
  refine (hclock.trans hsteps).trans ?_
  unfold checkLapse
  split
  next hdue =>
    refine (steps_notes ?_).trans (steps_ioReleaseAll nofun (hlapse ?_))
    · rfl
    · rw [halive, hhbTimeout, hhbT, now16, hms] at hdue
      exact hdue
  next => exact .refl

end Clock

theorem steps_ioHeartbeat (seq : U16) (commanded : U8)
    (hR : ∀ reason, s.hbReason seq commanded = some reason → R.release reason) :
    Steps R s (s.ioHeartbeat seq commanded) := by
  unfold ioHeartbeat
  split
  · exact .refl
  · dsimp only
    split
    · exact steps_notes rfl
    next reason hreason =>
      have hne : reason ≠ .timeout := by
        rintro rfl
        unfold hbReason at hreason
        split at hreason
        · cases hreason
        · split at hreason <;> cases hreason
      refine (steps_notes ?_).trans (steps_ioReleaseAll hne (hR reason hreason))
      rfl

theorem steps_ioKey (pin down : U8)
    (hR : ∀ c, boardPinChannel pin = some c → down ≠ 0 → R.down s c) :
    Steps R s (s.ioKey pin down).2 := by
  have hrefuse (why : Refusal) : Steps R s (s.refuse why).2 := steps_notes rfl
  unfold ioKey
  split
  · exact hrefuse _
  split
  · exact hrefuse _
  next c hpin =>
  split
  · exact hrefuse _
  next hc =>
  have hc : (s.map c).isPrimary = true := by
    rw [map]
    simpa using hc
  split
  · exact .single (.keyUp c hc)
  next hdown =>
  split
  · exact .refl
  next hkeyed =>
  split
  · exact hrefuse _
  next halive =>
  split
  · exact hrefuse _
  next hlag =>
  split
  · exact hrefuse _
  next hoff =>
    have halive : s.alive = true := by simpa using halive
    have hidle : (s.ch c).st = .idle := by
      cases hst : (s.ch c).st with
      | idle => rfl
      | lead => simp [Chan.keyed, hst] at hkeyed
      | on => simp [Chan.keyed, hst] at hkeyed
      | lag => exact absurd hst hlag
    exact .single (.keyDown c hc halive hidle hoff (hR c hpin hdown))

/-- An input under a valid map is a chain of operations, unless a new map is begun. -/
theorem steps_next (hs : s.Running) (hvalid : s.mapState = .valid) {i : Input} (hi : ¬ i.begins)
    (hdown : ∀ c, i.downs c → R.down s c) (hfault : ∀ reason, i.faults s reason → R.release reason) :
    Steps R s (next s i) := by
  have hfail (e : MapError) : Steps R s (s.fail e).2 := steps_notes rfl
  have hnot : s.mapState ≠ .loading := by
    rw [hvalid]
    decide
  cases i with
  | usbReset => exact steps_ioReleaseAll nofun (hfault _ rfl)
  | usbSuspend => exact steps_ioReleaseAll nofun (hfault _ rfl)
  | tick => exact steps_appTick (hfault _ (.inl rfl)) hs fun h => hfault _ (.inr ⟨rfl, h⟩)
  | request bm req value index =>
    simp only [next, appVendorRequest]
    split
    next hmap =>
      split
      next hreq => exact absurd ⟨hmap.1, hreq⟩ hi
      split
      · rw [ioMapPin, if_pos hnot]
        exact hfail _
      split
      · rw [ioMapParam, if_pos hnot]
        exact hfail _
      split
      · rw [ioMapHeartbeat, if_pos hnot]
        exact hfail _
      split
      · rw [ioMapCommit, if_pos hnot]
        exact hfail _
      next h0 h1 h2 h3 h4 =>
        refine steps_ioKey _ _ fun c hpin hkey => hdown c ⟨hmap.1, ?_, hpin, hkey⟩
        obtain ⟨-, hlow, hhigh⟩ := hmap
        bv_omega
    split
    next hbeat => exact steps_ioHeartbeat _ _ fun reason h => hfault reason ⟨hbeat.1, hbeat.2, h⟩
    split
    next hgpio => exact absurd hvalid hgpio.2.2
    · exact .refl

end Engine

end HamsOpen.StationIo
