import HamsOpen.StationIo.Runs
import Mathlib

/-!
# The dead-man of the board

A channel is keyed only while heartbeats come, and a ptt line is on no longer than its maximum
on-time, because the clock looks at every channel each millisecond, before its times can wrap.
-/

namespace HamsOpen.StationIo

namespace Engine

variable {s t : Engine} {c d : Ch} {n : Nat} {i : Input}

/-- The times of a channel have not run out, or less than some milliseconds ago. -/
structure Within (n : Nat) (s : Engine) (c : Ch) : Prop where
  onTime : (s.ch c).keyed = true → (s.map c).func = .ptt →
    s.ms < s.raised c + (s.map c).maxOn.toNat + n
  lead : (s.ch c).st = .lead → s.ms < s.raised c + (s.map c).lead.toNat + n

/-- The keyed channels are armed, and within their times. -/
structure Live (s : Engine) : Prop where
  armed : ∀ c, (s.ch c).keyed = true → s.alive = true
  heartbeat : s.alive = true → s.hbT = BitVec.ofNat 16 s.lastGood ∧ s.lastGood ≤ s.ms ∧
    s.ms < s.lastGood + s.hbTimeout.toNat
  within : ∀ c, s.Within 0 c

theorem Within.of_not_keyed (h : (s.ch c).keyed = false) : s.Within n c where
  onTime hkeyed := by
    rw [h] at hkeyed
    cases hkeyed
  lead hlead := by
    rw [Chan.keyed, hlead] at h
    cases h

theorem keyed_of_idle (h : (s.ch c).st = .idle) : (s.ch c).keyed = false := by
  rw [Chan.keyed, h]
  rfl

/-- Another channel's times go on. -/
theorem Within.confined (h : Confined c s t) (hd : d ≠ c) (hs : s.Within n d) : t.Within n d := by
  have hlevel := h.level d hd
  have hst : (t.ch d).st = (s.ch d).st := by rw [hlevel]
  constructor
  · rw [Chan.keyed, hst, h.map, h.ms, h.raised d hd]
    exact hs.onTime
  · rw [hst, h.map, h.ms, h.raised d hd]
    exact hs.lead

/-- The engine is live after an operation on a channel, when that channel is. -/
theorem Live.confined (h : Confined c s t) (hs : s.Live)
    (hc : (t.ch c).keyed = true → t.alive = true ∧ t.Within 0 c) : t.Live where
  armed d hkeyed := by
    by_cases hd : d = c
    · subst hd
      exact (hc hkeyed).1
    · have hst : (t.ch d).keyed = (s.ch d).keyed := by rw [h.level d hd, Chan.keyed, Chan.keyed]
      rw [hst] at hkeyed
      rw [h.alive]
      exact hs.armed d hkeyed
  heartbeat := by
    rw [h.alive, h.hbT, h.lastGood, h.ms, h.hbTimeout]
    exact hs.heartbeat
  within d := by
    by_cases hd : d = c
    · subst hd
      by_cases hkeyed : (t.ch d).keyed = true
      · exact (hc hkeyed).2
      · exact .of_not_keyed (Bool.eq_false_iff.mpr hkeyed)
    · exact (hs.within d).confined h hd

/-! ### Everything is released -/

/-- What the release of every channel leaves as it is. -/
structure Released (s t : Engine) : Prop where
  running : t.Running
  frame : t.alive = s.alive ∧ t.hbT = s.hbT ∧ t.lastGood = s.lastGood ∧ t.ms = s.ms ∧
    t.hbTimeout = s.hbTimeout

theorem Released.trans (h : Released s t) (hc : (t.map c).isPrimary = true) (reason : Release) :
    Released s (t.releaseChannel reason c) := by
  have hconf := confined_releaseChannel (h.running.wired.sequences c) reason
  exact ⟨h.running.confined hconf hc (phase_releaseChannel h.running.wired (h.running.phase c).past _),
    hconf.alive.trans h.frame.1, hconf.hbT.trans h.frame.2.1, hconf.lastGood.trans h.frame.2.2.1,
    hconf.ms.trans h.frame.2.2.2.1, hconf.hbTimeout.trans h.frame.2.2.2.2⟩

theorem released_ioReleaseAll (hs : s.Running) (reason : Release) :
    Released s (s.ioReleaseAll reason) := by
  refine forCh_kept (P := fun t => Released s t) (fun c t ht => ?_) ⟨hs, rfl, rfl, rfl, rfl, rfl⟩
  split
  next hc => exact ht.trans (Bool.and_eq_true_iff.mp hc).1 reason
  next => exact ht

/-- Every channel is idle then. -/
theorem idle_ioReleaseAll (hs : s.Running) (reason : Release) (c : Ch) :
    ((s.ioReleaseAll reason).ch c).st = .idle := by
  refine forCh_each (P := fun t => Released s t) (Q := fun c t => (t.ch c).st = .idle)
    (fun c t ht => ?_) (fun c t ht => ?_) (fun c d t hd ht hQ => ?_)
    ⟨hs, rfl, rfl, rfl, rfl, rfl⟩ c
  · split
    next hc => exact ht.trans (Bool.and_eq_true_iff.mp hc).1 reason
    next => exact ht
  · split
    · rw [releaseChannel_self ht.running.wired]
    next hnot =>
      by_cases hc : (t.map c).isPrimary = true
      · by_contra hst
        exact hnot (by rw [Bool.and_eq_true_iff, bne_iff_ne]; exact ⟨hc, hst⟩)
      · exact (ht.running.phase c).idle (Bool.eq_false_iff.mpr hc)
  · split
    · have hconf := confined_releaseChannel (ht.running.wired.sequences c) reason
      rw [hconf.level d hd]
      exact hQ
    · exact hQ

theorem live_ioReleaseAll (hs : s.Running) (reason : Release)
    (hbeat : s.alive = true → s.hbT = BitVec.ofNat 16 s.lastGood ∧ s.lastGood ≤ s.ms ∧
      s.ms < s.lastGood + s.hbTimeout.toNat) : (s.ioReleaseAll reason).Live := by
  have hkeyed (c : Ch) : ((s.ioReleaseAll reason).ch c).keyed = false :=
    keyed_of_idle (idle_ioReleaseAll hs reason c)
  obtain ⟨halive, hhbT, hlastGood, hms, hhbTimeout⟩ := (released_ioReleaseAll hs reason).frame
  refine ⟨fun c hc => ?_, ?_, fun c => .of_not_keyed (hkeyed c)⟩
  · rw [hkeyed c] at hc
    cases hc
  · rw [halive, hhbT, hlastGood, hms, hhbTimeout]
    exact hbeat

/-! ### Keying -/

theorem keyUp_keyed (hw : Wired s.map) : ((s.keyUp c).ch c).keyed = false := by
  unfold keyUp
  split
  · dsimp only
    split
    · rw [setCh_self]
      rfl
    · refine keyed_of_idle ?_
      have hoff : (((s.pinSafe c).stampOff c).logRelease .host c).map = s.map :=
        ((confined_self.trans confined_stampOff).trans (confined_logRelease .host)).map
      rw [keylineOff_self fun k hk => hw.keyline_ne (hoff ▸ hk)]
  next hnot => exact Bool.eq_false_iff.mpr hnot

/-- A key-down is marked with its time, and leads only for a lead time. -/
theorem keyDown_self : (s.keyDown c).raised c = s.ms ∧
    (((s.keyDown c).ch c).st = .lead → (s.map c).lead ≠ 0) := by
  have hmark : Confined c s (s.markKey c) := confined_markKey
  have hraised : (s.markKey c).raised c = s.ms := Function.update_self ..
  have hon (t : Engine) : ((t.lineOn c).ch c).st = .lead → (s.map c).lead ≠ 0 := by
    rw [lineOn, setCh_self]
    intros; contradiction
  unfold keyDown
  dsimp only
  split
  next k _ =>
    have hled : ((s.markKey c).pinActive k true).raised c = s.ms :=
      (congrFun pinLevel_raised c).trans hraised
    have hmap : ((s.markKey c).pinActive k true).map = s.map := pinLevel_map.trans hmark.map
    split
    next hlead =>
      rw [← hmap]
      exact ⟨hled, fun _ => hlead⟩
    next => exact ⟨(congrFun pinLevel_raised c).trans hled, hon _⟩
  next => exact ⟨(congrFun pinLevel_raised c).trans hraised, hon _⟩

theorem live_ioKey (hs : s.Running) (hl : s.Live) (pin down : U8) : (s.ioKey pin down).2.Live := by
  have hrefuse (why : Refusal) : (s.refuse why).2.Live :=
    ⟨hl.armed, hl.heartbeat, fun c => ⟨(hl.within c).onTime, (hl.within c).lead⟩⟩
  have hpos (x : U16) (hx : x ≠ 0) : 0 < x.toNat := by bv_omega
  unfold ioKey
  split
  · exact hrefuse _
  split
  · exact hrefuse _
  next c _ =>
  split
  · exact hrefuse _
  split
  · refine hl.confined (confined_keyUp (hs.wired.sequences c)) fun hkeyed => ?_
    rw [keyUp_keyed hs.wired] at hkeyed
    cases hkeyed
  split
  · exact hl
  split
  · exact hrefuse _
  next halive =>
  split
  · exact hrefuse _
  split
  · exact hrefuse _
  · have hconf := confined_keyDown (hs.wired.sequences c)
    obtain ⟨hraised, hlead⟩ := keyDown_self (s := s) (c := c)
    refine hl.confined hconf fun _ => ⟨?_, fun _ hptt => ?_, fun hled => ?_⟩
    · rw [hconf.alive]
      simpa using halive
    · rw [hconf.map] at hptt ⊢
      have hmax := hpos _ (hs.wired.maxOn c hptt)
      rw [hconf.ms, hraised]
      omega
    · have hmin := hpos _ (hlead hled)
      rw [hconf.ms, hraised, hconf.map]
      omega

theorem live_ioHeartbeat (hs : s.Running) (hl : s.Live) (hhb : s.hbTimeout ≠ 0) (seq : U16)
    (commanded : U8) : (s.ioHeartbeat seq commanded).Live := by
  unfold ioHeartbeat
  split
  · exact hl
  · dsimp only
    split
    · have hpos : 0 < s.hbTimeout.toNat := by bv_omega
      exact ⟨fun _ _ => rfl, fun _ => ⟨rfl, Nat.le_refl _, Nat.lt_add_of_pos_right hpos⟩,
        fun c => ⟨(hl.within c).onTime, (hl.within c).lead⟩⟩
    · refine live_ioReleaseAll (hs.notes ?_) _ nofun
      rfl

/-! ### The clock -/

/-- A channel whose on-time has run out is released. -/
theorem within_checkTimeout (hs : s.Running) (hlate : s.Within 1 c)
    (hlead : (s.ch c).st = .lead → s.ms < s.raised c + (s.map c).lead.toNat) :
    (s.checkTimeout c).Within 0 c := by
  unfold checkTimeout
  split
  · refine .of_not_keyed (keyed_of_idle ?_)
    rw [releaseChannel_self hs.wired]
  next hnot =>
    refine ⟨fun hkeyed hptt => ?_, hlead⟩
    have htime := hlate.onTime hkeyed hptt
    have hpast := (hs.phase c).past
    have hmax := (s.map c).maxOn.isLt
    have hturn : s.ms - s.raised c < 2 ^ 16 := by omega
    have helapsed := Wrap.elapsed_ofNat hpast hturn
    have hlt : ¬ (s.map c).maxOn.toNat ≤ Wrap.elapsed s.now16 (s.ch c).tMark :=
      fun h => hnot ⟨hptt, h⟩
    rw [now16, (hs.phase c).mark hkeyed, helapsed] at hlt
    omega

theorem within_advance (hs : s.Running) (hc : (s.map c).isPrimary = true) (hlate : s.Within 1 c) :
    (s.advance c).Within 0 c := by
  unfold advance
  split
  next hst =>
    have hkeyed : (s.ch c).keyed = true := by
      rw [Chan.keyed, hst]
      rfl
    split
    next htime =>
      -- the line goes on, and may have to go off at once
      have hconf : Confined c s (s.lineOn c) := confined_lineOn
      have hself : ((s.lineOn c).ch c).st = .on := by rw [lineOn, setCh_self]
      have hraised : (s.lineOn c).raised = s.raised := pinLevel_raised
      refine within_checkTimeout (running_op (R := .any) hs (.lineOn c hc hst htime)) ?_ ?_
      · refine ⟨fun _ hptt => ?_, fun hled => ?_⟩
        · rw [hconf.map] at hptt ⊢
          rw [hconf.ms, hraised]
          exact hlate.onTime hkeyed hptt
        · rw [hself] at hled
          cases hled
      · intro hled
        rw [hself] at hled
        cases hled
    next htime =>
      refine within_checkTimeout hs hlate fun _ => ?_
      have hpast := (hs.phase c).past
      have hled := hlate.lead hst
      have hmax := (s.map c).lead.isLt
      have hturn : s.ms - s.raised c < 2 ^ 16 := by omega
      have hlt : ¬ (s.map c).lead.toNat ≤ Wrap.elapsed s.now16 (s.ch c).tPhase := htime
      rw [now16, (hs.phase c).phase hst, Wrap.elapsed_ofNat hpast hturn] at hlt
      omega
  next hst =>
    refine within_checkTimeout hs hlate fun hled => ?_
    rw [hst] at hled
    cases hled
  next hst =>
    split
    · refine .of_not_keyed (keyed_of_idle ?_)
      rw [keylineOff_self fun k => hs.wired.keyline_ne (c := c) (k := k)]
    · refine .of_not_keyed ?_
      rw [Chan.keyed, hst]
      rfl
  next hst => exact .of_not_keyed (keyed_of_idle hst)

theorem serveOff_self : ((s.serveOff c).ch c).st = (s.ch c).st ∧ (s.serveOff c).raised = s.raised := by
  unfold serveOff
  split
  · rw [setCh_self]
    exact ⟨rfl, rfl⟩
  · exact ⟨rfl, rfl⟩

/-- The clock releases a channel whose on-time has run out. -/
theorem within_tickChan (hs : s.Running) (hlate : s.Within 1 c) : (s.tickChan c).Within 0 c := by
  unfold tickChan
  split
  next hc =>
    have hconf : Confined c s (s.serveOff c) := confined_serveOff
    obtain ⟨hst, hraised⟩ := serveOff_self (s := s) (c := c)
    refine within_advance (hs.confined hconf hc (phase_serveOff (hs.phase c))) (hconf.map ▸ hc) ?_
    constructor
    · rw [Chan.keyed, hst, hconf.map, hconf.ms, hraised]
      exact hlate.onTime
    · rw [hst, hconf.map, hconf.ms, hraised]
      exact hlate.lead
  next hc =>
    exact .of_not_keyed (keyed_of_idle ((hs.phase c).idle (Bool.eq_false_iff.mpr hc)))

/-- The clock keys no channel. -/
theorem keyed_tickChan (hs : s.Running) (h : ((s.tickChan c).ch c).keyed = true) :
    (s.ch c).keyed = true := by
  by_cases hc : (s.map c).isPrimary = true
  · have hconf : Confined c s (s.serveOff c) := confined_serveOff
    have hw : Wired (s.serveOff c).map := hconf.map ▸ hs.wired
    have hst : ((s.serveOff c).ch c).st = (s.ch c).st := serveOff_self.1
    have hstep : s.tickChan c = (s.serveOff c).advance c := if_pos hc
    rw [hstep] at h
    unfold advance at h
    split at h
    next hlead =>
      rw [Chan.keyed, ← hst, hlead]
      rfl
    next hon =>
      rw [Chan.keyed, ← hst, hon]
      rfl
    next hlag =>
      split at h
      · rw [keylineOff_self fun k => hw.keyline_ne (c := c) (k := k)] at h
        cases h
      · rw [Chan.keyed, hlag] at h
        cases h
    next hidle =>
      rw [keyed_of_idle hidle] at h
      cases h
  · have hstep : s.tickChan c = s := if_neg hc
    rwa [hstep] at h

/-- What the turns of the channels at a tick leave as it is. -/
structure Ticks (s t : Engine) : Prop where
  released : Released s t
  late : ∀ c, t.Within 1 c
  keyed : ∀ c, (t.ch c).keyed = true → (s.ch c).keyed = true

theorem Ticks.tickChan (h : Ticks s t) (c : Ch) : Ticks s (t.tickChan c) := by
  have hrun := h.released.running
  have hconf : Confined c t (t.tickChan c) := confined_tickChan (hrun.wired.sequences c)
  refine ⟨⟨((steps_tickChan (R := .any) trivial c).frame hrun).1,
    hconf.alive.trans h.released.frame.1, hconf.hbT.trans h.released.frame.2.1,
    hconf.lastGood.trans h.released.frame.2.2.1, hconf.ms.trans h.released.frame.2.2.2.1,
    hconf.hbTimeout.trans h.released.frame.2.2.2.2⟩, fun d => ?_, fun d hd => ?_⟩
  · by_cases hdc : d = c
    · subst hdc
      have hnow := within_tickChan hrun (h.late d)
      exact ⟨fun hk hp => Nat.lt_succ_of_lt (hnow.onTime hk hp),
        fun hl => Nat.lt_succ_of_lt (hnow.lead hl)⟩
    · exact (h.late d).confined hconf hdc
  · refine h.keyed d ?_
    by_cases hdc : d = c
    · subst hdc
      exact keyed_tickChan hrun hd
    · rw [hconf.level d hdc] at hd
      exact hd

theorem live_appTick (hs : s.Running) (hl : s.Live) (hvalid : s.mapState = .valid) :
    s.appTick.Live := by
  let late := { s with ms := s.ms + 1 }
  have hlate (c : Ch) : late.Within 1 c :=
    ⟨fun hk hp => Nat.succ_lt_succ ((hl.within c).onTime hk hp),
      fun hled => Nat.succ_lt_succ ((hl.within c).lead hled)⟩
  have hticks : Ticks late (late.forCh tickChan) :=
    forCh_kept (fun c _ h => h.tickChan c) ⟨⟨hs.clock, rfl, rfl, rfl, rfl, rfl⟩, hlate, fun _ => id⟩
  have hwithin : ∀ c, (late.forCh tickChan).Within 0 c :=
    forCh_each (P := fun t => Ticks late t) (Q := fun c t => t.Within 0 c)
      (fun c _ h => h.tickChan c)
      (fun c _ h => within_tickChan h.released.running (h.late c))
      (fun c _ _ hd h hQ =>
        hQ.confined (confined_tickChan (h.released.running.wired.sequences c)) hd)
      ⟨⟨hs.clock, rfl, rfl, rfl, rfl, rfl⟩, hlate, fun _ => id⟩
  have hstep : s.appTick = (late.forCh tickChan).checkLapse :=
    if_neg (not_not_intro hvalid)
  obtain ⟨halive, hhbT, hlastGood, hms, hhbTimeout⟩ := hticks.released.frame
  rw [hstep]
  unfold checkLapse
  split
  · refine live_ioReleaseAll (hticks.released.running.notes ?_) _ nofun
    rfl
  next hnot =>
    refine ⟨fun c hc => ?_, fun hon => ?_, hwithin⟩
    · rw [halive]
      exact hl.armed c (hticks.keyed c hc)
    · rw [halive] at hon
      obtain ⟨hstamp, hpast, htime⟩ := hl.heartbeat hon
      have hmax := s.hbTimeout.isLt
      have hle : s.lastGood ≤ s.ms + 1 := by omega
      have hturn : s.ms + 1 - s.lastGood < 2 ^ 16 := by omega
      have hlt : ¬ s.hbTimeout.toNat ≤ Wrap.elapsed (BitVec.ofNat 16 (s.ms + 1)) s.hbT := by
        intro hdue
        apply hnot
        rw [halive, hhbTimeout, now16, hms, hhbT]
        exact ⟨hon, hdue⟩
      rw [hstamp, Wrap.elapsed_ofNat hle hturn] at hlt
      rw [hhbT, hlastGood, hms, hhbTimeout]
      refine ⟨hstamp, hle, ?_⟩
      show s.ms + 1 < s.lastGood + s.hbTimeout.toNat
      omega

/-! ### Every reachable state -/

theorem live_steps (hs : s.Governed) (hl : s.Live) (hvalid : s.mapState = .valid)
    (hi : ¬ i.begins) : (next s i).Live := by
  have hrun := hs.running hvalid
  have hfail (e : MapError) : (s.fail e).2.Live :=
    ⟨hl.armed, hl.heartbeat, fun c => ⟨(hl.within c).onTime, (hl.within c).lead⟩⟩
  have hnot : s.mapState ≠ .loading := by
    rw [hvalid]
    decide
  cases i with
  | usbReset => exact live_ioReleaseAll hrun .usbReset hl.heartbeat
  | usbSuspend => exact live_ioReleaseAll hrun .usbSuspend hl.heartbeat
  | tick => exact live_appTick hrun hl hvalid
  | request bm req value index =>
    simp only [next, appVendorRequest]
    split
    next hmap =>
      split
      next hreq => exact absurd ⟨hmap.1, hreq⟩ hi
      split
      · rw [ioMapPin, if_pos hnot]
        exact hfail _
      split
      · rw [ioMapParam, if_pos hnot]
        exact hfail _
      split
      · rw [ioMapHeartbeat, if_pos hnot]
        exact hfail _
      split
      · rw [ioMapCommit, if_pos hnot]
        exact hfail _
      · exact live_ioKey hrun hl _ _
    split
    · exact live_ioHeartbeat hrun hl hs.hbTimeout _ _
    split
    next hgpio => exact absurd hvalid hgpio.2.2
    · exact hl

/-- Nothing is keyed without a valid map. -/
theorem live_of_blank (h : s.Blank) : s.Live := by
  have hkeyed (c : Ch) : (s.ch c).keyed = false := keyed_of_idle (h.idle c)
  refine ⟨fun c hc => ?_, fun hon => ?_, fun c => .of_not_keyed (hkeyed c)⟩
  · rw [hkeyed c] at hc
    cases hc
  · rw [h.alive] at hon
    cases hon

theorem live_next (hs : s.Governed) (hl : s.Live) (i : Input) : (next s i).Live := by
  rcases next_cases .any hs i (fun _ _ _ => trivial) (fun _ _ => trivial) with
    ⟨hi, hnext⟩ | ⟨hi, hvalid, -⟩ | ⟨-, hvalid, hquiet⟩ | ⟨-, t, hcommit, hnext⟩
  · have hblank : s.clearMap.Blank := blank_clearMap
    rw [hnext]
    exact live_of_blank ⟨hblank.alive, hblank.lastlvl, hblank.idle⟩
  · exact live_steps hs hl hvalid hi
  · exact live_of_blank (hquiet.blank (hs.blank hvalid))
  · have hblank : t.Blank := hcommit.loads.quiet.blank (hs.blank (by rw [hcommit.loading]; decide))
    have hsettles : Settles { t with mapState := .valid, edges := [] } t.settle := settles_settle
    have hkeyed (c : Ch) : (t.settle.ch c).keyed = false :=
      keyed_of_idle ((hsettles.idle c).trans (hblank.idle c))
    rw [hnext]
    refine ⟨fun c hc => ?_, fun hon => ?_, fun c => .of_not_keyed (hkeyed c)⟩
    · rw [hkeyed c] at hc
      cases hc
    · rw [hsettles.frame.2.2.2.1] at hon
      rw [show t.alive = false from hblank.alive] at hon
      cases hon

theorem live_of_reachable (h : machine.Reachable s) : s.Live := by
  refine h.invariant_with governed_of_reachable (fun s hs => ?_) (fun s i t hg hl _ hst => ?_)
  · obtain ⟨latch, rfl⟩ := hs
    exact live_of_blank ((governed_appInit latch).blank nofun)
  · obtain rfl := Option.some.inj hst
    exact live_next hg hl i

/-- A line is at its active level only when its channel is on. -/
theorem Running.on_of_atActive (hs : s.Running) (hptt : (s.ch c).func = .ptt)
    (h : s.atActive c) : (s.ch c).st = .on := by
  have hc : (s.map c).isPrimary = true := by
    rw [Entry.isPrimary, map, hptt]
    rfl
  have hline := (hs.phase c).line hc
  by_contra hst
  rw [if_neg hst] at hline
  have hfunc : (s.map c).func ≠ .none := by
    rw [map, hptt]
    decide
  exact hs.wired.safe c hfunc ((hs.linked c _ hline).1.symm.trans h)

/-- While a map is valid, a channel is keyed only if the heartbeat is alive and no older than the
lapse time, a ptt line is at its active level only in state on, and for no longer than its maximum
on-time after the key-down that raised it. -/
theorem dead_man (h : machine.Reachable s) (hvalid : s.mapState = .valid) :
    (∀ c, (s.ch c).keyed = true →
      s.alive = true ∧ s.lastGood ≤ s.ms ∧ s.ms ≤ s.lastGood + s.hbTimeout.toNat) ∧
    ∀ c, (s.ch c).func = .ptt → s.atActive c →
      (s.ch c).st = .on ∧ s.raised c ≤ s.ms ∧ s.ms ≤ s.raised c + (s.ch c).maxOn.toNat := by
  have hrun := (governed_of_reachable h).running hvalid
  have hl := live_of_reachable h
  refine ⟨fun c hc => ?_, fun c hptt hactive => ?_⟩
  · have halive := hl.armed c hc
    obtain ⟨-, hpast, htime⟩ := hl.heartbeat halive
    exact ⟨halive, hpast, Nat.le_of_lt htime⟩
  · have hst := hrun.on_of_atActive hptt hactive
    have hkeyed : (s.ch c).keyed = true := by
      rw [Chan.keyed, hst]
      rfl
    exact ⟨hst, (hrun.phase c).past, Nat.le_of_lt ((hl.within c).onTime hkeyed hptt)⟩

theorem dead_man_on :
    ((after (loadLines ++ keyLines 1 ++ [.tick, .tick])).ch 0).st = .on ∧
      (after (loadLines ++ keyLines 1 ++ [.tick, .tick])).raised 0 ≤
        (after (loadLines ++ keyLines 1 ++ [.tick, .tick])).ms ∧
      (after (loadLines ++ keyLines 1 ++ [.tick, .tick])).ms ≤
        (after (loadLines ++ keyLines 1 ++ [.tick, .tick])).raised 0 +
          ((after (loadLines ++ keyLines 1 ++ [.tick, .tick])).ch 0).maxOn.toNat :=
  (dead_man (reachable_after _) (by decide +kernel)).2 0 (by decide +kernel) (by decide +kernel)

end Engine

end HamsOpen.StationIo
