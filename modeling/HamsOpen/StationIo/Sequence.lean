import HamsOpen.StationIo.DeadMan
import Mathlib

/-!
# The order of a line and its keyline

A ptt line is active only while its keyline is, which leads it for the lead time, lags it for the
lag time, and at a release goes off after it. The edges show it, since each was noted with the port
before and after it.
-/

namespace HamsOpen.StationIo

/-- An edge that ends the transmission of a channel: a line goes to its safe state, and the line of
the channel is at its own then. -/
structure Falls (map : Ch → Entry) (c : Ch) (e : Edge) : Prop where
  safe : e.level = (map e.chan).safe
  line : e.after.level c = (map c).safe

/-- An edge that starts the transmission of a channel: first its keyline goes to its active level,
then its line, while the keyline stays. -/
structure Rises (map : Ch → Entry) (left : Ch → Option Nat) (c : Ch) (e : Edge) : Prop where
  active : e.level = (map e.chan).active true
  line : e.chan ≠ c → e.after.level c = (map c).safe
  keyline : e.chan = c → ∀ k, (map c).partner = some k → e.after.level k = (map k).active true
  left : e.left c = left c

/-- An edge that keeps the order of every line and its keyline. -/
def Ordered (map : Ch → Entry) (e : Edge) : Prop :=
  ∀ c k, (map c).partner = some k →
    (e.after.level c = (map c).active true → e.after.level k = (map k).active true) ∧
    (e.chan = k → e.level = (map k).safe → e.after.level c = (map c).safe)

namespace Engine

variable {s t u : Engine} {c d k : Ch} {lvl : Level} {R : Rules} {i : Input}

/-! ### The edges of the operations -/

/-- A pin is at the level it was brought to. -/
theorem level_pinLevel (h : (s.ch c).lastlvl ≠ some lvl) : (s.pinLevel c lvl).port.level c = lvl := by
  rw [(pinLevel_registers h).1]
  exact drivePin_self.1

theorem falls_pinSafe : Adds (Falls s.map c) s (s.pinSafe c) :=
  adds_pinLevel fun h => ⟨rfl, level_pinLevel h⟩

theorem falls_keylineOff (hw : Wired s.map) (hlinked : s.Linked c)
    (hline : (s.ch c).lastlvl = some (s.map c).safe) : Adds (Falls s.map c) s (s.keylineOff c) := by
  have hset (t : Engine) (hadds : Adds (Falls s.map c) s t) :
      Adds (Falls s.map c) s (t.setCh c fun ch => { ch with st := .idle }) := hadds
  refine hset _ ?_
  cases hk : (s.ch c).partner with
  | none => exact .refl rfl
  | some k =>
    refine adds_pinLevel fun _ => ⟨rfl, ?_⟩
    obtain ⟨hport, hlatched⟩ := hlinked _ hline
    have hpin : boardChanPin c ≠ boardChanPin k :=
      fun heq => hw.keyline_ne hk (boardChanPin_inj heq).symm
    exact (pin_pinLevel hpin hlatched).1.trans hport

/-- The line of a channel is off before its keyline. -/
theorem falls_off (hs : s.Running) (h : Confined c s t) (hadds : Adds (Falls s.map c) s t)
    (hline : (t.ch c).lastlvl = some (t.map c).safe) :
    Adds (Falls s.map c) s (t.keylineOff c) := by
  have hkey := falls_keylineOff (h.map ▸ hs.wired) (h.linked hs.linked c) hline
  rw [h.map] at hkey
  exact hadds.trans hkey

theorem falls_releaseChannel (hs : s.Running) (reason : Release) :
    Adds (Falls s.map c) s (s.releaseChannel reason c) := by
  have hline : ((s.pinSafe c).ch c).lastlvl = some ((s.pinSafe c).map c).safe := by
    rw [pinSafe, pinLevel_self, pinLevel_map]
    rfl
  have hoff := falls_off hs confined_self falls_pinSafe hline
  unfold releaseChannel
  split <;> exact hoff

theorem falls_keyUp (hs : s.Running) : Adds (Falls s.map c) s (s.keyUp c) := by
  let off := ((s.pinSafe c).stampOff c).logRelease .host c
  have hoff : Confined c s off :=
    (confined_self.trans confined_stampOff).trans (confined_logRelease .host)
  have hadds : Adds (Falls s.map c) s off := falls_pinSafe
  have hline : (off.ch c).lastlvl = some (off.map c).safe := by
    have hself : off.ch c = ((s.pinSafe c).stampOff c).ch c := rfl
    rw [hself, stampOff, setCh_self, pinSafe, pinLevel_self, hoff.map]
    rfl
  unfold keyUp
  split
  · dsimp only
    split
    · exact hadds
    · exact falls_off hs hoff hadds hline
  · exact .refl rfl

theorem rises_lineOn (hlinked : ∀ k, s.Linked k)
    (hkey : ∀ k, (s.map c).partner = some k → k ≠ c ∧
      (s.ch k).lastlvl = some ((s.map k).active true)) :
    Adds (Rises s.map s.left c) s (s.lineOn c) := by
  have hset (t : Engine) (hadds : Adds (Rises s.map s.left c) s t) :
      Adds (Rises s.map s.left c) s (t.setCh c fun ch => { ch with st := .on }) := hadds
  refine hset _ (adds_pinLevel fun _ => ⟨rfl, fun hne => absurd rfl hne, fun _ k hk => ?_, rfl⟩)
  obtain ⟨hne, hlevel⟩ := hkey k hk
  obtain ⟨hport, hlatched⟩ := hlinked k _ hlevel
  have hpin : boardChanPin k ≠ boardChanPin c := fun heq => hne (boardChanPin_inj heq)
  exact (pin_pinLevel hpin hlatched).1.trans hport

theorem rises_keyDown (hs : s.Running) (hc : (s.map c).isPrimary = true)
    (hidle : (s.ch c).st = .idle) : Adds (Rises s.map s.left c) s (s.keyDown c) := by
  have hw := hs.wired
  have hmark : Confined c s (s.markKey c) := confined_markKey
  have hmarked : (s.markKey c).ch c = { s.ch c with tMark := s.now16, tPhase := s.now16 } :=
    Function.update_self ..
  have hnone : Adds (Rises s.map s.left c) s (s.markKey c) := .refl rfl
  have hlinked := hmark.linked hs.linked
  unfold keyDown
  dsimp only
  split
  next k hk =>
    have hk : (s.map c).partner = some k := by rwa [hmarked] at hk
    have hne := hw.keyline_ne hk
    have hpin : boardChanPin c ≠ boardChanPin k := fun heq => hne (boardChanPin_inj heq).symm
    have hmarkk : (s.markKey c).ch k = s.ch k := Function.update_of_ne hne ..
    have hactive : ((s.markKey c).ch k).active true = (s.map k).active true := by
      rw [hmarkk]
      rfl
    -- the keyline goes on while the line is off
    have hkey : Adds (Rises s.map s.left c) s ((s.markKey c).pinActive k true) := by
      refine hnone.trans (adds_pinLevel fun _ => ⟨hactive, fun _ => ?_, fun heq => absurd heq hne, rfl⟩)
      have hsafe : ((s.markKey c).ch c).lastlvl = some (s.map c).safe := by
        have hline := (hs.phase c).line hc
        rw [hidle] at hline
        rw [hmarked]
        exact hline
      obtain ⟨hport, hlatched⟩ := hlinked c _ hsafe
      exact (pin_pinLevel hpin hlatched).1.trans hport
    split
    · exact hkey
    · have hled : Confined c s ((s.markKey c).pinActive k true) :=
        hmark.trans (confined_keyline (hmark.sequences (hw.sequences c)) (hmark.map ▸ hk))
      have hleft : ((s.markKey c).pinActive k true).left c = s.left c := by
        have hfunc : ((s.markKey c).map k).func ≠ .ptt := by
          rw [hmark.map, (hw.partner c k hk).1]
          decide
        exact (pinLevel_left_of (c := k) (.inr hfunc) c hne.symm).1
      have hon := rises_lineOn (c := c) (hled.linked hs.linked) fun b hb => by
        rw [hled.map] at hb ⊢
        obtain rfl : k = b := Option.some.inj (hk.symm.trans hb)
        rw [pinActive, pinLevel_self, hactive]
        exact ⟨hne, rfl⟩
      refine hkey.trans (hon.mono fun e he => ?_)
      rw [hled.map] at he
      exact ⟨he.active, he.line, he.keyline, he.left.trans hleft⟩
  next hno =>
    have hno : (s.map c).partner = none := by rwa [hmarked] at hno
    have hon := rises_lineOn (c := c) hlinked fun k hk => by
      rw [hmark.map, hno] at hk
      cases hk
    rw [hmark.map] at hon
    exact hnone.trans hon

/-! ### The order is kept -/

/-- The lines of a channel that an operation on another leaves alone stay in order. -/
theorem ordered_other (hs : s.Running) (hc : (s.map c).isPrimary = true) {e : Edge}
    (he : s.EdgeOf c e) (hd : d ≠ c) (hk : (s.map d).partner = some k) :
    (e.after.level d = (s.map d).active true → e.after.level k = (s.map k).active true) ∧
      e.chan ≠ k := by
  have hw := hs.wired
  have hptt := hw.ptt hk
  have hprimary : (s.map d).isPrimary = true := by
    rw [Entry.isPrimary, hptt]
    rfl
  have hline : s.Apart c (boardChanPin d) := by
    rintro b hb heq
    obtain rfl := boardChanPin_inj heq
    rcases hb with rfl | hb
    · exact hd rfl
    · rw [hw.not_primary hb] at hprimary
      cases hprimary
  have hown (b : Ch) (hb : s.Own c b) : k ≠ b := by
    rintro rfl
    rcases hb with rfl | hb
    · rw [hw.not_primary hk] at hc
      cases hc
    · exact hd (hw.partner_inj hk hb)
  have hkeyline : s.Apart c (boardChanPin k) := fun b hb heq => hown b hb (boardChanPin_inj heq)
  refine ⟨fun hactive => ?_, (hown _ he.own).symm⟩
  obtain ⟨hlevel, hlatched⟩ := hs.linked d _ ((hs.phase d).line hprimary)
  obtain ⟨hklevel, hklatched⟩ := hs.linked k _ ((hs.phase d).keyline k hk)
  have hst : (s.ch d).st = .on := by
    by_contra hne
    have hsame : e.after.level d = s.port.level d := he.apart _ hlatched hline
    rw [if_neg hne] at hlevel
    exact hw.safe d (by rw [hptt]; decide) (hlevel.symm.trans (hsame.symm.trans hactive))
  have hsame : e.after.level k = s.port.level k := he.apart _ hklatched hkeyline
  rw [hst] at hklevel
  exact hsame.trans hklevel

theorem ordered_of_falls (hs : s.Running) (hc : (s.map c).isPrimary = true) {e : Edge}
    (he : s.EdgeOf c e) (hfalls : Falls s.map c e) : Ordered s.map e := by
  intro d k hk
  by_cases hd : d = c
  · subst hd
    have hfunc : (s.map d).func ≠ .none := by
      rw [hs.wired.ptt hk]
      decide
    refine ⟨fun hactive => ?_, fun _ _ => hfalls.line⟩
    exact absurd (hfalls.line.symm.trans hactive) (hs.wired.safe d hfunc)
  · obtain ⟨hactive, hne⟩ := ordered_other hs hc he hd hk
    exact ⟨hactive, fun heq => absurd heq hne⟩

theorem ordered_of_rises (hs : s.Running) (hc : (s.map c).isPrimary = true) {e : Edge}
    {left : Ch → Option Nat} (he : s.EdgeOf c e) (hrises : Rises s.map left c e) :
    Ordered s.map e := by
  intro d k hk
  by_cases hd : d = c
  · subst hd
    have hfunc : (s.map d).func ≠ .none := by
      rw [hs.wired.ptt hk]
      decide
    refine ⟨fun hactive => ?_, fun heq hsafe => ?_⟩
    · by_cases hchan : e.chan = d
      · exact hrises.keyline hchan k hk
      · exact absurd ((hrises.line hchan).symm.trans hactive) (hs.wired.safe d hfunc)
    · have hkfunc : (s.map k).func ≠ .none := by
        rw [(hs.wired.partner d k hk).1]
        decide
      have hlevel := hrises.active
      rw [heq, hsafe] at hlevel
      exact absurd hlevel (hs.wired.safe k hkfunc)
  · obtain ⟨hactive, hne⟩ := ordered_other hs hc he hd hk
    exact ⟨hactive, fun heq => absurd heq hne⟩

/-- An operation keeps the order. -/
theorem ordered_op (hs : s.Running) (h : Op R s t) (ho : ∀ e ∈ s.edges, Ordered s.map e) :
    ∀ e ∈ t.edges, Ordered t.map e := by
  have hfalls (c : Ch) (hc : (s.map c).isPrimary = true) (t : Engine) (hconf : Confined c s t)
      (hadds : Adds (Falls s.map c) s t) : ∀ e ∈ t.edges, Ordered t.map e := by
    rw [hconf.map]
    refine Adds.all ((hconf.edges.and hadds).mono fun e he => ?_) ho
    exact ordered_of_falls hs hc he.1 he.2
  have hrises (c : Ch) (hc : (s.map c).isPrimary = true) (t : Engine) (hconf : Confined c s t)
      (hadds : Adds (Rises s.map s.left c) s t) : ∀ e ∈ t.edges, Ordered t.map e := by
    rw [hconf.map]
    refine Adds.all ((hconf.edges.and hadds).mono fun e he => ?_) ho
    exact ordered_of_rises hs hc he.1 he.2
  cases h with
  | notes h =>
    rw [h]
    exact ho
  | clock => exact ho
  | serveOff c hc =>
    have hconf : Confined c s (s.serveOff c) := confined_serveOff
    refine hfalls c hc _ hconf (.refl ?_)
    unfold serveOff
    split <;> rfl
  | lineOn c hc hlead _ =>
    refine hrises c hc _ confined_lineOn (rises_lineOn hs.linked fun k hk => ?_)
    have hlevel := (hs.phase c).keyline k hk
    rw [hlead] at hlevel
    exact ⟨hs.wired.keyline_ne hk, hlevel⟩
  | keylineOff c hc hlag _ =>
    have hline := (hs.phase c).line hc
    rw [hlag] at hline
    exact hfalls c hc _ (confined_keylineOff (hs.wired.sequences c))
      (falls_keylineOff hs.wired (hs.linked c) hline)
  | releaseChannel c reason hc _ _ =>
    exact hfalls c hc _ (confined_releaseChannel (hs.wired.sequences c) reason)
      (falls_releaseChannel hs reason)
  | keyUp c hc => exact hfalls c hc _ (confined_keyUp (hs.wired.sequences c)) (falls_keyUp hs)
  | keyDown c hc _ hidle _ _ =>
    exact hrises c hc _ (confined_keyDown (hs.wired.sequences c)) (rises_keyDown hs hc hidle)

theorem ordered_of_reachable (h : machine.Reachable s) (hvalid : s.mapState = .valid) :
    ∀ e ∈ s.edges, Ordered s.map e := by
  have hall : s.mapState = .valid → ∀ e ∈ s.edges, Ordered s.map e := by
    refine h.invariant_with (I := fun s => s.mapState = .valid → ∀ e ∈ s.edges, Ordered s.map e)
      governed_of_reachable (fun s hs hvalid => ?_) (fun s i t hg ho _ hst hvalid => ?_)
    · obtain ⟨latch, rfl⟩ := hs
      cases hvalid
    · obtain rfl := Option.some.inj hst
      rcases next_cases .any hg i (fun _ _ _ => trivial) (fun _ _ => trivial) with
        ⟨-, hnext⟩ | ⟨-, hnow, hsteps⟩ | ⟨-, hnow, hquiet⟩ | ⟨-, t, -, hnext⟩
      · rw [hnext] at hvalid
        cases hvalid
      · exact (hsteps.kept (P := fun t => ∀ e ∈ t.edges, Ordered t.map e)
          (fun _ _ hu hP hop => ordered_op hu hop hP) (hg.running hnow) (ho hnow)).2
      · exact absurd (hquiet.mapState.symm.trans hvalid) hnow
      · rw [hnext]
        exact nofun
  exact hall hvalid

/-! ### A keyline lags -/

/-- The keyline of a channel lags since a time, or its lag time has passed since then. -/
def Lags (n : Nat) (s : Engine) (c : Ch) : Prop :=
  ((s.ch c).st = .lag ∧ (s.ch c).tPhase = BitVec.ofNat 16 n ∧ n ≤ s.ms) ∨
    n + (s.map c).lag.toNat ≤ s.ms

/-- No fault, reset or new map comes with an input. -/
def Undisturbed (s : Engine) (i : Input) : Prop :=
  ¬ i.begins ∧ ∀ reason, i.faults s reason → reason = .timeout

theorem Lags.confined {n : Nat} (h : Confined d s t) (hd : d ≠ c) (hl : s.Lags n c) : t.Lags n c := by
  have hlevel := h.level c hd.symm
  unfold Lags
  rw [hlevel, h.ms, h.map]
  exact hl

/-- An operation lets a keyline lag, unless it is a fault. -/
theorem lags_op {n : Nat} (hs : s.Running) (h : Op R s t)
    (hR : ∀ reason, R.release reason → reason = .timeout) (hl : s.Lags n c) : t.Lags n c := by
  by_cases hpassed : n + (s.map c).lag.toNat ≤ s.ms
  · have hframe := op_frame hs h
    refine .inr ?_
    rw [hframe.map]
    exact Nat.le_trans hpassed hframe.ms
  obtain ⟨hlag, hphase, hpast⟩ := hl.resolve_right hpassed
  have hkeyed : (s.ch c).keyed = false := by
    rw [Chan.keyed, hlag]
    rfl
  cases h with
  | notes h =>
    rw [h]
    exact hl
  | clock => exact .inl ⟨hlag, hphase, Nat.le_succ_of_le hpast⟩
  | serveOff d hd =>
    by_cases hdc : d = c
    · subst hdc
      have hsame : s.serveOff d = s := if_neg (by rw [hlag]; rintro ⟨⟨⟩, -⟩)
      rw [hsame]
      exact hl
    · exact hl.confined confined_serveOff hdc
  | lineOn d hd hlead _ =>
    refine hl.confined confined_lineOn fun heq => ?_
    rw [heq, hlag] at hlead
    cases hlead
  | keylineOff d hd _ htime =>
    by_cases hdc : d = c
    · subst hdc
      rw [now16, hphase] at htime
      have hle := Wrap.elapsed_le (w := 16) hpast
      omega
    · exact hl.confined (confined_keylineOff (hs.wired.sequences d)) hdc
  | releaseChannel d reason hd hkey hreason =>
    refine hl.confined (confined_releaseChannel (hs.wired.sequences d) reason) fun heq => ?_
    have hon := hkey (hR reason hreason)
    rw [heq, hkeyed] at hon
    cases hon
  | keyUp d hd =>
    by_cases hdc : d = c
    · subst hdc
      have hsame : s.keyUp d = s := if_neg (by rw [hkeyed]; rintro ⟨⟩)
      rw [hsame]
      exact hl
    · exact hl.confined (confined_keyUp (hs.wired.sequences d)) hdc
  | keyDown d hd _ hidle _ _ =>
    refine hl.confined (confined_keyDown (hs.wired.sequences d)) fun heq => ?_
    rw [heq, hlag] at hidle
    cases hidle

/-- A keyline lags from the key-up on. -/
theorem lags_keyUp (hk : (s.map c).partner = some k) (hkeyed : (s.ch c).keyed = true) :
    (s.keyUp c).Lags s.ms c := by
  have hoff : Confined c s (((s.pinSafe c).stampOff c).logRelease .host c) :=
    (confined_self.trans confined_stampOff).trans (confined_logRelease .host)
  have hpartner : (((s.pinSafe c).stampOff c).logRelease .host c).map c = s.map c :=
    congrFun hoff.map c
  rw [keyUp, if_pos hkeyed]
  dsimp only
  split
  next =>
    rw [Lags, setCh_self]
    refine .inl ⟨rfl, ?_, Nat.le_of_eq hoff.ms.symm⟩
    show now16 _ = _
    rw [now16, hoff.ms]
  next hnot =>
    have hlag : (s.map c).lag = 0 := by
      by_contra hne
      refine hnot ⟨?_, ?_⟩
      · show ((((s.pinSafe c).stampOff c).logRelease .host c).map c).partner ≠ none
        rw [hpartner, hk]
        rintro ⟨⟩
      · show ((((s.pinSafe c).stampOff c).logRelease .host c).map c).lag ≠ 0
        rwa [hpartner]
    have hms : ((((s.pinSafe c).stampOff c).logRelease .host c).keylineOff c).ms = s.ms := by
      refine Eq.trans ?_ hoff.ms
      unfold keylineOff pinSafe?
      split
      · exact pinLevel_ms
      · rfl
    have hmap : ((((s.pinSafe c).stampOff c).logRelease .host c).keylineOff c).map c = s.map c := by
      rw [keylineOff, setCh_map, Function.update_self]
      refine Eq.trans ?_ hpartner
      unfold pinSafe?
      split
      · exact congrFun pinLevel_map c
      · rfl
    refine .inr ?_
    rw [hmap, hms, hlag]
    exact Nat.le_refl _

/-- A key-up that is accepted. -/
theorem next_ups (hvalid : s.mapState = .valid) (hc : (s.map c).isPrimary = true)
    (hi : i.ups c) : next s i = s.keyUp c := by
  cases i with
  | request bm req value index =>
    obtain ⟨rfl, rfl, hpin, hup⟩ := hi
    have hkey : next s (.request 0x40 0x15 value index) =
        (s.ioKey (value.truncate 8) (index.truncate 8)).2 := rfl
    have hprimary : ¬ (!(s.ch c).isPrimary) = true := by
      rw [map] at hc
      simp [hc]
    rw [hkey, ioKey, if_neg (not_not_intro hvalid), hpin]
    dsimp only
    rw [if_neg hprimary, if_pos hup]
  | usbReset => exact hi.elim
  | usbSuspend => exact hi.elim
  | tick => exact hi.elim

/-- A keyline that lags stays active for its time. -/
theorem lag_kept (h : machine.Reachable s) (hvalid : s.mapState = .valid)
    (hk : (s.map c).partner = some k) (hkeyed : (s.ch c).keyed = true) (hi : i.ups c)
    (hu : (machine.startedIn (next s i)).Reach Undisturbed u)
    (htime : u.ms < s.ms + (s.map c).lag.toNat) : u.atActive k := by
  have hs := governed_of_reachable h
  have hrun := hs.running hvalid
  have hc : (s.map c).isPrimary = true := by
    rw [Entry.isPrimary, hrun.wired.ptt hk]
    rfl
  have hup : next s i = s.keyUp c := next_ups hvalid hc hi
  have hfirst : (s.keyUp c).map = s.map ∧ (s.keyUp c).mapState = s.mapState :=
    ⟨(confined_keyUp (hrun.wired.sequences c)).map, (confined_keyUp (hrun.wired.sequences c)).mapState⟩
  have hlags : u.Governed ∧ u.mapState = .valid ∧ u.map = s.map ∧ u.Lags s.ms c := by
    refine hu.invariant
      (I := fun v => v.Governed ∧ v.mapState = .valid ∧ v.map = s.map ∧ v.Lags s.ms c)
      (fun t ht => ?_) (fun t j v ht hj hst => ?_)
    · obtain rfl : t = next s i := ht
      refine ⟨governed_next hs i, ?_⟩
      rw [hup]
      exact ⟨hfirst.2.trans hvalid, hfirst.1, lags_keyUp hk hkeyed⟩
    · obtain rfl : next t j = v := Option.some.inj hst
      obtain ⟨hgov, hnow, hmap, hlag⟩ := ht
      let quiet : Rules := ⟨fun _ _ => True, fun reason => reason = .timeout⟩
      have hsteps : Steps quiet t (next t j) :=
        steps_next (hgov.running hnow) hnow hj.1 (fun _ _ => trivial) hj.2
      have hkept := hsteps.kept (P := fun v => v.Lags s.ms c)
        (fun _ _ hv hl hop => lags_op hv hop (fun _ h => h) hl) (hgov.running hnow) hlag
      have hframe := (hsteps.frame (hgov.running hnow)).2
      exact ⟨governed_next hgov j, hframe.mapState.trans hnow, hframe.map.trans hmap, hkept.2⟩
  obtain ⟨hgov, hnow, hmap, hlag⟩ := hlags
  have hlagging : (u.ch c).st = .lag := by
    refine (hlag.resolve_right fun hpassed => ?_).1
    rw [hmap] at hpassed
    omega
  have hrun' := hgov.running hnow
  have hlevel := (hrun'.phase c).keyline k (hmap ▸ hk)
  rw [hlagging] at hlevel
  exact (hrun'.linked k _ hlevel).1

/-! ### Every reachable state -/

/-- A ptt line is active only while its keyline is, and has been for the lead time; a keyline is not
active while its channel is idle; at every edge, and at every release, a line is off before its
keyline; and after a key-up the keyline stays active for the lag time, unless a fault, a reset or a
new map comes. -/
theorem sequencing (h : machine.Reachable s) (hvalid : s.mapState = .valid)
    (hk : (s.ch c).partner = some k) :
    (s.atActive c → s.atActive k ∧ ∃ n, since ((s.ch k).active true) k s.edges = some n ∧
      n + (s.ch c).lead.toNat ≤ s.ms) ∧
    ((s.ch c).st = .idle → ¬ s.atActive k) ∧
    (∀ e ∈ s.edges, Ordered s.map e) ∧
    (∀ reason, ∀ e ∈ (s.ioReleaseAll reason).edges, Ordered s.map e) ∧
    ((s.ch c).keyed = true → ∀ i, i.ups c → ∀ u,
      (machine.startedIn (next s i)).Reach Undisturbed u →
      u.ms < s.ms + (s.ch c).lag.toNat → u.atActive k) := by
  have hrun := (governed_of_reachable h).running hvalid
  have hordered := ordered_of_reachable h hvalid
  have hkfunc : (s.map k).func ≠ .none := by
    rw [(hrun.wired.partner c k hk).1]
    decide
  refine ⟨fun hactive => ?_, fun hidle hactive => ?_, hordered, fun reason => ?_, ?_⟩
  · have hst := hrun.on_of_atActive (hrun.wired.ptt hk) hactive
    have hkeyed : (s.ch c).keyed = true := by
      rw [Chan.keyed, hst]
      rfl
    have hlevel := (hrun.phase c).keyline k hk
    rw [hst] at hlevel
    exact ⟨(hrun.linked k _ hlevel).1, _, (hrun.phase c).held hkeyed k hk, (hrun.phase c).led hst⟩
  · have hlevel := (hrun.phase c).keyline k hk
    rw [if_pos hidle] at hlevel
    exact hrun.wired.safe k hkfunc ((hrun.linked k _ hlevel).1.symm.trans hactive)
  · refine (forCh_kept (P := fun t => (t.Running ∧ t.map = s.map) ∧ ∀ e ∈ t.edges, Ordered s.map e)
      (fun d t ht => ?_) ⟨⟨hrun, rfl⟩, hordered⟩).2
    obtain ⟨⟨ht, hmap⟩, hedges⟩ := ht
    split
    next hd =>
      have hd := (Bool.and_eq_true_iff.mp hd).1
      have hconf := confined_releaseChannel (ht.wired.sequences d) reason
      refine ⟨⟨ht.confined hconf hd (phase_releaseChannel ht.wired (ht.phase d).past reason),
        hconf.map.trans hmap⟩, ?_⟩
      refine ((hconf.edges.and (falls_releaseChannel ht reason)).mono fun e he => ?_).all hedges
      rw [← hmap]
      exact ordered_of_falls ht hd he.1 he.2
    next => exact ⟨⟨ht, hmap⟩, hedges⟩
  · exact fun hkeyed i hi u hu htime => lag_kept h hvalid hk hkeyed hi hu htime

theorem sequencing_led :
    (after (loadLines ++ keyLines 1 ++ [.tick, .tick])).atActive 1 ∧ ∃ n,
      since (((after (loadLines ++ keyLines 1 ++ [.tick, .tick])).ch 1).active true) 1
        (after (loadLines ++ keyLines 1 ++ [.tick, .tick])).edges = some n ∧
      n + ((after (loadLines ++ keyLines 1 ++ [.tick, .tick])).ch 0).lead.toNat ≤
        (after (loadLines ++ keyLines 1 ++ [.tick, .tick])).ms :=
  (sequencing (c := 0) (k := 1) (reachable_after _) (by decide +kernel) (by decide +kernel)).1
    (by decide +kernel)

end Engine

end HamsOpen.StationIo
