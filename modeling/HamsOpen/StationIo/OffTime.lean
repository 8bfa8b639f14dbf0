import HamsOpen.StationIo.Sequence
import Mathlib

/-!
# The minimum off time of a line

Under one map a line is raised no earlier than its minimum off time after it last went off: the
engine keeps the time of the release until that time has passed. It forgets it with the map, so after
a new map the first key-down is held back by nothing.
-/

namespace HamsOpen.StationIo

/-- An edge that asserts no line, and no keyline of one, less than the minimum off time after the
line last left its active level. -/
def Edge.Rested (map : Ch → Entry) (e : Edge) : Prop :=
  ∀ c, (map c).func = .ptt → (e.chan = c ∨ (map c).partner = some e.chan) →
    e.level = (map e.chan).active true →
    ∀ n, e.left c = some n → n + (map c).minOff.toNat ≤ e.time

namespace Engine

variable {s t u : Engine} {c d k : Ch} {R : Rules} {i : Input}

/-- What the engine has of the off time of a line. -/
structure Rest (s : Engine) (c : Ch) : Prop where
  past : ∀ n, s.left c = some n → n ≤ s.ms
  /-- The time of the release is no earlier than that at which the line left its active level. -/
  stamped : (s.ch c).offValid = true → ∃ n, (s.ch c).tOff = BitVec.ofNat 16 n ∧ n ≤ s.ms ∧
    ∀ m, s.left c = some m → m ≤ n
  /-- The time of a release under this map is forgotten when the off time has passed. -/
  served : (s.ch c).offValid = false → (s.ch c).keyed = false → s.earlier c = false →
    ∀ n, s.left c = some n → n + (s.map c).minOff.toNat ≤ s.ms
  led : (s.ch c).st = .lead → (s.map c).func = .ptt →
    ∀ n, s.left c = some n → n + (s.map c).minOff.toNat ≤ s.raised c

/-- A key-down of a channel would be accepted, and raise it. -/
def Raises (s : Engine) (c : Ch) : Prop :=
  s.alive = true ∧ (s.ch c).st = .idle ∧
    ¬ ((s.ch c).offValid = true ∧ Wrap.elapsed s.now16 (s.ch c).tOff < (s.map c).minOff.toNat)

/-- The line of a channel did not leave its active level under an earlier map, or its minimum off
time has passed since. -/
def OffLong (s : Engine) (c : Ch) : Prop :=
  (s.map c).func = .ptt → s.Raises c → s.earlier c = true →
    ∀ n, s.left c = some n → n + (s.map c).minOff.toNat ≤ s.ms

/-- An accepted key-down is not too early for a release under an earlier map. -/
def Rested (s : Engine) (i : Input) : Prop :=
  s.mapState = .valid → ∀ c, i.downs c → s.OffLong c

/-- The rules that a key-down is not too early. -/
def restedRules : Rules := ⟨OffLong, fun _ => True⟩

/-! ### What the operations do to the off time -/

/-- Another channel's off time goes on. -/
theorem Rest.confined (h : Confined c s t) (hd : d ≠ c) (hs : s.Rest d) : t.Rest d := by
  obtain ⟨hleft, hearlier⟩ := h.left d hd
  refine ⟨?_, ?_, ?_, ?_⟩
  · rw [hleft, h.ms]
    exact hs.past
  · rw [hleft, h.ms, h.level d hd]
    exact hs.stamped
  · rw [hleft, hearlier, h.ms, h.map, h.level d hd]
    exact hs.served
  · rw [hleft, h.map, h.raised d hd, h.level d hd]
    exact hs.led

theorem past_confined (h : Confined c s t) (hs : s.Rest d) (n : Nat) (hn : t.left d = some n) :
    n ≤ t.ms := by
  rw [h.ms]
  rcases h.leaves d with heq | hnow
  · exact hs.past n (heq.symm.trans hn)
  · exact Nat.le_of_eq (Option.some.inj (hn.symm.trans hnow))

/-- A release starts the off time. -/
theorem Rest.released (h : Confined c s t) (hs : s.Rest c) (hoff : (t.ch c).offValid = true)
    (htOff : (t.ch c).tOff = s.now16) (hlead : (t.ch c).st ≠ .lead) : t.Rest c := by
  have hpast (n : Nat) (hn : t.left c = some n) : n ≤ t.ms := past_confined h hs n hn
  refine ⟨hpast, fun _ => ⟨t.ms, ?_, Nat.le_refl _, hpast⟩, fun hnot => ?_,
    fun hled => absurd hled hlead⟩
  · rw [htOff, now16, h.ms]
  · rw [hoff] at hnot
    cases hnot

/-- Nothing about the off time changes. -/
theorem Rest.same (h : Confined c s t) (hs : s.Rest c)
    (hleft : t.left c = s.left c ∧ t.earlier c = s.earlier c)
    (hoff : (t.ch c).offValid = (s.ch c).offValid ∧ (t.ch c).tOff = (s.ch c).tOff)
    (hkeyed : (t.ch c).keyed = false → (s.ch c).keyed = false)
    (hled : (t.ch c).st = .lead → (s.map c).func = .ptt →
      ∀ n, s.left c = some n → n + (s.map c).minOff.toNat ≤ t.raised c) : t.Rest c := by
  refine ⟨?_, ?_, fun hnot hidle => ?_, ?_⟩
  · rw [hleft.1, h.ms]
    exact hs.past
  · rw [hleft.1, hoff.1, hoff.2, h.ms]
    exact hs.stamped
  · rw [hoff.1] at hnot
    rw [hleft.1, hleft.2, h.map, h.ms]
    exact hs.served hnot (hkeyed hidle)
  · rw [hleft.1, h.map]
    exact hled

theorem rest_serveOff (hs : s.Rest c) : (s.serveOff c).Rest c := by
  unfold serveOff
  split
  next hserved =>
    obtain ⟨hidle, hoff, htime⟩ := hserved
    refine ⟨hs.past, fun hon => ?_, fun _ _ _ n hn => ?_, fun hlead => ?_⟩
    · rw [setCh_self] at hon
      cases hon
    · obtain ⟨m, hstamp, hm, hle⟩ := hs.stamped hoff
      rw [hstamp, now16] at htime
      have helapsed := Wrap.elapsed_le (w := 16) hm
      have hnm := hle n hn
      have hmap : (s.setCh c fun ch => { ch with offValid := false }).map c = s.map c := by
        rw [setCh_map, Function.update_self]
        rfl
      rw [hmap]
      show n + (s.ch c).minOff.toNat ≤ s.ms
      omega
    · rw [setCh_self] at hlead
      have hlead : (s.ch c).st = .lead := hlead
      rw [hidle] at hlead
      cases hlead
  next => exact hs

theorem lineOn_left : (s.lineOn c).left = s.left ∧ (s.lineOn c).earlier = s.earlier := by
  have hnot : s.leaves c ((s.ch c).active true) = false := by simp [leaves]
  by_cases heq : (s.ch c).lastlvl = some ((s.ch c).active true)
  · have hsame : s.pinActive c true = s := pinLevel_of_eq heq
    rw [lineOn, hsame]
    exact ⟨rfl, rfl⟩
  · have hleft := pinLevel_left heq
    rw [hnot] at hleft
    exact hleft

theorem keylineOff_left (hw : Wired s.map) :
    (s.keylineOff c).left c = s.left c ∧ (s.keylineOff c).earlier c = s.earlier c := by
  unfold keylineOff
  cases hk : (s.ch c).partner with
  | none => exact ⟨rfl, rfl⟩
  | some k =>
    have hfunc : (s.map k).func ≠ .ptt := hw.sequences c k hk
    exact pinLevel_left_of (c := k) (.inr hfunc) c (hw.keyline_ne hk).symm

theorem keyUp_off (hw : Wired s.map) (hkeyed : (s.ch c).keyed = true) :
    ((s.keyUp c).ch c).offValid = true ∧ ((s.keyUp c).ch c).tOff = s.now16 := by
  have hnow : (s.pinSafe c).now16 = s.now16 := congrArg (BitVec.ofNat 16) pinLevel_ms
  have hself : (((s.pinSafe c).stampOff c).logRelease .host c).ch c =
      { (s.pinSafe c).ch c with tOff := (s.pinSafe c).now16, offValid := true } :=
    Function.update_self ..
  have hmap : (((s.pinSafe c).stampOff c).logRelease .host c).map = s.map :=
    ((confined_self.trans confined_stampOff).trans (confined_logRelease .host)).map
  rw [keyUp, if_pos hkeyed]
  dsimp only
  split
  · rw [setCh_self, hself]
    exact ⟨rfl, hnow⟩
  · rw [keylineOff_self fun k hk => hw.keyline_ne (hmap ▸ hk), hself]
    exact ⟨rfl, hnow⟩

/-- A key-down changes nothing about the off time. -/
theorem keyDown_off (hw : Wired s.map) :
    ((s.keyDown c).left c = s.left c ∧ (s.keyDown c).earlier c = s.earlier c) ∧
    ((s.keyDown c).ch c).offValid = (s.ch c).offValid ∧
      ((s.keyDown c).ch c).tOff = (s.ch c).tOff := by
  have hmark : Confined c s (s.markKey c) := confined_markKey
  have hmarked : (s.markKey c).ch c = { s.ch c with tMark := s.now16, tPhase := s.now16 } :=
    Function.update_self ..
  have hon (t : Engine) (ht : (t.left c = s.left c ∧ t.earlier c = s.earlier c) ∧
      (t.ch c).offValid = (s.ch c).offValid ∧ (t.ch c).tOff = (s.ch c).tOff) :
      ((t.lineOn c).left c = s.left c ∧ (t.lineOn c).earlier c = s.earlier c) ∧
      ((t.lineOn c).ch c).offValid = (s.ch c).offValid ∧
        ((t.lineOn c).ch c).tOff = (s.ch c).tOff := by
    rw [lineOn_left.1, lineOn_left.2, lineOn, setCh_self, pinActive, pinLevel_self]
    exact ht
  have hstart : ((s.markKey c).left c = s.left c ∧ (s.markKey c).earlier c = s.earlier c) ∧
      ((s.markKey c).ch c).offValid = (s.ch c).offValid ∧
        ((s.markKey c).ch c).tOff = (s.ch c).tOff := by
    rw [hmarked]
    exact ⟨⟨rfl, rfl⟩, rfl, rfl⟩
  unfold keyDown
  dsimp only
  split
  next k hk =>
    have hk : (s.map c).partner = some k := by rwa [hmarked] at hk
    have hne := hw.keyline_ne hk
    have hfunc : ((s.markKey c).map k).func ≠ .ptt := by
      rw [hmark.map]
      exact hw.sequences c k hk
    have hkey : (((s.markKey c).pinActive k true).left c = s.left c ∧
        ((s.markKey c).pinActive k true).earlier c = s.earlier c) ∧
        (((s.markKey c).pinActive k true).ch c).offValid = (s.ch c).offValid ∧
          (((s.markKey c).pinActive k true).ch c).tOff = (s.ch c).tOff := by
      obtain ⟨hleft, hearlier⟩ : ((s.markKey c).pinActive k true).left c = (s.markKey c).left c ∧
          ((s.markKey c).pinActive k true).earlier c = (s.markKey c).earlier c :=
        pinLevel_left_of (.inr hfunc) c hne.symm
      rw [hleft, hearlier, pinActive, pinLevel_other hne.symm]
      exact hstart
    split
    · rw [setCh_self]
      exact hkey
    · exact hon _ hkey
  next => exact hon _ hstart

/-- A key-down that is accepted comes after the minimum off time. -/
theorem Rest.ready (hs : s.Rest c) (hidle : (s.ch c).st = .idle)
    (hnot : ¬ ((s.ch c).offValid = true ∧
      Wrap.elapsed s.now16 (s.ch c).tOff < (s.map c).minOff.toNat))
    (hlong : s.earlier c = true → ∀ n, s.left c = some n → n + (s.map c).minOff.toNat ≤ s.ms) (n : Nat)
    (hn : s.left c = some n) : n + (s.map c).minOff.toNat ≤ s.ms := by
  by_cases hoff : (s.ch c).offValid = true
  · obtain ⟨m, hstamp, hm, hle⟩ := hs.stamped hoff
    have htime : ¬ Wrap.elapsed s.now16 (s.ch c).tOff < (s.map c).minOff.toNat :=
      fun hlt => hnot ⟨hoff, hlt⟩
    rw [hstamp, now16] at htime
    have helapsed := Wrap.elapsed_le (w := 16) hm
    have hnm := hle n hn
    omega
  · by_cases hearlier : s.earlier c = true
    · exact hlong hearlier n hn
    · exact hs.served (Bool.eq_false_iff.mpr hoff) (keyed_of_idle hidle)
        (Bool.eq_false_iff.mpr hearlier) n hn

/-- An operation keeps the off times. -/
theorem rest_op (hs : s.Running) (h : Op restedRules s t) (hr : ∀ c, s.Rest c) (d : Ch) :
    t.Rest d := by
  have hw := hs.wired
  cases h with
  | notes h =>
    rw [h]
    exact ⟨(hr d).past, (hr d).stamped, (hr d).served, (hr d).led⟩
  | clock =>
    refine ⟨fun n hn => Nat.le_succ_of_le ((hr d).past n hn), fun hoff => ?_,
      fun h0 h1 h2 n hn => Nat.le_succ_of_le ((hr d).served h0 h1 h2 n hn), (hr d).led⟩
    obtain ⟨n, hstamp, hn, hle⟩ := (hr d).stamped hoff
    exact ⟨n, hstamp, Nat.le_succ_of_le hn, hle⟩
  | serveOff c hc =>
    by_cases hd : d = c
    · subst hd
      exact rest_serveOff (hr d)
    · exact (hr d).confined confined_serveOff hd
  | lineOn c hc hlead _ =>
    have hconf : Confined c s (s.lineOn c) := confined_lineOn
    by_cases hd : d = c
    · subst hd
      have hself : (s.lineOn d).ch d =
          { s.ch d with lastlvl := some ((s.map d).active true), st := .on } := by
        rw [lineOn, setCh_self, pinActive, pinLevel_self]
        rfl
      refine (hr d).same hconf ⟨congrFun lineOn_left.1 d, congrFun lineOn_left.2 d⟩ ?_ ?_ ?_
      · rw [hself]
        exact ⟨rfl, rfl⟩
      · rw [hself]
        intros; contradiction
      · rw [hself]
        intros; contradiction
    · exact (hr d).confined hconf hd
  | keylineOff c hc hlag _ =>
    have hconf := confined_keylineOff (hw.sequences c)
    by_cases hd : d = c
    · subst hd
      have hself := keylineOff_self fun k => hw.keyline_ne (c := d) (k := k)
      refine (hr d).same hconf (keylineOff_left hw) ?_ (fun _ => ?_) ?_
      · rw [hself]
        exact ⟨rfl, rfl⟩
      · rw [Chan.keyed, hlag]
        rfl
      · rw [hself]
        intros; contradiction
    · exact (hr d).confined hconf hd
  | releaseChannel c reason hc _ _ =>
    have hconf := confined_releaseChannel (hw.sequences c) reason
    by_cases hd : d = c
    · subst hd
      refine (hr d).released hconf ?_ ?_ ?_
      · rw [releaseChannel_self hw]
      · rw [releaseChannel_self hw]
      · rw [releaseChannel_self hw]
        rintro ⟨⟩
    · exact (hr d).confined hconf hd
  | keyUp c hc =>
    have hconf := confined_keyUp (hw.sequences c)
    by_cases hd : d = c
    · subst hd
      by_cases hkeyed : (s.ch d).keyed = true
      · obtain ⟨hoff, htOff⟩ := keyUp_off hw hkeyed
        refine (hr d).released hconf hoff htOff fun hlead => ?_
        have hnot := keyUp_keyed (s := s) (c := d) hw
        rw [Chan.keyed, hlead] at hnot
        cases hnot
      · have hsame : s.keyUp d = s := if_neg hkeyed
        rw [hsame]
        exact hr d
    · exact (hr d).confined hconf hd
  | keyDown c hc halive hidle hoff hlong =>
    have hconf := confined_keyDown (hw.sequences c)
    by_cases hd : d = c
    · subst hd
      obtain ⟨hleft, hsame⟩ := keyDown_off (s := s) (c := d) hw
      refine (hr d).same hconf hleft hsame (fun _ => keyed_of_idle hidle) fun _ hptt n hn => ?_
      rw [keyDown_self.1]
      exact (hr d).ready hidle hoff (hlong hptt ⟨halive, hidle, hoff⟩) n hn
    · exact (hr d).confined hconf hd

/-! ### No line is raised too early -/

/-- The lines and keylines that an operation on a channel may assert are that channel's. -/
theorem eq_of_own (hw : Wired s.map) (hc : (s.map c).isPrimary = true) {b : Ch}
    (hown : s.Own c b) (hptt : (s.map d).func = .ptt) (h : b = d ∨ (s.map d).partner = some b) :
    d = c := by
  rcases hown with rfl | hk
  · rcases h with rfl | hd
    · rfl
    · rw [hw.not_primary hd] at hc
      cases hc
  · rcases h with rfl | hd
    · rw [(hw.partner c b hk).1] at hptt
      cases hptt
    · exact hw.partner_inj hd hk

theorem rested_of_falls (hw : Wired s.map) (hc : (s.map c).isPrimary = true) {e : Edge}
    (he : s.EdgeOf c e) (hfalls : Falls s.map c e) : e.Rested s.map := by
  intro d hptt hchan hactive
  have hfunc : (s.map e.chan).func ≠ .none := by
    rcases he.own with heq | hk
    · intro hnone
      rw [← heq, Entry.isPrimary, hnone] at hc
      cases hc
    · rw [(hw.partner c _ hk).1]
      decide
  exact absurd (hfalls.safe.symm.trans hactive) (hw.safe _ hfunc)

theorem rested_of_rises (hw : Wired s.map) (hc : (s.map c).isPrimary = true) {e : Edge}
    (he : s.EdgeOf c e) (hrises : Rises s.map s.left c e)
    (hlong : (s.map c).func = .ptt →
      ∀ n, s.left c = some n → n + (s.map c).minOff.toNat ≤ s.ms) : e.Rested s.map := by
  intro d hptt hchan _ n hn
  obtain rfl := eq_of_own hw hc he.own hptt hchan
  rw [he.time]
  exact hlong hptt n (hrises.left.symm.trans hn)

/-- An operation raises no line too early. -/
theorem rested_op (hs : s.Running) (h : Op restedRules s t) (hr : ∀ c, s.Rest c)
    (he : ∀ e ∈ s.edges, e.Rested s.map) : ∀ e ∈ t.edges, e.Rested t.map := by
  have hw := hs.wired
  have hfalls (c : Ch) (hc : (s.map c).isPrimary = true) (t : Engine) (hconf : Confined c s t)
      (hadds : Adds (Falls s.map c) s t) : ∀ e ∈ t.edges, e.Rested t.map := by
    rw [hconf.map]
    exact ((hconf.edges.and hadds).mono fun e h => rested_of_falls hw hc h.1 h.2).all he
  cases h with
  | notes h =>
    rw [h]
    exact he
  | clock => exact he
  | serveOff c hc =>
    have hconf : Confined c s (s.serveOff c) := confined_serveOff
    refine hfalls c hc _ hconf (.refl ?_)
    unfold serveOff
    split <;> rfl
  | lineOn c hc hlead _ =>
    have hconf : Confined c s (s.lineOn c) := confined_lineOn
    have hadds := rises_lineOn (c := c) hs.linked fun k hk => by
      have hlevel := (hs.phase c).keyline k hk
      rw [hlead] at hlevel
      exact ⟨hw.keyline_ne hk, hlevel⟩
    rw [hconf.map]
    refine ((hconf.edges.and hadds).mono fun e h => ?_).all he
    refine rested_of_rises hw hc h.1 h.2 fun hptt n hn => ?_
    exact Nat.le_trans ((hr c).led hlead hptt n hn) (hs.phase c).past
  | keylineOff c hc hlag _ =>
    have hline := (hs.phase c).line hc
    rw [hlag] at hline
    exact hfalls c hc _ (confined_keylineOff (hw.sequences c))
      (falls_keylineOff hw (hs.linked c) hline)
  | releaseChannel c reason hc _ _ =>
    exact hfalls c hc _ (confined_releaseChannel (hw.sequences c) reason)
      (falls_releaseChannel hs reason)
  | keyUp c hc => exact hfalls c hc _ (confined_keyUp (hw.sequences c)) (falls_keyUp hs)
  | keyDown c hc halive hidle hoff hlong =>
    have hconf := confined_keyDown (hw.sequences c)
    rw [hconf.map]
    refine ((hconf.edges.and (rises_keyDown hs hc hidle)).mono fun e h => ?_).all he
    refine rested_of_rises hw hc h.1 h.2 fun hptt n hn => ?_
    exact (hr c).ready hidle hoff (hlong hptt ⟨halive, hidle, hoff⟩) n hn

/-! ### Every state -/

/-- The lines left their active levels in the past. -/
def Past (s : Engine) : Prop := ∀ c n, s.left c = some n → n ≤ s.ms

theorem past_pinLevel {lvl : Level} (h : s.Past) : (s.pinLevel d lvl).Past := by
  intro c n hn
  rw [pinLevel_ms]
  rcases pinLevel_leaves c with heq | hnow
  · exact h c n (heq.symm.trans hn)
  · exact Nat.le_of_eq (Option.some.inj (hn.symm.trans hnow))

theorem past_clearMap (h : (s.ioReleaseAll .mapCleared).Past) : s.clearMap.Past := by
  have hclear : ((s.ioReleaseAll .mapCleared).forCh clearPin).Past := by
    refine forCh_kept (P := Past) (fun c t ht => ?_) h
    unfold clearPin
    split
    · exact past_pinLevel ht
    · exact ht
  exact hclear

/-- A channel that was not brought to its active level. -/
structure Unraised (s : Engine) : Prop where
  past : s.Past
  offValid : ∀ c, (s.ch c).offValid = false
  earlier : ∀ c, s.earlier c = true
  safe : ∀ c, (s.map c).func = .ptt → (s.map c).safe ≠ (s.map c).active true
  lastlvl : ∀ c, (s.ch c).lastlvl = none ∨ (s.ch c).lastlvl = some (s.map c).safe

/-- To bring a pin to its safe state releases no line that was not raised. -/
theorem Unraised.settlePin (h : s.Unraised) (c : Ch) : (s.settlePin c).Unraised := by
  unfold Engine.settlePin
  split
  next hfunc =>
    have hleaves : s.leaves c (s.ch c).safe = false := by
      by_contra hne
      have hleft := Bool.eq_true_of_not_eq_false hne
      simp only [leaves, Bool.and_eq_true, beq_iff_eq] at hleft
      obtain ⟨⟨hptt, hactive⟩, -⟩ := hleft
      rcases h.lastlvl c with hnone | hsafe
      · rw [hnone] at hactive
        cases hactive
      · exact h.safe c hptt (Option.some.inj (hsafe.symm.trans hactive))
    have hearlier : (s.pinSafe c).earlier = s.earlier := by
      by_cases heq : (s.ch c).lastlvl = some (s.ch c).safe
      · exact congrArg Engine.earlier (pinLevel_of_eq heq)
      · have hleft := (pinLevel_left heq).2
        rw [hleaves] at hleft
        exact hleft
    refine ⟨past_pinLevel h.past, fun d => ?_, fun d => ?_, fun d => ?_, fun d => ?_⟩
    · by_cases hd : d = c
      · subst hd
        rw [pinSafe, pinLevel_self]
        exact h.offValid d
      · rw [pinSafe, pinLevel_other hd]
        exact h.offValid d
    · rw [hearlier]
      exact h.earlier d
    · rw [pinSafe, pinLevel_map]
      exact h.safe d
    · by_cases hd : d = c
      · subst hd
        rw [pinSafe, pinLevel_map, pinLevel_self]
        exact .inr rfl
      · rw [pinSafe, pinLevel_map, pinLevel_other hd]
        exact h.lastlvl d
  next => exact h

/-- The off times of all lines, and the edges, in every state. -/
structure Resting (s : Engine) : Prop where
  past : s.Past
  fresh : s.mapState ≠ .valid → ∀ c, (s.ch c).offValid = false ∧ s.earlier c = true
  rest : s.mapState = .valid → ∀ c, s.Rest c
  edges : s.mapState = .valid → ∀ e ∈ s.edges, e.Rested s.map

theorem resting_clearMap (h : (s.ioReleaseAll .mapCleared).Past) : s.clearMap.Past ∧
    ∀ c, (s.clearMap.ch c).offValid = false ∧ s.clearMap.earlier c = true := by
  refine ⟨past_clearMap h, fun c => ⟨?_, rfl⟩⟩
  obtain ⟨ch, hch⟩ := clearMap_chan (s := s) c
  rw [hch]
  rfl

theorem resting_settle (hw : Wired s.map) (hblank : s.Blank) (hpast : s.Past)
    (hfresh : ∀ c, (s.ch c).offValid = false ∧ s.earlier c = true) : s.settle.Resting := by
  have hsafe (c : Ch) (hptt : (s.map c).func = .ptt) : (s.map c).safe ≠ (s.map c).active true :=
    hw.safe c (by rw [hptt]; decide)
  have hunraised : ({ s with mapState := .valid, edges := [] }.forCh settlePin).Unraised :=
    forCh_kept (fun c _ h => h.settlePin c)
      ⟨hpast, fun c => (hfresh c).1, fun c => (hfresh c).2, hsafe, fun c => .inl (hblank.lastlvl c)⟩
  have hsettles : Settles { s with mapState := .valid, edges := [] } s.settle := settles_settle
  refine ⟨hunraised.past, fun hnot => absurd hsettles.frame.2.2.2.2 hnot,
    fun _ c => ⟨hunraised.past c, fun hoff => ?_, fun _ _ hlater => ?_, fun hlead => ?_⟩, fun _ => nofun⟩
  · have hnot : (s.settle.ch c).offValid = false := hunraised.offValid c
    rw [hnot] at hoff
    cases hoff
  · have hearlier : s.settle.earlier c = true := hunraised.earlier c
    rw [hearlier] at hlater
    cases hlater
  · have hidle : (s.settle.ch c).st = .idle := (hsettles.idle c).trans (hblank.idle c)
    rw [hidle] at hlead
    cases hlead

theorem resting_next (hs : s.Governed) (hr : s.Resting) (hok : s.Rested i) :
    (next s i).Resting := by
  rcases next_cases restedRules hs i hok (fun _ _ => trivial) with
    ⟨-, hnext⟩ | ⟨-, hvalid, hsteps⟩ | ⟨-, hvalid, hquiet⟩ | ⟨-, t, hcommit, hnext⟩
  · have hreleased : (s.ioReleaseAll .mapCleared).Past := by
      by_cases hvalid : s.mapState = .valid
      · have hsteps : Steps restedRules s (s.ioReleaseAll .mapCleared) :=
          steps_ioReleaseAll nofun trivial
        have hrest := (hsteps.kept (P := fun t => ∀ c, t.Rest c)
          (fun _ _ ht hP hop => rest_op ht hop hP) (hs.running hvalid) (hr.rest hvalid)).2
        exact fun c => (hrest c).past
      · rw [ioReleaseAll_of_blank (hs.blank hvalid)]
        exact hr.past
    obtain ⟨hpast, hfresh⟩ := resting_clearMap hreleased
    rw [hnext]
    exact ⟨hpast, fun _ => hfresh, nofun, nofun⟩
  · have hkept := hsteps.kept
      (P := fun t => (∀ c, t.Rest c) ∧ ∀ e ∈ t.edges, e.Rested t.map)
      (fun _ _ ht hP hop => ⟨rest_op ht hop hP.1, rested_op ht hop hP.1 hP.2⟩) (hs.running hvalid)
      ⟨hr.rest hvalid, hr.edges hvalid⟩
    have hnow := (hsteps.frame (hs.running hvalid)).2.mapState.trans hvalid
    exact ⟨fun c => (hkept.2.1 c).past, fun hnot => absurd hnow hnot, fun _ => hkept.2.1,
      fun _ => hkept.2.2⟩
  · have hnot : (next s i).mapState ≠ .valid := fun h => hvalid (hquiet.mapState.symm.trans h)
    refine ⟨fun c n hn => ?_, fun _ c => ?_, fun h => absurd h hnot, fun h => absurd h hnot⟩
    · rw [hquiet.left.1] at hn
      exact Nat.le_trans (hr.past c n hn) hquiet.ms
    · rw [hquiet.chan c, hquiet.left.2]
      exact hr.fresh hvalid c
  · have hquiet := hcommit.loads.quiet
    have hloading : s.mapState ≠ .valid := by
      rw [hcommit.loading]
      decide
    rw [hnext]
    refine resting_settle hcommit.wired (hquiet.blank (hs.blank hloading)) (fun c n hn => ?_)
      fun c => ?_
    · rw [hquiet.left.1] at hn
      exact Nat.le_trans (hr.past c n hn) hquiet.ms
    · rw [hquiet.chan c, hquiet.left.2]
      exact hr.fresh hloading c

theorem resting_of_reach (h : machine.Reach Rested s) : s.Resting := by
  refine h.invariant_with (fun h => governed_of_reachable h.reachable) (fun s hs => ?_)
    (fun s i t hg hr hok hst => ?_)
  · obtain ⟨latch, rfl⟩ := hs
    rw [appInit_eq]
    have hreleased : ((started latch).ioReleaseAll .mapCleared).Past := by
      rw [ioReleaseAll_of_blank (blank_started latch)]
      exact nofun
    obtain ⟨hpast, hfresh⟩ := resting_clearMap hreleased
    exact ⟨hpast, fun _ => hfresh, nofun, nofun⟩
  · obtain rfl := Option.some.inj hst
    exact resting_next hg hr hok

/-- A key-down that is accepted. -/
theorem next_downs (hvalid : s.mapState = .valid) (hc : (s.map c).isPrimary = true)
    (hraises : s.Raises c) (hi : i.downs c) : next s i = s.keyDown c := by
  obtain ⟨halive, hidle, hoff⟩ := hraises
  cases i with
  | request bm req value index =>
    obtain ⟨rfl, rfl, hpin, hdown⟩ := hi
    have hkey : next s (.request 0x40 0x15 value index) =
        (s.ioKey (value.truncate 8) (index.truncate 8)).2 := rfl
    have hprimary : ¬ (!(s.ch c).isPrimary) = true := by
      rw [map] at hc
      simp [hc]
    have hkeyed : ¬ (s.ch c).keyed = true := by
      rw [keyed_of_idle hidle]
      rintro ⟨⟩
    have halive : ¬ (!s.alive) = true := by simp [halive]
    have hlag : ¬ (s.ch c).st = .lag := by
      rw [hidle]
      rintro ⟨⟩
    rw [hkey, ioKey, if_neg (not_not_intro hvalid), hpin]
    dsimp only
    rw [if_neg hprimary, if_neg hdown, if_neg hkeyed, if_neg halive, if_neg hlag]
    exact congrArg Prod.snd (if_neg hoff)
  | usbReset => exact hi.elim
  | usbSuspend => exact hi.elim
  | tick => exact hi.elim

/-- An accepted key-down asserts the keyline of a channel, or its line. -/
theorem exists_raise (hs : s.Running) (hc : (s.map c).isPrimary = true)
    (hidle : (s.ch c).st = .idle) : ∃ e ∈ (s.keyDown c).edges,
      (e.chan = c ∨ (s.map c).partner = some e.chan) ∧ e.level = (s.map e.chan).active true ∧
      e.left c = s.left c ∧ e.time = s.ms := by
  have hw := hs.wired
  have hmarked : (s.markKey c).ch c = { s.ch c with tMark := s.now16, tPhase := s.now16 } :=
    Function.update_self ..
  have hon (t : Engine) (e : Edge) (he : e ∈ t.edges) : e ∈ (t.lineOn c).edges := by
    obtain ⟨new, hnew, -⟩ := (confined_lineOn (s := t) (c := c)).edges
    rw [hnew]
    exact List.mem_append_right _ he
  unfold keyDown
  dsimp only
  split
  next k hk =>
    have hk : (s.map c).partner = some k := by rwa [hmarked] at hk
    have hne := hw.keyline_ne hk
    have hmarkk : (s.markKey c).ch k = s.ch k := Function.update_of_ne hne ..
    have hfunc : (s.map k).func ≠ .none := by
      rw [(hw.partner c k hk).1]
      decide
    have hlevel := (hs.phase c).keyline k hk
    rw [if_pos hidle] at hlevel
    have hnew : ((s.markKey c).ch k).lastlvl ≠ some (((s.markKey c).ch k).active true) := by
      rw [hmarkk, hlevel]
      exact fun h => hw.safe k hfunc (Option.some.inj h)
    have hedge := pinLevel_edges hnew
    have hmem : (⟨s.ms, k, ((s.markKey c).ch k).active true, s.port,
        ((s.markKey c).pinActive k true).port, s.left⟩ : Edge) ∈
        ((s.markKey c).pinActive k true).edges := by
      rw [pinActive, hedge]
      exact .head _
    have hactive : ((s.markKey c).ch k).active true = (s.map k).active true := by
      rw [hmarkk]
      rfl
    split
    · exact ⟨_, hmem, .inr hk, hactive, rfl, rfl⟩
    · exact ⟨_, hon _ _ hmem, .inr hk, hactive, rfl, rfl⟩
  next =>
    have hfunc : (s.map c).func ≠ .none := by
      intro hnone
      rw [Entry.isPrimary, hnone] at hc
      cases hc
    have hline := (hs.phase c).line hc
    rw [hidle] at hline
    have hactive : ((s.markKey c).ch c).active true = (s.map c).active true := by
      rw [hmarked]
      rfl
    have hnew : ((s.markKey c).ch c).lastlvl ≠ some (((s.markKey c).ch c).active true) := by
      rw [hactive, hmarked]
      exact fun h => hw.safe c hfunc (Option.some.inj (hline.symm.trans h))
    have hedge := pinLevel_edges hnew
    refine ⟨⟨s.ms, c, ((s.markKey c).ch c).active true, s.port,
      ((s.markKey c).pinActive c true).port, s.left⟩, ?_, .inl rfl, hactive, rfl, rfl⟩
    show _ ∈ ((s.markKey c).pinActive c true).edges
    rw [pinActive, hedge]
    exact .head _

/-- As long as no accepted key-down is too early for a release under an earlier map, no line is
raised, and no keyline asserted, less than the minimum off time after the line last left its active
level; and a key-down that is too early for one does raise a line too early. -/
theorem min_off_iff (h : machine.Reach Rested s) (hvalid : s.mapState = .valid) :
    (∀ e ∈ s.edges, e.Rested s.map) ∧
    ∀ i : Input, ¬ i.begins → ((∀ e ∈ (next s i).edges, e.Rested s.map) ↔ s.Rested i) := by
  have hs := governed_of_reachable h.reachable
  have hrun := hs.running hvalid
  have hr := resting_of_reach h
  refine ⟨hr.edges hvalid, fun i hi => ⟨fun hall _ c hdown hptt hraises _ n hn => ?_, fun hok => ?_⟩⟩
  · have hc : (s.map c).isPrimary = true := by
      rw [Entry.isPrimary, hptt]
      rfl
    obtain ⟨e, he, hown, hactive, hleft, htime⟩ := exists_raise hrun hc hraises.2.1
    rw [next_downs hvalid hc hraises hdown] at hall
    rw [← htime]
    exact hall e he c hptt hown hactive n (hleft.trans hn)
  · have hsteps : Steps .any s (next s i) :=
      steps_next hrun hvalid hi (fun _ _ => trivial) fun _ _ => trivial
    obtain ⟨-, hframe⟩ := hsteps.frame hrun
    have hedges := (resting_next hs hr hok).edges (hframe.mapState.trans hvalid)
    rwa [hframe.map] at hedges

instance (s : Engine) (c : Ch) : Decidable (s.OffLong c) := by
  have hiff : ((s.map c).func = .ptt → s.Raises c → s.earlier c = true →
      ∀ n ∈ s.left c, n + (s.map c).minOff.toNat ≤ s.ms) ↔ s.OffLong c := Iff.rfl
  unfold Raises at hiff
  exact decidable_of_iff _ hiff

instance (s : Engine) (i : Input) : Decidable (s.Rested i) := by
  unfold Rested
  infer_instance

theorem min_off_released :
    (after (loadLines ++ keyLines 1 ++ [.tick, .tick, .request 0x40 0x15 0 0])).edges ≠ [] ∧
    ∀ e ∈ (after (loadLines ++ keyLines 1 ++ [.tick, .tick, .request 0x40 0x15 0 0])).edges,
      e.Rested (after (loadLines ++ keyLines 1 ++ [.tick, .tick, .request 0x40 0x15 0 0])).map :=
  ⟨by decide +kernel, (min_off_iff (reach_after (by decide +kernel)) (by decide +kernel)).1⟩

/-- A new map lets a line be keyed at once that went off under the map before. -/
theorem min_off_forgotten : ¬ ∀ s, machine.Reachable s → s.mapState = .valid →
    ∀ e ∈ s.edges, e.Rested s.map := by
  intro hall
  let again := after (loadLines ++ keyLines 1 ++ [.tick, .tick, .request 0x40 0x15 0 0] ++
    loadLines ++ keyLines 1)
  have hvalid : again.mapState = .valid := by decide +kernel
  have hmap : (again.map 0).func = .ptt ∧ (again.map 0).partner = some 1 ∧
      (again.map 0).minOff.toNat = 100 := by decide +kernel
  obtain ⟨e, he, hchan, hactive, hleft, htime⟩ : ∃ e ∈ again.edges, e.chan = 1 ∧
      e.level = (again.map e.chan).active true ∧ e.left 0 = some 2 ∧ e.time = 2 := by
    decide +kernel
  have hrested := hall again (reachable_after _) hvalid e he 0 hmap.1
    (.inr (hchan ▸ hmap.2.1)) hactive 2 hleft
  rw [hmap.2.2, htime] at hrested
  omega

end Engine

end HamsOpen.StationIo
