import HamsOpen.StationIo.Map

/-!
# The phases of a channel

While a map is valid, the lines of a channel are where its state says: its line is active only in
state on, and its keyline unless the channel is idle. The times that the engine has of a keyed
channel are those of its key-down.
-/

namespace HamsOpen.StationIo

/-- Since when the pin of a channel has been at a level without a break, as the edges tell. -/
def since (lvl : Level) (k : Ch) : List Edge → Option Nat
  | [] => none
  | e :: es => if e.after.level k = lvl then some ((since lvl k es).getD e.time) else none

theorem since_append {lvl : Level} {k : Ch} {t : Nat} {new old : List Edge}
    (hnew : ∀ e ∈ new, e.after.level k = lvl) (hold : since lvl k old = some t) :
    since lvl k (new ++ old) = some t := by
  induction new with
  | nil => exact hold
  | cons e new ih =>
    have hrest := ih fun e he => hnew e (List.mem_cons_of_mem _ he)
    rw [List.cons_append, since, if_pos (hnew e List.mem_cons_self), hrest, Option.getD_some]

namespace Engine

variable {s t : Engine} {c d k : Ch} {lvl : Level}

/-- A pin at another level has not been at a level. -/
theorem since_none (h : s.Traced) (hne : s.port.level k ≠ lvl) : since lvl k s.edges = none := by
  cases hedges : s.edges with
  | nil => rfl
  | cons e es =>
    have hport := h e (by rw [hedges, List.head?_cons])
    rw [since, hport, if_neg hne]

/-- What the state of a channel says of its lines and times. -/
structure Phase (s : Engine) (c : Ch) : Prop where
  idle : (s.map c).isPrimary = false → (s.ch c).st = .idle
  line : (s.map c).isPrimary = true →
    (s.ch c).lastlvl = some (if (s.ch c).st = .on then (s.map c).active true else (s.map c).safe)
  keyline : ∀ k, (s.map c).partner = some k → (s.ch k).lastlvl =
    some (if (s.ch c).st = .idle then (s.map k).safe else (s.map k).active true)
  past : s.raised c ≤ s.ms
  mark : (s.ch c).keyed = true → (s.ch c).tMark = BitVec.ofNat 16 (s.raised c)
  phase : (s.ch c).st = .lead → (s.ch c).tPhase = BitVec.ofNat 16 (s.raised c)
  led : (s.ch c).st = .on → s.raised c + (s.map c).lead.toNat ≤ s.ms
  held : (s.ch c).keyed = true → ∀ k, (s.map c).partner = some k →
    since ((s.map k).active true) k s.edges = some (s.raised c)

/-- The engine with a valid map. -/
structure Running (s : Engine) : Prop where
  wired : Wired s.map
  linked : ∀ c, s.Linked c
  traced : s.Traced
  phase : ∀ c, s.Phase c

/-- An operation on a channel leaves the phases of the others. -/
theorem Phase.confined (h : Confined c s t) (hs : s.Running) (hc : (s.map c).isPrimary = true)
    (hd : d ≠ c) : t.Phase d := by
  have hp : s.Phase d := hs.phase d
  have hlevel := h.level d hd
  have hst : (t.ch d).st = (s.ch d).st := by rw [hlevel]
  have hkeyed : (t.ch d).keyed = (s.ch d).keyed := by rw [Chan.keyed, Chan.keyed, hst]
  have htMark : (t.ch d).tMark = (s.ch d).tMark := by rw [hlevel]
  have htPhase : (t.ch d).tPhase = (s.ch d).tPhase := by rw [hlevel]
  -- what the channel has is not what the other drives
  have hother (hprimary : (s.map d).isPrimary = true) : ¬ s.Own c d := by
    rintro (heq | hk)
    · exact hd heq
    · rw [hs.wired.not_primary hk] at hprimary
      cases hprimary
  have hkeyline {k : Ch} (hk : (s.map d).partner = some k) : ¬ s.Own c k := by
    rintro (rfl | hck)
    · rw [hs.wired.not_primary hk] at hc
      cases hc
    · exact hd (hs.wired.partner_inj hk hck)
  constructor
  · rw [h.map, hst]
    exact hp.idle
  · intro hprimary
    rw [h.map] at hprimary ⊢
    rw [h.other d (hother hprimary)]
    exact hp.line hprimary
  · intro k hk
    rw [h.map] at hk ⊢
    rw [hst, h.other k (hkeyline hk)]
    exact hp.keyline k hk
  · rw [h.raised d hd, h.ms]
    exact hp.past
  · rw [hkeyed, htMark, h.raised d hd]
    exact hp.mark
  · rw [hst, htPhase, h.raised d hd]
    exact hp.phase
  · rw [hst, h.raised d hd, h.map, h.ms]
    exact hp.led
  · intro hon k hk
    rw [hkeyed] at hon
    rw [h.map] at hk ⊢
    obtain ⟨new, hnew, hof⟩ := h.edges
    rw [hnew, h.raised d hd]
    refine since_append (fun e he => ?_) (hp.held hon k hk)
    have hidle : (s.ch d).st ≠ .idle := by
      intro heq
      rw [Chan.keyed, heq] at hon
      cases hon
    have hlvl := hp.keyline k hk
    rw [if_neg hidle] at hlvl
    obtain ⟨hport, hlatched⟩ := hs.linked k _ hlvl
    have hapart : s.Apart c (boardChanPin k) :=
      fun b hb heq => hkeyline hk (boardChanPin_inj heq ▸ hb)
    exact ((hof e he).apart _ hlatched hapart).trans hport

/-! ### The channel itself -/

@[simp] theorem setCh_self (f : Chan → Chan) : (s.setCh c f).ch c = f (s.ch c) :=
  Function.update_self ..

theorem pinLevel_self : (s.pinLevel c lvl).ch c = { s.ch c with lastlvl := some lvl } := by
  rw [pinLevel_ch, Function.update_self]

theorem pinLevel_other (h : c ≠ d) : (s.pinLevel d lvl).ch c = s.ch c := by
  rw [pinLevel_ch, Function.update_of_ne h]

/-- A channel whose lines are at their safe states is idle. -/
theorem Phase.of_idle (hst : (s.ch c).st = .idle) (hpast : s.raised c ≤ s.ms)
    (hline : (s.map c).isPrimary = true → (s.ch c).lastlvl = some (s.map c).safe)
    (hkeyline : ∀ k, (s.map c).partner = some k → (s.ch k).lastlvl = some (s.map k).safe) :
    s.Phase c where
  idle _ := hst
  line hc := by
    rw [hst]
    exact hline hc
  keyline k hk := by
    rw [hst]
    exact hkeyline k hk
  past := hpast
  mark hkeyed := by
    rw [Chan.keyed, hst] at hkeyed
    cases hkeyed
  phase hlead := by
    rw [hst] at hlead
    cases hlead
  led hon := by
    rw [hst] at hon
    cases hon
  held hkeyed := by
    rw [Chan.keyed, hst] at hkeyed
    cases hkeyed

/-! ### Its line and its keyline go off -/

theorem pinSafe?_self (h : ∀ k, (s.map c).partner = some k → k ≠ c) :
    (s.pinSafe? (s.map c).partner).ch c = s.ch c := by
  cases hk : (s.map c).partner with
  | none => rfl
  | some k => exact pinLevel_other (h k hk).symm

theorem pinSafe?_keyline (hk : (s.map c).partner = some k) :
    ((s.pinSafe? (s.map c).partner).ch k).lastlvl = some (s.map k).safe := by
  rw [hk]
  simp only [pinSafe?, pinSafe, pinLevel_self]
  rfl

theorem pinSafe?_raised (o : Option Ch) : (s.pinSafe? o).raised = s.raised := by
  cases o with
  | none => rfl
  | some k => exact pinLevel_raised

theorem keylineOff_self (h : ∀ k, (s.map c).partner = some k → k ≠ c) :
    (s.keylineOff c).ch c = { s.ch c with st := .idle } := by
  have hself : (s.pinSafe? (s.ch c).partner).ch c = s.ch c := pinSafe?_self h
  rw [keylineOff, setCh_self, hself]

theorem keylineOff_keyline (hk : (s.map c).partner = some k) (hne : k ≠ c) :
    ((s.keylineOff c).ch k).lastlvl = some (s.map k).safe := by
  rw [keylineOff, setCh_ch, Function.update_of_ne hne]
  exact pinSafe?_keyline hk

theorem keylineOff_raised : (s.keylineOff c).raised = s.raised := pinSafe?_raised _

theorem phase_keylineOff (hw : Wired s.map) (hpast : s.raised c ≤ s.ms)
    (hline : (s.map c).isPrimary = true → (s.ch c).lastlvl = some (s.map c).safe) :
    (s.keylineOff c).Phase c := by
  have hconf := confined_keylineOff (hw.sequences c)
  have hself := keylineOff_self fun k => hw.keyline_ne (c := c) (k := k)
  apply Phase.of_idle
  · rw [hself]
  · rw [keylineOff_raised, hconf.ms]
    exact hpast
  · rw [hconf.map, hself]
    exact hline
  · intro k hk
    rw [hconf.map] at hk ⊢
    exact keylineOff_keyline hk (hw.keyline_ne hk)

theorem releaseChannel_ch (reason : Release) :
    (s.releaseChannel reason c).ch = (((s.pinSafe c).keylineOff c).stampOff c).ch := by
  unfold releaseChannel
  split <;> rfl

theorem releaseChannel_raised (reason : Release) :
    (s.releaseChannel reason c).raised = s.raised := by
  have hoff : (((s.pinSafe c).keylineOff c).stampOff c).raised = s.raised :=
    keylineOff_raised.trans pinLevel_raised
  unfold releaseChannel
  split <;> exact hoff

theorem releaseChannel_self (hw : Wired s.map) (reason : Release) :
    (s.releaseChannel reason c).ch c =
      { s.ch c with
        lastlvl := some (s.map c).safe, st := .idle, tOff := s.now16, offValid := true } := by
  have hsafe : Confined c s (s.pinSafe c) := confined_self
  have hms : ((s.pinSafe c).keylineOff c).ms = s.ms :=
    (hsafe.trans (confined_keylineOff (hsafe.sequences (hw.sequences c)))).ms
  have hself : ((s.pinSafe c).keylineOff c).ch c = { (s.pinSafe c).ch c with st := .idle } :=
    keylineOff_self fun k hk => hw.keyline_ne (by rwa [hsafe.map] at hk)
  have hnow : ((s.pinSafe c).keylineOff c).now16 = s.now16 := by rw [now16, hms, now16]
  rw [releaseChannel_ch, stampOff, setCh_self, hself, hnow, pinSafe, pinLevel_self]
  rfl

theorem releaseChannel_keyline (hw : Wired s.map) (reason : Release)
    (hk : (s.map c).partner = some k) :
    ((s.releaseChannel reason c).ch k).lastlvl = some (s.map k).safe := by
  have hsafe : (s.pinSafe c).map = s.map := pinLevel_map
  have hne := hw.keyline_ne hk
  rw [releaseChannel_ch, stampOff, setCh_ch, Function.update_of_ne hne, ← hsafe]
  rw [← hsafe] at hk
  exact keylineOff_keyline hk hne

theorem phase_releaseChannel (hw : Wired s.map) (hpast : s.raised c ≤ s.ms) (reason : Release) :
    (s.releaseChannel reason c).Phase c := by
  have hconf := confined_releaseChannel (hw.sequences c) reason
  have hself := releaseChannel_self hw reason (c := c)
  apply Phase.of_idle
  · rw [hself]
  · rw [releaseChannel_raised, hconf.ms]
    exact hpast
  · intro _
    rw [hconf.map, hself]
  · intro k hk
    rw [hconf.map] at hk ⊢
    exact releaseChannel_keyline hw reason hk

theorem phase_keyUp (hs : s.Running) (hc : (s.map c).isPrimary = true) : (s.keyUp c).Phase c := by
  have hw := hs.wired
  have hp : s.Phase c := hs.phase c
  by_cases hkeyed : (s.ch c).keyed = true
  · -- the line is off, and the keyline still on
    let off := ((s.pinSafe c).stampOff c).logRelease .host c
    have hoff : Confined c s off :=
      (confined_self.trans confined_stampOff).trans (confined_logRelease .host)
    have hself : off.ch c = { s.ch c with
        lastlvl := some (s.map c).safe, tOff := (s.pinSafe c).now16, offValid := true } := by
      have hstamp : off.ch c = ((s.pinSafe c).stampOff c).ch c := rfl
      rw [hstamp, stampOff, setCh_self, pinSafe, pinLevel_self]
      rfl
    have hraised : off.raised = s.raised := pinLevel_raised
    have hpast : off.raised c ≤ off.ms := by
      rw [hraised, hoff.ms]
      exact hp.past
    have hline : (off.ch c).lastlvl = some (off.map c).safe := by rw [hself, hoff.map]
    rw [keyUp, if_pos hkeyed]
    dsimp only
    split
    · have hlag : Confined c off (off.setCh c fun ch => { ch with st := .lag, tPhase := off.now16 }) :=
        confined_setCh rfl rfl
      have hlagSelf : ((off.setCh c fun ch => { ch with st := .lag, tPhase := off.now16 }).ch c) =
          { off.ch c with st := .lag, tPhase := off.now16 } := setCh_self _
      constructor
      · intro hnot
        rw [hlag.map, hoff.map] at hnot
        rw [hnot] at hc
        cases hc
      · intro _
        rw [hlagSelf, hlag.map]
        exact hline
      · intro k hk
        rw [hlagSelf, hlag.map] at *
        have hne := hw.keyline_ne (hoff.map ▸ hk)
        have hlevel := hp.keyline k (hoff.map ▸ hk)
        have hidle : (s.ch c).st ≠ .idle := by
          intro heq
          rw [Chan.keyed, heq] at hkeyed
          cases hkeyed
        rw [if_neg hidle] at hlevel
        rw [setCh_ch, Function.update_of_ne hne, hoff.map]
        have hstay : off.ch k = s.ch k := by
          have hstamp : off.ch k = ((s.pinSafe c).stampOff c).ch k := rfl
          rw [hstamp, stampOff, setCh_ch, Function.update_of_ne hne, pinSafe, pinLevel_other hne]
        rw [hstay]
        exact hlevel
      · exact hpast
      · intro hon
        rw [hlagSelf] at hon
        cases hon
      · intro hlead
        rw [hlagSelf] at hlead
        cases hlead
      · intro hon
        rw [hlagSelf] at hon
        cases hon
      · intro hon
        rw [hlagSelf] at hon
        cases hon
    · exact phase_keylineOff (hoff.map ▸ hw) hpast fun _ => hline
  · rw [keyUp, if_neg hkeyed]
    exact hp

/-! ### Its keyline and its line go on -/

/-- A pin that has been at a level stays there while another is brought to one. -/
theorem since_pinLevel_other {n : Nat} {l : Level} (hlinked : s.Linked k)
    (hlvl : (s.ch k).lastlvl = some l) (hne : k ≠ c) (hsince : since l k s.edges = some n) :
    since l k (s.pinLevel c lvl).edges = some n := by
  by_cases heq : (s.ch c).lastlvl = some lvl
  · rw [pinLevel_of_eq heq]
    exact hsince
  · rw [pinLevel_edges heq]
    obtain ⟨hport, hlatched⟩ := hlinked l hlvl
    have hpin : boardChanPin k ≠ boardChanPin c := fun h => hne (boardChanPin_inj h)
    rw [← List.singleton_append]
    refine since_append (fun e he => ?_) hsince
    rw [List.mem_singleton.mp he]
    exact (pin_pinLevel hpin hlatched).1.trans hport

/-- A pin that is brought to a level it was not at has been there since now. -/
theorem since_pinLevel_self {l : Level} (htraced : s.Traced) (hlinked : s.Linked k)
    (hlvl : (s.ch k).lastlvl = some l) (hne : l ≠ lvl) :
    since lvl k (s.pinLevel k lvl).edges = some s.ms := by
  have hnew : (s.ch k).lastlvl ≠ some lvl := by
    rw [hlvl]
    exact fun h => hne (Option.some.inj h)
  have hport : s.port.level k ≠ lvl := (hlinked l hlvl).1.symm ▸ hne
  have hself : (s.pinLevel k lvl).port.level k = lvl := by
    rw [(pinLevel_registers hnew).1]
    exact drivePin_self.1
  rw [pinLevel_edges hnew, since, if_pos hself, since_none htraced hport]
  rfl

/-- The line of a channel goes on when its keyline has led for its time. -/
theorem phase_lineOn (hc : (s.map c).isPrimary = true) (hlinked : ∀ k, s.Linked k)
    (hmark : (s.ch c).tMark = BitVec.ofNat 16 (s.raised c))
    (hled : s.raised c + (s.map c).lead.toNat ≤ s.ms)
    (hkey : ∀ k, (s.map c).partner = some k → k ≠ c ∧
      (s.ch k).lastlvl = some ((s.map k).active true) ∧
      since ((s.map k).active true) k s.edges = some (s.raised c)) : (s.lineOn c).Phase c := by
  have hconf : Confined c s (s.lineOn c) := confined_lineOn
  have hself : (s.lineOn c).ch c =
      { s.ch c with lastlvl := some ((s.map c).active true), st := .on } := by
    rw [lineOn, setCh_self, pinActive, pinLevel_self]
    rfl
  have hraised : (s.lineOn c).raised = s.raised := pinLevel_raised
  have hedges : (s.lineOn c).edges = (s.pinLevel c ((s.map c).active true)).edges := rfl
  constructor
  · intro hnot
    rw [hconf.map, hc] at hnot
    cases hnot
  · intro _
    rw [hself, hconf.map]
    rfl
  · intro k hk
    rw [hconf.map] at hk ⊢
    obtain ⟨hne, hlvl, -⟩ := hkey k hk
    rw [hself, lineOn, setCh_ch, Function.update_of_ne hne, pinActive, pinLevel_other hne, hlvl]
    rfl
  · rw [hraised, hconf.ms]
    exact Nat.le_trans (Nat.le_add_right _ _) hled
  · intro _
    rw [hself, hraised]
    exact hmark
  · intro hlead
    rw [hself] at hlead
    cases hlead
  · intro _
    rw [hraised, hconf.map, hconf.ms]
    exact hled
  · intro _ k hk
    rw [hconf.map] at hk ⊢
    obtain ⟨hne, hlvl, hsince⟩ := hkey k hk
    rw [hedges, hraised]
    exact since_pinLevel_other (hlinked k) hlvl hne hsince

theorem phase_keyDown (hs : s.Running) (hc : (s.map c).isPrimary = true)
    (hidle : (s.ch c).st = .idle) : (s.keyDown c).Phase c := by
  have hw := hs.wired
  have hmark : Confined c s (s.markKey c) := confined_markKey
  have hmarked : (s.markKey c).ch c = { s.ch c with tMark := s.now16, tPhase := s.now16 } :=
    Function.update_self ..
  have hraised : (s.markKey c).raised c = s.ms := Function.update_self ..
  unfold keyDown
  dsimp only
  split
  next k hk =>
    have hk : (s.map c).partner = some k := by rwa [hmarked] at hk
    have hne := hw.keyline_ne hk
    -- the keyline leaves its safe state now
    let led := (s.markKey c).pinActive k true
    have hkey : Confined c (s.markKey c) led :=
      confined_keyline (hmark.sequences (hw.sequences c)) (hmark.map ▸ hk)
    have hled : Confined c s led := hmark.trans hkey
    have hmarkk : (s.markKey c).ch k = s.ch k := Function.update_of_ne hne ..
    have hself : led.ch c = { s.ch c with tMark := s.now16, tPhase := s.now16 } := by
      rw [← hmarked]
      exact pinLevel_other hne.symm
    have hkeyline : (led.ch k).lastlvl = some ((s.map k).active true) := by
      simp only [led, pinActive, pinLevel_self, hmarkk]
      rfl
    have hledRaised : led.raised c = s.ms := (congrFun pinLevel_raised c).trans hraised
    have hsince : since ((s.map k).active true) k led.edges = some s.ms := by
      have hsafe : ((s.markKey c).ch k).lastlvl = some (s.map k).safe := by
        have hlevel := (hs.phase c).keyline k hk
        rw [if_pos hidle] at hlevel
        rw [hmarkk]
        exact hlevel
      have hfunc : (s.map k).func ≠ .none := by
        rw [(hw.partner c k hk).1]
        decide
      have hactive : ((s.markKey c).ch k).active true = (s.map k).active true := by
        rw [hmarkk]
        rfl
      simp only [led, pinActive, hactive]
      exact since_pinLevel_self (hmark.traced hs.traced) (hmark.linked hs.linked k) hsafe
        (hw.safe k hfunc)
    split
    · have hconf : Confined c s (led.setCh c fun ch => { ch with st := .lead }) :=
        hled.trans (confined_setCh rfl rfl)
      have hlead : (led.setCh c fun ch => { ch with st := .lead }).ch c =
          { s.ch c with tMark := s.now16, tPhase := s.now16, st := .lead } := by
        rw [setCh_self, hself]
      have hnow : s.now16 = BitVec.ofNat 16 (led.raised c) := by rw [hledRaised, now16]
      constructor
      · intro hnot
        rw [hconf.map, hc] at hnot
        cases hnot
      · intro _
        have hline := (hs.phase c).line hc
        rw [hidle] at hline
        rw [hlead, hconf.map]
        exact hline
      · intro b hb
        rw [hconf.map] at hb ⊢
        obtain rfl : k = b := Option.some.inj (hk.symm.trans hb)
        rw [hlead, setCh_ch, Function.update_of_ne hne]
        exact hkeyline
      · rw [hconf.ms]
        exact Nat.le_of_eq hledRaised
      · intro _
        rw [hlead]
        exact hnow
      · intro _
        rw [hlead]
        exact hnow
      · intro hon
        rw [hlead] at hon
        cases hon
      · intro _ b hb
        rw [hconf.map] at hb ⊢
        obtain rfl : k = b := Option.some.inj (hk.symm.trans hb)
        exact hsince.trans (congrArg some hledRaised.symm)
    next hzero =>
      have hzero : (s.map c).lead = 0 := by
        have hnot : led.map c = s.map c := congrFun hled.map c
        rw [← hnot]
        exact not_not.mp hzero
      apply phase_lineOn
      · rw [hled.map]
        exact hc
      · exact hled.linked hs.linked
      · rw [hself, hledRaised]
        rfl
      · rw [hledRaised, hled.map, hled.ms, hzero]
        exact Nat.le_refl _
      · intro b hb
        rw [hled.map] at hb ⊢
        obtain rfl : k = b := Option.some.inj (hk.symm.trans hb)
        rw [hledRaised]
        exact ⟨hne, hkeyline, hsince⟩
  next hnone =>
    have hnone : (s.map c).partner = none := by rwa [hmarked] at hnone
    apply phase_lineOn
    · rw [hmark.map]
      exact hc
    · exact hmark.linked hs.linked
    · rw [hmarked, hraised]
      rfl
    · rw [hraised, hmark.map, hmark.ms, (hw.alone c hnone).1]
      exact Nat.le_refl _
    · intro k hk
      rw [hmark.map, hnone] at hk
      cases hk

end Engine

end HamsOpen.StationIo
