import HamsOpen.StationIo.Sequence
import Mathlib

/-!
# The pins that are driven

Two things drive pins of port A: the engine drives the pins of a map, and the host drives pins by
itself with a request that the engine does not know of. The releases of the engine leave the host's
pins driven. As long as the host has given up its own pins whenever the engine releases, or a map
becomes valid, the driven pins are those of the map.
-/

namespace HamsOpen.StationIo

/-- An edge changes the level of no other pin. -/
def Edge.Alone (e : Edge) : Prop :=
  ∀ pin, pin ≠ boardChanPin e.chan → e.after.pin pin = e.before.pin pin

/-- A loaded map that is accepted. -/
structure Complete (map : Ch → Entry) : Prop where
  mapped : ∃ c, (map c).func ≠ .none
  maxOn : ∀ c, (map c).func = .ptt → (map c).maxOn ≠ 0
  partner : ∀ c k, (map c).partner = some k →
    (map k).func = .keyline ∧ ∀ d, (map d).partner = some k → d = c
  alone : ∀ c, (map c).partner = none → (map c).lead = 0 ∧ (map c).lag = 0
  keyline : ∀ k, (map k).func = .keyline → ∃ c, (map c).partner = some k

namespace Engine

variable {s t u : Engine} {c d k : Ch} {pin : Nat} {lvl : Level} {R : Rules} {i : Input}

/-- A pin of port A is an output. -/
def Drives (s : Engine) (pin : Nat) : Prop := s.OEA.getLsbD pin = true

/-- Every pin that is driven is in the map, and no pin that goes to a driven safe state before it
changes its level. -/
def Yields (s : Engine) : Prop :=
  ∀ pin, s.Drives pin → ∃ c, pin = boardChanPin c ∧ (s.map c).func ≠ .none ∧
    ((∃ b, b < c ∧ (s.map b).func ≠ .none ∧ (s.map b).safe ≠ .released) → s.Latched pin)

/-- The host has given up the pins that it drives by itself, when everything is released and when a
map becomes valid. -/
def HandsOver (s : Engine) : Input → Prop
  | .usbReset | .usbSuspend => s.mapState ≠ .valid → s.OEA = 0
  | .tick => True
  | .request bm req _ _ => bm = 0x40 →
    (req = 0x10 → s.mapState ≠ .valid → s.OEA = 0) ∧
    (req = 0x14 → s.mapState = .loading → Complete s.map → s.Yields)

/-- The driven pins are those of the map. -/
structure Accounted (s : Engine) : Prop where
  ports : s.OEB = 0 ∧ s.OED = 0
  alone : ∀ e ∈ s.edges ++ s.settled, e.Alone
  mapped : s.mapState = .valid → ∀ pin, s.Drives pin →
    ∃ c, pin = boardChanPin c ∧ (s.map c).func ≠ .none
  latched : s.mapState = .valid → ∀ pin, s.Latched pin

theorem latched_of_not_drives (h : ¬ s.Drives pin) : s.Latched pin := fun hdriven => absurd hdriven h

theorem zero_getLsbD : (0 : U8).getLsbD pin = false := BitVec.getLsbD_zero

theorem not_drives_of_zero (h : s.OEA = 0) : ¬ s.Drives pin := by
  rw [Drives, h, zero_getLsbD]
  nofun

theorem drives_iff : s.Drives pin ↔ s.port.pin pin ≠ .released := by
  unfold Drives
  by_cases h : s.OEA.getLsbD pin = true
  · rw [Port.pin, port, if_pos h]
    exact ⟨fun _ => Level.driven_ne_released _, fun _ => h⟩
  · rw [Port.pin, port, if_neg h]
    exact ⟨fun hdriven => absurd hdriven h, fun hne => absurd rfl hne⟩

/-! ### Operations -/

/-- An operation drives only pins of the map. -/
theorem accounted_op (hs : s.Running) (hvalid : s.mapState = .valid) (ha : s.Accounted)
    (h : Op R s t) : t.Accounted := by
  rcases h.confined hs with h | rfl | ⟨c, hc, h⟩
  · rw [h]
    exact ⟨ha.ports, ha.alone, ha.mapped, ha.latched⟩
  · exact ⟨ha.ports, ha.alone, ha.mapped, ha.latched⟩
  have hlatched := ha.latched hvalid
  refine ⟨⟨h.ports.1.trans ha.ports.1, h.ports.2.trans ha.ports.2⟩, ?_, fun _ pin hdriven => ?_,
    fun _ pin => h.latched pin (hlatched pin)⟩
  · rw [h.settled]
    intro e he
    rcases List.mem_append.mp he with he | he
    · refine (h.edges.mono fun e hedge => ?_).all (P := Edge.Alone)
        (fun e he => ha.alone e (List.mem_append_left _ he)) e he
      exact fun pin hne => hedge.alone pin (hlatched pin) hne
    · exact ha.alone e (List.mem_append_right _ he)
  · rw [h.map]
    by_cases hapart : s.Apart c pin
    · have hsame := h.apart pin (hlatched pin) hapart
      rw [drives_iff, hsame, ← drives_iff] at hdriven
      exact ha.mapped hvalid pin hdriven
    · obtain ⟨d, hown, rfl⟩ : ∃ d, s.Own c d ∧ pin = boardChanPin d := by
        by_contra hno
        exact hapart fun d hown heq => hno ⟨d, hown, heq⟩
      refine ⟨d, rfl, ?_⟩
      rcases hown with rfl | hk
      · intro hnone
        rw [Entry.isPrimary, hnone] at hc
        cases hc
      · rw [(hs.wired.partner c d hk).1]
        decide

theorem accounted_steps (hs : s.Running) (hvalid : s.mapState = .valid) (ha : s.Accounted)
    (h : Steps R s t) : t.Accounted := by
  have hkept := h.kept (P := fun t => t.mapState = .valid ∧ t.Accounted) (fun t u ht hP hop => ?_) hs
    ⟨hvalid, ha⟩
  · exact hkept.2.2
  · exact ⟨(op_frame ht hop).mapState.trans hP.1, accounted_op ht hP.1 hP.2 hop⟩

/-! ### A map is cleared -/

/-- The pins that are driven are those that the engine brought to their levels. -/
structure Clearing (s : Engine) : Prop where
  ports : s.OEB = 0 ∧ s.OED = 0
  alone : ∀ e ∈ s.edges ++ s.settled, e.Alone
  brought : ∀ pin, s.Drives pin → ∃ c, pin = boardChanPin c ∧ (s.ch c).lastlvl ≠ none
  latched : ∀ pin, s.Latched pin
  linked : ∀ c, s.Linked c

/-- A pin level leaves the other pins outputs or inputs. -/
theorem drives_pinLevel (hne : pin ≠ boardChanPin c) :
    (s.pinLevel c lvl).Drives pin ↔ s.Drives pin := by
  by_cases heq : (s.ch c).lastlvl = some lvl
  · rw [pinLevel_of_eq heq]
  · have hOEA : (s.pinLevel c lvl).OEA = (s.drivePin c lvl).OEA :=
      congrArg Port.OEA (pinLevel_registers heq).1
    rw [Drives, Drives, hOEA]
    cases lvl with
    | released => rw [drivePin, and_not_bit hne]
    | low => rw [drivePin, or_bit hne]
    | high => rw [drivePin, or_bit hne]

theorem alone_pinLevel (hlatched : ∀ pin, pin ≠ boardChanPin c → s.Latched pin)
    (h : ∀ e ∈ s.edges ++ s.settled, e.Alone) :
    ∀ e ∈ (s.pinLevel c lvl).edges ++ (s.pinLevel c lvl).settled, e.Alone := by
  rw [pinLevel_settled]
  intro e he
  rcases List.mem_append.mp he with he | he
  · refine Adds.all (P := Edge.Alone) (adds_pinLevel fun _ => ?_)
      (fun e he => h e (List.mem_append_left _ he)) e he
    exact fun pin hne => (pin_pinLevel hne (hlatched pin hne)).1
  · exact h e (List.mem_append_right _ he)

theorem Clearing.clearPin (h : s.Clearing) (c : Ch) : (s.clearPin c).Clearing := by
  have hlinked (t : Engine) (ht : ∀ d, t.Linked d) (d : Ch) : (t.setCh c clearChan).Linked d := by
    intro l hl
    by_cases hdc : d = c
    · subst hdc
      rw [setCh_self] at hl
      cases hl
    · rw [setCh_ch, Function.update_of_ne hdc] at hl
      exact ht d l hl
  unfold Engine.clearPin
  split
  next hne =>
    refine ⟨⟨pinLevel_OEB.trans h.ports.1, pinLevel_OED.trans h.ports.2⟩,
      alone_pinLevel (fun pin _ => h.latched pin) h.alone, fun pin hdriven => ?_,
      fun pin => pinLevel_latched (h.latched pin), hlinked _ (linked_pinLevel h.linked)⟩
    have hdriven : (s.pinLevel c .released).Drives pin := hdriven
    by_cases hpin : pin = boardChanPin c
    · subst hpin
      have hlevel := (linked_pinLevel h.linked c) .released (by rw [pinLevel_self])
      exact absurd hlevel.1 (drives_iff.mp hdriven)
    · rw [drives_pinLevel hpin] at hdriven
      obtain ⟨d, rfl, hd⟩ := h.brought pin hdriven
      have hdc : d ≠ c := fun heq => hpin (heq ▸ rfl)
      refine ⟨d, rfl, ?_⟩
      rw [setCh_ch, Function.update_of_ne hdc, pinLevel_other hdc]
      exact hd
  next hnone =>
    refine ⟨h.ports, h.alone, fun pin hdriven => ?_, h.latched, hlinked _ h.linked⟩
    obtain ⟨d, rfl, hd⟩ := h.brought pin hdriven
    have hdc : d ≠ c := fun heq => hnone (heq ▸ hd)
    refine ⟨d, rfl, ?_⟩
    rw [setCh_ch, Function.update_of_ne hdc]
    exact hd

/-- Nothing is driven after a map is cleared, when only the engine drove pins. -/
theorem Clearing.forCh (h : s.Clearing) :
    (s.forCh Engine.clearPin).Clearing ∧ (s.forCh Engine.clearPin).OEA = 0 := by
  have hclear : (s.forCh Engine.clearPin).Clearing := forCh_kept (fun c _ h => h.clearPin c) h
  have hnone : ∀ c, ((s.forCh Engine.clearPin).ch c).lastlvl = none :=
    forCh_each (P := fun _ => True) (Q := fun c t => (t.ch c).lastlvl = none)
      (fun _ _ _ => trivial) (fun c t _ => by rw [Engine.clearPin, setCh_self]; rfl)
      (fun c d t hd _ hQ => by rw [clearPin_other hd]; exact hQ) trivial
  refine ⟨hclear, BitVec.eq_of_getLsbD_eq fun pin _ => ?_⟩
  rw [zero_getLsbD, Bool.eq_false_iff]
  intro hdriven
  obtain ⟨c, -, hc⟩ := hclear.brought pin hdriven
  exact hc (hnone c)

/-- A mapped pin was brought to a level. -/
theorem Running.brought (hs : s.Running) (hfunc : (s.map c).func ≠ .none) :
    (s.ch c).lastlvl ≠ none := by
  cases hf : (s.map c).func with
  | none => exact absurd hf hfunc
  | keyline =>
    obtain ⟨d, hd⟩ := hs.wired.keyline c hf
    rw [(hs.phase d).keyline c hd]
    rintro ⟨⟩
  | ptt =>
    rw [(hs.phase c).line (by rw [Entry.isPrimary, hf]; rfl)]
    rintro ⟨⟩
  | power =>
    rw [(hs.phase c).line (by rw [Entry.isPrimary, hf]; rfl)]
    rintro ⟨⟩

/-- Nothing is driven after a map is cleared. -/
theorem accounted_clearMap (hrunning : s.mapState = .valid → s.Running)
    (hidle : s.mapState ≠ .valid → s.Blank) (ha : s.Accounted)
    (hfree : s.mapState ≠ .valid → s.OEA = 0) :
    (s.clearMap.OEB = 0 ∧ s.clearMap.OED = 0) ∧
      (∀ e ∈ s.clearMap.edges ++ s.clearMap.settled, e.Alone) ∧ s.clearMap.OEA = 0 := by
  have hclearing : (s.ioReleaseAll .mapCleared).Clearing := by
    by_cases hvalid : s.mapState = .valid
    · have hrun := hrunning hvalid
      have hsteps : Steps .any s (s.ioReleaseAll .mapCleared) := steps_ioReleaseAll nofun trivial
      have hacc := accounted_steps hrun hvalid ha hsteps
      obtain ⟨hrun', hframe⟩ := hsteps.frame hrun
      have hvalid' := hframe.mapState.trans hvalid
      refine ⟨hacc.ports, hacc.alone, fun pin hdriven => ?_, hacc.latched hvalid', hrun'.linked⟩
      obtain ⟨c, hpin, hc⟩ := hacc.mapped hvalid' pin hdriven
      exact ⟨c, hpin, hrun'.brought hc⟩
    · have hblank := hidle hvalid
      rw [ioReleaseAll_of_blank hblank]
      have hnot (pin : Nat) : ¬ s.Drives pin := not_drives_of_zero (hfree hvalid)
      refine ⟨ha.ports, ha.alone, fun pin hdriven => absurd hdriven (hnot pin),
        fun pin => latched_of_not_drives (hnot pin), fun c l hl => ?_⟩
      rw [hblank.lastlvl c] at hl
      cases hl
  have hclear := hclearing.forCh
  exact ⟨hclear.1.ports, hclear.1.alone, hclear.2⟩

/-! ### A map becomes valid -/

/-- To release a pin leaves the others at their levels. -/
theorem pin_released (hne : pin ≠ boardChanPin c) :
    (s.pinLevel c .released).port.pin pin = s.port.pin pin := by
  by_cases heq : (s.ch c).lastlvl = some .released
  · rw [pinLevel_of_eq heq]
  · rw [(pinLevel_registers heq).1]
    simp only [Port.pin, port, drivePin, and_not_bit hne]
    rfl

/-- The turn of a channel changes no other pin, when the others agree with the latch or its safe
state is not driven. -/
theorem alone_settlePin (h : ∀ e ∈ s.edges, e.Alone)
    (hlatched : (s.map c).func ≠ .none → (s.map c).safe ≠ .released →
      ∀ pin, pin ≠ boardChanPin c → s.Latched pin) :
    ∀ e ∈ (s.settlePin c).edges, e.Alone := by
  unfold settlePin
  split
  next hfunc =>
    refine Adds.all (P := Edge.Alone) (adds_pinLevel fun _ pin hne => ?_) h
    by_cases hsafe : (s.ch c).safe = .released
    · rw [hsafe]
      exact pin_released hne
    · exact (pin_pinLevel hne (hlatched hfunc hsafe pin hne)).1
  next => exact h

/-- The turn of a channel drives at most its own pin. -/
theorem drives_settlePin (h : (s.settlePin c).Drives pin) :
    s.Drives pin ∨ pin = boardChanPin c ∧ (s.map c).func ≠ .none := by
  unfold settlePin at h
  split at h
  next hfunc =>
    by_cases hpin : pin = boardChanPin c
    · exact .inr ⟨hpin, hfunc⟩
    · exact .inl ((drives_pinLevel hpin).mp h)
  next => exact .inl h

theorem forCh_two (f : Ch → Engine → Engine) : s.forCh f = f 1 (f 0 s) := rfl

/-- The driven pins are those of a map that became valid, when the host had given up its own. -/
theorem accounted_settle (hw : Wired s.map) (hblank : s.Blank) (hpast : ∀ c, s.raised c ≤ s.ms)
    (ha : s.Accounted) (hyields : s.Yields) : s.settle.Accounted := by
  let start := { s with mapState := .valid, edges := [] }
  let first := start.settlePin 0
  have hrun := running_settle hw hblank hpast
  have hsettles : Settles start s.settle := settles_settle
  have hmap : s.settle.map = s.map := hsettles.map
  have hlinked : ∀ c, start.Linked c := by
    intro c l hl
    rw [show (start.ch c).lastlvl = none from hblank.lastlvl c] at hl
    cases hl
  have hturn : Settles start first := Settles.pin ⟨rfl, fun _ => rfl, id, rfl, rfl, rfl, rfl, rfl⟩ 0
  -- a pin that is driven after the first turn is in the map
  have hfirst (p : Nat) (hp : first.Drives p) :
      ∃ c, p = boardChanPin c ∧ (s.map c).func ≠ .none := by
    rcases drives_settlePin hp with hp | ⟨hp, hfunc⟩
    · obtain ⟨c, hpin, hfunc, -⟩ := hyields p hp
      exact ⟨c, hpin, hfunc⟩
    · exact ⟨0, hp, hfunc⟩
  have hmapped (p : Nat) (hp : s.settle.Drives p) :
      ∃ c, p = boardChanPin c ∧ (s.map c).func ≠ .none := by
    have hp : (first.settlePin 1).Drives p := hp
    rcases drives_settlePin hp with hp | ⟨hp, hfunc⟩
    · exact hfirst p hp
    · rw [hturn.map] at hfunc
      exact ⟨1, hp, hfunc⟩
  have hports : s.settle.OEB = s.OEB ∧ s.settle.OED = s.OED := by
    have hkept := forCh_kept (s := start) (f := settlePin)
      (P := fun t => t.OEB = s.OEB ∧ t.OED = s.OED) (fun c t ht => ?_) ⟨rfl, rfl⟩
    · exact hkept
    · unfold settlePin
      split
      · exact ⟨pinLevel_OEB.trans ht.1, pinLevel_OED.trans ht.2⟩
      · exact ht
  refine ⟨⟨hports.1.trans ha.ports.1, hports.2.trans ha.ports.2⟩, ?_, fun _ p hp => ?_,
    fun _ p hp => ?_⟩
  · have hone : ∀ e ∈ first.edges, e.Alone := by
      refine alone_settlePin nofun fun hfunc hsafe p hne hp => ?_
      obtain ⟨c, rfl, hc, hlatched⟩ := hyields p hp
      have hlt : (0 : Ch) < c := Fin.pos_iff_ne_zero.mpr fun heq => hne (heq ▸ rfl)
      exact hlatched ⟨0, hlt, hfunc, hsafe⟩ hp
    have htwo : ∀ e ∈ (first.settlePin 1).edges, e.Alone := by
      refine alone_settlePin hone fun _ _ p hne hp => ?_
      obtain ⟨c, rfl, hc⟩ := hfirst p hp
      have hzero : c = 0 := by
        have hlt : c.val < 2 := c.isLt
        have hc1 : c.val ≠ 1 := hne
        exact Fin.ext (show c.val = 0 by omega)
      subst hzero
      have hsafe : (first.ch 0).lastlvl = some (s.map 0).safe := by
        have hturn0 : first = start.pinSafe 0 := if_pos hc
        rw [hturn0, pinSafe, pinLevel_self]
        rfl
      exact (hturn.linked hlinked 0 _ hsafe).2 hp
    intro e he
    exact htwo e he
  · rw [hmap]
    exact hmapped p hp
  · obtain ⟨c, rfl, hc⟩ := hmapped p hp
    exact (hrun.linked c _ (settle_safe hc)).2 hp

/-! ### Every state -/

theorem Commits.yields (h : Commits s t) (hy : Complete s.map → s.Yields) : t.Yields := by
  have hfunc (c : Ch) : (t.map c).func = (s.map c).func ∧ (t.map c).safe = (s.map c).safe := by
    rw [h.entry c]
    exact ⟨rfl, rfl⟩
  have hpartner (c : Ch) : (s.map c).partner = (t.map c).partner := by rw [h.entry c]
  have hcomplete : Complete s.map := by
    refine ⟨h.mapped, fun c hc => ?_, fun c k hk => ?_, fun c hnone => ?_, fun k hk => ?_⟩
    · have hmax := h.wired.maxOn c
      rw [h.entry c] at hmax
      exact hmax hc
    · rw [hpartner c] at hk
      refine ⟨(hfunc k).1.symm.trans (h.wired.partner c k hk).1, fun d hd => ?_⟩
      rw [hpartner d] at hd
      exact h.wired.partner_inj hd hk
    · have halone := h.wired.alone c
      rw [h.entry c] at halone
      exact halone hnone
    · obtain ⟨c, hc⟩ := h.wired.keyline k ((hfunc k).1.trans hk)
      exact ⟨c, (hpartner c).trans hc⟩
  have hregisters : t.OEA = s.OEA ∧ t.IOA = s.IOA ∧ t.shadow = s.shadow := by
    rw [h.loads.rest]
    exact ⟨rfl, rfl, rfl⟩
  intro pin hdriven
  rw [Drives, hregisters.1] at hdriven
  obtain ⟨c, hpin, hc, hlatched⟩ := hy hcomplete pin hdriven
  refine ⟨c, hpin, fun hnone => hc ((hfunc c).1.symm.trans hnone), ?_⟩
  rintro ⟨b, hlt, hb, hsafe⟩
  have hs := hlatched ⟨b, hlt, fun hnone => hb ((hfunc b).1.trans hnone),
    fun heq => hsafe ((hfunc b).2.trans heq)⟩
  unfold Latched at hs ⊢
  rw [hregisters.1, hregisters.2.1, hregisters.2.2]
  exact hs

theorem accounted_next (hs : s.Governed) (ha : s.Accounted) (hok : s.HandsOver i) :
    (next s i).Accounted := by
  rcases next_cases .any hs i (fun _ _ _ => trivial) (fun _ _ => trivial) with
    ⟨hi, hnext⟩ | ⟨-, hvalid, hsteps⟩ | ⟨-, hvalid, hquiet⟩ | ⟨hi, t, hcommit, hnext⟩
  · have hfree : s.mapState ≠ .valid → s.OEA = 0 := by
      cases i with
      | request bm req value index => exact (hok hi.1).1 hi.2
      | usbReset => exact hi.elim
      | usbSuspend => exact hi.elim
      | tick => exact hi.elim
    obtain ⟨hports, halone, -⟩ := accounted_clearMap hs.running hs.blank ha hfree
    rw [hnext]
    exact ⟨hports, halone, nofun, nofun⟩
  · exact accounted_steps (hs.running hvalid) hvalid ha hsteps
  · have hnot : (next s i).mapState ≠ .valid := fun h => hvalid (hquiet.mapState.symm.trans h)
    refine ⟨⟨hquiet.ports.1.trans ha.ports.1, hquiet.ports.2.trans ha.ports.2⟩, ?_,
      fun h => absurd h hnot, fun h => absurd h hnot⟩
    rw [hquiet.edges.1, hquiet.edges.2]
    exact ha.alone
  · have hyields : Complete s.map → s.Yields := by
      cases i with
      | request bm req value index => exact (hok hi.1).2 hi.2 hcommit.loading
      | usbReset => exact hi.elim
      | usbSuspend => exact hi.elim
      | tick => exact hi.elim
    have hquiet := hcommit.loads.quiet
    have hblank : t.Blank := hquiet.blank (hs.blank (by rw [hcommit.loading]; decide))
    have hpast (c : Ch) : t.raised c ≤ t.ms := by
      rw [hquiet.raised]
      exact Nat.le_trans (hs.past c) hquiet.ms
    have hloading : t.mapState ≠ .valid := by
      rw [hquiet.mapState, hcommit.loading]
      decide
    have hacc : t.Accounted := by
      refine ⟨⟨hquiet.ports.1.trans ha.ports.1, hquiet.ports.2.trans ha.ports.2⟩, ?_,
        fun h => absurd h hloading, fun h => absurd h hloading⟩
      rw [hquiet.edges.1, hquiet.edges.2]
      exact ha.alone
    rw [hnext]
    exact accounted_settle hcommit.wired hblank hpast hacc (hcommit.yields hyields)

theorem accounted_appInit (latch : U8) : (reset latch).appInit.Accounted := by
  obtain ⟨hports, halone, -⟩ := accounted_clearMap (s := started latch) nofun
    (fun _ => blank_started latch) ⟨⟨rfl, rfl⟩, nofun, nofun, nofun⟩ fun _ => rfl
  rw [appInit_eq]
  exact ⟨hports, halone, nofun, nofun⟩

/-- What is left driven when everything was released: pins of the map at their safe states. -/
structure LeftSafe (s : Engine) : Prop where
  ports : s.OEB = 0 ∧ s.OED = 0
  pins : ∀ pin, s.Drives pin → s.mapState = .valid ∧
    ∃ c, pin = boardChanPin c ∧ (s.ch c).func ≠ .none ∧ s.port.level c = (s.ch c).safe

/-- Every mapped pin is at its safe state while its channel is idle. -/
theorem Running.level_safe (hs : s.Running) (hidle : ∀ c, (s.ch c).st = .idle)
    (hfunc : (s.map c).func ≠ .none) : s.port.level c = (s.map c).safe := by
  have hprimary (hc : (s.map c).isPrimary = true) : s.port.level c = (s.map c).safe := by
    have hline := (hs.phase c).line hc
    rw [hidle c] at hline
    exact (hs.linked c _ hline).1
  cases hf : (s.map c).func with
  | none => exact absurd hf hfunc
  | keyline =>
    obtain ⟨d, hd⟩ := hs.wired.keyline c hf
    have hlevel := (hs.phase d).keyline c hd
    rw [if_pos (hidle d)] at hlevel
    exact (hs.linked c _ hlevel).1
  | ptt => exact hprimary (by rw [Entry.isPrimary, hf]; rfl)
  | power => exact hprimary (by rw [Entry.isPrimary, hf]; rfl)

theorem leftSafe_ioReleaseAll (hs : s.Running) (hvalid : s.mapState = .valid) (ha : s.Accounted)
    {reason : Release} (hne : reason ≠ .timeout) : (s.ioReleaseAll reason).LeftSafe := by
  have hsteps : Steps .any s (s.ioReleaseAll reason) := steps_ioReleaseAll hne trivial
  have hacc := accounted_steps hs hvalid ha hsteps
  obtain ⟨hrun, hframe⟩ := hsteps.frame hs
  have hnow := hframe.mapState.trans hvalid
  refine ⟨hacc.ports, fun pin hdriven => ⟨hnow, ?_⟩⟩
  obtain ⟨c, hpin, hc⟩ := hacc.mapped hnow pin hdriven
  exact ⟨c, hpin, hc, hrun.level_safe (idle_ioReleaseAll hs reason) hc⟩

/-- Without a valid map only the host's own pins are left. -/
theorem leftSafe_iff (hvalid : s.mapState ≠ .valid) (hports : s.OEB = 0 ∧ s.OED = 0) :
    s.LeftSafe ↔ s.OEA = 0 := by
  constructor
  · intro h
    refine BitVec.eq_of_getLsbD_eq fun pin _ => ?_
    rw [zero_getLsbD, Bool.eq_false_iff]
    exact fun hdriven => hvalid (h.pins pin hdriven).1
  · exact fun h => ⟨hports, fun pin hdriven => absurd hdriven (not_drives_of_zero h)⟩

/-- Without a valid map no pin is released when a map is cleared. -/
theorem clearMap_ports (h : s.Blank) :
    s.clearMap.OEA = s.OEA ∧ s.clearMap.OEB = s.OEB ∧ s.clearMap.OED = s.OED := by
  have hpins : ((s.forCh clearPin).OEA = s.OEA ∧ (s.forCh clearPin).OEB = s.OEB ∧
      (s.forCh clearPin).OED = s.OED) ∧ (s.forCh clearPin).Blank := by
    refine forCh_kept (P := fun t => (t.OEA = s.OEA ∧ t.OEB = s.OEB ∧ t.OED = s.OED) ∧ t.Blank)
      (fun c t ht => ?_) ⟨⟨rfl, rfl, rfl⟩, h⟩
    have hnone : t.clearPin c = t.setCh c clearChan :=
      congrArg (setCh c clearChan) (if_neg (not_not_intro (ht.2.lastlvl c)))
    rw [hnone]
    refine ⟨ht.1, ht.2.alive, fun d => ?_, fun d => ?_⟩
    · by_cases hd : d = c
      · subst hd
        rw [setCh_self]
        rfl
      · rw [setCh_ch, Function.update_of_ne hd]
        exact ht.2.lastlvl d
    · by_cases hd : d = c
      · subst hd
        rw [setCh_self]
        rfl
      · rw [setCh_ch, Function.update_of_ne hd]
        exact ht.2.idle d
  unfold clearMap
  rw [ioReleaseAll_of_blank h]
  exact hpins.1

/-- When a new map is started, nothing may be left driven. -/
theorem leftSafe_begins (hi : i.begins) (hports : s.clearMap.OEB = 0 ∧ s.clearMap.OED = 0) :
    (next s i).LeftSafe ↔ s.clearMap.OEA = 0 := by
  have hnext := next_begins (s := s) hi
  have hloading : (next s i).mapState ≠ .valid := by
    rw [hnext]
    exact MapState.noConfusion
  have hiff := leftSafe_iff hloading (by rw [hnext]; exact hports)
  rw [hnext] at hiff ⊢
  exact hiff

/-- The host has given up its pins at a release exactly when no pin is left driven by it. -/
theorem leftSafe_next (hs : s.Governed) (ha : s.Accounted) (hi : i.releases) :
    (next s i).LeftSafe ↔ s.HandsOver i := by
  by_cases hvalid : s.mapState = .valid
  · have hrun := hs.running hvalid
    have hok : s.HandsOver i := by
      cases i with
      | request bm req value index =>
        obtain ⟨rfl, rfl⟩ := hi
        exact fun _ => ⟨fun _ hnot => absurd hvalid hnot, fun heq => absurd heq (by decide)⟩
      | usbReset => exact fun hnot => absurd hvalid hnot
      | usbSuspend => exact fun hnot => absurd hvalid hnot
      | tick => exact hi.elim
    refine iff_of_true ?_ hok
    cases i with
    | request bm req value index =>
      obtain ⟨hports, -, hOEA⟩ := accounted_clearMap hs.running hs.blank ha
        fun hnot => absurd hvalid hnot
      exact (leftSafe_begins (i := .request bm req value index) hi hports).mpr hOEA
    | usbReset => exact leftSafe_ioReleaseAll hrun hvalid ha nofun
    | usbSuspend => exact leftSafe_ioReleaseAll hrun hvalid ha nofun
    | tick => exact hi.elim
  · have hblank := hs.blank hvalid
    have hsame (reason : Release) : (s.ioReleaseAll reason).LeftSafe ↔ s.OEA = 0 := by
      rw [ioReleaseAll_of_blank hblank]
      exact leftSafe_iff hvalid ha.ports
    cases i with
    | request bm req value index =>
      obtain ⟨hOEA, hOEB, hOED⟩ := clearMap_ports hblank
      have hports := And.intro (hOEB.trans ha.ports.1) (hOED.trans ha.ports.2)
      refine (leftSafe_begins (i := .request bm req value index) hi hports).trans ?_
      obtain ⟨rfl, rfl⟩ := hi
      rw [hOEA]
      exact ⟨fun h _ => ⟨fun _ _ => h, fun heq => absurd heq (by decide)⟩,
        fun h => (h rfl).1 rfl hvalid⟩
    | usbReset => exact (hsame _).trans ⟨fun h _ => h, fun h => h hvalid⟩
    | usbSuspend => exact (hsame _).trans ⟨fun h _ => h, fun h => h hvalid⟩
    | tick => exact hi.elim

/-- As long as the host gives up the pins that it drives by itself before everything is released and
before a map becomes valid, a valid map accounts for every driven pin, an edge changes no other pin,
and what a release leaves driven are pins of the map at their safe states. -/
theorem outputs_accounted (h : machine.Reach HandsOver s) :
    (s.mapState = .valid → s.OEB = 0 ∧ s.OED = 0 ∧ ∀ pin, s.Drives pin →
      ∃ c, pin = boardChanPin c ∧ (s.ch c).func ≠ .none) ∧
    (∀ e ∈ s.edges ++ s.settled, e.Alone) ∧
    ∀ i : Input, i.releases → ((next s i).LeftSafe ↔ s.HandsOver i) := by
  have hs := governed_of_reachable h.reachable
  have ha : s.Accounted := by
    refine h.invariant_with (fun h => governed_of_reachable h.reachable) (fun s hs => ?_)
      (fun s i t hg ha hok hst => ?_)
    · obtain ⟨latch, rfl⟩ := hs
      exact accounted_appInit latch
    · obtain rfl := Option.some.inj hst
      exact accounted_next hg ha hok
  exact ⟨fun hvalid => ⟨ha.ports.1, ha.ports.2, ha.mapped hvalid⟩, ha.alone,
    fun i hi => leftSafe_next hs ha hi⟩

theorem handsOver_of_idle (h : s.mapState = .valid ∨ s.OEA = 0) (i : Input) : s.HandsOver i := by
  have hloading (hnot : s.mapState ≠ .valid) : s.OEA = 0 := h.resolve_left hnot
  cases i with
  | request bm req value index =>
    refine fun _ => ⟨fun _ => hloading, fun _ hload _ pin hdriven => ?_⟩
    have hzero := hloading (by rw [hload]; decide)
    exact absurd hdriven (not_drives_of_zero hzero)
  | usbReset => exact hloading
  | usbSuspend => exact hloading
  | tick => trivial

theorem outputs_accounted_reset :
    (next (after (loadLines ++ keyLines 1)) .usbReset).LeftSafe ↔
      (after (loadLines ++ keyLines 1)).HandsOver .usbReset :=
  have hreach : machine.Reach (fun s _ => s.mapState = .valid ∨ s.OEA = 0)
      (after (loadLines ++ keyLines 1)) := reach_after (by decide +kernel)
  (outputs_accounted (hreach.mono fun _ i h => handsOver_of_idle h i)).2.2 .usbReset trivial

/-- A pin that the host drives by itself stays driven over a bus reset. -/
theorem gpio_left_driven :
    ¬ ∀ s, machine.Reachable s → ∀ i : Input, i.releases → (next s i).LeftSafe := by
  intro hall
  have hleft := hall _ (reachable_after [.request 0x40 0x02 1 1]) .usbReset trivial
  have hdriven : (next (after [.request 0x40 0x02 1 1]) .usbReset).Drives 0 := by
    unfold Drives
    decide +kernel
  have hvalid := (hleft.pins 0 hdriven).1
  revert hvalid
  decide +kernel

end Engine

end HamsOpen.StationIo
