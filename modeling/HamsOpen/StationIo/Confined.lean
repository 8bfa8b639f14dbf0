import HamsOpen.StationIo.Pins

/-!
# What an operation on a channel can do

An operation on a channel drives its own line and its keyline, and nothing else: the map, the other
channels and their pins, and what the engine knows of the heartbeat stay.
-/

namespace HamsOpen.StationIo

namespace Engine

variable {s t u : Engine} {c d : Ch} {lvl : Level} {f : Chan → Chan}

/-- What the map says. -/
def map (s : Engine) (c : Ch) : Entry := (s.ch c).toEntry

/-- The pins that a channel drives: its line and its keyline. -/
def Own (s : Engine) (c d : Ch) : Prop := d = c ∨ (s.map c).partner = some d

/-- A pin of port A that a channel does not drive. -/
def Apart (s : Engine) (c : Ch) (pin : Nat) : Prop := ∀ d, s.Own c d → pin ≠ boardChanPin d

/-- The edges tell what port A drives. -/
def Traced (s : Engine) : Prop := ∀ e, s.edges.head? = some e → e.after = s.port

/-- An edge of an operation on a channel. -/
structure EdgeOf (s : Engine) (c : Ch) (e : Edge) : Prop where
  own : s.Own c e.chan
  time : e.time = s.ms
  left : ∀ d, d ≠ c → e.left d = s.left d
  alone : ∀ pin, s.Latched pin → pin ≠ boardChanPin e.chan → e.after.pin pin = e.before.pin pin
  apart : ∀ pin, s.Latched pin → s.Apart c pin → e.after.pin pin = s.port.pin pin

/-- The edges since then all have a property. -/
def Adds (P : Edge → Prop) (s t : Engine) : Prop :=
  ∃ new, t.edges = new ++ s.edges ∧ ∀ e ∈ new, P e

/-- What happened was confined to a channel and its keyline. -/
structure Confined (c : Ch) (s t : Engine) : Prop where
  map : t.map = s.map
  other : ∀ d, ¬ s.Own c d → t.ch d = s.ch d
  /-- Of its keyline only the level changes. -/
  level : ∀ d, d ≠ c → t.ch d = { s.ch d with lastlvl := (t.ch d).lastlvl }
  mapState : t.mapState = s.mapState
  alive : t.alive = s.alive
  hbTimeout : t.hbTimeout = s.hbTimeout
  hbT : t.hbT = s.hbT
  lastGood : t.lastGood = s.lastGood
  ms : t.ms = s.ms
  settled : t.settled = s.settled
  ports : t.OEB = s.OEB ∧ t.OED = s.OED
  raised : ∀ d, d ≠ c → t.raised d = s.raised d
  left : ∀ d, d ≠ c → t.left d = s.left d ∧ t.earlier d = s.earlier d
  leaves : ∀ d, t.left d = s.left d ∨ t.left d = some s.ms
  linked : (∀ d, s.Linked d) → ∀ d, t.Linked d
  latched : ∀ pin, s.Latched pin → t.Latched pin
  apart : ∀ pin, s.Latched pin → s.Apart c pin → t.port.pin pin = s.port.pin pin
  traced : s.Traced → t.Traced
  edges : Adds (s.EdgeOf c) s t

theorem Adds.refl {P : Edge → Prop} (h : t.edges = s.edges) : Adds P s t :=
  ⟨[], h, fun _ he => absurd he List.not_mem_nil⟩

theorem Adds.trans {P : Edge → Prop} (h : Adds P s t) (h' : Adds P t u) : Adds P s u := by
  obtain ⟨new, hnew, hP⟩ := h
  obtain ⟨new', hnew', hP'⟩ := h'
  refine ⟨new' ++ new, by rw [hnew', hnew, List.append_assoc], fun e he => ?_⟩
  exact (List.mem_append.mp he).elim (hP' e) (hP e)

theorem Adds.mono {P Q : Edge → Prop} (hPQ : ∀ e, P e → Q e) (h : Adds P s t) : Adds Q s t := by
  obtain ⟨new, hnew, hP⟩ := h
  exact ⟨new, hnew, fun e he => hPQ e (hP e he)⟩

theorem Adds.and {P Q : Edge → Prop} (h : Adds P s t) (h' : Adds Q s t) :
    Adds (fun e => P e ∧ Q e) s t := by
  obtain ⟨new, hnew, hP⟩ := h
  obtain ⟨new', hnew', hQ⟩ := h'
  obtain rfl := List.append_cancel_right (hnew'.symm.trans hnew)
  exact ⟨new', hnew, fun e he => ⟨hP e he, hQ e he⟩⟩

/-- The edges before and since then all have a property. -/
theorem Adds.all {P : Edge → Prop} (h : Adds P s t) (hs : ∀ e ∈ s.edges, P e) :
    ∀ e ∈ t.edges, P e := by
  obtain ⟨new, hnew, hP⟩ := h
  intro e he
  rw [hnew] at he
  exact (List.mem_append.mp he).elim (hP e) (hs e)

theorem Confined.own (h : Confined c s t) (d : Ch) : t.Own c d ↔ s.Own c d := by
  rw [Own, Own, h.map]

theorem Confined.apart_iff (h : Confined c s t) (pin : Nat) : t.Apart c pin ↔ s.Apart c pin :=
  forall_congr' fun d => imp_congr (h.own d) Iff.rfl

theorem Confined.refl (c : Ch) (s : Engine) : Confined c s s where
  map := rfl
  other _ _ := rfl
  level _ _ := rfl
  mapState := rfl
  alive := rfl
  hbTimeout := rfl
  hbT := rfl
  lastGood := rfl
  ms := rfl
  settled := rfl
  ports := ⟨rfl, rfl⟩
  raised _ _ := rfl
  left _ _ := ⟨rfl, rfl⟩
  leaves _ := .inl rfl
  linked := id
  latched _ := id
  apart _ _ _ := rfl
  traced := id
  edges := .refl rfl

/-- Operations on a channel one after the other. -/
theorem Confined.trans (h : Confined c s t) (h' : Confined c t u) : Confined c s u where
  map := h'.map.trans h.map
  other d hd := (h'.other d fun hown => hd ((h.own d).mp hown)).trans (h.other d hd)
  level d hd := by
    have hu := h'.level d hd
    rw [h.level d hd] at hu
    exact hu
  mapState := h'.mapState.trans h.mapState
  alive := h'.alive.trans h.alive
  hbTimeout := h'.hbTimeout.trans h.hbTimeout
  hbT := h'.hbT.trans h.hbT
  lastGood := h'.lastGood.trans h.lastGood
  ms := h'.ms.trans h.ms
  settled := h'.settled.trans h.settled
  ports := ⟨h'.ports.1.trans h.ports.1, h'.ports.2.trans h.ports.2⟩
  raised d hd := (h'.raised d hd).trans (h.raised d hd)
  left d hd := ⟨(h'.left d hd).1.trans (h.left d hd).1, (h'.left d hd).2.trans (h.left d hd).2⟩
  leaves d := by
    rcases h'.leaves d with heq | hnow
    · rw [heq]
      exact h.leaves d
    · exact .inr (hnow.trans (congrArg some h.ms))
  linked hs := h'.linked (h.linked hs)
  latched pin hs := h'.latched pin (h.latched pin hs)
  apart pin hs hapart :=
    (h'.apart pin (h.latched pin hs) ((h.apart_iff pin).mpr hapart)).trans (h.apart pin hs hapart)
  traced hs := h'.traced (h.traced hs)
  edges := by
    refine h.edges.trans (h'.edges.mono fun e hedge => ?_)
    exact {
      own := (h.own _).mp hedge.own
      time := hedge.time.trans h.ms
      left := fun d hd => (hedge.left d hd).trans (h.left d hd).1
      alone := fun pin hs => hedge.alone pin (h.latched pin hs)
      apart := fun pin hs hapart =>
        (hedge.apart pin (h.latched pin hs) ((h.apart_iff pin).mpr hapart)).trans
          (h.apart pin hs hapart) }

/-! ### What an operation is made of -/

theorem setCh_ch : (s.setCh c f).ch = Function.update s.ch c (f (s.ch c)) := rfl

theorem pinLevel_map : (s.pinLevel c lvl).map = s.map := by
  funext d
  by_cases hd : d = c
  · subst hd
    rw [map, pinLevel_ch, Function.update_self]
    rfl
  · rw [map, pinLevel_ch, Function.update_of_ne hd]
    rfl

theorem pinLevel_latched {pin : Nat} (h : s.Latched pin) : (s.pinLevel c lvl).Latched pin := by
  by_cases heq : (s.ch c).lastlvl = some lvl
  · rw [pinLevel_of_eq heq]
    exact h
  by_cases hpin : pin = boardChanPin c
  · subst hpin
    obtain ⟨hport, hshadow⟩ := pinLevel_registers heq
    have hself : (s.drivePin c lvl).Latched (boardChanPin c) := drivePin_self.2
    simp only [port, Port.mk.injEq] at hport
    simp only [Latched, hport, hshadow] at hself ⊢
    exact hself
  · exact (pin_pinLevel hpin h).2

theorem traced_pinLevel (h : s.Traced) : (s.pinLevel c lvl).Traced := by
  by_cases heq : (s.ch c).lastlvl = some lvl
  · rw [pinLevel_of_eq heq]
    exact h
  · intro e he
    rw [pinLevel_edges heq] at he
    obtain rfl := Option.some.inj he
    rfl

/-- A pin level adds its edge. -/
theorem adds_pinLevel {P : Edge → Prop} (h : (s.ch d).lastlvl ≠ some lvl →
    P ⟨s.ms, d, lvl, s.port, (s.pinLevel d lvl).port, s.left⟩) : Adds P s (s.pinLevel d lvl) := by
  by_cases heq : (s.ch d).lastlvl = some lvl
  · rw [pinLevel_of_eq heq]
    exact .refl rfl
  · refine ⟨[_], pinLevel_edges heq, fun e he => ?_⟩
    rw [List.mem_singleton.mp he]
    exact h heq

/-- When the ptt lines left their active levels, after a pin level of a line or of a keyline. -/
theorem pinLevel_left_of (hown : d = c ∨ (s.map d).func ≠ .ptt) (b : Ch) (hb : b ≠ c) :
    (s.pinLevel d lvl).left b = s.left b ∧ (s.pinLevel d lvl).earlier b = s.earlier b := by
  by_cases heq : (s.ch d).lastlvl = some lvl
  · rw [pinLevel_of_eq heq]
    exact ⟨rfl, rfl⟩
  rw [(pinLevel_left heq).1, (pinLevel_left heq).2]
  rcases hown with rfl | hfunc
  · cases s.leaves d lvl with
    | true => exact ⟨Function.update_of_ne hb .., Function.update_of_ne hb ..⟩
    | false => exact ⟨rfl, rfl⟩
  · have hnot : s.leaves d lvl = false := by
      rw [map] at hfunc
      simp [leaves, hfunc]
    rw [hnot]
    exact ⟨rfl, rfl⟩

theorem pinLevel_leaves (b : Ch) :
    (s.pinLevel d lvl).left b = s.left b ∨ (s.pinLevel d lvl).left b = some s.ms := by
  by_cases heq : (s.ch d).lastlvl = some lvl
  · rw [pinLevel_of_eq heq]
    exact .inl rfl
  rw [(pinLevel_left heq).1]
  cases s.leaves d lvl with
  | false => exact .inl rfl
  | true =>
    by_cases hb : b = d
    · subst hb
      exact .inr (Function.update_self ..)
    · exact .inl (Function.update_of_ne hb ..)

/-- The line of a channel, or its keyline, is brought to a level. -/
theorem confined_pinLevel (hown : s.Own c d) (hfunc : d = c ∨ (s.map d).func ≠ .ptt) :
    Confined c s (s.pinLevel d lvl) where
  map := pinLevel_map
  other b hb := by
    have hne : b ≠ d := fun heq => hb (heq ▸ hown)
    rw [pinLevel_ch, Function.update_of_ne hne]
  level b _ := by
    by_cases hb : b = d
    · subst hb
      rw [pinLevel_ch, Function.update_self]
    · rw [pinLevel_ch, Function.update_of_ne hb]
  mapState := pinLevel_mapState
  alive := pinLevel_alive
  hbTimeout := pinLevel_hbTimeout
  hbT := pinLevel_hbT
  lastGood := pinLevel_lastGood
  ms := pinLevel_ms
  settled := pinLevel_settled
  ports := ⟨pinLevel_OEB, pinLevel_OED⟩
  raised b _ := congrFun pinLevel_raised b
  left b hb := pinLevel_left_of hfunc b hb
  leaves := pinLevel_leaves
  linked := linked_pinLevel
  latched _ := pinLevel_latched
  apart _ hlatched hapart := (pin_pinLevel (hapart d hown) hlatched).1
  traced := traced_pinLevel
  edges := by
    refine adds_pinLevel fun _ => ?_
    exact {
      own := hown
      time := rfl
      left := fun _ _ => rfl
      alone := fun pin hlatched hpin => (pin_pinLevel hpin hlatched).1
      apart := fun pin hlatched hapart => (pin_pinLevel (hapart d hown) hlatched).1 }

/-- What the engine notes of a channel changes neither its entry nor its level. -/
theorem confined_setCh (hentry : (f (s.ch c)).toEntry = (s.ch c).toEntry)
    (hlvl : (f (s.ch c)).lastlvl = (s.ch c).lastlvl) : Confined c s (s.setCh c f) :=
  { Confined.refl c s with
    map := by
      funext d
      by_cases hd : d = c
      · subst hd
        rw [map, setCh_ch, Function.update_self, hentry]
        rfl
      · rw [map, setCh_ch, Function.update_of_ne hd]
        rfl
    other := fun d hd => by
      have hne : d ≠ c := fun heq => hd (.inl heq)
      rw [setCh_ch, Function.update_of_ne hne]
    level := fun d hd => by
      rw [setCh_ch, Function.update_of_ne hd]
    linked := fun hs d l hl => by
      by_cases hd : d = c
      · subst hd
        rw [setCh_ch, Function.update_self, hlvl] at hl
        exact hs d l hl
      · rw [setCh_ch, Function.update_of_ne hd] at hl
        exact hs d l hl }

theorem confined_logRelease (reason : Release) : Confined c s (s.logRelease reason c) :=
  { Confined.refl c s with }

theorem confined_stampOff : Confined c s (s.stampOff c) := confined_setCh rfl rfl

theorem confined_markKey : Confined c s (s.markKey c) := by
  have hmark : Confined c s (s.setCh c fun ch => { ch with tMark := s.now16, tPhase := s.now16 }) :=
    confined_setCh rfl rfl
  exact { hmark with raised := fun _ hd => Function.update_of_ne hd .. }

/-! ### The operations -/

/-- The keyline of a channel is no ptt line. -/
def Sequences (s : Engine) (c : Ch) : Prop :=
  ∀ k, (s.map c).partner = some k → (s.map k).func ≠ .ptt

theorem Confined.sequences (h : Confined c s t) (hs : s.Sequences c) : t.Sequences c := by
  intro k hk
  rw [h.map] at hk ⊢
  exact hs k hk

theorem confined_self : Confined c s (s.pinLevel c lvl) := confined_pinLevel (.inl rfl) (.inl rfl)

theorem confined_keyline (h : s.Sequences c) {k : Ch} (hk : (s.map c).partner = some k) :
    Confined c s (s.pinLevel k lvl) := confined_pinLevel (.inr hk) (.inr (h k hk))

theorem confined_pinSafe? (h : s.Sequences c) :
    Confined c s (s.pinSafe? (s.map c).partner) := by
  cases hk : (s.map c).partner with
  | none => exact .refl c s
  | some k => exact confined_keyline h hk

theorem confined_lineOn : Confined c s (s.lineOn c) :=
  confined_self.trans (confined_setCh rfl rfl)

theorem confined_keylineOff (h : s.Sequences c) : Confined c s (s.keylineOff c) :=
  (confined_pinSafe? h).trans (confined_setCh rfl rfl)

theorem confined_releaseChannel (h : s.Sequences c) (reason : Release) :
    Confined c s (s.releaseChannel reason c) := by
  have hsafe : Confined c s (s.pinSafe c) := confined_self
  have hoff := (hsafe.trans (confined_keylineOff (hsafe.sequences h))).trans confined_stampOff
  by_cases hkeyed : (s.ch c).keyed
  · rw [releaseChannel, if_pos hkeyed]
    exact hoff.trans (confined_logRelease reason)
  · rw [releaseChannel, if_neg hkeyed]
    exact hoff

theorem confined_keyUp (h : s.Sequences c) : Confined c s (s.keyUp c) := by
  have hoff := (confined_self.trans confined_stampOff).trans
    (confined_logRelease (s := (s.pinSafe c).stampOff c) .host)
  unfold keyUp
  split
  · dsimp only
    split
    · exact hoff.trans (confined_setCh rfl rfl)
    · exact hoff.trans (confined_keylineOff (hoff.sequences h))
  · exact .refl c s

theorem confined_keyDown (h : s.Sequences c) : Confined c s (s.keyDown c) := by
  have hmark : Confined c s (s.markKey c) := confined_markKey
  unfold keyDown
  dsimp only
  split
  next k hk =>
    have hkey : Confined c s ((s.markKey c).pinActive k true) :=
      hmark.trans (confined_keyline (hmark.sequences h) hk)
    split
    · exact hkey.trans (confined_setCh rfl rfl)
    · exact hkey.trans confined_lineOn
  next => exact hmark.trans confined_lineOn

theorem confined_serveOff : Confined c s (s.serveOff c) := by
  unfold serveOff
  split
  · exact confined_setCh rfl rfl
  · exact .refl c s

theorem confined_checkTimeout (h : s.Sequences c) : Confined c s (s.checkTimeout c) := by
  unfold checkTimeout
  split
  · exact confined_releaseChannel h .timeout
  · exact .refl c s

theorem confined_advance (h : s.Sequences c) : Confined c s (s.advance c) := by
  unfold advance
  split
  · split
    · exact confined_lineOn.trans (confined_checkTimeout (confined_lineOn.sequences h))
    · exact confined_checkTimeout h
  · exact confined_checkTimeout h
  · split
    · exact confined_keylineOff h
    · exact .refl c s
  · exact .refl c s

theorem confined_tickChan (h : s.Sequences c) : Confined c s (s.tickChan c) := by
  unfold tickChan
  split
  · exact confined_serveOff.trans (confined_advance (confined_serveOff.sequences h))
  · exact .refl c s

end Engine

end HamsOpen.StationIo
