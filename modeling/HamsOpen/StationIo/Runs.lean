import HamsOpen.StationIo.Ops

/-!
# The runs of the board

Whatever the host sends, the engine either has no valid map, and then nothing is keyed and it has
brought no pin to a level, or it runs with a valid map.
-/

namespace HamsOpen.StationIo

namespace Engine

variable {s t u : Engine} {c d : Ch} {i : Input}

/-- The engine has brought no pin to a level, and nothing is keyed. -/
structure Blank (s : Engine) : Prop where
  alive : s.alive = false
  lastlvl : ∀ c, (s.ch c).lastlvl = none
  idle : ∀ c, (s.ch c).st = .idle

/-- What an input does without a valid map: entries change, and the host may drive pins. -/
structure Quiet (s t : Engine) : Prop where
  chan : ∀ d, t.ch d = { s.ch d with toEntry := (t.ch d).toEntry }
  sound : Sound s.map → Sound t.map
  mapState : t.mapState = s.mapState
  alive : t.alive = s.alive
  hbTimeout : s.hbTimeout ≠ 0 → t.hbTimeout ≠ 0
  ms : s.ms ≤ t.ms
  raised : t.raised = s.raised
  left : t.left = s.left ∧ t.earlier = s.earlier
  edges : t.edges = s.edges ∧ t.settled = s.settled
  ports : t.OEB = s.OEB ∧ t.OED = s.OED
  driven : t.OEA = s.OEA ∨ t.OEA &&& ~~~DRIVABLE_A = 0

theorem Quiet.refl (s : Engine) : Quiet s s where
  chan _ := rfl
  sound := id
  mapState := rfl
  alive := rfl
  hbTimeout := id
  ms := Nat.le_refl _
  raised := rfl
  left := ⟨rfl, rfl⟩
  edges := ⟨rfl, rfl⟩
  ports := ⟨rfl, rfl⟩
  driven := .inl rfl

theorem Loads.quiet (h : Loads s t) : Quiet s t where
  chan := h.chan
  sound := h.sound
  mapState := by rw [h.rest]
  alive := by rw [h.rest]
  hbTimeout hs := by
    rw [h.rest]
    exact hs
  ms := by rw [h.rest]
  raised := by rw [h.rest]
  left := by
    rw [h.rest]
    exact ⟨rfl, rfl⟩
  edges := by
    rw [h.rest]
    exact ⟨rfl, rfl⟩
  ports := by
    rw [h.rest]
    exact ⟨rfl, rfl⟩
  driven := by
    rw [h.rest]
    exact .inl rfl

theorem Quiet.blank (h : Quiet s t) (hs : s.Blank) : t.Blank where
  alive := h.alive.trans hs.alive
  lastlvl c := by
    rw [h.chan c]
    exact hs.lastlvl c
  idle c := by
    rw [h.chan c]
    exact hs.idle c

/-- Nothing is released while nothing is keyed. -/
theorem ioReleaseAll_of_blank (hs : s.Blank) (reason : Release) : s.ioReleaseAll reason = s := by
  refine forCh_kept (P := fun t => t = s) (fun c t ht => ?_) rfl
  rw [ht, hs.idle c]
  simp

theorem quiet_refuse (why : Refusal) : Quiet s (s.refuse why).2 := { Quiet.refl s with }

theorem quiet_gpioSet (value index : U16) : Quiet s (s.gpioSet value index).2 := by
  unfold gpioSet
  dsimp only
  split
  · exact .refl s
  next hbits =>
    have hdriven : (value.truncate 8 : U8) &&& ~~~DRIVABLE_A = 0 := by
      by_contra hne
      exact hbits (.inl hne)
    exact { Quiet.refl s with driven := .inr hdriven }

theorem quiet_appTick (hs : s.mapState ≠ .valid) : Quiet s s.appTick := by
  have htick : s.appTick = { s with ms := s.ms + 1 } := if_pos hs
  rw [htick]
  exact { Quiet.refl s with ms := Nat.le_succ _ }

/-- What an input does without a valid map, unless it starts one or makes one valid. -/
theorem quiet_next (hs : s.mapState ≠ .valid) (hblank : s.Blank) (hsound : Sound s.map)
    (hi : ¬ i.begins) : Quiet s (next s i) ∨
      i.commits ∧ ∃ t, Commits s t ∧ next s i = t.settle := by
  cases i with
  | usbReset =>
    refine .inl ?_
    rw [next, appUsbReset, ioReleaseAll_of_blank hblank]
    exact .refl s
  | usbSuspend =>
    refine .inl ?_
    rw [next, appUsbSuspend, ioReleaseAll_of_blank hblank]
    exact .refl s
  | tick => exact .inl (quiet_appTick hs)
  | request bm req value index =>
    simp only [next, appVendorRequest]
    split
    next hmap =>
      split
      next hreq => exact absurd ⟨hmap.1, hreq⟩ hi
      split
      · exact .inl (loads_ioMapPin _ _ _).quiet
      split
      · exact .inl (loads_ioMapParam _ _ _).quiet
      split
      · refine .inl ?_
        unfold ioMapHeartbeat
        split
        · exact (loads_fail _).quiet
        split
        · exact (loads_fail _).quiet
        next hlapse => exact { Quiet.refl s with hbTimeout := fun _ => hlapse }
      split
      next hreq =>
        rcases ioMapCommit_cases hsound with hload | hvalid
        · exact .inl hload.quiet
        · exact .inr ⟨⟨hmap.1, hreq⟩, hvalid⟩
      · rw [ioKey, if_pos hs]
        exact .inl (quiet_refuse _)
    split
    · rw [ioHeartbeat, if_pos hs]
      exact .inl (.refl s)
    split
    · exact .inl (quiet_gpioSet _ _)
    · exact .inl (.refl s)

/-! ### A map is cleared, and one becomes valid -/

theorem releaseChannel_ms (reason : Release) : (s.releaseChannel reason c).ms = s.ms := by
  have hoff : (((s.pinSafe c).keylineOff c).stampOff c).ms = s.ms := by
    cases hk : ((s.pinSafe c).ch c).partner with
    | none =>
      simp only [keylineOff, hk, pinSafe?, stampOff, setCh]
      exact pinLevel_ms
    | some k =>
      simp only [keylineOff, hk, pinSafe?, stampOff, setCh]
      exact pinLevel_ms.trans pinLevel_ms
  unfold releaseChannel
  split <;> exact hoff

theorem ioReleaseAll_frame (reason : Release) :
    (s.ioReleaseAll reason).ms = s.ms ∧ (s.ioReleaseAll reason).raised = s.raised := by
  refine forCh_kept (P := fun t => t.ms = s.ms ∧ t.raised = s.raised) (fun c t ht => ?_) ⟨rfl, rfl⟩
  split
  · rw [releaseChannel_ms, releaseChannel_raised]
    exact ht
  · exact ht

theorem clearPin_frame : (s.clearPin c).ms = s.ms ∧ (s.clearPin c).raised = s.raised := by
  unfold clearPin
  split
  · exact ⟨pinLevel_ms, pinLevel_raised⟩
  · exact ⟨rfl, rfl⟩

theorem clearPin_other (h : d ≠ c) : (s.clearPin c).ch d = s.ch d := by
  unfold clearPin
  rw [setCh_ch, Function.update_of_ne h]
  split
  · exact pinLevel_other h
  · rfl

theorem clearMap_frame : s.clearMap.ms = s.ms ∧ s.clearMap.raised = s.raised := by
  have hclear := forCh_kept (s := s.ioReleaseAll .mapCleared) (f := clearPin)
    (P := fun t => t.ms = s.ms ∧ t.raised = s.raised)
    (fun c t ht => ⟨clearPin_frame.1.trans ht.1, clearPin_frame.2.trans ht.2⟩)
    (ioReleaseAll_frame _)
  exact hclear

theorem clearMap_chan (c : Ch) : ∃ ch, s.clearMap.ch c = clearChan ch :=
  forCh_each (P := fun _ => True) (Q := fun c t => ∃ ch, t.ch c = clearChan ch)
    (fun _ _ _ => trivial) (fun _ _ _ => ⟨_, setCh_self _⟩)
    (fun _ _ _ hd _ ⟨ch, hch⟩ => ⟨ch, (clearPin_other hd).trans hch⟩) trivial c

/-- A cleared map has no entries. -/
theorem sound_clearMap : Sound s.clearMap.map := by
  constructor
  · intro c hc
    obtain ⟨ch, hch⟩ := clearMap_chan (s := s) c
    rw [map, hch] at hc
    exact absurd rfl hc
  · intro c _
    obtain ⟨ch, hch⟩ := clearMap_chan (s := s) c
    rw [map, hch]
    exact ⟨rfl, rfl, rfl⟩

theorem blank_clearMap : s.clearMap.Blank where
  alive := rfl
  lastlvl c := by
    obtain ⟨ch, hch⟩ := clearMap_chan (s := s) c
    rw [hch]
    rfl
  idle c := by
    obtain ⟨ch, hch⟩ := clearMap_chan (s := s) c
    rw [hch]
    rfl

theorem next_begins (hi : i.begins) : next s i =
    { s.clearMap with mapError := .none, mapState := .loading } := by
  cases i with
  | request bm req value index =>
    obtain ⟨rfl, rfl⟩ := hi
    rfl
  | usbReset => exact hi.elim
  | usbSuspend => exact hi.elim
  | tick => exact hi.elim

/-- The turn of a channel when a map becomes valid. -/
def settlePin (c : Ch) (s : Engine) : Engine := if (s.ch c).func ≠ .none then s.pinSafe c else s

/-- What the turns of the channels leave as it is. -/
structure Settles (s t : Engine) : Prop where
  map : t.map = s.map
  idle : ∀ c, (t.ch c).st = (s.ch c).st
  linked : (∀ c, s.Linked c) → ∀ c, t.Linked c
  frame : t.ms = s.ms ∧ t.raised = s.raised ∧ t.hbTimeout = s.hbTimeout ∧ t.alive = s.alive ∧
    t.mapState = s.mapState

theorem Settles.pin (h : Settles s t) (c : Ch) : Settles s (t.settlePin c) := by
  unfold settlePin
  split
  · refine ⟨pinLevel_map.trans h.map, fun d => ?_, fun hs => linked_pinLevel (h.linked hs), ?_⟩
    · rw [← h.idle d, pinSafe]
      by_cases hd : d = c
      · rw [hd, pinLevel_self]
      · rw [pinLevel_other hd]
    · exact ⟨pinLevel_ms.trans h.frame.1, pinLevel_raised.trans h.frame.2.1,
        pinLevel_hbTimeout.trans h.frame.2.2.1, pinLevel_alive.trans h.frame.2.2.2.1,
        pinLevel_mapState.trans h.frame.2.2.2.2⟩
  · exact h

theorem settles_settle : Settles { s with mapState := .valid, edges := [] } s.settle := by
  have hturns : Settles { s with mapState := .valid, edges := [] }
      ({ s with mapState := .valid, edges := [] }.forCh settlePin) :=
    forCh_kept (fun c _ h => h.pin c) ⟨rfl, fun _ => rfl, id, rfl, rfl, rfl, rfl, rfl⟩
  exact ⟨hturns.map, hturns.idle, hturns.linked, hturns.frame⟩

/-- Every mapped pin is at its safe state. -/
theorem settle_safe (hfunc : (s.map c).func ≠ .none) :
    (s.settle.ch c).lastlvl = some (s.map c).safe := by
  have hturns := forCh_each (s := { s with mapState := .valid, edges := [] }) (f := settlePin)
    (P := fun t => t.map = s.map)
    (Q := fun c t => (s.map c).func ≠ .none → (t.ch c).lastlvl = some (s.map c).safe)
    (fun c t ht => ?_) (fun c t ht hfunc => ?_) (fun c d t hd _ hQ hfunc => ?_) rfl c
  · exact hturns hfunc
  · unfold settlePin
    split
    · exact pinLevel_map.trans ht
    · exact ht
  · have hmapped : (t.ch c).func ≠ .none := by
      rw [← ht] at hfunc
      exact hfunc
    rw [settlePin, if_pos hmapped, pinSafe, pinLevel_self, ← ht]
    rfl
  · unfold settlePin
    split
    · rw [pinSafe, pinLevel_other hd]
      exact hQ hfunc
    · exact hQ hfunc

/-- The engine runs with a map that became valid. -/
theorem running_settle (hw : Wired s.map) (hblank : s.Blank) (hpast : ∀ c, s.raised c ≤ s.ms) :
    s.settle.Running := by
  have hsettles : Settles { s with mapState := .valid, edges := [] } s.settle := settles_settle
  have hmap : s.settle.map = s.map := hsettles.map
  refine ⟨hmap ▸ hw, hsettles.linked fun c l hl => ?_, nofun, fun c => ?_⟩
  · have hnone := hblank.lastlvl c
    rw [hnone] at hl
    cases hl
  · refine .of_idle ((hsettles.idle c).trans (hblank.idle c)) ?_ (fun hc => ?_) (fun k hk => ?_)
    · rw [hsettles.frame.1, hsettles.frame.2.1]
      exact hpast c
    · rw [hmap] at hc ⊢
      refine settle_safe fun hnone => ?_
      rw [Entry.isPrimary, hnone] at hc
      cases hc
    · rw [hmap] at hk ⊢
      refine settle_safe ?_
      rw [(hw.partner c k hk).1]
      decide

/-! ### Every reachable state -/

/-- What holds in every reachable state. -/
structure Governed (s : Engine) : Prop where
  hbTimeout : s.hbTimeout ≠ 0
  sound : Sound s.map
  past : ∀ c, s.raised c ≤ s.ms
  blank : s.mapState ≠ .valid → s.Blank
  running : s.mapState = .valid → s.Running

/-- What an input does: it starts a new map, it is a chain of operations under a valid map, it does
nothing to the channels, or the map becomes valid. -/
theorem next_cases (R : Rules) (hs : s.Governed) (i : Input)
    (hdown : s.mapState = .valid → ∀ c, i.downs c → R.down s c)
    (hfault : ∀ reason, i.faults s reason → R.release reason) :
    (i.begins ∧ next s i = { s.clearMap with mapError := .none, mapState := .loading }) ∨
    (¬ i.begins ∧ s.mapState = .valid ∧ Steps R s (next s i)) ∨
    (¬ i.begins ∧ s.mapState ≠ .valid ∧ Quiet s (next s i)) ∨
    i.commits ∧ ∃ t, Commits s t ∧ next s i = t.settle := by
  by_cases hi : i.begins
  · exact .inl ⟨hi, next_begins hi⟩
  by_cases hvalid : s.mapState = .valid
  · exact .inr (.inl ⟨hi, hvalid, steps_next (hs.running hvalid) hvalid hi (hdown hvalid) hfault⟩)
  rcases quiet_next hvalid (hs.blank hvalid) hs.sound hi with hquiet | hsettle
  · exact .inr (.inr (.inl ⟨hi, hvalid, hquiet⟩))
  · exact .inr (.inr (.inr hsettle))

theorem governed_next (hs : s.Governed) (i : Input) : (next s i).Governed := by
  rcases next_cases .any hs i (fun _ _ _ => trivial) (fun _ _ => trivial) with
    ⟨-, hnext⟩ | ⟨-, hvalid, hsteps⟩ | ⟨-, hvalid, hquiet⟩ | ⟨-, t, hcommit, hnext⟩
  · have hblank : s.clearMap.Blank := blank_clearMap
    rw [hnext]
    refine ⟨?_, sound_clearMap, fun c => ?_,
      fun _ => ⟨hblank.alive, hblank.lastlvl, hblank.idle⟩, nofun⟩
    · show IO_DEFAULT_HEARTBEAT_MS ≠ 0
      decide
    · show s.clearMap.raised c ≤ s.clearMap.ms
      rw [clearMap_frame.1, clearMap_frame.2]
      exact hs.past c
  · obtain ⟨hrun, hframe⟩ := hsteps.frame (hs.running hvalid)
    refine ⟨?_, hrun.wired.toSound, fun c => (hrun.phase c).past, fun hnot => ?_, fun _ => hrun⟩
    · rw [hframe.hbTimeout]
      exact hs.hbTimeout
    · exact absurd (hframe.mapState.trans hvalid) hnot
  · refine ⟨hquiet.hbTimeout hs.hbTimeout, hquiet.sound hs.sound, fun c => ?_,
      fun _ => hquiet.blank (hs.blank hvalid), fun hnow => ?_⟩
    · rw [hquiet.raised]
      exact Nat.le_trans (hs.past c) hquiet.ms
    · exact absurd (hquiet.mapState.symm.trans hnow) hvalid
  · have hblank : s.Blank := hs.blank (by rw [hcommit.loading]; decide)
    have hquiet := hcommit.loads.quiet
    have hpast (c : Ch) : t.raised c ≤ t.ms := by
      rw [hquiet.raised]
      exact Nat.le_trans (hs.past c) hquiet.ms
    have hrun := running_settle hcommit.wired (hquiet.blank hblank) hpast
    have hsettles : Settles { t with mapState := .valid, edges := [] } t.settle := settles_settle
    rw [hnext]
    refine ⟨?_, hrun.wired.toSound, fun c => (hrun.phase c).past, fun hnot => ?_, fun _ => hrun⟩
    · rw [hsettles.frame.2.2.1]
      exact hquiet.hbTimeout hs.hbTimeout
    · exact absurd hsettles.frame.2.2.2.2 hnot

/-- The engine at its start, before its map is cleared. -/
def started (latch : U8) : Engine :=
  Engine.forCh (fun c s => s.setCh c fun ch => { ch with lastlvl := none })
    { reset latch with OEA := 0, OEB := 0, OED := 0, shadow := 0xFF }

theorem appInit_eq (latch : U8) : (reset latch).appInit = (started latch).clearMap := rfl

theorem blank_started (latch : U8) : (started latch).Blank := by
  refine forCh_kept (P := Blank) (fun c t ht => ⟨ht.alive, fun d => ?_, fun d => ?_⟩)
    ⟨rfl, fun _ => rfl, fun _ => rfl⟩
  · by_cases hd : d = c
    · subst hd
      rw [setCh_self]
    · rw [setCh_ch, Function.update_of_ne hd]
      exact ht.lastlvl d
  · by_cases hd : d = c
    · subst hd
      rw [setCh_self]
      exact ht.idle d
    · rw [setCh_ch, Function.update_of_ne hd]
      exact ht.idle d

theorem governed_appInit (latch : U8) : (reset latch).appInit.Governed := by
  refine ⟨?_, sound_clearMap, fun c => ?_, fun _ => blank_clearMap, nofun⟩
  · show IO_DEFAULT_HEARTBEAT_MS ≠ 0
    decide
  · show (clearMap _).raised c ≤ (clearMap _).ms
    rw [clearMap_frame.2]
    exact Nat.zero_le _

/-- Every reachable state is governed. -/
theorem governed_of_reachable (h : machine.Reachable s) : s.Governed := by
  refine h.invariant (fun s hs => ?_) (fun s i t hs hst => ?_)
  · obtain ⟨latch, rfl⟩ := hs
    exact governed_appInit latch
  · obtain rfl := Option.some.inj hst
    exact governed_next hs i

/-- The board after some inputs. -/
def after (is : List Input) : Engine := is.foldl next (reset 0).appInit

/-- A state that is reached by inputs that all meet a condition. -/
theorem reach_after {ok : Engine → Input → Prop} [∀ s i, Decidable (ok s i)] {is : List Input}
    (h : (machine.runWhile ok is (reset 0).appInit).isSome = true) :
    machine.Reach ok (after is) := by
  have hrun (is : List Input) : ∀ s, (machine.runWhile ok is s).isSome = true →
      machine.runWhile ok is s = some (is.foldl next s) := by
    induction is with
    | nil => exact fun _ _ => rfl
    | cons i is ih =>
      intro s hs
      unfold Machine.runWhile at hs ⊢
      split
      next hok =>
        rw [if_pos hok] at hs
        exact ih (next s i) hs
      next hok =>
        rw [if_neg hok] at hs
        cases hs
  exact Machine.Reach.of_runWhile (.init ⟨0, rfl⟩) (hrun is _ h)

theorem reachable_after (is : List Input) : machine.Reachable (after is) := by
  have hall (is : List Input) : ∀ s, machine.Reachable s → machine.Reachable (is.foldl next s) := by
    induction is with
    | nil => exact fun _ hs => hs
    | cons i is ih => exact fun s hs => ih _ (hs.step trivial rfl)
  exact hall is _ (.init ⟨0, rfl⟩)

/-- Loads a ptt line on pin 0, active high, with its keyline on pin 1: the keyline leads for two
milliseconds and lags for three, and the line stays off for a hundred. -/
def loadLines : List Input :=
  [.request 0x40 0x10 0 0, .request 0x40 0x11 0x0100 0x0C, .request 0x40 0x11 0x0201 0x0C,
    .request 0x40 0x12 0x0500 1, .request 0x40 0x12 0x0300 2, .request 0x40 0x12 0x0400 3,
    .request 0x40 0x12 0x0200 100, .request 0x40 0x14 0 0]

/-- A good heartbeat while nothing is keyed, and the key-down of pin 0. -/
def keyLines (seq : U16) : List Input := [.request 0xC0 0x06 seq 0, .request 0x40 0x15 0 1]

end Engine

end HamsOpen.StationIo
