import HamsOpen.StationIo.Image

/-!
# Pins and their levels

A pin of a map is at the level that the engine last brought it to, and bringing one pin to a level
leaves the others at theirs. So what port A drives can be told from the channels.
-/

namespace HamsOpen.StationIo

theorem boardChanPin_inj {c d : Ch} (h : boardChanPin c = boardChanPin d) : c = d := Fin.ext h

theorem boardChanPin_lt (c : Ch) : boardChanPin c < 8 := Nat.lt_trans c.isLt (by decide)

theorem bit_getLsbD (c : Ch) (pin : Nat) : (bit c).getLsbD pin = decide (pin = boardChanPin c) := by
  have hc : boardChanPin c < 8 := boardChanPin_lt c
  rw [bit, BitVec.getLsbD_shiftLeft, BitVec.getLsbD_one]
  by_cases hpin : pin = boardChanPin c
  · subst hpin
    simp [hc]
  · by_cases hlt : pin < boardChanPin c
    · simp [hlt, hpin]
    · have hne : pin - boardChanPin c ≠ 0 := by omega
      simp [hpin, hne]

theorem or_bit {c : Ch} {pin : Nat} (h : pin ≠ boardChanPin c) (x : U8) :
    (x ||| bit c).getLsbD pin = x.getLsbD pin := by
  rw [BitVec.getLsbD_or, bit_getLsbD, decide_eq_false h, Bool.or_false]

theorem and_not_bit {c : Ch} {pin : Nat} (h : pin ≠ boardChanPin c) (x : U8) :
    (x &&& ~~~bit c).getLsbD pin = x.getLsbD pin := by
  rw [BitVec.getLsbD_and, BitVec.getLsbD_not, bit_getLsbD, decide_eq_false h]
  by_cases hlt : pin < 8
  · simp [hlt]
  · rw [BitVec.getLsbD_of_ge x pin (Nat.le_of_not_lt hlt), Bool.false_and]

@[simp] theorem Level.driven_inj {a b : Bool} : Level.driven a = Level.driven b ↔ a = b := by
  cases a <;> cases b <;> decide

theorem Level.driven_ne_released (b : Bool) : Level.driven b ≠ .released := by
  cases b <;> decide

namespace Engine

variable {s : Engine} {c d : Ch} {lvl : Level} {f : Chan → Chan} {pin : Nat}

/-! ### What bringing a pin to a level changes -/

theorem pinLevel_of_eq (h : (s.ch c).lastlvl = some lvl) : s.pinLevel c lvl = s := if_pos h

/-- The state that a pin level leads to, unless the pin was at that level. -/
theorem pinLevel_of_ne (h : (s.ch c).lastlvl ≠ some lvl) : s.pinLevel c lvl =
    (((s.drivePin c lvl).setCh c fun ch => { ch with lastlvl := some lvl }).logEdge c lvl
      s.port).noteLeft c (s.leaves c lvl) := if_neg h

theorem drivePin_ch : (s.drivePin c lvl).ch = s.ch := by
  cases lvl <;> rfl

theorem noteLeft_ch (b : Bool) : (s.noteLeft c b).ch = s.ch := by
  cases b <;> rfl

@[simp] theorem pinLevel_ch : (s.pinLevel c lvl).ch =
    Function.update s.ch c { s.ch c with lastlvl := some lvl } := by
  by_cases h : (s.ch c).lastlvl = some lvl
  · rw [pinLevel_of_eq h, ← h, Function.update_eq_self]
  · rw [pinLevel_of_ne h, noteLeft_ch]
    simp only [logEdge, setCh, drivePin_ch]

/-- A pin level changes neither the clock nor what the engine knows beside its channels. -/
theorem pinLevel_frame : (s.pinLevel c lvl).ms = s.ms ∧ (s.pinLevel c lvl).mapState = s.mapState ∧
    (s.pinLevel c lvl).alive = s.alive ∧ (s.pinLevel c lvl).hbTimeout = s.hbTimeout ∧
    (s.pinLevel c lvl).hbT = s.hbT ∧ (s.pinLevel c lvl).lastGood = s.lastGood ∧
    (s.pinLevel c lvl).raised = s.raised ∧ (s.pinLevel c lvl).settled = s.settled ∧
    (s.pinLevel c lvl).OEB = s.OEB ∧ (s.pinLevel c lvl).OED = s.OED := by
  unfold pinLevel
  split
  · exact ⟨rfl, rfl, rfl, rfl, rfl, rfl, rfl, rfl, rfl, rfl⟩
  · cases s.leaves c lvl <;> cases lvl <;> exact ⟨rfl, rfl, rfl, rfl, rfl, rfl, rfl, rfl, rfl, rfl⟩

@[simp] theorem pinLevel_ms : (s.pinLevel c lvl).ms = s.ms := pinLevel_frame.1
@[simp] theorem pinLevel_mapState : (s.pinLevel c lvl).mapState = s.mapState := pinLevel_frame.2.1
@[simp] theorem pinLevel_alive : (s.pinLevel c lvl).alive = s.alive := pinLevel_frame.2.2.1
@[simp] theorem pinLevel_hbTimeout : (s.pinLevel c lvl).hbTimeout = s.hbTimeout :=
  pinLevel_frame.2.2.2.1
@[simp] theorem pinLevel_hbT : (s.pinLevel c lvl).hbT = s.hbT := pinLevel_frame.2.2.2.2.1
@[simp] theorem pinLevel_lastGood : (s.pinLevel c lvl).lastGood = s.lastGood :=
  pinLevel_frame.2.2.2.2.2.1
@[simp] theorem pinLevel_raised : (s.pinLevel c lvl).raised = s.raised :=
  pinLevel_frame.2.2.2.2.2.2.1
@[simp] theorem pinLevel_settled : (s.pinLevel c lvl).settled = s.settled :=
  pinLevel_frame.2.2.2.2.2.2.2.1
@[simp] theorem pinLevel_OEB : (s.pinLevel c lvl).OEB = s.OEB := pinLevel_frame.2.2.2.2.2.2.2.2.1
@[simp] theorem pinLevel_OED : (s.pinLevel c lvl).OED = s.OED := pinLevel_frame.2.2.2.2.2.2.2.2.2

/-- The registers and the latch after a pin level are those of the pin driven so, unless it was at
that level. -/
theorem pinLevel_registers (h : (s.ch c).lastlvl ≠ some lvl) :
    (s.pinLevel c lvl).port = (s.drivePin c lvl).port ∧
      (s.pinLevel c lvl).shadow = (s.drivePin c lvl).shadow := by
  rw [pinLevel_of_ne h]
  cases s.leaves c lvl <;> exact ⟨rfl, rfl⟩

/-- A pin level notes an edge, unless the pin was at that level. -/
theorem pinLevel_edges (h : (s.ch c).lastlvl ≠ some lvl) : (s.pinLevel c lvl).edges =
    ⟨s.ms, c, lvl, s.port, (s.pinLevel c lvl).port, s.left⟩ :: s.edges := by
  rw [pinLevel_of_ne h]
  cases s.leaves c lvl <;> cases lvl <;> rfl

/-- When a ptt line left its active level is noted. -/
theorem pinLevel_left (h : (s.ch c).lastlvl ≠ some lvl) :
    (s.pinLevel c lvl).left = (s.noteLeft c (s.leaves c lvl)).left ∧
      (s.pinLevel c lvl).earlier = (s.noteLeft c (s.leaves c lvl)).earlier := by
  rw [pinLevel_of_ne h]
  cases s.leaves c lvl <;> cases lvl <;> exact ⟨rfl, rfl⟩

/-! ### What port A drives then -/

/-- A driven pin is driven to its bit of the latch of the engine. -/
def Latched (s : Engine) (pin : Nat) : Prop :=
  s.OEA.getLsbD pin = true → s.IOA.getLsbD pin = s.shadow.getLsbD pin

theorem drivePin_self : (s.drivePin c lvl).port.level c = lvl ∧
    (s.drivePin c lvl).Latched (boardChanPin c) := by
  have hself (x : U8) : (x ||| bit c).getLsbD (boardChanPin c) = true := by
    rw [BitVec.getLsbD_or, bit_getLsbD, decide_eq_true rfl, Bool.or_true]
  have hnot (x : U8) : (x &&& ~~~bit c).getLsbD (boardChanPin c) = false := by
    rw [BitVec.getLsbD_and, BitVec.getLsbD_not, bit_getLsbD, decide_eq_true rfl]
    simp
  cases lvl <;> simp [Port.level, Port.pin, port, Latched, drivePin, hself, hnot, Level.driven]

theorem drivePin_other (hpin : pin ≠ boardChanPin c) (h : s.Latched pin) :
    (s.drivePin c lvl).port.pin pin = s.port.pin pin ∧ (s.drivePin c lvl).Latched pin := by
  -- the latch of the port becomes the engine's, which a driven pin agrees with
  have hlatch : (if s.OEA.getLsbD pin = true then Level.driven (s.shadow.getLsbD pin) else .released) =
      s.port.pin pin := by
    by_cases hdriven : s.OEA.getLsbD pin = true
    · rw [Port.pin, port, if_pos hdriven, if_pos hdriven, h hdriven]
    · rw [Port.pin, port, if_neg hdriven, if_neg hdriven]
  cases lvl with
  | released =>
    simp only [Port.pin, port, Latched, drivePin, and_not_bit hpin]
    exact ⟨rfl, h⟩
  | low =>
    refine ⟨?_, fun _ => rfl⟩
    rw [← hlatch]
    simp only [Port.pin, port, drivePin, or_bit hpin, and_not_bit hpin]
  | high =>
    refine ⟨?_, fun _ => rfl⟩
    rw [← hlatch]
    simp only [Port.pin, port, drivePin, or_bit hpin]

/-- Bringing one pin to a level leaves the others at theirs. -/
theorem pin_pinLevel (hpin : pin ≠ boardChanPin c) (h : s.Latched pin) :
    (s.pinLevel c lvl).port.pin pin = s.port.pin pin ∧ (s.pinLevel c lvl).Latched pin := by
  by_cases heq : (s.ch c).lastlvl = some lvl
  · rw [pinLevel_of_eq heq]
    exact ⟨rfl, h⟩
  · obtain ⟨hport, hshadow⟩ := pinLevel_registers heq
    have hother : (s.drivePin c lvl).port.pin pin = s.port.pin pin ∧ (s.drivePin c lvl).Latched pin :=
      drivePin_other hpin h
    simp only [port, Port.mk.injEq] at hport
    simp only [port, Latched, hport, hshadow] at hother ⊢
    exact hother

/-- The pin of a channel is at the level that it was last brought to. -/
def Linked (s : Engine) (c : Ch) : Prop :=
  ∀ l, (s.ch c).lastlvl = some l → s.port.level c = l ∧ s.Latched (boardChanPin c)

theorem linked_pinLevel_self (h : s.Linked c) : (s.pinLevel c lvl).Linked c := by
  intro l hl
  obtain rfl : lvl = l := by simpa using hl
  by_cases heq : (s.ch c).lastlvl = some lvl
  · rw [pinLevel_of_eq heq]
    exact h lvl heq
  · obtain ⟨hport, hshadow⟩ := pinLevel_registers heq
    have hself : (s.drivePin c lvl).port.level c = lvl ∧
        (s.drivePin c lvl).Latched (boardChanPin c) := drivePin_self
    simp only [port, Port.mk.injEq] at hport
    simp only [port, Latched, hport, hshadow] at hself ⊢
    exact hself

/-- The pins stay at the levels they were last brought to. -/
theorem linked_pinLevel (h : ∀ d, s.Linked d) (d : Ch) : (s.pinLevel c lvl).Linked d := by
  by_cases hdc : d = c
  · subst hdc
    exact linked_pinLevel_self (h d)
  · intro l hl
    rw [pinLevel_ch, Function.update_of_ne hdc] at hl
    obtain ⟨hlevel, hlatched⟩ := h d l hl
    have hpin : boardChanPin d ≠ boardChanPin c := fun heq => hdc (boardChanPin_inj heq)
    obtain ⟨hsame, hstill⟩ : (s.pinLevel c lvl).port.level d = s.port.level d ∧
        (s.pinLevel c lvl).Latched (boardChanPin d) := pin_pinLevel hpin hlatched
    exact ⟨hsame.trans hlevel, hstill⟩

end Engine

end HamsOpen.StationIo
