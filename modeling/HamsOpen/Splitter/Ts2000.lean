import HamsOpen.Ascii.Kenwood
import Mathlib

/-!
# The composite status of the virtual port

A virtual port answers as a Kenwood TS-2000 does (`ts2000_personality.rs`). Its `IF` answer is put
together column by column, and what speaks to it reads the columns back with the engine of the same
model.
-/

namespace HamsOpen.Splitter

open Ascii
open Rig (Mode Vfo Observation Inbound)

/-- The rig state a composite status answer is built from. -/
structure Status where
  /-- Frequency of VFO A. -/
  frequency : UInt64
  mode : Mode
  /-- Transmitting. -/
  ptt : Bool
  rit : Bool
  xit : Bool
  ritOffset : Int16
  split : Bool
  deriving DecidableEq

/-- The mode digits of the TS-2000. -/
def MODE_CODES : List (Mode × UInt8) :=
  [(.lsb, 0x31), (.usb, 0x32), (.cw, 0x33), (.fm, 0x34), (.am, 0x35), (.rtty, 0x36), (.cwR, 0x37),
    (.rttyR, 0x39)]

/-- Data modes use the sideband they sit on. -/
def sideband : Mode → Mode
  | .data => .usb
  | .dataR => .lsb
  | other => other

/-- The mode digit for a mode. -/
def code (mode : Mode) : Option UInt8 := (MODE_CODES.find? (·.1 = sideband mode)).map (·.2)

def flagDigit (on : Bool) : UInt8 := if on then 0x31 else 0x30

/-- Step and offset. -/
def offsetField (s : Status) : Bytes :=
  List.replicate 4 0x30 ++ (if s.ritOffset < 0 then MINUS else PLUS) ::
    digits 5 s.ritOffset.toInt.natAbs

/-- The columns after the offset. -/
def flagFields (s : Status) (mode : UInt8) : Bytes :=
  [flagDigit s.rit, flagDigit s.xit, 0x30, 0x30, 0x30, flagDigit s.ptt, mode, 0x30, 0x30,
    flagDigit s.split, 0x30, 0x30, 0x30, 0x30]

/-- The columns of the answer. -/
def statusBody (s : Status) (mode : UInt8) : Bytes :=
  digits 11 s.frequency.toNat ++ offsetField s ++ flagFields s mode

/-- The `IF` answer for a status. -/
def statusAnswer (s : Status) : Option Bytes :=
  (code s.mode).map fun mode => [0x49, 0x46] ++ statusBody s mode ++ [TERMINATOR]

/-- The answer to a read of the status. -/
def statusReply (s : Status) : Bytes := (statusAnswer s).getD [0x3F, TERMINATOR]

/-- The engine of the TS-2000. -/
def ts2000 (otherwise : Bytes → List Inbound) : KenwoodEngine :=
  ⟨MODE_CODES, false, false, Tokenizer.default, otherwise⟩

/-- The values of a status, with the frequency on VFO A. -/
def observations (s : Status) : List Observation :=
  [.frequency .a s.frequency.toNat, .rxVfo .a, .txVfo (if s.split then .b else .a),
    .mode (sideband s.mode), .ptt s.ptt, .rit s.rit, .xit s.xit, .ritOffset s.ritOffset.toInt,
    .split s.split]

/-- A status is refused, or what is answered is read as its values. -/
def Answered (s : Status) : Prop :=
  statusReply s = [0x3F, TERMINATOR] ∨ ∀ otherwise now,
    ((ts2000 otherwise).feed (statusReply s) now).1 = (observations s).map .observation

section Columns

variable {s : Status} {mode : UInt8} {otherwise : Bytes → List Inbound}

theorem natAbs_lt : s.ritOffset.toInt.natAbs < 10 ^ 5 := by
  have hlow := s.ritOffset.le_toInt
  have hhigh := s.ritOffset.toInt_lt
  omega

theorem length_offsetField : (offsetField s).length = 10 := by
  rw [offsetField, List.length_append, List.length_replicate, List.length_cons,
    length_digits (by decide) natAbs_lt]

/-- The width of the answer is right when the frequency has eleven digits. -/
theorem length_statusBody : (statusBody s mode).length = 35 ↔ s.frequency.toNat < 10 ^ 11 := by
  have hflags : (flagFields s mode).length = 14 := rfl
  have hdigits : (digits 11 s.frequency.toNat).length =
      max 11 (Nat.toDigits 10 s.frequency.toNat).length := by
    rw [digits, ascii, List.length_map, Decimal.padded, List.length_leftpad]
  rw [statusBody, List.length_append, List.length_append, length_offsetField, hflags, hdigits,
    ← Nat.length_toDigits_le_iff (by decide) (by decide)]
  omega

theorem codeMode_of_code (h : code s.mode = some mode) :
    (ts2000 otherwise).codeMode mode = some (sideband s.mode) := by
  generalize s.mode = m at h
  cases m <;> cases h <;> rfl

theorem code_digit (h : code s.mode = some mode) : isAsciiDigit mode = true := by
  generalize s.mode = m at h
  cases m <;> cases h <;> rfl

/-- The columns hold digits and a sign. -/
theorem mem_statusBody (h : code s.mode = some mode) {b : UInt8} (hb : b ∈ statusBody s mode) :
    isAsciiDigit b = true ∨ isSign b = true := by
  have hflag (on : Bool) : isAsciiDigit (flagDigit on) = true := by cases on <;> rfl
  have hzero : isAsciiDigit 0x30 = true := rfl
  rcases List.mem_append.mp hb with hb | hb
  · rcases List.mem_append.mp hb with hb | hb
    · exact .inl (isAsciiDigit_of_digits hb)
    · rcases List.mem_append.mp hb with hb | hb
      · rw [List.eq_of_mem_replicate hb]
        exact .inl hzero
      · rcases List.mem_cons.mp hb with rfl | hb
        · right
          split <;> rfl
        · exact .inl (isAsciiDigit_of_digits hb)
  · left
    have hall : ∀ b ∈ flagFields s mode, isAsciiDigit b = true := by
      simp only [flagFields, List.forall_mem_cons, hflag, hzero, code_digit h, true_and]
      exact (by intros; contradiction)
    exact hall b hb

/-- A byte of the columns is printable, and no space. -/
theorem byte_of_column {b : UInt8} (h : isAsciiDigit b = true ∨ isSign b = true) :
    (0x20 ≤ b && b < 0x7F && decide (b ≠ TERMINATOR)) = true ∧ b < 0x80 := by
  have hall : ∀ n : Fin 256, isAsciiDigit (UInt8.ofFin n) = true ∨ isSign (UInt8.ofFin n) = true →
      (0x20 ≤ UInt8.ofFin n && UInt8.ofFin n < 0x7F &&
        decide (UInt8.ofFin n ≠ TERMINATOR)) = true ∧ UInt8.ofFin n < 0x80 := by
    decide +kernel
  exact hall b.toFin h

/-- The answer is one command, which is read as it is. -/
theorem feed_statusAnswer (h : code s.mode = some mode) (now : ℕ) :
    ((ts2000 otherwise).feed ([0x49, 0x46] ++ statusBody s mode ++ [TERMINATOR]) now).1 =
      ((ts2000 otherwise).decodeIf (statusBody s mode)).getD
        [.unrecognised ([0x49, 0x46] ++ statusBody s mode ++ [TERMINATOR])] := by
  have hprintable : printable ([0x49, 0x46] ++ statusBody s mode) = true := by
    rw [printable, List.all_append, Bool.and_eq_true_iff]
    exact ⟨rfl, List.all_eq_true.mpr fun b hb => (byte_of_column (mem_statusBody h hb)).1⟩
  have htext : text ([0x49, 0x46] ++ statusBody s mode) = [0x49, 0x46] ++ statusBody s mode := by
    -- it begins with a letter and ends with a zero
    have hlast : ([0x49, 0x46] ++ statusBody s mode) =
        ([0x49, 0x46] ++ digits 11 s.frequency.toNat ++ offsetField s ++
          [flagDigit s.rit, flagDigit s.xit, 0x30, 0x30, 0x30, flagDigit s.ptt, mode, 0x30, 0x30,
            flagDigit s.split, 0x30, 0x30, 0x30]) ++ [0x30] := by
      rw [statusBody, flagFields]
      simp only [List.append_assoc, List.cons_append, List.nil_append]
    have hstart : trimStart ([0x49, 0x46] ++ statusBody s mode) =
        [0x49, 0x46] ++ statusBody s mode := rfl
    have hky : List.isPrefixOf [0x4B, 0x59] ([0x49, 0x46] ++ statusBody s mode) = false := rfl
    rw [text, hky, if_neg Bool.false_ne_true, trim, hstart, hlast]
    exact List.rdropWhile_concat_neg _ _ _ (by decide)
  rw [KenwoodEngine.feed_command rfl hprintable htext (List.cons_ne_nil _ _)]
  rfl

/-- The flags stand where they are looked for. -/
theorem flagAt_flagFields (s : Status) (mode : UInt8) : flagAt (flagFields s mode) 0 = some s.rit ∧
    flagAt (flagFields s mode) 1 = some s.xit ∧ flagAt (flagFields s mode) 5 = some s.ptt ∧
    flagAt (flagFields s mode) 9 = some s.split := by
  refine ⟨?_, ?_, ?_, ?_⟩
  · cases hrit : s.rit <;> rw [flagFields, hrit] <;> rfl
  · cases hxit : s.xit <;> rw [flagFields, hxit] <;> rfl
  · cases hptt : s.ptt <;> rw [flagFields, hptt] <;> rfl
  · cases hsplit : s.split <;> rw [flagFields, hsplit] <;> rfl

/-- The offset is read with its sign. -/
theorem parseIfOffset_offsetField : parseIfOffset (offsetField s) =
    if 2 ^ 15 ≤ s.ritOffset.toInt.natAbs then none else some s.ritOffset.toInt := by
  have hneg : s.ritOffset < 0 ↔ s.ritOffset.toInt < 0 := Int16.lt_iff_toInt_lt
  have hsign : isSign (if s.ritOffset < 0 then MINUS else PLUS) = true := by split <;> rfl
  rw [offsetField, parseIfOffset_signed hsign List.length_replicate natAbs_lt]
  by_cases hbig : 2 ^ 15 ≤ s.ritOffset.toInt.natAbs
  · rw [if_pos hbig, if_pos hbig]
  · rw [if_neg hbig, if_neg hbig]
    by_cases hminus : s.ritOffset < 0
    · rw [if_pos hminus, if_pos rfl]
      have hvalue := hneg.mp hminus
      congr 1
      omega
    · rw [if_neg hminus, if_neg (by decide)]
      rw [hneg] at hminus
      congr 1
      omega

/-- Columns of the right width are read back. -/
theorem decodeIf_statusBody (h : code s.mode = some mode)
    (hfrequency : s.frequency.toNat < 10 ^ 11) :
    (ts2000 otherwise).decodeIf (statusBody s mode) =
      if 2 ^ 15 ≤ s.ritOffset.toInt.natAbs then none
      else some ((observations s).map .observation) := by
  have hwidth : (statusBody s mode).length = 35 := length_statusBody.mpr hfrequency
  have hascii : (statusBody s mode).all (· < 0x80) = true :=
    List.all_eq_true.mpr fun b hb => decide_eq_true (byte_of_column (mem_statusBody h hb)).2
  have hdigits : (digits 11 s.frequency.toNat).length = 11 := length_digits (by decide) hfrequency
  have hfirst : field (statusBody s mode) 0 11 = some (digits 11 s.frequency.toNat) := by
    have hfield := field_append [] (digits 11 s.frequency.toNat)
      (offsetField s ++ flagFields s mode)
    rw [hdigits, List.nil_append, ← List.append_assoc] at hfield
    exact hfield
  have hsecond : field (statusBody s mode) 11 21 = some (offsetField s) := by
    have hfield := field_append (digits 11 s.frequency.toNat) (offsetField s) (flagFields s mode)
    rw [hdigits, length_offsetField] at hfield
    exact hfield
  have hfront : (digits 11 s.frequency.toNat ++ offsetField s).length = 21 := by
    rw [List.length_append, hdigits, length_offsetField]
  have hflag (i : ℕ) : flagAt (statusBody s mode) (21 + i) = flagAt (flagFields s mode) i :=
    flagAt_right hfront
  obtain ⟨hrit, hxit, hptt, hsplit⟩ := flagAt_flagFields s mode
  have hmode : field (statusBody s mode) 27 28 = some [mode] :=
    field_right (i := 6) hfront 7
  have hvfo : field (statusBody s mode) 28 29 = some [0x30] :=
    field_right (i := 7) hfront 8
  have hcode : ([mode].head?.bind (ts2000 otherwise).codeMode) = some (sideband s.mode) :=
    codeMode_of_code h
  rw [← hflag] at hrit hxit hptt hsplit
  have hplain : (ts2000 otherwise).r5000 = false := rfl
  have hclassic : (ts2000 otherwise).ts990 = false := rfl
  rw [KenwoodEngine.decodeIf, hplain, Bool.false_and, Bool.false_and,
    if_neg Bool.false_ne_true]
  dsimp only
  rw [if_neg (by rw [hwidth, hascii]; decide), hfirst, hsecond, hrit, hxit, hptt, hsplit, hmode,
    hvfo]
  simp only [bind, pure, Option.bind_some, hcode, hclassic, parseIfOffset_offsetField,
    parseDigits_digits (by decide : 0 < 11) (by decide : 11 ≤ 18) hfrequency]
  by_cases hbig : 2 ^ 15 ≤ s.ritOffset.toInt.natAbs
  · rw [if_pos hbig, if_pos hbig]
    rfl
  · rw [if_neg hbig, if_neg hbig, Option.bind_some, if_neg Bool.false_ne_true]
    rfl

/-- An answer of another width is not read. -/
theorem decodeIf_of_wide (hfrequency : ¬ s.frequency.toNat < 10 ^ 11) :
    (ts2000 otherwise).decodeIf (statusBody s mode) = none := by
  have hwidth : (statusBody s mode).length ≠ 35 := fun h => hfrequency (length_statusBody.mp h)
  have hplain : (ts2000 otherwise).r5000 = false := rfl
  rw [KenwoodEngine.decodeIf, hplain, Bool.false_and, Bool.false_and,
    if_neg Bool.false_ne_true]
  dsimp only
  rw [if_pos (.inl hwidth)]
  rfl

/-- Only the lowest offset is beyond the type when its sign is taken away. -/
theorem natAbs_ritOffset : 2 ^ 15 ≤ s.ritOffset.toInt.natAbs ↔ s.ritOffset = -32768 := by
  have hlow := s.ritOffset.le_toInt
  have hhigh := s.ritOffset.toInt_lt
  rw [← Int16.toInt_inj]
  have hvalue : (-32768 : Int16).toInt = -32768 := rfl
  rw [hvalue]
  omega

end Columns

/-- A status is answered as it should be exactly when its mode has no digit, or its frequency has
eleven digits and its offset is not the lowest one. -/
theorem answered_iff (s : Status) : Answered s ↔
    code s.mode = none ∨ s.frequency.toNat < 10 ^ 11 ∧ s.ritOffset ≠ -32768 := by
  cases hcode : code s.mode with
  | none =>
    have hreply : statusReply s = [0x3F, TERMINATOR] := by
      rw [statusReply, statusAnswer, hcode]; rfl
    exact iff_of_true (.inl hreply) (.inl rfl)
  | some mode =>
    have hreply : statusReply s = [0x49, 0x46] ++ statusBody s mode ++ [TERMINATOR] := by
      rw [statusReply, statusAnswer, hcode]; rfl
    have hread : Answered s ↔ ∀ otherwise (_ : ℕ), ((ts2000 otherwise).decodeIf
        (statusBody s mode)).getD [.unrecognised (statusReply s)] =
          (observations s).map .observation := by
      rw [Answered, hreply]
      simp only [feed_statusAnswer hcode]
      exact or_iff_right nofun
    rw [hread, or_iff_right nofun]
    constructor
    · intro hall
      have h := hall (fun _ => []) 0
      by_cases hfrequency : s.frequency.toNat < 10 ^ 11
      · refine ⟨hfrequency, fun hlowest => ?_⟩
        rw [decodeIf_statusBody hcode hfrequency, if_pos (natAbs_ritOffset.mpr hlowest)] at h
        cases h
      · rw [decodeIf_of_wide hfrequency] at h
        cases h
    · rintro ⟨hfrequency, hoffset⟩ otherwise -
      rw [decodeIf_statusBody hcode hfrequency,
        if_neg fun hbig => hoffset (natAbs_ritOffset.mp hbig)]
      rfl

/-- An offset that is not read back, and a frequency that moves the columns. -/
theorem lowest_offset_unread :
    ¬ Answered ⟨14074000, .usb, false, true, false, -32768, false⟩ ∧
    ¬ Answered ⟨100000000000, .usb, false, false, false, 0, false⟩ := by
  have hrefused (s : Status) (otherwise : Bytes → List Inbound) (now : ℕ)
      (hreply : statusReply s ≠ [0x3F, TERMINATOR])
      (hfeed : ((ts2000 otherwise).feed (statusReply s) now).1 ≠
        (observations s).map .observation) : ¬ Answered s :=
    fun h => hfeed (h.resolve_left hreply otherwise now)
  constructor
  · exact hrefused _ (fun _ => []) 0 (by decide) (by decide)
  · exact hrefused _ (fun _ => []) 0 (by decide) (by decide)

end HamsOpen.Splitter
