import Mathlib

/-!
# The code of RTTY

Radio teletype sends a character as one of 32 codes, each of which is a letter in one shift and a
figure in the other (`rtty.rs`). Two of the codes change the shift. The sender changes it only when
the next character needs it; the receiver also changes it back by itself, on a space and on a run
of figures that are not digits, as it may have missed a shift.
-/

namespace HamsOpen.Rtty

/-- What each code is in the shift of letters; a null character is none. -/
def LTRS_CHARS : List Char :=
  ['\x00', 'E', '\n', 'A', ' ', 'S', 'I', 'U', '\r', 'D', 'R', 'J', 'N', 'F', 'C', 'K', 'T', 'Z',
    'L', 'W', 'H', 'Y', 'P', 'Q', 'O', 'B', 'G', '\x00', 'M', 'X', 'V', '\x00']

/-- What each code is in the shift of figures. -/
def FIGS_CHARS : List Char :=
  ['\x00', '3', '\n', '-', ' ', '\x07', '8', '7', '\r', '$', '4', '\'', ',', '!', ':', '(', '5',
    '"', ')', '2', '#', '6', '0', '1', '9', '?', '&', '\x00', '.', '/', ';', '\x00']

def CODE_LTRS_SHIFT : ℕ := 0b11111
def CODE_FIGS_SHIFT : ℕ := 0b11011

/-! ### The sender -/

/-- The place of a character in a table. -/
def position (chars : List Char) (c : Char) : Option ℕ :=
  chars.findIdx? fun ch => ch ≠ '\x00' && ch = c

/-- The code of a character, and whether it is a figure. -/
def charToBaudot (c : Char) : Option (ℕ × Bool) :=
  let upper := c.toUpper
  match position LTRS_CHARS upper with
  | some code => some (code, false)
  | none => (position FIGS_CHARS upper).map fun code => (code, true)

/-- A space, five bits with the low one first, and a mark. -/
def framedChar (code : ℕ) : List Bool :=
  [false] ++ (List.range 5).map code.testBit ++ [true]

/-- The bits of a text that is sent from a shift on. Characters without a code are left out. -/
def framedBits : Bool → List Char → List Bool
  | _, [] => []
  | currentFigs, c :: text =>
    match charToBaudot c with
    | none => framedBits currentFigs text
    | some (code, needsFigs) =>
      (if needsFigs ≠ currentFigs then
        framedChar (if needsFigs then CODE_FIGS_SHIFT else CODE_LTRS_SHIFT) else []) ++
        framedChar code ++ framedBits needsFigs text

def textToFramedBits (text : List Char) : List Bool := framedBits false text

/-! ### The receiver -/

/-- The number of bits, the low one first. -/
def ofBits (bits : List Bool) : ℕ := bits.foldr (fun b n => b.toNat + 2 * n) 0

/-- The codes of framed bits. -/
def unframe : List Bool → Option (List ℕ)
  | [] => some []
  | false :: b₀ :: b₁ :: b₂ :: b₃ :: b₄ :: true :: bits =>
    (unframe bits).map (ofBits [b₀, b₁, b₂, b₃, b₄] :: ·)
  | _ => none

/-- What the receiver knows of the shift. -/
structure Shift where
  currentFigs : Bool
  /-- How many figures were not digits since the shift was last certain. -/
  figsNonDigitRun : ℕ
  deriving DecidableEq

/-- The shift of letters. -/
def Shift.letters : Shift := ⟨false, 0⟩

/-- Whether a code that is no shift is read as a figure. A third figure in a row that is not a digit
is the sign of a missed shift. -/
def Shift.reading (s : Shift) (code : ℕ) : Bool × Shift :=
  if s.currentFigs then
    if (FIGS_CHARS.getD code '\x00').isDigit then (true, { s with figsNonDigitRun := 0 })
    else if 3 ≤ s.figsNonDigitRun + 1 then (false, .letters)
    else (true, { s with figsNonDigitRun := s.figsNonDigitRun + 1 })
  else (false, s)

/-- A code that is received: the shift after it, and the character that is shown. -/
def Shift.receive (s : Shift) (code : ℕ) : Shift × List Char :=
  if code = CODE_LTRS_SHIFT then (.letters, [])
  else if code = CODE_FIGS_SHIFT then (⟨true, 0⟩, [])
  else
    let (useFigs, s) := s.reading code
    let c := (if useFigs then FIGS_CHARS else LTRS_CHARS).getD code '\x00'
    (if c = ' ' then .letters else s, if c ≠ '\x00' then [c] else [])

/-- The text of codes that are received one after another. -/
def Shift.receiveAll (s : Shift) : List ℕ → List Char
  | [] => []
  | code :: codes => (s.receive code).2 ++ (s.receive code).1.receiveAll codes

/-! ### Texts -/

/-- A figure that is not a digit. -/
def IsFigure (c : Char) : Bool := (charToBaudot c).any (·.2) && !c.isDigit

/-- A letter, a space or a digit. -/
def IsBreak (c : Char) : Bool := c.isAlpha || c = ' ' || c.isDigit

/-- No three figures that are not digits occur without a letter, a space or a digit between. -/
def Plausible (text : List Char) : Prop :=
  ∀ run, run <:+: text → (∀ c ∈ run, IsBreak c = false) → run.countP IsFigure < 3

theorem plausible_iff {text : List Char} : Plausible text ↔ ∀ t ∈ text.tails, ∀ run ∈ t.inits,
    run.any IsBreak = false → run.countP IsFigure < 3 := by
  constructor
  · intro h t ht run hrun hbreaks
    have hpart : run <:+: text :=
      ((List.mem_inits _ _).mp hrun).isInfix.trans ((List.mem_tails _ _).mp ht).isInfix
    exact h run hpart fun c hc => Bool.eq_false_iff.mpr (List.any_eq_false.mp hbreaks c hc)
  · intro h run hrun hbreaks
    obtain ⟨t, hprefix, hsuffix⟩ := List.infix_iff_prefix_suffix.mp hrun
    have hnone : run.any IsBreak = false :=
      List.any_eq_false.mpr fun c hc => Bool.eq_false_iff.mp (hbreaks c hc)
    exact h t ((List.mem_tails _ _).mpr hsuffix) run ((List.mem_inits _ _).mpr hprefix) hnone

instance (text : List Char) : Decidable (Plausible text) := decidable_of_iff' _ plausible_iff

/-! ### Framing -/

theorem ofBits_testBit {code : ℕ} (h : code < 32) :
    ofBits [code.testBit 0, code.testBit 1, code.testBit 2, code.testBit 3, code.testBit 4] =
      code := by
  have hall : ∀ n : Fin 32, ofBits [n.val.testBit 0, n.val.testBit 1, n.val.testBit 2,
      n.val.testBit 3, n.val.testBit 4] = n.val := by decide
  exact hall ⟨code, h⟩

theorem unframe_framedChar {code : ℕ} (h : code < 32) (bits : List Bool) :
    unframe (framedChar code ++ bits) = (unframe bits).map (code :: ·) := by
  have hframe : framedChar code ++ bits = false :: code.testBit 0 :: code.testBit 1 ::
      code.testBit 2 :: code.testBit 3 :: code.testBit 4 :: true :: bits := rfl
  rw [hframe, unframe, ofBits_testBit h]

/-- The codes of a text that is sent from a shift on. -/
def codesFrom : Bool → List Char → List ℕ
  | _, [] => []
  | currentFigs, c :: text =>
    match charToBaudot c with
    | none => codesFrom currentFigs text
    | some (code, needsFigs) =>
      (if needsFigs ≠ currentFigs then
        [if needsFigs then CODE_FIGS_SHIFT else CODE_LTRS_SHIFT] else []) ++
        code :: codesFrom needsFigs text

/-! ### The tables -/

section Tables

variable {c : Char} {code : ℕ}

theorem position_eq_some {chars : List Char} (h : position chars c = some code) :
    chars.getD code '\x00' = c ∧ c ≠ '\x00' ∧ code < chars.length := by
  obtain ⟨hlt, hc, -⟩ := List.findIdx?_eq_some_iff_getElem.mp h
  simp only [Bool.and_eq_true, decide_eq_true_eq] at hc
  obtain ⟨hne, heq⟩ := hc
  rw [List.getD_eq_getElem _ _ hlt]
  exact ⟨heq, heq ▸ hne, hlt⟩

theorem charToBaudot_letters (h : charToBaudot c = some (code, false)) :
    position LTRS_CHARS c.toUpper = some code := by
  unfold charToBaudot at h
  dsimp only at h
  split at h
  next hletters =>
    cases h
    exact hletters
  next =>
    obtain ⟨code', -, heq⟩ := Option.map_eq_some_iff.mp h
    cases heq

theorem charToBaudot_figs (h : charToBaudot c = some (code, true)) :
    position FIGS_CHARS c.toUpper = some code ∧ position LTRS_CHARS c.toUpper = none := by
  unfold charToBaudot at h
  dsimp only at h
  split at h
  · cases h
  next hletters =>
    obtain ⟨code', hfigs, heq⟩ := Option.map_eq_some_iff.mp h
    cases heq
    exact ⟨hfigs, hletters⟩

theorem charToBaudot_lt {needsFigs : Bool} (h : charToBaudot c = some (code, needsFigs)) :
    code < 32 := by
  cases needsFigs with
  | false => exact (position_eq_some (charToBaudot_letters h)).2.2
  | true => exact (position_eq_some (charToBaudot_figs h).1).2.2

/-- The code of a character is no shift. -/
theorem charToBaudot_ne_shift {needsFigs : Bool} (h : charToBaudot c = some (code, needsFigs)) :
    code ≠ CODE_LTRS_SHIFT ∧ code ≠ CODE_FIGS_SHIFT := by
  obtain ⟨chars, hchars, hposition⟩ : ∃ chars,
      (chars = LTRS_CHARS ∨ chars = FIGS_CHARS) ∧ position chars c.toUpper = some code := by
    cases needsFigs with
    | false => exact ⟨_, .inl rfl, charToBaudot_letters h⟩
    | true => exact ⟨_, .inr rfl, (charToBaudot_figs h).1⟩
  obtain ⟨hget, hne, -⟩ := position_eq_some hposition
  constructor
  · rintro rfl
    obtain rfl | rfl := hchars <;> exact hne hget.symm
  · rintro rfl
    obtain rfl | rfl := hchars <;> exact hne hget.symm

theorem toNat_toUpper (h : c.isLower = true) : c.toUpper.toNat + 32 = c.toNat := by
  have hlower : 'a'.val ≤ c.val ∧ c.val ≤ 'z'.val := by
    simpa [Char.isLower] using h
  have hlow : 97 ≤ c.toNat := UInt32.le_iff_toNat_le.mp hlower.1
  have hhigh : c.toNat ≤ 122 := UInt32.le_iff_toNat_le.mp hlower.2
  have hdistance : ('A'.val - 'a'.val).toNat = 4294967264 := by decide
  have hval : c.toUpper.val = c.val + ('A'.val - 'a'.val) := by
    rw [Char.toUpper, dif_pos hlower]
  have hnat : c.toUpper.val.toNat = (c.val.toNat + 4294967264) % 2 ^ 32 := by
    rw [hval, UInt32.toNat_add, hdistance]
  have hsame (d : Char) : d.val.toNat = d.toNat := rfl
  rw [hsame, hsame] at hnat
  omega

theorem toUpper_of_not_isLower (h : c.isLower = false) : c.toUpper = c := by
  have hlower : ¬ ('a'.val ≤ c.val ∧ c.val ≤ 'z'.val) := by
    simpa [Char.isLower] using h
  rw [Char.toUpper, dif_neg hlower]

/-- Capitals keep digits, and letters. -/
theorem isDigit_isAlpha_toUpper :
    c.toUpper.isDigit = c.isDigit ∧ c.toUpper.isAlpha = c.isAlpha := by
  cases hlower : c.isLower with
  | false => rw [toUpper_of_not_isLower hlower]; exact ⟨rfl, rfl⟩
  | true =>
    have hupper := toNat_toUpper hlower
    have hbounds : 97 ≤ c.toNat ∧ c.toNat ≤ 122 := by
      simpa [Char.isLower, UInt32.le_iff_toNat_le] using hlower
    have hnine : '9'.toNat = 57 := rfl
    constructor
    · have hdigit (d : Char) (hd : 57 < d.toNat) : d.isDigit = false := by
        rw [Bool.eq_false_iff]
        intro hbad
        have := Char.isDigit_iff_toNat.mp hbad
        omega
      rw [hdigit c (by omega), hdigit c.toUpper (by omega)]
    · have hcapital : c.toUpper.isUpper = true := by
        have hlow : 65 ≤ c.toUpper.toNat := by omega
        have hhigh : c.toUpper.toNat ≤ 90 := by omega
        simpa [Char.isUpper, UInt32.le_iff_toNat_le] using And.intro hlow hhigh
      rw [Char.isAlpha, Char.isAlpha, hcapital, hlower, Bool.true_or, Bool.or_true]

/-- A figure is no letter and no space. -/
theorem not_break_of_figs (h : charToBaudot c = some (code, true)) :
    c.isAlpha = false ∧ c.toUpper ≠ ' ' := by
  obtain ⟨hfigs, hletters⟩ := charToBaudot_figs h
  obtain ⟨hget, hne, hlt⟩ := position_eq_some hfigs
  have hmem : c.toUpper ∈ FIGS_CHARS := by
    rw [← hget, List.getD_eq_getElem _ _ hlt]
    exact List.getElem_mem hlt
  have hnone : FIGS_CHARS.all (fun ch => !ch.isAlpha) = true := by decide
  constructor
  · rw [← isDigit_isAlpha_toUpper.2]
    exact Bool.not_eq_true' _ ▸ List.all_eq_true.mp hnone _ hmem
  · intro hspace
    -- the letters have a space too, and they are looked up first
    rw [hspace] at hletters
    cases hletters

/-- A character of a run is none that ends it. -/
theorem isBreak_of_isFigure (h : IsFigure c = true) : IsBreak c = false := by
  rw [IsFigure, Bool.and_eq_true, Option.any_eq_true] at h
  obtain ⟨⟨⟨code, needsFigs⟩, hcode, hneeds⟩, hdigit⟩ := h
  obtain rfl : needsFigs = true := hneeds
  obtain ⟨halpha, hspace⟩ := not_break_of_figs hcode
  have hne : c ≠ ' ' := by
    rintro rfl
    exact hspace rfl
  have hdigit : c.isDigit = false := by simpa using hdigit
  rw [IsBreak, halpha, hdigit, decide_eq_false hne]
  rfl

theorem isFigure_eq {needsFigs : Bool} (h : charToBaudot c = some (code, needsFigs)) :
    IsFigure c = (needsFigs && !c.isDigit) := by
  rw [IsFigure, h]
  rfl

end Tables

/-! ### The two shifts -/

/-- The run of figures that the receiver counts. -/
def Shift.heard (s : Shift) : ℕ := if s.currentFigs then s.figsNonDigitRun else 0

section Receive

variable {s : Shift} {c : Char} {code : ℕ}

theorem receive_shift (s : Shift) (figs : Bool) :
    s.receive (if figs then CODE_FIGS_SHIFT else CODE_LTRS_SHIFT) = (⟨figs, 0⟩, []) := by
  cases figs <;> rfl

/-- A code that is no shift is read in one of the tables. -/
theorem receive_reading {needsFigs useFigs : Bool} {s' : Shift}
    (h : charToBaudot c = some (code, needsFigs)) (hread : s.reading code = (useFigs, s'))
    (hget : (if useFigs then FIGS_CHARS else LTRS_CHARS).getD code '\x00' = c.toUpper)
    (hne : c.toUpper ≠ '\x00') :
    s.receive code = (if c.toUpper = ' ' then .letters else s', [c.toUpper]) := by
  obtain ⟨hletters, hfigs⟩ := charToBaudot_ne_shift h
  rw [Shift.receive, if_neg hletters, if_neg hfigs, hread]
  dsimp only
  rw [hget, if_pos hne]

theorem receive_letter (h : charToBaudot c = some (code, false)) (hs : s.currentFigs = false) :
    s.receive code = (if c.toUpper = ' ' then .letters else s, [c.toUpper]) := by
  obtain ⟨hget, hne, -⟩ := position_eq_some (charToBaudot_letters h)
  have hread : s.reading code = (false, s) := by
    rw [Shift.reading, hs]
    rfl
  exact receive_reading h hread hget hne

theorem receive_figs {s' : Shift} (h : charToBaudot c = some (code, true))
    (hread : s.reading code = (true, s')) : s.receive code = (s', [c.toUpper]) := by
  obtain ⟨hget, hne, -⟩ := position_eq_some (charToBaudot_figs h).1
  rw [receive_reading h hread hget hne, if_neg (not_break_of_figs h).2]

theorem isDigit_figs (h : charToBaudot c = some (code, true)) :
    (FIGS_CHARS.getD code '\x00').isDigit = c.isDigit := by
  rw [(position_eq_some (charToBaudot_figs h).1).1]
  exact isDigit_isAlpha_toUpper.1

/-- A character is received in the shift that it needs, when it ends no run that is too long. The
receiver keeps the shift, and counts at most one more. -/
theorem receive_char {needsFigs : Bool} (h : charToBaudot c = some (code, needsFigs))
    (hs : s.currentFigs = needsFigs) (hrun : IsFigure c = true → s.heard < 2) :
    ∃ s', s.receive code = (s', [c.toUpper]) ∧ s'.currentFigs = needsFigs ∧
      s'.heard ≤ if IsFigure c then s.heard + 1 else 0 := by
  cases needsFigs with
  | false =>
    refine ⟨_, receive_letter h hs, ?_⟩
    have hafter : (if c.toUpper = ' ' then Shift.letters else s).currentFigs = false := by
      split
      · rfl
      · exact hs
    constructor
    · exact hafter
    · rw [Shift.heard, hafter]
      exact Nat.zero_le _
  | true =>
    have hfigure := isFigure_eq h
    have hdigits := isDigit_figs h
    cases hdigit : c.isDigit with
    | true =>
      have hread : s.reading code = (true, { s with figsNonDigitRun := 0 }) := by
        rw [Shift.reading, if_pos hs, hdigits, if_pos hdigit]
      refine ⟨_, receive_figs h hread, hs, ?_⟩
      simp [Shift.heard]
    | false =>
      rw [hdigit] at hfigure hdigits
      have hheard : s.heard = s.figsNonDigitRun := if_pos hs
      have hlt := hrun hfigure
      have hread : s.reading code =
          (true, { s with figsNonDigitRun := s.figsNonDigitRun + 1 }) := by
        rw [Shift.reading, if_pos hs, hdigits, if_neg Bool.false_ne_true, if_neg (by omega)]
      refine ⟨_, receive_figs h hread, hs, ?_⟩
      rw [hfigure, hheard, Shift.heard]
      simp [hs]

end Receive

/-- What is still to be sent is received in capitals. `held` is what was sent since the last
character that ends a run. -/
theorem receiveAll_codesFrom {text : List Char} (hcodes : ∀ c ∈ text, (charToBaudot c).isSome)
    (s : Shift) (held : List Char) (hheld : ∀ c ∈ held, IsBreak c = false)
    (hrun : s.heard ≤ held.countP IsFigure) (hclean : Plausible (held ++ text)) :
    s.receiveAll (codesFrom s.currentFigs text) = text.map Char.toUpper := by
  induction text generalizing s held with
  | nil => rfl
  | cons c text ih =>
    obtain ⟨⟨code, needsFigs⟩, hcode⟩ := Option.isSome_iff_exists.mp (hcodes c (.head _))
    -- the shift that the receiver is in when the character comes
    obtain ⟨s₁, hshift, hfigs, hheard⟩ : ∃ s₁ : Shift,
        (∀ rest, s.receiveAll ((if needsFigs ≠ s.currentFigs then
          [if needsFigs then CODE_FIGS_SHIFT else CODE_LTRS_SHIFT] else []) ++ rest) =
          s₁.receiveAll rest) ∧
        s₁.currentFigs = needsFigs ∧ s₁.heard ≤ s.heard := by
      by_cases hsame : needsFigs = s.currentFigs
      · refine ⟨s, ?_, hsame.symm, le_rfl⟩
        intro rest
        rw [if_neg (not_not.mpr hsame), List.nil_append]
      · refine ⟨⟨needsFigs, 0⟩, ?_, rfl, ?_⟩
        · intro rest
          rw [if_pos hsame, List.singleton_append, Shift.receiveAll, receive_shift,
            List.nil_append]
        · simp [Shift.heard]
    -- with the character, what is held is still shorter than three figures
    have hnext : IsBreak c = false → (held ++ [c]).countP IsFigure < 3 := by
      intro hbreak
      apply hclean (held ++ [c]) ⟨[], text, by simp⟩
      intro d hd
      obtain hd | hd := List.mem_append.mp hd
      · exact hheld d hd
      · rw [List.mem_singleton.mp hd]
        exact hbreak
    have hlimit : IsFigure c = true → s₁.heard < 2 := by
      intro hfigure
      have hcount := hnext (isBreak_of_isFigure hfigure)
      rw [List.countP_append, List.countP_singleton, if_pos hfigure] at hcount
      omega
    obtain ⟨s₂, hreceive, hfigs₂, hheard₂⟩ := receive_char hcode hfigs hlimit
    have hrest : s₂.receiveAll (codesFrom needsFigs text) = text.map Char.toUpper := by
      rw [← hfigs₂]
      have hcodes' : ∀ c ∈ text, (charToBaudot c).isSome := fun d hd => hcodes d (.tail _ hd)
      cases hbreak : IsBreak c with
      | true =>
        apply ih hcodes' s₂ []
        · exact List.forall_mem_nil _
        · have hfigure : IsFigure c = false := by
            rw [Bool.eq_false_iff]
            intro hfigure
            rw [isBreak_of_isFigure hfigure] at hbreak
            cases hbreak
          rw [hfigure] at hheard₂
          exact hheard₂
        · intro run hpart
          exact hclean run (hpart.trans ⟨held ++ [c], [], by simp⟩)
      | false =>
        apply ih hcodes' s₂ (held ++ [c])
        · intro d hd
          obtain hd | hd := List.mem_append.mp hd
          · exact hheld d hd
          · rw [List.mem_singleton.mp hd]
            exact hbreak
        · rw [List.countP_append, List.countP_singleton]
          split at hheard₂
          next hfigure =>
            rw [if_pos hfigure]
            omega
          next hfigure =>
            rw [if_neg hfigure]
            omega
        · rw [List.append_assoc]
          exact hclean
    rw [codesFrom, hcode]
    dsimp only
    rw [hshift, Shift.receiveAll, hreceive, hrest]
    rfl

theorem unframe_framedBits (figs : Bool) (text : List Char) :
    unframe (framedBits figs text) = some (codesFrom figs text) := by
  induction text generalizing figs with
  | nil => rfl
  | cons c text ih =>
    rw [framedBits, codesFrom]
    cases hcode : charToBaudot c with
    | none => exact ih figs
    | some found =>
      obtain ⟨code, needsFigs⟩ := found
      have hcharacter : unframe (framedChar code ++ framedBits needsFigs text) =
          some (code :: codesFrom needsFigs text) := by
        rw [unframe_framedChar (charToBaudot_lt hcode), ih]
        rfl
      dsimp only
      rw [List.append_assoc]
      split
      · have hshift : (if needsFigs then CODE_FIGS_SHIFT else CODE_LTRS_SHIFT) < 32 := by
          split <;> decide
        rw [unframe_framedChar hshift, hcharacter]
        rfl
      · exact hcharacter

/-- A text of characters that have a code, without a run that looks like a missed shift, is received
in capitals. -/
theorem receiveAll_textToFramedBits {text : List Char}
    (hcodes : ∀ c ∈ text, (charToBaudot c).isSome) (hclean : Plausible text) :
    (unframe (textToFramedBits text)).map Shift.letters.receiveAll =
      some (text.map Char.toUpper) := by
  have hreceive := receiveAll_codesFrom hcodes .letters [] (List.forall_mem_nil _) le_rfl
    (by rwa [List.nil_append])
  rw [textToFramedBits, unframe_framedBits, Option.map_some]
  exact congrArg some hreceive

theorem receiveAll_call :
    (unframe (textToFramedBits "cq de K6BP 599/73".toList)).map Shift.letters.receiveAll =
      some ("cq de K6BP 599/73".toList.map Char.toUpper) :=
  receiveAll_textToFramedBits (List.all_eq_true.mp (by decide +kernel)) (by decide +kernel)

end HamsOpen.Rtty
