import HamsOpen.DigitalModes.Wspr

/-!
# WSPR callsigns, packed and unpacked

A callsign has its digit in the third of six places. One whose digit is its second character is
moved one place to the right, and spaces fill the places that are left. The places count in mixed
radix, so a space in the second place, which has no room for it, runs into the first.
-/

namespace HamsOpen.Wspr

/-! ### Spaces around a text -/

theorem trimEnd_concat_space (text : List ℕ) : trimEnd (text ++ [SPACE]) = trimEnd text :=
  List.rdropWhile_concat_pos _ _ _ rfl

theorem trimEnd_concat {c : ℕ} (hc : c ≠ SPACE) (text : List ℕ) :
    trimEnd (text ++ [c]) = text ++ [c] := by
  apply List.rdropWhile_concat_neg
  intro hspace
  exact hc (beq_iff_eq.mp hspace)

theorem length_trimEnd_le (text : List ℕ) : (trimEnd text).length ≤ text.length :=
  (List.rdropWhile_prefix _ _).length_le

theorem trimEnd_eq_self_iff (text : List ℕ) :
    trimEnd text = text ↔ text.getLast? ≠ some SPACE := by
  induction text using List.reverseRecOn with
  | nil => exact iff_of_true rfl nofun
  | append_singleton text c ih =>
    rw [List.getLast?_concat, Ne, Option.some_inj]
    by_cases hc : c = SPACE
    · subst hc
      refine iff_of_false ?_ (fun h => h rfl)
      rw [trimEnd_concat_space]
      intro heq
      -- a text is longer than what is left of a shorter one
      have hle := length_trimEnd_le text
      rw [heq, List.length_append, List.length_singleton] at hle
      omega
    · exact iff_of_true (trimEnd_concat hc text) hc

theorem trimEnd_append_spaces (text : List ℕ) (n : ℕ) :
    trimEnd (text ++ List.replicate n SPACE) = trimEnd text := by
  induction n with
  | zero => rw [List.replicate_zero, List.append_nil]
  | succ n ih => rw [List.replicate_succ', ← List.append_assoc, trimEnd_concat_space, ih]

/-- What stands before a character that is no space is kept. -/
theorem trimEnd_append_cons {c : ℕ} (hc : c ≠ SPACE) (front text : List ℕ) :
    trimEnd (front ++ c :: text) = front ++ c :: trimEnd text := by
  induction text using List.reverseRecOn with
  | nil => exact trimEnd_concat hc front
  | append_singleton text a ih =>
    have hfront : front ++ c :: (text ++ [a]) = front ++ c :: text ++ [a] := by
      rw [List.append_assoc, List.cons_append]
    rw [hfront]
    by_cases ha : a = SPACE
    · rw [ha, trimEnd_concat_space, trimEnd_concat_space, ih]
    · rw [trimEnd_concat ha, trimEnd_concat ha, ← hfront]

/-- The spaces that are trimmed can be filled in again. -/
theorem trimEnd_append_pad (text : List ℕ) :
    trimEnd text ++ List.replicate (text.length - (trimEnd text).length) SPACE = text := by
  induction text using List.reverseRecOn with
  | nil => rfl
  | append_singleton text a ih =>
    by_cases ha : a = SPACE
    · have hle := length_trimEnd_le text
      have hcount : (text ++ [a]).length - (trimEnd text).length =
          text.length - (trimEnd text).length + 1 := by
        rw [List.length_append, List.length_singleton]
        omega
      rw [ha] at hcount ⊢
      rw [trimEnd_concat_space, hcount, List.replicate_succ', ← List.append_assoc, ih]
    · rw [trimEnd_concat ha, Nat.sub_self, List.replicate_zero, List.append_nil]

/-! ### Characters and their codes -/

theorem callsignChar_of_code {b c : ℕ} (h : callsignCharCode b = some c) :
    callsignChar c = some b ∧ c ≤ 36 := by
  unfold callsignCharCode at h
  split at h
  next hdigit =>
    obtain rfl := Option.some.inj h
    rw [callsignChar, if_pos (by omega), Nat.add_sub_cancel' hdigit.1]
    exact ⟨rfl, by omega⟩
  next =>
    split at h
    next hspace =>
      obtain rfl := Option.some.inj h
      rw [hspace]
      exact ⟨rfl, Nat.le_refl 36⟩
    next =>
      obtain ⟨hletter, hcode⟩ := Option.ite_none_right_eq_some.mp h
      obtain rfl := Option.some.inj hcode
      rw [callsignChar, if_neg (by omega), if_neg (by omega), if_pos (by omega),
        Nat.add_sub_cancel, Nat.add_sub_cancel' hletter.1]
      exact ⟨rfl, by omega⟩

theorem callsignCharCode_of_char {b c : ℕ} (h : callsignChar c = some b) :
    callsignCharCode b = some c := by
  unfold callsignChar at h
  split at h
  next hdigit =>
    obtain rfl := Option.some.inj h
    rw [callsignCharCode, if_pos (by omega), Nat.add_sub_cancel_left]
  next =>
    split at h
    next hspace =>
      obtain rfl := Option.some.inj h
      rw [hspace]
      rfl
    next =>
      obtain ⟨hletter, hchar⟩ := Option.ite_none_right_eq_some.mp h
      obtain rfl := Option.some.inj hchar
      rw [callsignCharCode, if_neg (by omega), if_neg (by unfold SPACE; omega), if_pos (by omega)]
      congr 1
      omega

theorem exists_char {c : ℕ} (h : c ≤ 36) : ∃ b, callsignChar c = some b := by
  unfold callsignChar
  split
  · exact ⟨_, rfl⟩
  · split
    · exact ⟨_, rfl⟩
    · rw [if_pos (by omega)]
      exact ⟨_, rfl⟩

/-- Digits have the codes below ten. -/
theorem isAsciiDigit_iff {b c : ℕ} (h : callsignCharCode b = some c) :
    isAsciiDigit b = true ↔ c < 10 := by
  unfold isAsciiDigit
  rw [Bool.and_eq_true, decide_eq_true_iff, decide_eq_true_iff]
  unfold callsignCharCode SPACE at h
  split at h
  · obtain rfl := Option.some.inj h
    omega
  · split at h
    · obtain rfl := Option.some.inj h
      omega
    · obtain ⟨hletter, hcode⟩ := Option.ite_none_right_eq_some.mp h
      obtain rfl := Option.some.inj hcode
      omega

theorem code_of_digit {b : ℕ} (h : isAsciiDigit b = true) :
    ∃ c, callsignCharCode b = some c ∧ c < 10 := by
  obtain ⟨hlow, hhigh⟩ := (Bool.and_eq_true _ _).mp h
  refine ⟨b - 48, if_pos ⟨of_decide_eq_true hlow, of_decide_eq_true hhigh⟩, ?_⟩
  have hle := of_decide_eq_true hhigh
  omega

/-- The space has the last code. -/
theorem eq_space_iff {b c : ℕ} (h : callsignCharCode b = some c) : b = SPACE ↔ c = 36 := by
  have hcode : callsignCharCode SPACE = some 36 := rfl
  constructor
  · rintro rfl
    exact Option.some.inj (h.symm.trans hcode)
  · rintro rfl
    have hchar := (callsignChar_of_code h).1
    rw [(callsignChar_of_code hcode).1] at hchar
    exact (Option.some.inj hchar).symm

/-- Capital letters, digits and spaces are left as they are. -/
theorem upper_of_code {b c : ℕ} (h : callsignCharCode b = some c) : toAsciiUppercase b = b := by
  unfold toAsciiUppercase
  apply if_neg
  intro hlower
  unfold callsignCharCode SPACE at h
  rw [if_neg (by omega), if_neg (by omega), if_neg (by omega)] at h
  cases h

theorem map_upper {text : List ℕ} (h : ∀ b ∈ text, (callsignCharCode b).isSome = true) :
    text.map toAsciiUppercase = text := by
  have hfixed : ∀ b ∈ text, toAsciiUppercase b = b := by
    intro b hb
    obtain ⟨c, hc⟩ := Option.isSome_iff_exists.mp (h b hb)
    exact upper_of_code hc
  rw [List.map_congr_left hfixed, List.map_id']

/-! ### Six characters in mixed radix -/

/-- The number of six codes. -/
def number (c0 c1 c2 c3 c4 c5 : ℕ) : ℕ :=
  ((((c0 * 36 + c1) * 10 + c2) * 27 + (c3 - 10)) * 27 + (c4 - 10)) * 27 + (c5 - 10)

/-- The text of six characters, without the spaces around it. -/
def finish (chars : List ℕ) : Option (List ℕ) :=
  if stripSpace (trimEnd chars) = [] then none else some (stripSpace (trimEnd chars))

/-- The codes of a number, when none but the first is out of range. -/
theorem unpackCall_number {c0 c1 c2 c3 c4 c5 : ℕ} (h1 : c1 < 36) (h2 : c2 < 10)
    (h3 : 10 ≤ c3 ∧ c3 ≤ 36) (h4 : 10 ≤ c4 ∧ c4 ≤ 36) (h5 : 10 ≤ c5 ∧ c5 ≤ 36) :
    unpackCall (number c0 c1 c2 c3 c4 c5) =
      if 36 < c0 then none else ([c0, c1, c2, c3, c4, c5].mapM callsignChar).bind finish := by
  have q5 : number c0 c1 c2 c3 c4 c5 / 27 =
      (((c0 * 36 + c1) * 10 + c2) * 27 + (c3 - 10)) * 27 + (c4 - 10) := by
    unfold number
    omega
  have q4 : ((((c0 * 36 + c1) * 10 + c2) * 27 + (c3 - 10)) * 27 + (c4 - 10)) / 27 =
      ((c0 * 36 + c1) * 10 + c2) * 27 + (c3 - 10) := by
    omega
  have q3 : (((c0 * 36 + c1) * 10 + c2) * 27 + (c3 - 10)) / 27 = (c0 * 36 + c1) * 10 + c2 := by
    omega
  have q2 : ((c0 * 36 + c1) * 10 + c2) / 10 = c0 * 36 + c1 := by
    omega
  have q1 : (c0 * 36 + c1) / 36 = c0 := by
    omega
  have r5 : number c0 c1 c2 c3 c4 c5 % 27 + 10 = c5 := by
    unfold number
    omega
  have r4 : ((((c0 * 36 + c1) * 10 + c2) * 27 + (c3 - 10)) * 27 + (c4 - 10)) % 27 + 10 = c4 := by
    omega
  have r3 : (((c0 * 36 + c1) * 10 + c2) * 27 + (c3 - 10)) % 27 + 10 = c3 := by
    omega
  have r2 : ((c0 * 36 + c1) * 10 + c2) % 10 = c2 := by
    omega
  have r1 : (c0 * 36 + c1) % 36 = c1 := by
    omega
  unfold unpackCall
  simp only [q5, q4, q3, q2, q1, r5, r4, r3, r2, r1]
  rfl

/-- Six characters pack into a number. -/
inductive Packs : List ℕ → ℕ → Prop
  | six {x y d a b c c0 c1 c2 c3 c4 c5 : ℕ} (hx : callsignCharCode x = some c0)
      (hy : callsignCharCode y = some c1) (hd : callsignCharCode d = some c2)
      (ha : callsignCharCode a = some c3) (hb : callsignCharCode b = some c4)
      (hc : callsignCharCode c = some c5) (h3 : 10 ≤ c3) (h4 : 10 ≤ c4) (h5 : 10 ≤ c5) :
      Packs [x, y, d, a, b, c] (number c0 c1 c2 c3 c4 c5)

theorem packs_iff {x y d a b c n : ℕ} :
    ([x, y, d, a, b, c].mapM callsignCharCode).bind packCodes = some n ↔
      Packs [x, y, d, a, b, c] n := by
  constructor
  · intro h
    obtain ⟨codes, hcodes, hpack⟩ := Option.bind_eq_some_iff.mp h
    simp only [List.mapM_cons, List.mapM_nil, Option.bind_eq_bind, Option.bind_eq_some_iff,
      Option.pure_def, Option.some.injEq] at hcodes
    obtain ⟨c0, hx, -, ⟨c1, hy, -, ⟨c2, hd, -, ⟨c3, ha, -, ⟨c4, hb, -, ⟨c5, hc, -, rfl, rfl⟩, rfl⟩,
      rfl⟩, rfl⟩, rfl⟩, rfl⟩ := hcodes
    obtain ⟨⟨h3, h4, h5⟩, heq⟩ := Option.ite_none_right_eq_some.mp hpack
    obtain rfl := Option.some.inj heq
    exact .six hx hy hd ha hb hc h3 h4 h5
  · rintro ⟨hx, hy, hd, ha, hb, hc, h3, h4, h5⟩
    simp only [List.mapM_cons, List.mapM_nil, hx, hy, hd, ha, hb, hc, Option.bind_eq_bind,
      Option.bind_some, Option.pure_def]
    exact if_pos ⟨h3, h4, h5⟩

/-- Six characters are read back, unless a space in the second place ran into the first. -/
theorem Packs.read {x y d n : ℕ} {tail : List ℕ} (h : Packs (x :: y :: d :: tail) n)
    (hd : isAsciiDigit d = true) (hy : y ≠ SPACE) :
    unpackCall n = finish (x :: y :: d :: tail) := by
  cases h with
  | six hx hy' hd' ha hb hc h3 h4 h5 =>
    have hne := mt (eq_space_iff hy').mpr hy
    have hle := (callsignChar_of_code hy').2
    rw [unpackCall_number (by omega) ((isAsciiDigit_iff hd').mp hd)
      ⟨h3, (callsignChar_of_code ha).2⟩ ⟨h4, (callsignChar_of_code hb).2⟩
      ⟨h5, (callsignChar_of_code hc).2⟩, if_neg (Nat.not_lt.mpr (callsignChar_of_code hx).2)]
    simp only [List.mapM_cons, List.mapM_nil, (callsignChar_of_code hx).1,
      (callsignChar_of_code hy').1, (callsignChar_of_code hd').1, (callsignChar_of_code ha).1,
      (callsignChar_of_code hb).1, (callsignChar_of_code hc).1, Option.bind_eq_bind,
      Option.bind_some, Option.pure_def]

/-- A space in the second place is read as a nought after the next character, if there is one. -/
theorem Packs.read_space {x d n : ℕ} {tail : List ℕ} (h : Packs (x :: SPACE :: d :: tail) n)
    (hd : isAsciiDigit d = true) :
    (x = SPACE ∧ unpackCall n = none) ∨
      ∃ x', x' ≠ x ∧ unpackCall n = finish (x' :: 48 :: d :: tail) := by
  cases h with
  | @six _ _ _ _ _ _ c0 _ c2 c3 c4 c5 hx hy hd' ha hb hc h3 h4 h5 =>
    obtain rfl := (eq_space_iff hy).mp rfl
    have hcarry : number c0 36 c2 c3 c4 c5 = number (c0 + 1) 0 c2 c3 c4 c5 := by
      unfold number
      ring
    have hread := @unpackCall_number (c0 + 1) 0 c2 c3 c4 c5 (by decide)
      ((isAsciiDigit_iff hd').mp hd) ⟨h3, (callsignChar_of_code ha).2⟩
      ⟨h4, (callsignChar_of_code hb).2⟩ ⟨h5, (callsignChar_of_code hc).2⟩
    rw [hcarry, hread]
    by_cases hlast : c0 = 36
    · exact .inl ⟨(eq_space_iff hx).mpr hlast, if_pos (by omega)⟩
    · have hle := (callsignChar_of_code hx).2
      obtain ⟨x', hx'⟩ := exists_char (show c0 + 1 ≤ 36 by omega)
      refine .inr ⟨x', ?_, ?_⟩
      · rintro rfl
        have hcode := callsignCharCode_of_char hx'
        rw [hx] at hcode
        exact absurd (Option.some.inj hcode) (by omega)
      · have hnought : callsignChar 0 = some 48 := rfl
        rw [if_neg (by omega)]
        simp only [List.mapM_cons, List.mapM_nil, hx', hnought, (callsignChar_of_code hd').1,
          (callsignChar_of_code ha).1, (callsignChar_of_code hb).1, (callsignChar_of_code hc).1,
          Option.bind_eq_bind, Option.bind_some, Option.pure_def]

/-! ### Where a callsign is placed -/

/-- The places of a callsign up to its digit, and what comes after the digit. -/
inductive Placed : List ℕ → ℕ → ℕ → ℕ → List ℕ → Prop
  | third {x y d : ℕ} {tail : List ℕ} (hd : isAsciiDigit d = true) (hlen : tail.length ≤ 3) :
      Placed (x :: y :: d :: tail) x y d tail
  | second {y d : ℕ} {tail : List ℕ} (hd : isAsciiDigit d = true)
      (hnot : tail[0]?.any isAsciiDigit = false) (hlen : tail.length ≤ 3) :
      Placed (y :: d :: tail) SPACE y d tail

/-- Six characters whose digit is the second one: they do not fit once they are moved. -/
def Overlong (bytes : List ℕ) : Prop :=
  bytes.length = 6 ∧ bytes[2]?.any isAsciiDigit = false ∧ bytes[1]?.any isAsciiDigit = true

/-- What comes after the digit, with spaces behind it. -/
def padded (tail : List ℕ) : List ℕ := tail ++ List.replicate (3 - tail.length) SPACE

variable {bytes tail callsign : List ℕ} {x y d n : ℕ}

theorem Placed.digit (h : Placed bytes x y d tail) : isAsciiDigit d = true := by
  cases h with
  | third hd hlen => exact hd
  | second hd hnot hlen => exact hd

theorem Placed.length_le (h : Placed bytes x y d tail) : tail.length ≤ 3 := by
  cases h with
  | third hd hlen => exact hlen
  | second hd hnot hlen => exact hlen

theorem packCall_placed (h : Placed (callsign.map toAsciiUppercase) x y d tail) :
    packCall callsign =
      .ok (((x :: y :: d :: padded tail).mapM callsignCharCode).bind packCodes) := by
  unfold packCall
  generalize callsign.map toAsciiUppercase = bytes at h
  cases h with
  | @third x y d tail hd hlen =>
    have hfits : ¬ (6 < (x :: y :: d :: tail).length ∨ x :: y :: d :: tail = []) := by
      rintro (hlong | hnil)
      · simp only [List.length_cons] at hlong
        omega
      · cases hnil
    have hcopy : copyInto 0 (x :: y :: d :: tail) = .ok (x :: y :: d :: padded tail) := by
      have hpad : 6 - (0 + (x :: y :: d :: tail).length) = 3 - tail.length := by
        simp only [List.length_cons]
        omega
      refine (if_pos ?_).trans ?_
      · simp only [List.length_cons]
        omega
      · rw [hpad]
        rfl
    have hthird : (x :: y :: d :: tail)[2]?.any isAsciiDigit = true := hd
    dsimp only
    rw [if_neg hfits, if_pos hthird, hcopy]
    rfl
  | @second y d tail hd hnot hlen =>
    have hfits : ¬ (6 < (y :: d :: tail).length ∨ y :: d :: tail = []) := by
      rintro (hlong | hnil)
      · simp only [List.length_cons] at hlong
        omega
      · cases hnil
    have hcopy : copyInto 1 (y :: d :: tail) = .ok (SPACE :: y :: d :: padded tail) := by
      have hpad : 6 - (1 + (y :: d :: tail).length) = 3 - tail.length := by
        simp only [List.length_cons]
        omega
      refine (if_pos ?_).trans ?_
      · simp only [List.length_cons]
        omega
      · rw [hpad]
        rfl
    have hthird : ¬ (y :: d :: tail)[2]?.any isAsciiDigit = true := by
      rw [List.getElem?_cons_succ, List.getElem?_cons_succ, hnot]
      exact Bool.false_ne_true
    have hsecond : (y :: d :: tail)[1]?.any isAsciiDigit = true := hd
    dsimp only
    rw [if_neg hfits, if_neg hthird, if_pos hsecond, hcopy]
    rfl

theorem packCall_overlong (h : Overlong (callsign.map toAsciiUppercase)) :
    packCall callsign = .error .sliceIndex := by
  obtain ⟨hlength, hthird, hsecond⟩ := h
  unfold packCall
  generalize callsign.map toAsciiUppercase = bytes at *
  have hfits : ¬ (6 < bytes.length ∨ bytes = []) := by
    rintro (hlong | rfl)
    · omega
    · cases hlength
  have hcopy : copyInto 1 bytes = .error .sliceIndex := if_neg (by omega)
  dsimp only
  rw [if_neg hfits, hthird, if_neg Bool.false_ne_true, if_pos hsecond, hcopy]
  rfl

/-- A text that has no place is refused, unless it is too long to be moved. -/
theorem packCall_unplaced (hover : ¬ Overlong (callsign.map toAsciiUppercase))
    (h : ∀ x y d tail, ¬ Placed (callsign.map toAsciiUppercase) x y d tail) :
    packCall callsign = .ok none := by
  unfold packCall
  generalize callsign.map toAsciiUppercase = bytes at *
  dsimp only
  by_cases hlong : 6 < bytes.length ∨ bytes = []
  · rw [if_pos hlong]
    rfl
  · rw [if_neg hlong]
    rw [not_or, Nat.not_lt] at hlong
    by_cases hthird : bytes[2]?.any isAsciiDigit = true
    · match bytes, hthird, hlong.1 with
      | x :: y :: d :: tail, hthird, hle =>
        simp only [List.length_cons] at hle
        exact absurd (Placed.third hthird (by omega)) (h x y d tail)
    · by_cases hsecond : bytes[1]?.any isAsciiDigit = true
      · match bytes, hthird, hsecond, hlong.1, hover with
        | y :: d :: tail, hthird, hsecond, hle, hover =>
          have hnot := eq_false_of_ne_true hthird
          simp only [List.length_cons] at hle
          by_cases hfour : tail.length = 4
          · refine absurd ⟨?_, hnot, hsecond⟩ hover
            rw [List.length_cons, List.length_cons, hfour]
          · exact absurd (Placed.second hsecond hnot (by omega)) (h SPACE y d tail)
      · rw [if_neg hthird, if_neg hsecond]
        rfl

/-- The encoder takes a callsign exactly when it has a place and its six characters pack. -/
theorem packCall_eq_some_iff :
    packCall callsign = .ok (some n) ↔
      ∃ x y d tail, Placed (callsign.map toAsciiUppercase) x y d tail ∧
        Packs (x :: y :: d :: padded tail) n := by
  constructor
  · intro h
    by_cases hplaced : ∃ x y d tail, Placed (callsign.map toAsciiUppercase) x y d tail
    · obtain ⟨x, y, d, tail, hplaced⟩ := hplaced
      refine ⟨x, y, d, tail, hplaced, ?_⟩
      rw [packCall_placed hplaced] at h
      have hlength : (padded tail).length = 3 := by
        have hle := hplaced.length_le
        rw [padded, List.length_append, List.length_replicate]
        omega
      obtain ⟨a, b, c, habc⟩ := List.length_eq_three.mp hlength
      rw [habc] at h ⊢
      exact packs_iff.mp (Except.ok.inj h)
    · by_cases hover : Overlong (callsign.map toAsciiUppercase)
      · rw [packCall_overlong hover] at h
        cases h
      · rw [packCall_unplaced hover fun x y d tail hp => hplaced ⟨x, y, d, tail, hp⟩] at h
        cases h
  · rintro ⟨x, y, d, tail, hplaced, hpacks⟩
    rw [packCall_placed hplaced]
    generalize padded tail = rest at hpacks
    cases hpacks with
    | six hx hy hd ha hb hc h3 h4 h5 =>
      rw [packs_iff.mpr (.six hx hy hd ha hb hc h3 h4 h5)]

/-! ### The callsigns that the encoder takes -/

/-- What may come after the digit: a capital letter or a space. -/
def isSuffixChar (b : ℕ) : Bool := b = SPACE || (65 ≤ b && b ≤ 90)

/-- A callsign with its digit in place, and letters after it. -/
def Standard (bytes : List ℕ) : Prop :=
  ∃ x y d tail, Placed bytes x y d tail ∧ (callsignCharCode x).isSome = true ∧
    (callsignCharCode y).isSome = true ∧ ∀ b ∈ tail, isSuffixChar b = true

/-- No space stands where it would be lost or misread. -/
def Plain (bytes : List ℕ) : Prop := SPACE ∉ bytes.take 2 ∧ bytes.getLast? ≠ some SPACE

theorem isSuffixChar_iff {b : ℕ} :
    isSuffixChar b = true ↔ ∃ c, callsignCharCode b = some c ∧ 10 ≤ c := by
  unfold isSuffixChar
  rw [Bool.or_eq_true, Bool.and_eq_true, decide_eq_true_iff, decide_eq_true_iff, decide_eq_true_iff]
  constructor
  · rintro (rfl | ⟨hlow, hhigh⟩)
    · exact ⟨36, rfl, by decide⟩
    · refine ⟨b - 65 + 10, ?_, Nat.le_add_left 10 _⟩
      rw [callsignCharCode, if_neg (by omega), if_neg (by unfold SPACE; omega),
        if_pos ⟨hlow, hhigh⟩]
  · rintro ⟨c, hcode, hle⟩
    unfold callsignCharCode at hcode
    split at hcode
    · obtain rfl := Option.some.inj hcode
      omega
    · split at hcode
      next hspace => exact .inl hspace
      next => exact .inr (Option.ite_none_right_eq_some.mp hcode).1

/-- Six characters pack when each is in range for its place. -/
theorem exists_packs_iff (h : Placed bytes x y d tail) :
    (∃ n, Packs (x :: y :: d :: padded tail) n) ↔ (callsignCharCode x).isSome = true ∧
      (callsignCharCode y).isSome = true ∧ ∀ b ∈ tail, isSuffixChar b = true := by
  have hmem : ∀ b ∈ tail, b ∈ padded tail := fun b hb => List.mem_append_left _ hb
  have hpad : ∀ b ∈ padded tail, b ∈ tail ∨ b = SPACE := fun b hb =>
    (List.mem_append.mp hb).imp_right List.eq_of_mem_replicate
  have hlength : (padded tail).length = 3 := by
    have hle := h.length_le
    rw [padded, List.length_append, List.length_replicate]
    omega
  generalize padded tail = rest at *
  constructor
  · rintro ⟨n, hpacks⟩
    cases hpacks with
    | six hx hy hd ha hb hc h3 h4 h5 =>
      rw [hx, hy]
      refine ⟨rfl, rfl, fun b hmemb => isSuffixChar_iff.mpr ?_⟩
      rcases List.mem_cons.mp (hmem b hmemb) with rfl | hrest
      · exact ⟨_, ha, h3⟩
      rcases List.mem_cons.mp hrest with rfl | hlast
      · exact ⟨_, hb, h4⟩
      · rw [List.mem_singleton.mp hlast]
        exact ⟨_, hc, h5⟩
  · rintro ⟨hx, hy, htail⟩
    have hcodes : ∀ b ∈ rest, ∃ c, callsignCharCode b = some c ∧ 10 ≤ c := by
      intro b hb
      rcases hpad b hb with hin | rfl
      · exact isSuffixChar_iff.mp (htail b hin)
      · exact ⟨36, rfl, by decide⟩
    obtain ⟨a, b, c, rfl⟩ := List.length_eq_three.mp hlength
    obtain ⟨c0, hx⟩ := Option.isSome_iff_exists.mp hx
    obtain ⟨c1, hy⟩ := Option.isSome_iff_exists.mp hy
    obtain ⟨c2, hd, -⟩ := code_of_digit h.digit
    obtain ⟨c3, ha, h3⟩ := hcodes a List.mem_cons_self
    obtain ⟨c4, hb, h4⟩ := hcodes b (List.mem_cons_of_mem _ List.mem_cons_self)
    obtain ⟨c5, hc, h5⟩ := hcodes c (List.mem_cons_of_mem _ (List.mem_cons_of_mem _
      List.mem_cons_self))
    exact ⟨_, .six hx hy hd ha hb hc h3 h4 h5⟩

theorem standard_iff :
    Standard (callsign.map toAsciiUppercase) ↔ ∃ n, packCall callsign = .ok (some n) := by
  simp only [packCall_eq_some_iff]
  constructor
  · rintro ⟨x, y, d, tail, hplaced, hcodes⟩
    obtain ⟨n, hpacks⟩ := (exists_packs_iff hplaced).mpr hcodes
    exact ⟨n, x, y, d, tail, hplaced, hpacks⟩
  · rintro ⟨n, x, y, d, tail, hplaced, hpacks⟩
    exact ⟨x, y, d, tail, hplaced, (exists_packs_iff hplaced).mp ⟨n, hpacks⟩⟩

/-! ### A callsign, packed and unpacked -/

theorem ne_space_of_digit (h : isAsciiDigit d = true) : d ≠ SPACE := by
  rintro rfl
  exact absurd h (by decide)

/-- The text of six places. -/
theorem finish_padded (h : isAsciiDigit d = true) :
    finish (x :: y :: d :: padded tail) =
      some (if x = SPACE then y :: d :: trimEnd tail else x :: y :: d :: trimEnd tail) := by
  have htrim : trimEnd (x :: y :: d :: padded tail) = x :: y :: d :: trimEnd tail := by
    have hkept := trimEnd_append_cons (ne_space_of_digit h) [x, y] (padded tail)
    rwa [padded, trimEnd_append_spaces] at hkept
  unfold finish
  rw [htrim, stripSpace]
  split <;> exact if_neg (List.cons_ne_nil _ _)

/-- What a callsign ends with is what stands after its digit. -/
theorem trimEnd_tail (h : isAsciiDigit d = true) (front : List ℕ) :
    trimEnd tail = tail ↔ (front ++ d :: tail).getLast? ≠ some SPACE := by
  rw [← trimEnd_eq_self_iff, trimEnd_append_cons (ne_space_of_digit h), List.append_cancel_left_eq,
    List.cons_inj_right]

/-- A callsign that the encoder takes is read back when no space in it is lost. -/
theorem unpackCall_packed (h : Placed bytes x y d tail)
    (hpacks : Packs (x :: y :: d :: padded tail) n) :
    unpackCall n = some bytes ↔ Plain bytes := by
  have hdigit := h.digit
  by_cases hy : y = SPACE
  · subst hy
    have hplain : ¬ Plain bytes := by
      rintro ⟨hfront, -⟩
      cases h with
      | third hd hlen => exact hfront (List.mem_cons_of_mem _ List.mem_cons_self)
      | second hd hnot hlen => exact hfront List.mem_cons_self
    refine iff_of_false ?_ hplain
    intro hread
    rcases hpacks.read_space hdigit with ⟨-, hnone⟩ | ⟨x', -, hsome⟩
    · rw [hnone] at hread
      cases hread
    · -- the second character that is read is never a space, nor is it the first of two
      rw [hsome, finish_padded hdigit, Option.some_inj] at hread
      by_cases hx' : x' = SPACE
      · rw [if_pos hx'] at hread
        cases h with
        | third hd hlen =>
          obtain ⟨-, hrest⟩ := List.cons.inj hread
          exact ne_space_of_digit hdigit (List.cons.inj hrest).1
        | second hd hnot hlen => exact absurd (List.cons.inj hread).1 (by decide)
      · rw [if_neg hx'] at hread
        cases h with
        | third hd hlen => exact absurd (List.cons.inj (List.cons.inj hread).2).1 (by decide)
        | second hd hnot hlen => exact hx' (List.cons.inj hread).1
  · rw [hpacks.read hdigit hy, finish_padded hdigit, Option.some_inj]
    unfold Plain
    cases h with
    | third hd hlen =>
      have hlast : trimEnd tail = tail ↔ (x :: y :: d :: tail).getLast? ≠ some SPACE :=
        trimEnd_tail hdigit [x, y]
      rw [← hlast]
      by_cases hx : x = SPACE
      · rw [if_pos hx]
        refine iff_of_false ?_ ?_
        · -- one character is missing
          intro hread
          have hlength := congrArg List.length hread
          have hle := length_trimEnd_le tail
          simp only [List.length_cons] at hlength
          omega
        · rintro ⟨hfront, -⟩
          exact hfront (hx ▸ List.mem_cons_self)
      · rw [if_neg hx]
        have hfront : SPACE ∉ (x :: y :: d :: tail).take 2 := by
          simp only [List.take_succ_cons, List.take_zero, List.mem_cons, List.not_mem_nil, or_false,
            not_or]
          exact ⟨Ne.symm hx, Ne.symm hy⟩
        constructor
        · intro hread
          exact ⟨hfront, (List.cons.inj (List.cons.inj (List.cons.inj hread).2).2).2⟩
        · rintro ⟨-, htail⟩
          rw [htail]
    | second hd hnot hlen =>
      have hlast : trimEnd tail = tail ↔ (y :: d :: tail).getLast? ≠ some SPACE :=
        trimEnd_tail hdigit [y]
      rw [if_pos rfl, ← hlast]
      have hfront : SPACE ∉ (y :: d :: tail).take 2 := by
        simp only [List.take_succ_cons, List.take_zero, List.mem_cons, List.not_mem_nil, or_false,
          not_or]
        exact ⟨Ne.symm hy, (ne_space_of_digit hdigit).symm⟩
      constructor
      · intro hread
        exact ⟨hfront, (List.cons.inj (List.cons.inj hread).2).2⟩
      · rintro ⟨-, htail⟩
        rw [htail]

/-! ### A number, unpacked and packed -/

/-- Every number is that of six codes. -/
theorem exists_number (n : ℕ) : ∃ c0 c1 c2 c3 c4 c5, n = number c0 c1 c2 c3 c4 c5 ∧ c1 < 36 ∧
    c2 < 10 ∧ (10 ≤ c3 ∧ c3 ≤ 36) ∧ (10 ≤ c4 ∧ c4 ≤ 36) ∧ 10 ≤ c5 ∧ c5 ≤ 36 := by
  refine ⟨n / 27 / 27 / 27 / 10 / 36, n / 27 / 27 / 27 / 10 % 36, n / 27 / 27 / 27 % 10,
    n / 27 / 27 % 27 + 10, n / 27 % 27 + 10, n % 27 + 10, ?_, ?_⟩
  · unfold number
    omega
  · omega

/-- The text of six characters has the place it came from. -/
theorem Packs.repack {rest : List ℕ} (h : Packs (x :: y :: d :: rest) n)
    (hd : isAsciiDigit d = true) (hcall : finish (x :: y :: d :: rest) = some bytes) :
    packCall bytes = .ok (some n) := by
  have hpad : padded (trimEnd rest) = rest := by
    cases h with
    | six hx hy hd' ha hb hc h3 h4 h5 => exact trimEnd_append_pad _
  have hlength : (trimEnd rest).length ≤ 3 := by
    refine (length_trimEnd_le rest).trans_eq ?_
    cases h with
    | six hx hy hd' ha hb hc h3 h4 h5 => rfl
  have hthird : Placed (x :: y :: d :: trimEnd rest) x y d (trimEnd rest) := .third hd hlength
  obtain ⟨hx, hy, hsuffix⟩ := (exists_packs_iff hthird).mp ⟨n, hpad.symm ▸ h⟩
  obtain ⟨c2, hcode, -⟩ := code_of_digit hd
  -- there are no small letters in it
  have hupper :
      (x :: y :: d :: trimEnd rest).map toAsciiUppercase = x :: y :: d :: trimEnd rest := by
    apply map_upper
    intro b hb
    simp only [List.mem_cons] at hb
    rcases hb with rfl | rfl | rfl | hb
    · exact hx
    · exact hy
    · rw [hcode]
      rfl
    · obtain ⟨c, hc, -⟩ := isSuffixChar_iff.mp (hsuffix b hb)
      rw [hc]
      rfl
  have hfull : padded rest = rest := by
    cases h with
    | six hx hy hd' ha hb hc h3 h4 h5 => rfl
  rw [← hfull, finish_padded hd, Option.some_inj] at hcall
  rw [← hpad] at h
  apply packCall_eq_some_iff.mpr
  refine ⟨x, y, d, trimEnd rest, ?_, h⟩
  by_cases hspace : x = SPACE
  · rw [if_pos hspace] at hcall
    subst hspace hcall
    rw [(List.cons.inj hupper).2]
    refine .second hd ?_ hlength
    -- no digit comes after the digit
    rw [← Bool.not_eq_true, Option.any_eq_true]
    rintro ⟨b, hb, hdigit⟩
    obtain ⟨c, hc, hle⟩ := isSuffixChar_iff.mp (hsuffix b (List.mem_of_getElem? hb))
    exact Nat.not_lt.mpr hle ((isAsciiDigit_iff hc).mp hdigit)
  · rw [if_neg hspace] at hcall
    subst hcall
    rw [hupper]
    exact hthird

theorem packCall_unpackCall {call : List ℕ} (h : unpackCall n = some call) :
    packCall call = .ok (some n) := by
  obtain ⟨c0, c1, c2, c3, c4, c5, rfl, h1, h2, h3, h4, h5⟩ := exists_number n
  rw [unpackCall_number h1 h2 h3 h4 h5] at h
  obtain ⟨h0, hread⟩ := Option.ite_none_left_eq_some.mp h
  obtain ⟨x, hx⟩ := exists_char (Nat.not_lt.mp h0)
  obtain ⟨y, hy⟩ := exists_char (show c1 ≤ 36 by omega)
  obtain ⟨d, hd⟩ := exists_char (show c2 ≤ 36 by omega)
  obtain ⟨a, ha⟩ := exists_char h3.2
  obtain ⟨b, hb⟩ := exists_char h4.2
  obtain ⟨c, hc⟩ := exists_char h5.2
  simp only [List.mapM_cons, List.mapM_nil, hx, hy, hd, ha, hb, hc, Option.bind_eq_bind,
    Option.bind_some, Option.pure_def] at hread
  have hcode := callsignCharCode_of_char hd
  have hpacks : Packs [x, y, d, a, b, c] (number c0 c1 c2 c3 c4 c5) :=
    .six (callsignCharCode_of_char hx) (callsignCharCode_of_char hy) hcode
      (callsignCharCode_of_char ha) (callsignCharCode_of_char hb) (callsignCharCode_of_char hc)
      h3.1 h4.1 h5.1
  exact hpacks.repack ((isAsciiDigit_iff hcode).mpr h2) hread

end HamsOpen.Wspr
