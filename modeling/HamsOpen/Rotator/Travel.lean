import HamsOpen.Rotator.Engine

/-!
# The travel of a rotator

A position is checked against the travel as it is asked for, and it is rounded when it is put on
the wire: to hundredths of a degree for `rotctld`, to whole degrees for GS-232. A travel with a
limit between two steps of the wire may be left by that.
-/

namespace HamsOpen.Rotator

open Flex (Text isSpace splitOnce stripPrefix)
open Set (Icc MapsTo)

/-- The report of a rotator that stands where a command sent it: the two numbers of the command,
in the form of the reply. -/
def answer (p : RotatorProtocol) (command : List UInt8) : List UInt8 :=
  match p with
  | .rotctld =>
    let numbers := command.drop 2
    numbers.takeWhile (· ≠ 0x20) ++ 0x0A :: (numbers.dropWhile (· ≠ 0x20)).tail
  | .gs232 =>
    let numbers := command.drop 1
    Utf8.encode "+0".toList ++ numbers.takeWhile (· ≠ 0x20) ++
      Utf8.encode "+0".toList ++ (numbers.dropWhile (· ≠ 0x20)).tail

/-- A degree on the wire. -/
def RotatorProtocol.carried : RotatorProtocol → ℚ → ℚ
  | .rotctld, x => Decimal.toPlaces Decimal.halfEven 2 x
  | .gs232, x => Decimal.halfAway x

/-- Every position that is accepted is inside the travel when it is read back. -/
def RotatorDescription.StaysInside (d : RotatorDescription) : Prop :=
  ∀ e, d.engine = .ok e → ∀ op az el, target d op = .ok (some (az, el)) →
    ∃ command az' el' used, e.encode op = .ok command ∧
      e.parse .position (answer d.protocol command.bytes) =
        .ok (some (.position az' el', used)) ∧
      d.contains az' el' = true

/-- The steps of the wire in a degree. -/
def RotatorProtocol.steps : RotatorProtocol → ℚ
  | .rotctld => 100
  | .gs232 => 1

/-- A lower limit is on a step of the wire, or nearer to the next step. -/
def RotatorProtocol.FitsBelow (p : RotatorProtocol) (x : ℚ) : Prop :=
  let u := x * p.steps
  u = ⌊u⌋ ∨ 1 / 2 < u - ⌊u⌋ ∨ u - ⌊u⌋ = 1 / 2 ∧ (p = .rotctld → ⌊u⌋ % 2 ≠ 0)

/-- An upper limit is on a step of the wire, or nearer to it than to the next one. -/
def RotatorProtocol.FitsAbove (p : RotatorProtocol) (x : ℚ) : Prop :=
  let u := x * p.steps
  u - ⌊u⌋ < 1 / 2 ∨ u - ⌊u⌋ = 1 / 2 ∧ p = .rotctld ∧ ⌊u⌋ % 2 = 0

structure RotatorDescription.LimitsFit (d : RotatorDescription) : Prop where
  azMin : d.protocol.FitsBelow d.azMin
  azMax : d.protocol.FitsAbove d.azMax
  elMin : d.protocol.FitsBelow d.elMin
  elMax : d.protocol.FitsAbove d.elMax

/-! ### Travel -/

section Travel

variable {d : RotatorDescription} {az el : ℚ}

theorem contains_iff : d.contains az el = true ↔
    az ∈ Icc d.azMin d.azMax ∧ el ∈ Icc d.elMin d.elMax := by
  simp only [RotatorDescription.contains, Bool.and_eq_true, decide_eq_true_eq, Set.mem_Icc]

/-- What a description is known for that is valid. -/
structure Valid (d : RotatorDescription) : Prop where
  az : d.azMin < d.azMax
  el : d.elMin ≤ d.elMax
  azimuthOnly : d.hasElevation = false → d.elMin = 0 ∧ d.elMax = 0
  carried : d.protocol = .gs232 → 0 ≤ d.azMin ∧ d.azMax ≤ 450 ∧ 0 ≤ d.elMin ∧ d.elMax ≤ 180
  park : ∀ p, d.park = some p → d.contains p.az p.el = true

theorem valid_of_validate (h : d.validate = .ok ()) : Valid d := by
  unfold RotatorDescription.validate at h
  dsimp only at h
  split at h
  · cases h
  split at h
  · cases h
  next haz =>
  split at h
  · cases h
  next hel =>
  split at h
  · cases h
  next honly =>
  split at h
  · cases h
  split at h
  · cases h
  next hcarried =>
  push Not at haz hel honly hcarried
  refine ⟨haz.1, hel.1, honly, hcarried, ?_⟩
  intro p hp
  rw [hp] at h
  by_contra hout
  rw [Bool.not_eq_true] at hout
  simp only [hout] at h
  cases h

/-- An explicit position is a target when it is inside the travel. -/
theorem target_setPosition (a b : ℚ) (hin : d.contains a (if d.hasElevation then b else 0) = true) :
    target d (.setPosition a b) = .ok (some (a, if d.hasElevation then b else 0)) := by
  simp [target, hin]

theorem target_setPosition_error (a b : ℚ)
    (hout : d.contains a (if d.hasElevation then b else 0) = false) (pos : Option (ℚ × ℚ)) :
    target d (.setPosition a b) ≠ .ok pos := by
  simp [target, hout]

/-- Every target is inside the travel. -/
theorem target_contains (hd : Valid d) {op : RotOp} (h : target d op = .ok (some (az, el))) :
    d.contains az el = true := by
  cases op with
  | setPosition a b =>
    by_cases hin : d.contains a (if d.hasElevation then b else 0) = true
    · rw [target_setPosition a b hin] at h
      cases h
      exact hin
    · exact absurd h (target_setPosition_error a b (Bool.not_eq_true _ ▸ hin) _)
  | park =>
    simp only [target] at h
    split at h
    next p hp =>
      cases h
      exact hd.park p hp
    · cases h
  | getPosition => cases h
  | stop => cases h

end Travel

/-! ### Text on the wire -/

/-- A character of ASCII that is seen. -/
def Plain (c : Char) : Prop := 0x21 ≤ c.toNat ∧ c.toNat ≤ 0x7E

theorem plain_of_isDigit {c : Char} (h : c.isDigit = true) : Plain c := by
  have hdigit := Char.isDigit_iff_toNat.mp h
  have hzero : '0'.toNat = 0x30 := rfl
  have hnine : '9'.toNat = 0x39 := rfl
  unfold Plain
  constructor <;> omega

theorem Plain.not_isSpace {c : Char} (h : Plain c) : isSpace c = false := by
  unfold Plain at h
  unfold isSpace
  simp
  omega

theorem encode_plain {text : Text} (h : ∀ c ∈ text, Plain c) :
    Utf8.encode text = text.map fun c => .ofNat c.toNat :=
  Utf8.encode_ascii fun c hc => Nat.lt_succ_of_le ((h c hc).2.trans (by decide))

theorem byte_of_plain {text : Text} (h : ∀ c ∈ text, Plain c) {b : UInt8}
    (hb : b ∈ Utf8.encode text) : 0x21 ≤ b.toNat := by
  rw [encode_plain h] at hb
  obtain ⟨c, hc, rfl⟩ := List.mem_map.mp hb
  have hplain := h c hc
  unfold Plain at hplain
  rw [UInt8.toNat_ofNat']
  omega

theorem trim_plain {text : Text} (h : ∀ c ∈ text, Plain c) : trim text = text := by
  have hfront : text.dropWhile isSpace = text := by
    apply List.dropWhile_eq_self_iff.mpr
    intro hlen
    rw [(h _ (List.getElem_mem hlen)).not_isSpace]
    decide
  rw [trim, hfront]
  apply List.rdropWhile_eq_self_iff.mpr
  intro hne
  rw [(h _ (List.getLast_mem hne)).not_isSpace]
  decide

/-- A line that is complete. -/
theorem line_encode {text : Text} (hne : text ≠ []) (h : ∀ c ∈ text, Plain c) {b : UInt8}
    (hb : isEnd b = true) (rest : List UInt8) :
    line (Utf8.encode text ++ b :: rest) = some (text, text.length + 1) := by
  have hplain : ∀ x ∈ Utf8.encode text, isEnd x = false := by
    intro x hx
    have hbyte := byte_of_plain h hx
    have hcr : x ≠ 0x0D := by
      rintro rfl
      exact absurd hbyte (by decide)
    have hlf : x ≠ 0x0A := by
      rintro rfl
      exact absurd hbyte (by decide)
    simp [isEnd, hcr, hlf]
  have hlength : (Utf8.encode text).length = text.length := by rw [encode_plain h, List.length_map]
  have hstart : (Utf8.encode text ++ b :: rest).takeWhile isEnd = [] := by
    obtain ⟨x, xs, hxs⟩ : ∃ x xs, Utf8.encode text = x :: xs := by
      apply List.exists_cons_of_ne_nil
      intro hnil
      rw [hnil] at hlength
      exact hne (List.length_eq_zero_iff.mp hlength.symm)
    rw [hxs, List.cons_append]
    apply List.takeWhile_cons_of_neg
    rw [hplain x (hxs ▸ List.mem_cons_self)]
    decide
  have hbody : (Utf8.encode text ++ b :: rest).takeWhile (fun x => !isEnd x) =
      Utf8.encode text := by
    rw [List.takeWhile_append_of_pos fun x hx => by rw [hplain x hx]; rfl,
      List.takeWhile_cons_of_neg (by simp [hb]), List.append_nil]
  have hread : (Utf8.lossy (Utf8.encode text)).toList = text := by
    rw [Utf8.lossy, String.toList_ofList]
    exact Utf8.lossyAfter_encode fun c hc => Nat.lt_succ_of_le ((h c hc).2.trans (by decide))
  rw [line, hstart]
  simp only [List.length_nil, List.drop_zero, hbody]
  rw [if_neg (by simp), List.take_left' rfl, hread, trim_plain h, hlength, Nat.zero_add]

/-- The two numbers of a command, a space between them. -/
theorem numbers_of_command {a : Text} (ha : ∀ c ∈ a, Plain c) (rest : List UInt8) :
    let numbers := Utf8.encode a ++ 0x20 :: rest
    numbers.takeWhile (· ≠ 0x20) = Utf8.encode a ∧
      (numbers.dropWhile (· ≠ 0x20)).tail = rest := by
  have hplain : ∀ x ∈ Utf8.encode a, decide (x ≠ 0x20) = true := by
    intro x hx
    have hbyte := byte_of_plain ha hx
    apply decide_eq_true
    rintro rfl
    exact absurd hbyte (by decide)
  constructor
  · rw [List.takeWhile_append_of_pos hplain, List.takeWhile_cons_of_neg (by decide),
      List.append_nil]
  · rw [List.dropWhile_append_of_pos hplain, List.dropWhile_cons_of_neg (by decide)]
    rfl

/-! ### Hamlib's `rotctld` -/

theorem plain_format {p : ℕ} {x : ℚ} : ∀ c ∈ Decimal.format p x, Plain c := by
  intro c hc
  obtain hdigit | rfl | rfl := Decimal.mem_format hc
  · exact plain_of_isDigit hdigit
  · exact ⟨by decide, by decide⟩
  · exact ⟨by decide, by decide⟩

/-- A number is no status line. -/
theorem format_not_status (p : ℕ) (x : ℚ) : ¬ "RPRT".toList <+: Decimal.format p x := by
  intro hprefix
  have hmem : 'R' ∈ Decimal.format p x := hprefix.mem List.mem_cons_self
  obtain h | h | h := Decimal.mem_format hmem <;> exact absurd h (by decide)

theorem number_format (p : ℕ) (x : ℚ) : RotctldEngine.number (Decimal.format p x) =
    .ok (Decimal.toPlaces Decimal.halfEven p x) := by
  rw [RotctldEngine.number, Decimal.parse_format]

theorem rotctld_read_back (az el : ℚ) : ∃ used,
    RotctldEngine.parse .position (answer .rotctld (Utf8.encode ("P ".toList ++
      Decimal.format 2 az ++ " ".toList ++ Decimal.format 2 el ++ "\n".toList))) =
    .ok (some (.position (RotatorProtocol.rotctld.carried az)
      (RotatorProtocol.rotctld.carried el), used)) := by
  let a := Decimal.format 2 az
  let b := Decimal.format 2 el
  have hcommand : (Utf8.encode ("P ".toList ++ a ++ " ".toList ++ b ++ "\n".toList)).drop 2 =
      Utf8.encode a ++ 0x20 :: (Utf8.encode b ++ [0x0A]) := by
    simp only [Utf8.encode, List.flatMap_append, List.append_assoc]
    rfl
  have hanswer : answer .rotctld
      (Utf8.encode ("P ".toList ++ a ++ " ".toList ++ b ++ "\n".toList)) =
      Utf8.encode a ++ 0x0A :: (Utf8.encode b ++ [0x0A]) := by
    obtain ⟨htake, hdrop⟩ := numbers_of_command (a := a) plain_format (Utf8.encode b ++ [0x0A])
    rw [answer, hcommand, htake, hdrop]
  have hfirst := line_encode (Decimal.format_ne_nil 2 az) plain_format (b := 0x0A) rfl
    (Utf8.encode b ++ [0x0A])
  have hsecond := line_encode (Decimal.format_ne_nil 2 el) plain_format (b := 0x0A) rfl []
  have hlength : (Utf8.encode a).length = a.length := by
    rw [encode_plain plain_format, List.length_map]
  have hrest : (Utf8.encode a ++ 0x0A :: (Utf8.encode b ++ [0x0A])).drop (a.length + 1) =
      Utf8.encode b ++ [0x0A] := by
    rw [← hlength, List.drop_length_add_append]
    rfl
  refine ⟨(a.length + 1) + (b.length + 1), ?_⟩
  rw [hanswer, RotctldEngine.parse, hfirst]
  dsimp only
  rw [if_neg (format_not_status 2 az), hrest, hsecond]
  dsimp only
  rw [number_format, number_format]
  rfl

/-! ### GS-232 -/

/-- The three digits of a whole number of degrees. -/
theorem threeDigits_eq {n : ℤ} (h : 0 ≤ n) :
    Gs232Engine.threeDigits n = Decimal.padded 3 n.natAbs := if_neg (not_lt.mpr h)

theorem plain_padded {width n : ℕ} : ∀ c ∈ Decimal.padded width n, Plain c :=
  fun _ hc => plain_of_isDigit (Decimal.isDigit_of_padded hc)

theorem digits_padded {n : ℕ} (h : n < 1000) :
    Gs232Engine.digits ('0' :: Decimal.padded 3 n) = some (n : ℚ) := by
  have hdigit : ∀ c ∈ '0' :: Decimal.padded 3 n, c.isDigit = true := by
    intro c hc
    obtain rfl | hc := List.mem_cons.mp hc
    · rfl
    · exact Decimal.isDigit_of_padded hc
  have htrim : trim ('0' :: Decimal.padded 3 n) = '0' :: Decimal.padded 3 n :=
    trim_plain fun c hc => plain_of_isDigit (hdigit c hc)
  have hdrop : ('0' :: Decimal.padded 3 n).dropWhile (· = '+') = '0' :: Decimal.padded 3 n :=
    List.dropWhile_cons_of_neg (by decide)
  have hlength : ('0' :: Decimal.padded 3 n).length ≤ 4 := by
    rw [List.length_cons, Decimal.length_padded (by decide) h]
  have hvalue : Decimal.value ('0' :: Decimal.padded 3 n) = n := by
    have happend := Decimal.value_append ['0'] (Decimal.padded 3 n)
    have hzero : Decimal.value ['0'] = 0 := rfl
    rw [Decimal.value_padded, hzero, Nat.mul_zero, Nat.zero_add] at happend
    exact happend
  rw [Gs232Engine.digits, htrim, hdrop,
    if_pos ⟨List.cons_ne_nil _ _, hlength, List.all_eq_true.mpr hdigit⟩, hvalue]

theorem splitOnce_plus {before : Text} (h : ∀ c ∈ before, c.isDigit = true) (after : Text) :
    splitOnce '+' (before ++ '+' :: after) = some (before, after) := by
  have hne : ∀ c ∈ before, decide (c ≠ '+') = true := by
    intro c hc
    apply decide_eq_true
    rintro rfl
    exact absurd (h '+' hc) (by decide)
  rw [splitOnce, if_pos (by simp), List.takeWhile_append_of_pos hne,
    List.dropWhile_append_of_pos hne, List.takeWhile_cons_of_neg (by decide),
    List.dropWhile_cons_of_neg (by decide), List.append_nil]
  rfl

theorem gs232Position_padded {m n : ℕ} (hm : m < 1000) (hn : n < 1000) :
    Gs232Engine.gs232Position
      ('+' :: '0' :: (Decimal.padded 3 m ++ '+' :: '0' :: Decimal.padded 3 n)) =
      some ((m : ℚ), (n : ℚ)) := by
  have hstrip (text : Text) : stripPrefix ['+'] ('+' :: text) = some text :=
    if_pos ⟨text, rfl⟩
  have hdigit : ∀ c ∈ '0' :: Decimal.padded 3 m, c.isDigit = true := by
    intro c hc
    obtain rfl | hc := List.mem_cons.mp hc
    · rfl
    · exact Decimal.isDigit_of_padded hc
  have hsplit := splitOnce_plus hdigit ('0' :: Decimal.padded 3 n)
  rw [List.cons_append] at hsplit
  rw [Gs232Engine.gs232Position, hstrip]
  dsimp only
  rw [hsplit]
  simp only [Option.bind_eq_bind, Option.bind_some, digits_padded hm, digits_padded hn]
  rfl

theorem gs232_read_back {m n : ℤ} (hm : 0 ≤ m) (hm' : m < 1000) (hn : 0 ≤ n) (hn' : n < 1000) :
    ∃ used, Gs232Engine.parse .position (answer .gs232 (Utf8.encode ("W".toList ++
      Gs232Engine.threeDigits (Gs232Engine.toI32 m) ++ " ".toList ++
      Gs232Engine.threeDigits (Gs232Engine.toI32 n) ++ "\r".toList))) =
    .ok (some (.position m n, used)) := by
  have htoI32 {k : ℤ} (hk : 0 ≤ k) (hk' : k < 1000) : Gs232Engine.toI32 k = k := by
    unfold Gs232Engine.toI32
    omega
  let a := Decimal.padded 3 m.natAbs
  let b := Decimal.padded 3 n.natAbs
  rw [htoI32 hm hm', htoI32 hn hn', threeDigits_eq hm, threeDigits_eq hn]
  have hcommand : (Utf8.encode ("W".toList ++ a ++ " ".toList ++ b ++ "\r".toList)).drop 1 =
      Utf8.encode a ++ 0x20 :: (Utf8.encode b ++ [0x0D]) := by
    simp only [Utf8.encode, List.flatMap_append, List.append_assoc]
    rfl
  let text : Text := '+' :: '0' :: (a ++ '+' :: '0' :: b)
  have hanswer : answer .gs232
      (Utf8.encode ("W".toList ++ a ++ " ".toList ++ b ++ "\r".toList)) =
      Utf8.encode text ++ 0x0D :: [] := by
    obtain ⟨htake, hdrop⟩ := numbers_of_command (a := a) plain_padded (Utf8.encode b ++ [0x0D])
    rw [answer, hcommand, htake, hdrop]
    simp only [Utf8.encode, text, List.flatMap_append, List.flatMap_cons, List.append_assoc]
    rfl
  have hplain : ∀ c ∈ text, Plain c := by
    intro c hc
    have hcases : c = '+' ∨ c = '0' ∨ c ∈ a ∨ c ∈ b := by
      have hparts : c = '+' ∨ c = '0' ∨ c ∈ a ∨ c = '+' ∨ c = '0' ∨ c ∈ b := by
        simpa only [text, List.mem_cons, List.mem_append] using hc
      obtain h | h | h | h | h | h := hparts
      · exact .inl h
      · exact .inr (.inl h)
      · exact .inr (.inr (.inl h))
      · exact .inl h
      · exact .inr (.inl h)
      · exact .inr (.inr (.inr h))
    obtain rfl | rfl | ha | hb := hcases
    · exact ⟨by decide, by decide⟩
    · exact ⟨by decide, by decide⟩
    · exact plain_padded c ha
    · exact plain_padded c hb
  have hline := line_encode (List.cons_ne_nil _ _) hplain (b := 0x0D) rfl []
  have hposition := gs232Position_padded (m := m.natAbs) (n := n.natAbs) (by omega) (by omega)
  refine ⟨text.length + 1, ?_⟩
  rw [hanswer, Gs232Engine.parse, hline]
  dsimp only
  rw [hposition]
  dsimp only
  rw [Nat.cast_natAbs, Nat.cast_natAbs, abs_of_nonneg hm, abs_of_nonneg hn]

/-! ### Either protocol -/

section Engine

variable {d : RotatorDescription} {e : RotatorEngine} {op : RotOp} {az el : ℚ}

theorem rotctld_encode (h : target d op = .ok (some (az, el))) : RotctldEngine.encode d op =
    .ok ⟨Utf8.encode ("P ".toList ++ Decimal.format 2 az ++ " ".toList ++ Decimal.format 2 el ++
      "\n".toList), .status⟩ := by
  cases op with
  | setPosition a b =>
    rw [RotctldEngine.encode, h]
    rfl
  | park =>
    rw [RotctldEngine.encode, h]
    rfl
  | getPosition => cases h
  | stop => cases h

theorem gs232_encode (h : target d op = .ok (some (az, el))) : Gs232Engine.encode d op =
    .ok ⟨Utf8.encode ("W".toList ++
      Gs232Engine.threeDigits (Gs232Engine.toI32 (Decimal.halfAway az)) ++ " ".toList ++
      Gs232Engine.threeDigits (Gs232Engine.toI32 (Decimal.halfAway el)) ++ "\r".toList),
      .nothing⟩ := by
  cases op with
  | setPosition a b =>
    rw [Gs232Engine.encode, h]
    rfl
  | park =>
    rw [Gs232Engine.encode, h]
    rfl
  | getPosition => cases h
  | stop => cases h

theorem engine_eq (h : d.validate = .ok ()) : d.engine = .ok (match d.protocol with
    | .rotctld => ⟨RotctldEngine.encode d, RotctldEngine.parse⟩
    | .gs232 => ⟨Gs232Engine.encode d, Gs232Engine.parse⟩) := by
  rw [RotatorDescription.engine, h]
  rfl

/-- Whole degrees of what GS-232 can carry have three digits. -/
theorem halfAway_bounds {x : ℚ} (hx : 0 ≤ x) (hx' : x ≤ 450) :
    0 ≤ Decimal.halfAway x ∧ Decimal.halfAway x < 1000 := by
  have hlow := Decimal.isRounding_halfAway.nonneg hx
  have hhigh := Decimal.isRounding_halfAway.monotone hx'
  have hmax : Decimal.halfAway 450 = 450 := by
    exact_mod_cast Decimal.isRounding_halfAway.intCast 450
  constructor
  · exact hlow
  · omega

/-- The position of a command, as the protocol reads it back: it is the one meant, rounded. -/
theorem read_back (h : d.validate = .ok ()) (he : d.engine = .ok e)
    (ht : target d op = .ok (some (az, el))) : ∃ command used, e.encode op = .ok command ∧
    e.parse .position (answer d.protocol command.bytes) =
      .ok (some (.position (d.protocol.carried az) (d.protocol.carried el), used)) := by
  have hd := valid_of_validate h
  obtain ⟨haz, hel⟩ := contains_iff.mp (target_contains hd ht)
  rw [engine_eq h] at he
  cases hp : d.protocol with
  | rotctld =>
    rw [hp] at he
    cases he
    obtain ⟨used, hparse⟩ := rotctld_read_back az el
    refine ⟨_, used, rotctld_encode ht, ?_⟩
    dsimp only
    exact hparse
  | gs232 =>
    rw [hp] at he
    cases he
    obtain ⟨hazMin, hazMax, helMin, helMax⟩ := hd.carried hp
    obtain ⟨hazLow, hazHigh⟩ := halfAway_bounds (hazMin.trans haz.1) (haz.2.trans hazMax)
    have helBound : el ≤ 450 := (hel.2.trans helMax).trans (by norm_num)
    obtain ⟨helLow, helHigh⟩ := halfAway_bounds (helMin.trans hel.1) helBound
    obtain ⟨used, hparse⟩ := gs232_read_back hazLow hazHigh helLow helHigh
    refine ⟨_, used, gs232_encode ht, ?_⟩
    dsimp only
    exact hparse

/-- A rotator that stays inside its travel is rounded to positions inside it. -/
theorem contains_carried (h : d.validate = .ok ()) (hstays : d.StaysInside)
    (ht : target d op = .ok (some (az, el))) :
    d.contains (d.protocol.carried az) (d.protocol.carried el) = true := by
  have he := engine_eq h
  obtain ⟨command, az', el', used, hencode, hparse, hin⟩ := hstays _ he op az el ht
  obtain ⟨command', used', hencode', hparse'⟩ := read_back h he ht
  have hcommand : command = command' := Except.ok.inj (hencode.symm.trans hencode')
  subst hcommand
  have hsame := hparse.symm.trans hparse'
  simp only [Except.ok.injEq, Option.some.injEq, Prod.mk.injEq, RotReply.position.injEq] at hsame
  obtain ⟨⟨rfl, rfl⟩, -⟩ := hsame
  exact hin

end Engine

/-! ### The limits -/

section Limits

variable {p : RotatorProtocol} {x : ℚ}

theorem monotone_carried (p : RotatorProtocol) : Monotone p.carried := by
  cases p with
  | rotctld => exact Decimal.isRounding_halfEven.monotone_toPlaces 2
  | gs232 =>
    intro x y hxy
    exact Int.cast_le.mpr (Decimal.isRounding_halfAway.monotone hxy)

theorem fitsBelow_iff (hx : p = .gs232 → 0 ≤ x) : p.FitsBelow x ↔ x ≤ p.carried x := by
  cases p with
  | rotctld =>
    have hpow : (10 : ℚ) ^ 2 = 100 := by norm_num
    rw [RotatorProtocol.carried, Decimal.le_toPlaces_iff, hpow, Decimal.le_halfEven_iff]
    simp [RotatorProtocol.FitsBelow, RotatorProtocol.steps]
  | gs232 =>
    rw [RotatorProtocol.carried, Decimal.le_halfAway_iff (hx rfl), le_iff_lt_or_eq]
    simp [RotatorProtocol.FitsBelow, RotatorProtocol.steps, eq_comm]

theorem fitsAbove_iff (hx : p = .gs232 → 0 ≤ x) : p.FitsAbove x ↔ p.carried x ≤ x := by
  cases p with
  | rotctld =>
    have hpow : (10 : ℚ) ^ 2 = 100 := by norm_num
    rw [RotatorProtocol.carried, Decimal.toPlaces_le_iff, hpow, Decimal.halfEven_le_iff]
    simp [RotatorProtocol.FitsAbove, RotatorProtocol.steps]
  | gs232 =>
    rw [RotatorProtocol.carried, Decimal.halfAway_le_iff (hx rfl)]
    simp [RotatorProtocol.FitsAbove, RotatorProtocol.steps]

variable {d : RotatorDescription}

/-- The limits fit when the two axes are kept by the wire. -/
theorem limitsFit_iff (hd : Valid d) : d.LimitsFit ↔
    MapsTo d.protocol.carried (Icc d.azMin d.azMax) (Icc d.azMin d.azMax) ∧
      MapsTo d.protocol.carried (Icc d.elMin d.elMax) (Icc d.elMin d.elMax) := by
  have hmono := monotone_carried d.protocol
  have haz : d.protocol = .gs232 → 0 ≤ d.azMin := fun hp => (hd.carried hp).1
  have hel : d.protocol = .gs232 → 0 ≤ d.elMin := fun hp => (hd.carried hp).2.2.1
  have hazMax : d.protocol = .gs232 → 0 ≤ d.azMax := fun hp => (haz hp).trans hd.az.le
  have helMax : d.protocol = .gs232 → 0 ≤ d.elMax := fun hp => (hel hp).trans hd.el
  rw [Decimal.mapsTo_Icc_iff hmono hd.az.le, Decimal.mapsTo_Icc_iff hmono hd.el,
    ← fitsBelow_iff haz, ← fitsBelow_iff hel, ← fitsAbove_iff hazMax, ← fitsAbove_iff helMax]
  constructor
  · intro hfit
    exact ⟨⟨hfit.azMin, hfit.azMax⟩, hfit.elMin, hfit.elMax⟩
  · rintro ⟨⟨hazMin, hazMax⟩, helMin, helMax⟩
    exact ⟨hazMin, hazMax, helMin, helMax⟩

/-- Every position of the travel can be asked for. -/
theorem target_of_contains (hd : Valid d) {az el : ℚ} (haz : az ∈ Icc d.azMin d.azMax)
    (hel : el ∈ Icc d.elMin d.elMax) :
    target d (.setPosition az el) = .ok (some (az, el)) := by
  have hkeep : (if d.hasElevation then el else 0) = el := by
    split
    · rfl
    next honly =>
      -- without an elevation axis the only elevation is zero
      obtain ⟨hmin, hmax⟩ := hd.azimuthOnly (Bool.not_eq_true _ ▸ honly)
      rw [hmin, hmax] at hel
      exact le_antisymm hel.1 hel.2
  have htarget := target_setPosition (d := d) az el
  rw [hkeep] at htarget
  exact htarget (contains_iff.mpr ⟨haz, hel⟩)

/-- Every position that a valid description accepts is read back inside its travel, exactly when
no limit of the travel is rounded to the outside. -/
theorem staysInside_iff (h : d.validate = .ok ()) : d.StaysInside ↔ d.LimitsFit := by
  have hd := valid_of_validate h
  rw [limitsFit_iff hd]
  constructor
  · intro hstays
    -- a pair of coordinates is kept, since it can be asked for
    have hpair : ∀ az ∈ Icc d.azMin d.azMax, ∀ el ∈ Icc d.elMin d.elMax,
        d.protocol.carried az ∈ Icc d.azMin d.azMax ∧
          d.protocol.carried el ∈ Icc d.elMin d.elMax := by
      intro az haz el hel
      exact contains_iff.mp (contains_carried h hstays (target_of_contains hd haz hel))
    have hazMin := Set.left_mem_Icc.mpr hd.az.le
    have helMin := Set.left_mem_Icc.mpr hd.el
    constructor
    · intro az haz
      exact (hpair az haz d.elMin helMin).1
    · intro el hel
      exact (hpair d.azMin hazMin el hel).2
  · rintro ⟨haz, hel⟩ e he op az el htarget
    obtain ⟨hazIn, helIn⟩ := contains_iff.mp (target_contains hd htarget)
    obtain ⟨command, used, hencode, hparse⟩ := read_back h he htarget
    exact ⟨command, _, _, used, hencode, hparse, contains_iff.mpr ⟨haz hazIn, hel helIn⟩⟩

/-- The Yaesu G-5500 behind a GS-232B controller, as it is shipped. -/
def yaesuG5500 : RotatorDescription :=
  ⟨"yaesu-g-5500-gs232b", .gs232, 0, 450, 0, 180, true, 2, some ⟨0, 0⟩, 1500⟩

theorem staysInside_yaesuG5500 : yaesuG5500.StaysInside := by
  apply (staysInside_iff (by decide +kernel)).mpr
  constructor <;> norm_num [yaesuG5500, RotatorProtocol.FitsBelow, RotatorProtocol.FitsAbove,
    RotatorProtocol.steps]

/-- The same rotator with a stop set at 359.6 degrees. -/
def stopped : RotatorDescription := { yaesuG5500 with azMax := 1798 / 5 }

/-- It accepts the azimuth of its stop, and is sent to 360 degrees. -/
theorem stopped_leaves : stopped.validate = .ok () ∧ ¬ stopped.StaysInside := by
  have hvalid : stopped.validate = .ok () := by decide +kernel
  refine ⟨hvalid, ?_⟩
  intro hstays
  have htarget : target stopped (.setPosition (1798 / 5) 0) = .ok (some (1798 / 5, 0)) := by
    decide +kernel
  have hin := contains_carried hvalid hstays htarget
  have hout : stopped.contains (stopped.protocol.carried (1798 / 5))
      (stopped.protocol.carried 0) = false := by decide +kernel
  rw [hout] at hin
  cases hin

end Limits

end HamsOpen.Rotator
