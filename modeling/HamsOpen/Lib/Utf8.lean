import Mathlib

/-!
# UTF-8 text cut at a byte count

A string is encoded a character at a time, and the byte that begins a character is told apart from
those that continue it. So the last place at or before a byte count where a character begins cuts
the encoding after as many whole characters as fit.
-/

namespace Utf8

/-- The encoding of characters. -/
def encode (chars : List Char) : List UInt8 := chars.flatMap String.utf8EncodeChar

/-- The encoding of a string. -/
def bytes (s : String) : List UInt8 := s.toByteArray.data.toList

/-- The string of an encoding, if it is one. -/
def ofBytes (bs : List UInt8) : Option String := String.fromUTF8? ⟨bs.toArray⟩

theorem bytes_ofList (chars : List Char) : bytes (String.ofList chars) = encode chars := by
  unfold bytes
  rw [String.toByteArray_ofList]
  exact List.toList_data_toByteArray

theorem length_encode (chars : List Char) :
    (encode chars).length = (chars.map Char.utf8Size).sum := by
  rw [encode, List.length_flatMap]
  exact congrArg List.sum (List.map_congr_left fun c _ => String.length_utf8EncodeChar c)

theorem bytes_eq_encode (s : String) : bytes s = encode s.toList := by
  rw [← bytes_ofList, String.ofList_toList]

/-- Bytes that are read as a string are its encoding. -/
theorem ofBytes_eq_some {bs : List UInt8} {s : String} : ofBytes bs = some s ↔ bytes s = bs := by
  unfold ofBytes String.fromUTF8?
  constructor
  · intro h
    split at h
    · cases h
      rfl
    · cases h
  · rintro rfl
    have hvalid : ByteArray.IsValidUTF8 ⟨(bytes s).toArray⟩ := s.isValidUTF8
    rw [dif_pos hvalid]
    rfl

/-! ### Boundaries between characters -/

/-- The byte continues a character. -/
def continues (b : UInt8) : Bool := 0x80 ≤ b && b < 0xC0

/-- A character begins at byte `i`, or the bytes end there. -/
def isBoundary (bs : List UInt8) (i : ℕ) : Bool :=
  i = 0 || i = bs.length || bs[i]?.any fun b => !continues b

/-- The last boundary at or before byte `n`. -/
def floorBoundary (bs : List UInt8) : ℕ → ℕ
  | 0 => 0
  | n + 1 => if isBoundary bs (n + 1) then n + 1 else floorBoundary bs n

/-- As many characters as fit in `n` bytes. -/
def fit : ℕ → List Char → List Char
  | _, [] => []
  | n, c :: chars => if c.utf8Size ≤ n then c :: fit (n - c.utf8Size) chars else []

theorem encode_cons (c : Char) (chars : List Char) :
    encode (c :: chars) = String.utf8EncodeChar c ++ encode chars := rfl

/-- What holds of the 256 bytes holds of every byte. -/
theorem forall_byte {p : UInt8 → Prop} (h : ∀ n : Fin 256, p (UInt8.ofFin n)) (x : UInt8) : p x :=
  h x.toFin

/-- A byte that continues a character, or that begins one of two, three or four bytes. -/
theorem continues_low (x : UInt8) : continues (x &&& 0x3f ||| 0x80) = true :=
  forall_byte (p := fun x => continues (x &&& 0x3f ||| 0x80) = true) (by decide +kernel) x

theorem begins_two (x : UInt8) : continues (x &&& 0x1f ||| 0xc0) = false ∧ x &&& 0x1f ||| 0xc0 ≠ 0 :=
  forall_byte (p := fun x => continues (x &&& 0x1f ||| 0xc0) = false ∧ x &&& 0x1f ||| 0xc0 ≠ 0)
    (by decide +kernel) x

theorem begins_three (x : UInt8) :
    continues (x &&& 0x0f ||| 0xe0) = false ∧ x &&& 0x0f ||| 0xe0 ≠ 0 :=
  forall_byte (p := fun x => continues (x &&& 0x0f ||| 0xe0) = false ∧ x &&& 0x0f ||| 0xe0 ≠ 0)
    (by decide +kernel) x

theorem begins_four (x : UInt8) :
    continues (x &&& 0x07 ||| 0xf0) = false ∧ x &&& 0x07 ||| 0xf0 ≠ 0 :=
  forall_byte (p := fun x => continues (x &&& 0x07 ||| 0xf0) = false ∧ x &&& 0x07 ||| 0xf0 ≠ 0)
    (by decide +kernel) x

/-- The bytes of a character: one that begins it, which is zero for the null character alone, and
some that continue it. -/
structure Encoded (c : Char) (b : UInt8) (rest : List UInt8) : Prop where
  eq : String.utf8EncodeChar c = b :: rest
  begins : continues b = false
  continued : ∀ b' ∈ rest, continues b' = true
  zero : b = 0 ↔ c = '\x00'

theorem exists_encoded (c : Char) : ∃ b rest, Encoded c b rest := by
  have hnull (h : c.utf8Size ≠ 1) : c ≠ '\x00' := by
    rintro rfl
    exact h rfl
  rcases c.utf8Size_eq with hsize | hsize | hsize | hsize
  · have hle : c.val ≤ 127 := Char.utf8Size_eq_one_iff.mp hsize
    have hlt : c.val.toNat < 128 := Nat.lt_succ_of_le (UInt32.le_iff_toNat_le.mp hle)
    have hval : c.val.toUInt8.toNat = c.val.toNat := by
      rw [UInt32.toNat_toUInt8]
      exact Nat.mod_eq_of_lt (by omega)
    refine ⟨c.val.toUInt8, [], String.utf8EncodeChar_eq_singleton hsize, ?_, nofun, ?_⟩
    · apply Bool.and_eq_false_iff.mpr
      left
      apply decide_eq_false
      intro hge
      have hge' := UInt8.le_iff_toNat_le.mp hge
      rw [hval] at hge'
      exact absurd hlt (Nat.not_lt.mpr hge')
    · rw [← UInt8.toNat_inj, hval, ← Char.val_inj, ← UInt32.toNat_inj]
      rfl
  · have hnonzero := hnull (by omega)
    refine ⟨_, _, String.utf8EncodeChar_eq_cons_cons hsize, (begins_two _).1, ?_,
      iff_of_false (begins_two _).2 hnonzero⟩
    simp only [List.mem_singleton, forall_eq]
    exact continues_low _
  · have hnonzero := hnull (by omega)
    refine ⟨_, _, String.utf8EncodeChar_eq_cons_cons_cons hsize, (begins_three _).1, ?_,
      iff_of_false (begins_three _).2 hnonzero⟩
    simp only [List.mem_cons, List.not_mem_nil, or_false, forall_eq_or_imp, forall_eq]
    exact ⟨continues_low _, continues_low _⟩
  · have hnonzero := hnull (by omega)
    refine ⟨_, _, String.utf8EncodeChar_eq_cons_cons_cons_cons hsize, (begins_four _).1, ?_,
      iff_of_false (begins_four _).2 hnonzero⟩
    simp only [List.mem_cons, List.not_mem_nil, or_false, forall_eq_or_imp, forall_eq]
    exact ⟨continues_low _, continues_low _, continues_low _⟩

/-- Within a character there is no boundary. -/
theorem not_isBoundary_within {c : Char} {bs : List UInt8} {i : ℕ} (hpos : 0 < i)
    (hlt : i < c.utf8Size) : isBoundary (String.utf8EncodeChar c ++ bs) i = false := by
  obtain ⟨b, rest, henc⟩ := exists_encoded c
  have hlength : (String.utf8EncodeChar c).length = c.utf8Size := String.length_utf8EncodeChar c
  rw [henc.eq] at hlength ⊢
  obtain ⟨k, rfl⟩ : ∃ k, i = k + 1 := ⟨i - 1, by omega⟩
  have hk : k < rest.length := by
    rw [List.length_cons] at hlength
    omega
  have hget : ((b :: rest) ++ bs)[k + 1]? = some rest[k] := by
    rw [List.cons_append, List.getElem?_cons_succ, List.getElem?_append_left hk,
      List.getElem?_eq_getElem hk]
  unfold isBoundary
  rw [hget]
  simp only [Option.any_some, Bool.or_eq_false_iff, decide_eq_false_iff_not]
  refine ⟨⟨by omega, ?_⟩, ?_⟩
  · simp only [List.length_append, List.length_cons]
    omega
  · rw [henc.continued _ (List.getElem_mem hk)]
    rfl

/-- After a character the boundaries are those of what follows. -/
theorem isBoundary_after {c : Char} {chars : List Char} (i : ℕ) :
    isBoundary (encode (c :: chars)) (c.utf8Size + i) = isBoundary (encode chars) i := by
  have hlength : (String.utf8EncodeChar c).length = c.utf8Size := String.length_utf8EncodeChar c
  have hsize := Char.utf8Size_pos c
  rw [encode_cons]
  unfold isBoundary
  rw [List.length_append, hlength, List.getElem?_append_right (by omega), hlength,
    Nat.add_sub_cancel_left]
  cases i with
  | zero =>
    cases chars with
    | nil => simp [encode]
    | cons c' chars =>
      obtain ⟨b, rest, henc⟩ := exists_encoded c'
      rw [encode_cons, henc.eq]
      simp [henc.begins]
  | succ i =>
    have hzero : decide (c.utf8Size + (i + 1) = 0) = decide (i + 1 = 0) :=
      decide_eq_decide.mpr ⟨fun h => by omega, fun h => by omega⟩
    have hend : decide (c.utf8Size + (i + 1) = c.utf8Size + (encode chars).length) =
        decide (i + 1 = (encode chars).length) :=
      decide_eq_decide.mpr ⟨fun h => by omega, fun h => by omega⟩
    rw [hzero, hend]

theorem floorBoundary_within {c : Char} {bs : List UInt8} {n : ℕ} (h : n < c.utf8Size) :
    floorBoundary (String.utf8EncodeChar c ++ bs) n = 0 := by
  induction n with
  | zero => rfl
  | succ n ih =>
    rw [floorBoundary, not_isBoundary_within (Nat.succ_pos n) h]
    exact ih (by omega)

theorem floorBoundary_after {c : Char} {chars : List Char} (n : ℕ) :
    floorBoundary (encode (c :: chars)) (c.utf8Size + n) =
      c.utf8Size + floorBoundary (encode chars) n := by
  induction n with
  | zero =>
    have hboundary : isBoundary (encode (c :: chars)) (c.utf8Size + 0) =
        isBoundary (encode chars) 0 := isBoundary_after 0
    obtain ⟨k, hk⟩ : ∃ k, c.utf8Size = k + 1 := ⟨c.utf8Size - 1, by have := c.utf8Size_pos; omega⟩
    have hstep : floorBoundary (encode (c :: chars)) (k + 1) =
        if isBoundary (encode (c :: chars)) (k + 1) then k + 1
        else floorBoundary (encode (c :: chars)) k := rfl
    rw [Nat.add_zero, hk] at hboundary ⊢
    rw [hstep, hboundary]
    rfl
  | succ n ih =>
    have hboundary : isBoundary (encode (c :: chars)) (c.utf8Size + (n + 1)) =
        isBoundary (encode chars) (n + 1) := isBoundary_after (n + 1)
    rw [← Nat.add_assoc] at hboundary ⊢
    rw [floorBoundary, floorBoundary, hboundary, ih]
    split <;> rfl

/-- A cut keeps the characters that fit. -/
theorem take_floorBoundary (chars : List Char) (n : ℕ) :
    (encode chars).take (floorBoundary (encode chars) n) = encode (fit n chars) := by
  induction chars generalizing n with
  | nil => exact List.take_nil
  | cons c chars ih =>
    rw [fit]
    split
    next hle =>
      obtain ⟨m, rfl⟩ := Nat.exists_eq_add_of_le hle
      rw [floorBoundary_after, Nat.add_sub_cancel_left, encode_cons, encode_cons, ← ih m]
      rw [← String.length_utf8EncodeChar c, List.take_length_add_append]
    next hgt =>
      rw [encode_cons, floorBoundary_within (Nat.lt_of_not_le hgt)]
      rfl

/-- The characters that fit take no more bytes. -/
theorem length_fit (n : ℕ) (chars : List Char) : (encode (fit n chars)).length ≤ n := by
  induction chars generalizing n with
  | nil => exact Nat.zero_le n
  | cons c chars ih =>
    rw [fit]
    split
    next hle =>
      have hrest := ih (n - c.utf8Size)
      rw [encode_cons, List.length_append, String.length_utf8EncodeChar]
      omega
    next => exact Nat.zero_le n

/-- Characters that take no more bytes all fit. -/
theorem fit_of_length {n : ℕ} {chars : List Char} (h : (encode chars).length ≤ n) :
    fit n chars = chars := by
  induction chars generalizing n with
  | nil => rfl
  | cons c chars ih =>
    rw [encode_cons, List.length_append, String.length_utf8EncodeChar] at h
    rw [fit, if_pos (by omega), ih (by omega)]

/-- Bytes of zero are those of the null character. -/
theorem filter_zero (chars : List Char) :
    (encode chars).filter (· ≠ 0) = encode (chars.filter (· ≠ '\x00')) := by
  induction chars with
  | nil => rfl
  | cons c chars ih =>
    obtain ⟨b, rest, henc⟩ := exists_encoded c
    have hrest : rest.filter (· ≠ 0) = rest := by
      apply List.filter_eq_self.mpr
      intro b' hb'
      have hcontinues := henc.continued b' hb'
      apply decide_eq_true
      rintro rfl
      revert hcontinues
      decide
    rw [encode_cons, List.filter_append, ih, henc.eq]
    by_cases hnull : c = '\x00'
    · have hzero := henc.zero.mpr hnull
      have henc' := henc.eq
      subst hnull
      have hnil : rest = [] := (List.cons.inj henc').2.symm
      rw [hzero, hnil]
      rfl
    · have hne : b ≠ 0 := fun hb => hnull (henc.zero.mp hb)
      rw [List.filter_cons_of_pos (by simpa using hne), hrest,
        List.filter_cons_of_pos (by simpa using hnull), encode_cons, henc.eq]

/-- An encoding without a zero is that of characters other than the null character. -/
theorem ne_null_of_ne_zero {chars : List Char} (h : ∀ b ∈ encode chars, b ≠ 0) :
    ∀ c ∈ chars, c ≠ '\x00' := by
  rintro c hc rfl
  exact h 0 (List.mem_flatMap.mpr ⟨_, hc, by decide⟩) rfl

/-! ### Bytes that need not be an encoding -/

/-- What may follow the first byte of a character, byte by byte, if it is one. -/
def follows (b : UInt8) : Option (List (UInt8 × UInt8)) :=
  if b < 0x80 then some []
  else if 0xC2 ≤ b ∧ b ≤ 0xDF then some [(0x80, 0xBF)]
  else if b = 0xE0 then some [(0xA0, 0xBF), (0x80, 0xBF)]
  else if b = 0xED then some [(0x80, 0x9F), (0x80, 0xBF)]
  else if 0xE1 ≤ b ∧ b ≤ 0xEF then some [(0x80, 0xBF), (0x80, 0xBF)]
  else if b = 0xF0 then some [(0x90, 0xBF), (0x80, 0xBF), (0x80, 0xBF)]
  else if 0xF1 ≤ b ∧ b ≤ 0xF3 then some [(0x80, 0xBF), (0x80, 0xBF), (0x80, 0xBF)]
  else if b = 0xF4 then some [(0x80, 0x8F), (0x80, 0xBF), (0x80, 0xBF)]
  else none

/-- How many bytes lie in the ranges for them. -/
def matching : List (UInt8 × UInt8) → List UInt8 → ℕ
  | (low, high) :: ranges, b :: bs => if low ≤ b ∧ b ≤ high then matching ranges bs + 1 else 0
  | _, _ => 0

/-- The character of a first byte and those that continue it. -/
def assemble (b : UInt8) (rest : List UInt8) : Char :=
  let first := if rest = [] then b.toNat else b.toNat % 2 ^ (6 - rest.length)
  .ofNat (rest.foldl (fun n c => n * 64 + c.toNat % 64) first)

/-- The characters of bytes after some that are already read. What is not a character, or not the
whole of one, gives one replacement character. -/
def lossyAfter : ℕ → List UInt8 → List Char
  | _, [] => []
  | n + 1, _ :: bs => lossyAfter n bs
  | 0, b :: bs =>
    match follows b with
    | none => '\uFFFD' :: lossyAfter 0 bs
    | some ranges =>
      let n := matching ranges bs
      let c := if n = ranges.length then assemble b (bs.take n) else '\uFFFD'
      c :: lossyAfter n bs

/-- The string of bytes, whatever they are. -/
def lossy (bs : List UInt8) : String := .ofList (lossyAfter 0 bs)

/-- Bytes of ASCII are read as they are, whatever follows. -/
theorem lossyAfter_ascii_append {bs : List UInt8} (h : ∀ b ∈ bs, b < 0x80) (rest : List UInt8) :
    lossyAfter 0 (bs ++ rest) = (bs.map fun b => .ofNat b.toNat) ++ lossyAfter 0 rest := by
  induction bs with
  | nil => rfl
  | cons b bs ih =>
    have hfollows : follows b = some [] := if_pos (h b (.head _))
    have hrest := ih fun b' hb' => h b' (.tail _ hb')
    rw [List.cons_append, lossyAfter, hfollows]
    dsimp only [matching]
    rw [hrest]
    rfl

/-- Bytes of ASCII are read as they are. -/
theorem lossyAfter_ascii {bs : List UInt8} (h : ∀ b ∈ bs, b < 0x80) :
    lossyAfter 0 bs = bs.map fun b => .ofNat b.toNat := by
  have hall := lossyAfter_ascii_append h []
  rwa [List.append_nil, lossyAfter, List.append_nil] at hall

/-- All characters are ASCII. -/
def isAscii (chars : List Char) : Bool := chars.all fun c => c.toNat < 0x80

theorem lt_of_isAscii {chars : List Char} (h : isAscii chars = true) : ∀ c ∈ chars, c.toNat < 0x80 :=
  fun c hc => of_decide_eq_true (List.all_eq_true.mp h c hc)

theorem encode_ascii {chars : List Char} (h : ∀ c ∈ chars, c.toNat < 0x80) :
    encode chars = chars.map fun c => .ofNat c.toNat := by
  induction chars with
  | nil => rfl
  | cons c chars ih =>
    have hsize : c.utf8Size = 1 := Char.utf8Size_eq_one_iff.mpr
      (UInt32.le_iff_toNat_le.mpr (Nat.le_of_lt_succ (h c (.head _))))
    rw [encode_cons, String.utf8EncodeChar_eq_singleton hsize, ih fun c hc => h c (.tail _ hc)]
    rfl

/-- Text of ASCII is read back from its encoding, whatever follows. -/
theorem lossyAfter_encode_append {chars : List Char} (h : ∀ c ∈ chars, c.toNat < 0x80)
    (rest : List UInt8) : lossyAfter 0 (encode chars ++ rest) = chars ++ lossyAfter 0 rest := by
  have hbyte : ∀ c ∈ chars, (UInt8.ofNat c.toNat).toNat = c.toNat := fun c hc =>
    Nat.mod_eq_of_lt (Nat.lt_trans (h c hc) (by decide))
  rw [encode_ascii h, lossyAfter_ascii_append, List.map_map]
  · congr 1
    calc chars.map _ = chars.map id := List.map_congr_left fun c hc => by
          rw [Function.comp_apply, hbyte c hc, Char.ofNat_toNat, id]
      _ = chars := List.map_id chars
  · intro b hb
    obtain ⟨c, hc, rfl⟩ := List.mem_map.mp hb
    apply UInt8.lt_iff_toNat_lt.mpr
    rw [hbyte c hc]
    exact h c hc

/-- Text of ASCII is read back from its encoding. -/
theorem lossyAfter_encode {chars : List Char} (h : ∀ c ∈ chars, c.toNat < 0x80) :
    lossyAfter 0 (encode chars) = chars := by
  have hall := lossyAfter_encode_append h []
  rwa [List.append_nil, lossyAfter, List.append_nil] at hall

end Utf8
