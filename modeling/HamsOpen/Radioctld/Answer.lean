import HamsOpen.Lib.Loop
import HamsOpen.Station.HttpRelay

/-!
# The answers of a web server

The answer to a request is read to the end of the connection, and its status and its body are taken
from the bytes (`upload.rs`). Where a body ends is told by its head in one of several ways, of which
only one is heeded.
-/

namespace HamsOpen.Radioctld.Answer

open Flex (Text words lowercase parseU16 parseUnsigned)
open Station.Http (firstLine trim)

/-- A slice of bytes, of which there are less than 2⁶³. -/
structure Slice where
  bytes : List UInt8
  fits : bytes.length < 2 ^ 63

/-- The first bytes of a slice. -/
def Slice.take (k : ℕ) (s : Slice) : Slice :=
  ⟨s.bytes.take k, Nat.lt_of_le_of_lt (List.length_take_le' k s.bytes) s.fits⟩

/-- What ends the program. -/
inductive Panic
  | overflow
  deriving DecidableEq

/-- The sum of two sizes. -/
def add (a b : ℕ) : Except Panic ℕ := if a + b < 2 ^ 64 then .ok (a + b) else .error .overflow

/-! ### Reading -/

def CRLF : List UInt8 := [13, 10]

/-- The status code in an HTTP response head, such as `HTTP/1.1 204 No Content`. -/
def statusCode (head : Text) : Option ℕ := ((words (firstLine head))[1]?).bind parseU16

/-- The head says that chunks are used. -/
def saysChunked (head : Text) : Bool :=
  Find.contains "transfer-encoding: chunked".toList (lowercase head)

/-- The size on the line before a chunk. -/
def chunkSize (line : List UInt8) : Option ℕ :=
  parseUnsigned 16 (2 ^ 64) (trim ((Utf8.lossy line).toList.takeWhile (· ≠ ';')))

/-- One chunk, from what was read of the body and the bytes that are left. -/
def chunk (s : List UInt8 × List UInt8) :
    (List UInt8 × List UInt8) ⊕ Except Panic (Option (List UInt8)) :=
  match Find.split CRLF s.2 with
  | none => .inr (.ok none)
  | some (line, rest) =>
    match chunkSize line with
    | none => .inr (.ok none)
    | some size =>
      if size = 0 then .inr (.ok (some s.1))
      else if rest.length < size then .inr (.ok none)
      else match add size 2 with
        | .error panic => .inr (.error panic)
        | .ok next =>
          if rest.length < next then .inr (.ok none)
          else .inl (s.1 ++ rest.take size, rest.drop next)

theorem length_of_chunk {s t : List UInt8 × List UInt8} (h : chunk s = .inl t) :
    t.1.length + t.2.length < s.1.length + s.2.length ∧ t.2.length < s.2.length := by
  unfold chunk at h
  split at h
  · cases h
  next line rest hsplit =>
    split at h
    · cases h
    next size hsize =>
      have hlength := congrArg List.length (Find.eq_of_split hsplit)
      simp only [CRLF, List.length_append, List.length_cons, List.length_nil] at hlength
      split_ifs at h with h0 hshort
      split at h
      · cases h
      next next hadd =>
        split_ifs at h with hnext
        cases h
        have hle : size ≤ rest.length := Nat.le_of_not_lt hshort
        unfold add at hadd
        split_ifs at hadd
        cases hadd
        simp only [List.length_append, List.length_take, List.length_drop]
        omega

/-- Undoes chunked transfer coding. -/
def chunks : Loop (List UInt8 × List UInt8) (Except Panic (Option (List UInt8))) where
  body := chunk
  size s := s.2.length
  shrinks h := (length_of_chunk h).2

/-- The body of a complete response read to the end of the connection. There is none when it has no
head or a broken chunk. -/
def decodeBody (response : Slice) : Except Panic (Option (ℕ × List UInt8)) :=
  match Find.split (CRLF ++ CRLF) response.bytes with
  | none => .ok none
  | some (head, raw) =>
    let head := (Utf8.lossy head).toList
    match statusCode head with
    | none => .ok none
    | some code =>
      if saysChunked head then (chunks.run ([], raw)).map fun body => body.map fun b => (code, b)
      else .ok (some (code, raw))

section Panic

/-- Bytes are never read where there are none. -/
theorem chunks_ok (s : List UInt8 × List UInt8) :
    s.2.length < 2 ^ 63 → ∃ body, chunks.run s = .ok body := by
  refine chunks.induct (P := fun s r => s.2.length < 2 ^ 63 → ∃ body, r = .ok body) ?_ ?_ s
  · intro s r h hfits
    change chunk s = _ at h
    unfold chunk at h
    split at h
    · cases h
      exact ⟨none, rfl⟩
    next line rest hsplit =>
      have hlength := congrArg List.length (Find.eq_of_split hsplit)
      rw [List.length_append, List.length_append] at hlength
      split at h
      · cases h
        exact ⟨none, rfl⟩
      next size hsize =>
        split_ifs at h with h0 hshort
        · cases h
          exact ⟨some s.1, rfl⟩
        · cases h
          exact ⟨none, rfl⟩
        · -- the size is one of bytes that are there, so two more can be added to it
          rw [add, if_pos (by omega)] at h
          dsimp only at h
          split_ifs at h
          cases h
          exact ⟨none, rfl⟩
  · intro s t r h ih hfits
    exact ih (Nat.lt_trans (length_of_chunk h).2 hfits)

/-- **Bytes are never read where there are none**, whatever the bytes are. -/
theorem decodeBody_ok (response : Slice) : ∃ out, decodeBody response = .ok out := by
  unfold decodeBody
  split
  · exact ⟨none, rfl⟩
  next head raw hsplit =>
    dsimp only
    split
    · exact ⟨none, rfl⟩
    next code hcode =>
      split_ifs
      · have hlength := congrArg List.length (Find.eq_of_split hsplit)
        have hfits := response.fits
        rw [List.length_append, List.length_append] at hlength
        obtain ⟨body, hbody⟩ := chunks_ok ([], raw) (by dsimp only; omega)
        rw [hbody]
        exact ⟨_, rfl⟩
      · exact ⟨_, rfl⟩

end Panic

/-! ### Responses -/

/-- Bytes that may stand in a line. -/
def IsLine (bytes : List UInt8) : Prop := ∀ b ∈ bytes, b ≠ 13 ∧ b ≠ 10

/-- A field of a head or a trailer. The space that may stand around its value is part of it here. -/
structure Field where
  name : List UInt8
  value : List UInt8
  isName : name ≠ [] ∧ IsLine name
  isValue : IsLine value

def Field.line (f : Field) : List UInt8 := f.name ++ 58 :: f.value

/-- The field has the name in any case, and the value in any case and with any space around it. -/
def Field.Is (name : String) (f : Field) (value : String) : Prop :=
  lowercase (Utf8.lossy f.name).toList = name.toList ∧
    lowercase (trim (Utf8.lossy f.value).toList) = value.toList

structure Head where
  code : ℕ
  isCode : 100 ≤ code ∧ code < 1000
  reason : List UInt8
  isReason : IsLine reason
  fields : List Field

/-- The line of the status. -/
def Head.status (h : Head) : List UInt8 :=
  Utf8.encode ("HTTP/1.1 ".toList ++ Nat.toDigits 10 h.code ++ [' ']) ++ h.reason

/-- The bytes of the head before the empty line. -/
def Head.bytes (h : Head) : List UInt8 := h.status ++ h.fields.flatMap fun f => CRLF ++ f.line

/-- There is a body to a status. -/
def Head.HasBody (h : Head) : Prop := ¬ h.code < 200 ∧ h.code ≠ 204 ∧ h.code ≠ 304

/-- A size in hexadecimal, and what may follow it on its line. -/
structure Size where
  digits : Text
  pad : Text
  ext : List UInt8
  value : ℕ
  reads : digits ≠ [] ∧ Flex.digits 16 digits = some value
  isPad : ∀ c ∈ pad, c = ' ' ∨ c = '\t'
  isExt : IsLine ext ∧ ∀ b ∈ ext.head?, b = 59

def Size.line (s : Size) : List UInt8 := Utf8.encode (s.digits ++ s.pad) ++ s.ext

structure Chunk where
  size : Size
  data : List UInt8
  sized : size.value = data.length ∧ data ≠ []

def Chunk.bytes (c : Chunk) : List UInt8 := c.size.line ++ CRLF ++ (c.data ++ CRLF)

/-- How a body is written. -/
inductive Body
  /-- Chunks, the last of which has no data, and a trailer. -/
  | chunked (chunks : List Chunk) (last : Size) (trailer : List Field)
  /-- As many bytes as the head says. -/
  | length (data : List UInt8)
  /-- All that comes before the end of the connection. -/
  | close (data : List UInt8)
  | empty

namespace Body

def bytes : Body → List UInt8
  | chunked chunks last trailer => chunks.flatMap Chunk.bytes ++ (last.line ++ CRLF) ++
      (trailer.flatMap (fun f => f.line ++ CRLF) ++ CRLF)
  | length data | close data => data
  | empty => []

/-- The bytes up to where the body is announced to end: a body in chunks does so with the line of
the last one. -/
def announced : Body → List UInt8
  | chunked chunks last _ => chunks.flatMap Chunk.bytes ++ (last.line ++ CRLF)
  | length data => data
  | close _ | empty => []

def content : Body → List UInt8
  | chunked chunks _ _ => chunks.flatMap Chunk.data
  | length data | close data => data
  | empty => []

def IsChunked : Body → Prop
  | chunked .. => True
  | _ => False

/-- The body is written as the head says. -/
def Framed (h : Head) : Body → Prop
  | chunked _ last _ => h.HasBody ∧ last.value = 0 ∧
      ∃ f ∈ h.fields, f.Is "transfer-encoding" "chunked"
  | length data => h.HasBody ∧
      (∀ f ∈ h.fields, ∀ value, ¬ f.Is "transfer-encoding" value) ∧
      ∃ f ∈ h.fields, ∃ digits, f.Is "content-length" digits ∧
        parseUnsigned 10 (2 ^ 64) digits.toList = some data.length
  | close _ => h.HasBody ∧ ∀ f ∈ h.fields, ∀ value,
      ¬ f.Is "transfer-encoding" value ∧ ¬ f.Is "content-length" value
  | empty => ¬ h.HasBody

end Body

/-- A response as it has to be written. -/
structure Response where
  head : Head
  body : Body
  framed : body.Framed head
  fits : (head.bytes ++ (CRLF ++ CRLF) ++ body.bytes).length < 2 ^ 63

namespace Response

def slice (r : Response) : Slice := ⟨r.head.bytes ++ (CRLF ++ CRLF) ++ r.body.bytes, r.fits⟩

/-- Where the response was announced to end. -/
def stops (r : Response) : ℕ := r.head.bytes.length + 4 + r.body.announced.length

end Response

/-- The response is read as it is meant, and no response is read when it was cut short. -/
def Served (r : Response) : Prop :=
  decodeBody r.slice = .ok (some (r.head.code, r.body.content)) ∧
    ∀ k < r.stops, decodeBody (r.slice.take k) = .ok none

/-! ### The text of a head -/

section Text

variable {a b t : Text}

/-- The first line of a text that begins in the middle of it. -/
theorem firstLine_append (hline : '\n' ∉ a) (hlast : a.getLast? = some ' ') (t : Text) :
    ∃ rest, firstLine (a ++ t) = a ++ rest := by
  unfold firstLine
  rw [Find.split_append_of_not_mem hline]
  cases Find.split ['\n'] t with
  | none => exact ⟨t, rfl⟩
  | some r =>
    dsimp only [Option.map_some]
    by_cases hnil : r.1 = []
    · rw [hnil, List.append_nil, hlast, if_neg (by decide)]
      exact ⟨[], (List.append_nil a).symm⟩
    · split_ifs
      · exact ⟨r.1.dropLast, List.dropLast_append_of_ne_nil hnil⟩
      · exact ⟨r.1, rfl⟩

/-- A word is read up to the space after it. -/
theorem wordsFrom_word (ha : ∀ c ∈ a, Flex.isSpace c = false) (hb : b ++ a ≠ []) :
    Flex.wordsFrom b (a ++ ' ' :: t) = (b ++ a) :: Flex.wordsFrom [] t := by
  induction a generalizing b with
  | nil =>
    rw [List.append_nil] at hb ⊢
    change (if b = [] then _ else _) = _
    rw [if_neg hb]
  | cons c a ih =>
    have hspace := ha c (.head _)
    change (if Flex.isSpace c = true then _ else Flex.wordsFrom (b ++ [c]) (a ++ ' ' :: t)) = _
    rw [hspace, if_neg (by decide), ih (fun c' hc' => ha c' (.tail _ hc')) (by simp)]
    simp

theorem bounds_of_isDigit {c : Char} (h : c.isDigit = true) : 48 ≤ c.toNat ∧ c.toNat ≤ 57 := by
  unfold Char.isDigit at h
  rw [Bool.and_eq_true, decide_eq_true_eq, decide_eq_true_eq] at h
  exact ⟨UInt32.le_iff_toNat_le.mp h.1, UInt32.le_iff_toNat_le.mp h.2⟩

theorem digit_of_isDigit {c : Char} (h : c.isDigit = true) :
    Flex.digit 10 c = some (c.toNat - '0'.toNat) := by
  have hbounds := bounds_of_isDigit h
  have hdigit : Flex.isDigit c = true := by
    unfold Flex.isDigit
    rw [Bool.and_eq_true, decide_eq_true_eq, decide_eq_true_eq]
    exact hbounds
  unfold Flex.digit
  dsimp only
  rw [if_pos hdigit]
  exact if_pos (by change c.toNat - 48 < 10; omega)

/-- Digits are read as the number that they write. -/
theorem digits_of_isDigit {text : Text} (h : ∀ c ∈ text, c.isDigit = true) :
    Flex.digits 10 text = some (Nat.ofDigitChars 10 text 0) := by
  have hall : ∀ n : ℕ, text.foldlM (fun n c => (Flex.digit 10 c).map (n * 10 + ·)) n =
      some (Nat.ofDigitChars 10 text n) := by
    induction text with
    | nil => exact fun _ => rfl
    | cons c text ih =>
      intro n
      rw [List.foldlM_cons, digit_of_isDigit (h c (.head _)), Nat.ofDigitChars_cons,
        Nat.mul_comm 10 n]
      exact ih (fun d hd => h d (.tail _ hd)) _
  exact hall 0

/-- The digits of a status code. -/
theorem code_digits (n : Fin 1000) : parseU16 (Nat.toDigits 10 n) = some n.val ∧
    (Nat.toDigits 10 n).all (fun c => !Flex.isSpace c && c.toNat < 0x80 && c ≠ '\n') = true := by
  have hdigits : ∀ c ∈ Nat.toDigits 10 n, c.isDigit = true :=
    fun c => Nat.isDigit_of_mem_toDigits (by decide) (by decide)
  have hbounds : ∀ c ∈ Nat.toDigits 10 n, 48 ≤ c.toNat ∧ c.toNat ≤ 57 :=
    fun c hc => bounds_of_isDigit (hdigits c hc)
  constructor
  · have hplus : Flex.stripPrefix ['+'] (Nat.toDigits 10 n) = none := by
      refine if_neg fun hpre => ?_
      have hle := (hbounds '+' (hpre.subset (.head _))).1
      exact absurd hle (by decide)
    unfold parseU16 parseUnsigned
    dsimp only
    rw [hplus, Option.getD_none, if_neg Nat.toDigits_ne_nil, digits_of_isDigit hdigits,
      Nat.ofDigitChars_ten_toDigits, Option.filter_some, if_pos (decide_eq_true (by omega))]
  · apply List.all_eq_true.mpr
    intro c hc
    have hc := hbounds c hc
    have hspace : Flex.isSpace c = false := by
      simp only [Flex.isSpace, List.mem_cons, List.not_mem_nil, or_false, Bool.or_eq_false_iff,
        Bool.and_eq_false_iff, decide_eq_false_iff_not]
      omega
    have hline : c ≠ '\n' := by
      rintro rfl
      exact absurd hc.1 (by decide)
    rw [hspace, decide_eq_true (show c.toNat < 0x80 by omega), decide_eq_true hline]
    rfl

/-- The status code of a head is read, whatever follows its line. -/
theorem statusCode_status {n : ℕ} (h : n < 1000) (t : Text) :
    statusCode ("HTTP/1.1 ".toList ++ Nat.toDigits 10 n ++ [' '] ++ t) = some n := by
  obtain ⟨hparse, hall⟩ := code_digits ⟨n, h⟩
  dsimp only at hparse hall
  have hchar : ∀ c ∈ Nat.toDigits 10 n, Flex.isSpace c = false ∧ c ≠ '\n' := by
    intro c hc
    have hc := List.all_eq_true.mp hall c hc
    simp only [Bool.and_eq_true, Bool.not_eq_eq_eq_not, Bool.not_true, decide_eq_true_eq] at hc
    exact ⟨hc.1.1, hc.2⟩
  have hline : '\n' ∉ "HTTP/1.1 ".toList ++ Nat.toDigits 10 n ++ [' '] := by
    simp only [List.mem_append, not_or]
    exact ⟨⟨by decide, fun hmem => (hchar '\n' hmem).2 rfl⟩, by decide⟩
  obtain ⟨rest, hrest⟩ := firstLine_append hline List.getLast?_concat t
  have hwords : words ("HTTP/1.1 ".toList ++ Nat.toDigits 10 n ++ [' '] ++ rest) =
      "HTTP/1.1".toList :: Nat.toDigits 10 n :: Flex.wordsFrom [] rest := by
    have hspace : ("HTTP/1.1".toList.all fun c => !Flex.isSpace c) = true := by decide
    have hversion := wordsFrom_word (a := "HTTP/1.1".toList) (b := [])
      (t := Nat.toDigits 10 n ++ ' ' :: rest)
      (fun c hc => (Bool.not_eq_eq_eq_not.mp (List.all_eq_true.mp hspace c hc))) (by decide)
    have hcode := wordsFrom_word (b := []) (t := rest) (fun c hc => (hchar c hc).1)
      Nat.toDigits_ne_nil
    calc words ("HTTP/1.1 ".toList ++ Nat.toDigits 10 n ++ [' '] ++ rest)
        = words ("HTTP/1.1".toList ++ ' ' :: (Nat.toDigits 10 n ++ ' ' :: rest)) := by simp
      _ = _ := hversion
      _ = _ := by rw [hcode]; rfl
  rw [statusCode, hrest, hwords]
  exact hparse

end Text

/-! ### The line before a chunk -/

/-- The character may stand in a size. -/
def IsHex (c : Char) : Prop :=
  48 ≤ c.toNat ∧ c.toNat ≤ 57 ∨ 65 ≤ c.toNat ∧ c.toNat ≤ 90 ∨ 97 ≤ c.toNat ∧ c.toNat ≤ 122

theorem isHex_of_digit {c : Char} {d : ℕ} (h : Flex.digit 16 c = some d) : IsHex c := by
  unfold Flex.digit at h
  dsimp only at h
  by_cases hdigit : Flex.isDigit c = true
  · simp only [Flex.isDigit, Bool.and_eq_true, decide_eq_true_eq] at hdigit
    exact .inl hdigit
  by_cases hlower : 'a' ≤ c ∧ c ≤ 'z'
  · exact .inr (.inr hlower)
  by_cases hupper : 'A' ≤ c ∧ c ≤ 'Z'
  · exact .inr (.inl hupper)
  rw [if_neg hdigit, if_neg hlower, if_neg hupper] at h
  cases h

theorem IsHex.isSpace {c : Char} (h : IsHex c) : Flex.isSpace c = false := by
  unfold IsHex at h
  simp only [Flex.isSpace, List.mem_cons, List.not_mem_nil, or_false, Bool.or_eq_false_iff,
    Bool.and_eq_false_iff, decide_eq_false_iff_not]
  omega

theorem isHex_of_digits {text : Text} {n : ℕ} (h : Flex.digits 16 text = some n) :
    ∀ c ∈ text, IsHex c := by
  have hall : ∀ m : ℕ, text.foldlM (fun n c => (Flex.digit 16 c).map (n * 16 + ·)) m = some n →
      ∀ c ∈ text, IsHex c := by
    clear h
    induction text with
    | nil => exact fun _ _ => nofun
    | cons c text ih =>
      intro m hm
      rw [List.foldlM_cons, Option.bind_eq_bind, Option.bind_eq_some_iff] at hm
      obtain ⟨k, hk, hrest⟩ := hm
      obtain ⟨d, hd, -⟩ := Option.map_eq_some_iff.mp hk
      exact List.forall_mem_cons.mpr ⟨isHex_of_digit hd, ih k hrest⟩
  exact hall 0 h

namespace Size

variable (s : Size)

theorem isHex : ∀ c ∈ s.digits, IsHex c := isHex_of_digits s.reads.2

theorem ascii : ∀ c ∈ s.digits ++ s.pad, c.toNat < 0x80 := by
  intro c hc
  obtain hc | hc := List.mem_append.mp hc
  · have hhex := s.isHex c hc
    unfold IsHex at hhex
    omega
  · obtain rfl | rfl := s.isPad c hc <;> decide

/-- The line of a size has no end of a line in it. -/
theorem not_mem_line : 13 ∉ s.line := by
  rw [line, List.mem_append, not_or]
  refine ⟨?_, fun h => (s.isExt.1 13 h).1 rfl⟩
  rw [Utf8.encode_ascii s.ascii]
  intro h
  obtain ⟨c, hc, hbyte⟩ := List.mem_map.mp h
  have hascii := s.ascii c hc
  have hnat : c.toNat = 13 := by
    have hmod := congrArg UInt8.toNat hbyte
    change c.toNat % 256 = 13 at hmod
    omega
  obtain hc | hc := List.mem_append.mp hc
  · have hhex := s.isHex c hc
    unfold IsHex at hhex
    omega
  · obtain rfl | rfl := s.isPad c hc <;> exact absurd hnat (by decide)

/-- What is left of the line of a size without what follows the size. -/
theorem takeWhile_line :
    (Utf8.lossy s.line).toList.takeWhile (· ≠ ';') = s.digits ++ s.pad := by
  have hclear : ∀ c ∈ s.digits ++ s.pad, decide (c ≠ ';') = true := by
    intro c hc
    apply decide_eq_true
    rintro rfl
    obtain hc | hc := List.mem_append.mp hc
    · have hhex := s.isHex ';' hc
      unfold IsHex at hhex
      revert hhex
      decide
    · obtain h | h := s.isPad ';' hc <;> exact absurd h (by decide)
  rw [Utf8.lossy, String.toList_ofList, line, Utf8.lossyAfter_encode_append s.ascii,
    List.takeWhile_append_of_pos hclear]
  cases hext : s.ext with
  | nil => rw [Utf8.lossyAfter, List.takeWhile_nil, List.append_nil]
  | cons b ext =>
    have hb : b = 59 := s.isExt.2 b (by rw [hext]; rfl)
    have hascii : ∀ b' ∈ [b], b' < 0x80 := by
      intro b' hb'
      rw [List.mem_singleton.mp hb', hb]
      decide
    have hhead := Utf8.lossyAfter_ascii_append hascii ext
    rw [List.singleton_append] at hhead
    rw [hhead, hb]
    exact List.append_nil _

theorem trim_line : trim (s.digits ++ s.pad) = s.digits := by
  have hpad : ∀ c ∈ s.pad, Flex.isSpace c = true := by
    intro c hc
    obtain rfl | rfl := s.isPad c hc <;> decide
  have hhead : (s.digits ++ s.pad).dropWhile Flex.isSpace = s.digits ++ s.pad := by
    obtain ⟨c, digits, hcons⟩ := List.exists_cons_of_ne_nil s.reads.1
    have hc : Flex.isSpace c = false := (s.isHex c (by rw [hcons]; exact .head _)).isSpace
    rw [hcons, List.cons_append, List.dropWhile_cons_of_neg (by rw [hc]; decide)]
  have hlast : Flex.isSpace (s.digits.getLast s.reads.1) = false :=
    (s.isHex _ (List.getLast_mem s.reads.1)).isSpace
  have hdrop : (s.digits ++ s.pad).rdropWhile Flex.isSpace = s.digits.rdropWhile Flex.isSpace := by
    rw [List.rdropWhile, List.reverse_append, List.dropWhile_append_of_pos]
    · rfl
    · exact fun c hc => hpad c (List.mem_reverse.mp hc)
  rw [trim, hhead, hdrop, List.rdropWhile_eq_self_iff]
  intro _
  rw [hlast]
  decide

/-- The size is read from its line, when it is one that a number can have. -/
theorem chunkSize_line : chunkSize s.line = if s.value < 2 ^ 64 then some s.value else none := by
  have hsign : Flex.stripPrefix ['+'] s.digits = none := by
    apply if_neg
    rintro ⟨digits, hdigits⟩
    have hhex := s.isHex '+' (by rw [← hdigits]; exact .head _)
    unfold IsHex at hhex
    revert hhex
    decide
  rw [chunkSize, takeWhile_line, trim_line, parseUnsigned, hsign]
  dsimp only [Option.getD_none]
  rw [if_neg s.reads.1, s.reads.2, Option.filter_some]
  simp only [decide_eq_true_eq]

end Size

/-! ### Chunks -/

section Chunks

variable {acc body rest : List UInt8}

/-- The line of a size is found in what it begins. -/
theorem split_line (s : Size) (rest : List UInt8) :
    Find.split CRLF (s.line ++ CRLF ++ rest) = some (s.line, rest) :=
  Find.split_first (by decide) (Find.not_infix_of_not_mem s.not_mem_line)

theorem split_line_take (s : Size) (rest : List UInt8) {k : ℕ} (h : k < s.line.length + 2) :
    Find.split CRLF ((s.line ++ CRLF ++ rest).take k) = none :=
  Find.split_take (by decide) (Find.not_infix_of_not_mem s.not_mem_line) h

/-- A chunk is read, and what follows it is left. -/
theorem run_chunk (c : Chunk) (hfits : c.data.length + 2 < 2 ^ 64) (acc rest : List UInt8) :
    chunks.run (acc, c.bytes ++ rest) = chunks.run (acc ++ c.data, rest) := by
  apply Loop.run_of_next
  change chunk _ = _
  have hsplit : Find.split CRLF (c.bytes ++ rest) =
      some (c.size.line, c.data ++ CRLF ++ rest) := by
    rw [Chunk.bytes, List.append_assoc]
    exact split_line c.size _
  have hsize : chunkSize c.size.line = some c.data.length := by
    rw [c.size.chunkSize_line, c.sized.1, if_pos (by omega)]
  have hpos : c.data.length ≠ 0 := fun h => c.sized.2 (List.length_eq_zero_iff.mp h)
  have hlength : (c.data ++ CRLF ++ rest).length = c.data.length + 2 + rest.length := by
    rw [List.length_append, List.length_append]
    rfl
  have hdrop : (c.data ++ CRLF ++ rest).drop (c.data.length + 2) = rest :=
    List.drop_left' (by rw [List.length_append]; rfl)
  rw [chunk]
  dsimp only
  rw [hsplit]
  dsimp only
  rw [hsize]
  dsimp only
  rw [if_neg hpos, if_neg (by omega), add, if_pos hfits]
  dsimp only
  rw [if_neg (by omega), hdrop, List.append_assoc, List.take_left]

/-- The last chunk ends the body, whatever follows its line. -/
theorem run_last {last : Size} (hlast : last.value = 0) (acc rest : List UInt8) :
    chunks.run (acc, last.line ++ CRLF ++ rest) = .ok (some acc) := by
  apply Loop.run_of_break
  change chunk _ = _
  rw [chunk]
  dsimp only
  rw [split_line]
  dsimp only
  rw [last.chunkSize_line, hlast]
  rfl

/-- Chunks are read, up to the last one. -/
theorem run_chunks {last : Size} (hlast : last.value = 0) (cs : List Chunk)
    (hfits : (cs.flatMap Chunk.data).length + 2 < 2 ^ 64) (acc rest : List UInt8) :
    chunks.run (acc, cs.flatMap Chunk.bytes ++ (last.line ++ CRLF) ++ rest) =
      .ok (some (acc ++ cs.flatMap Chunk.data)) := by
  induction cs generalizing acc with
  | nil =>
    rw [List.flatMap_nil, List.flatMap_nil, List.nil_append, List.append_nil]
    exact run_last hlast acc rest
  | cons c cs ih =>
    rw [List.flatMap_cons, List.length_append] at hfits
    have hwhole : (c :: cs).flatMap Chunk.bytes ++ (last.line ++ CRLF) ++ rest =
        c.bytes ++ (cs.flatMap Chunk.bytes ++ (last.line ++ CRLF) ++ rest) := by
      simp only [List.flatMap_cons, List.append_assoc]
    rw [hwhole, run_chunk c (by omega), ih (by omega), List.flatMap_cons, List.append_assoc]

/-- A chunk of which the line has been read, but not all of the data and what ends it. -/
theorem chunk_short (s : Size) (hpos : 0 < s.value) (acc : List UInt8)
    (h : rest.length < s.value + 2) (hfits : rest.length < 2 ^ 63) :
    chunk (acc, s.line ++ CRLF ++ rest) = .inr (.ok none) := by
  rw [chunk]
  dsimp only
  rw [split_line]
  dsimp only
  rw [s.chunkSize_line]
  by_cases hsize : s.value < 2 ^ 64
  · rw [if_pos hsize]
    dsimp only
    rw [if_neg (by omega)]
    by_cases hshort : rest.length < s.value
    · rw [if_pos hshort]
    · rw [if_neg hshort, add, if_pos (by omega)]
      dsimp only
      rw [if_pos h]
  · rw [if_neg hsize]

/-- No body is read of chunks that are cut off before the end of the last one's line. -/
theorem run_cut (last : Size) (cs : List Chunk) {k : ℕ} (hfits : k < 2 ^ 63)
    (hk : k < (cs.flatMap Chunk.bytes ++ (last.line ++ CRLF)).length) (acc : List UInt8) :
    chunks.run (acc, (cs.flatMap Chunk.bytes ++ (last.line ++ CRLF)).take k) = .ok none := by
  induction cs generalizing acc k with
  | nil =>
    rw [List.flatMap_nil, List.nil_append, List.length_append] at hk
    have hcut := split_line_take last [] hk
    rw [List.append_nil] at hcut
    apply Loop.run_of_break
    change chunk _ = _
    rw [chunk, List.flatMap_nil, List.nil_append]
    dsimp only
    rw [hcut]
  | cons c cs ih =>
    have hpos : 0 < c.data.length := List.length_pos_of_ne_nil c.sized.2
    obtain ⟨more, hmore⟩ : ∃ more, more = cs.flatMap Chunk.bytes ++ (last.line ++ CRLF) := ⟨_, rfl⟩
    have hwhole : (c :: cs).flatMap Chunk.bytes ++ (last.line ++ CRLF) =
        c.size.line ++ CRLF ++ (c.data ++ CRLF ++ more) := by
      rw [hmore]
      simp only [List.flatMap_cons, Chunk.bytes, List.append_assoc]
    rw [hwhole] at hk ⊢
    simp only [List.length_append, show CRLF.length = 2 from rfl] at hk
    by_cases hline : k < c.size.line.length + 2
    · apply Loop.run_of_break
      change chunk _ = _
      rw [chunk]
      dsimp only
      rw [split_line_take c.size _ hline]
    obtain ⟨j, rfl⟩ : ∃ j, k = c.size.line.length + 2 + j :=
      ⟨k - (c.size.line.length + 2), by omega⟩
    have hcut : (c.size.line ++ CRLF ++ (c.data ++ CRLF ++ more)).take
        (c.size.line.length + 2 + j) =
        c.size.line ++ CRLF ++ (c.data ++ CRLF ++ more).take j := by
      rw [show c.size.line.length + 2 = (c.size.line ++ CRLF).length from by
        rw [List.length_append]; rfl, List.take_length_add_append]
    rw [hcut]
    by_cases hdata : j < c.data.length + 2
    · apply Loop.run_of_break
      apply chunk_short
      · rw [c.sized.1]
        exact hpos
      · rw [List.length_take, c.sized.1]
        omega
      · rw [List.length_take]
        omega
    obtain ⟨i, rfl⟩ : ∃ i, j = c.data.length + 2 + i := ⟨j - (c.data.length + 2), by omega⟩
    have hrest : (c.data ++ CRLF ++ more).take (c.data.length + 2 + i) =
        c.data ++ CRLF ++ more.take i := by
      rw [show c.data.length + 2 = (c.data ++ CRLF).length from by
        rw [List.length_append]; rfl, List.take_length_add_append]
    have hbytes : c.size.line ++ CRLF ++ (c.data ++ CRLF ++ more.take i) =
        c.bytes ++ more.take i := by
      rw [Chunk.bytes]
      simp only [List.append_assoc]
    rw [hrest, hbytes, run_chunk c (by omega), hmore]
    apply ih (by omega)
    rw [← hmore]
    omega

/-- What is read of chunks is less than what it is read of. -/
theorem length_run (s : List UInt8 × List UInt8) : ∀ body, chunks.run s = .ok (some body) →
    body.length < s.1.length + s.2.length := by
  refine chunks.induct (P := fun s r => ∀ body, r = .ok (some body) →
    body.length < s.1.length + s.2.length) ?_ ?_ s
  · intro s r h body hr
    change chunk s = _ at h
    subst hr
    unfold chunk at h
    split at h
    · cases h
    next line rest hsplit =>
      have hlength := congrArg List.length (Find.eq_of_split hsplit)
      rw [List.length_append, List.length_append, show CRLF.length = 2 from rfl] at hlength
      split at h
      · cases h
      next size hsize =>
        split_ifs at h with h0 hshort
        · cases h
          omega
        · cases h
        · split at h
          · cases h
          · split_ifs at h
            cases h
  · intro s t r h ih body hr
    exact Nat.lt_trans (ih body hr) (length_of_chunk h).1

end Chunks

/-! ### Heads -/

/-- No empty line comes before the end of lines that have none of their own. -/
theorem lines_clear {line : List UInt8} (lines : List (List UInt8)) (hline : 13 ∉ line)
    (hlines : ∀ l ∈ lines, 13 ∉ l ∧ l ≠ []) :
    ¬ CRLF ++ CRLF <:+: line ++ (lines.flatMap (CRLF ++ ·) ++ [13, 10, 13]) := by
  induction lines generalizing line with
  | nil =>
    change ¬ 13 :: [10, 13, 10] <:+: _
    rw [Find.infix_append_iff hline]
    decide
  | cons l lines ih =>
    obtain ⟨hl, hne⟩ := hlines l (.head _)
    have hrest := ih hl fun l hl => hlines l (.tail _ hl)
    rw [List.flatMap_cons, List.append_assoc, List.append_assoc]
    change ¬ 13 :: [10, 13, 10] <:+: _
    rw [Find.infix_append_iff hline]
    change ¬ 13 :: [10, 13, 10] <:+: 13 :: 10 :: _
    rw [List.infix_cons_iff, List.infix_cons_iff]
    rintro (h | h | h)
    · -- a line would have to be empty
      obtain ⟨b, l, rfl⟩ := List.exists_cons_of_ne_nil hne
      have htail := (List.cons_prefix_cons.mp (List.cons_prefix_cons.mp h).2).2
      obtain ⟨rfl, -⟩ := List.cons_prefix_cons.mp htail
      exact hl (.head _)
    · exact absurd (List.cons_prefix_cons.mp h).1 (by decide)
    · exact hrest h

theorem Field.line_clear (f : Field) : 13 ∉ f.line ∧ f.line ≠ [] := by
  rw [Field.line]
  refine ⟨?_, by simp⟩
  rw [List.mem_append, List.mem_cons]
  rintro (h | h | h)
  · exact (f.isName.2 13 h).1 rfl
  · exact absurd h (by decide)
  · exact (f.isValue 13 h).1 rfl

namespace Head

variable (h : Head)

/-- The text that the head begins with. -/
theorem code_ascii : ∀ c ∈ "HTTP/1.1 ".toList ++ Nat.toDigits 10 h.code ++ [' '],
    c.toNat < 0x80 ∧ c.toNat ≠ 13 := by
  obtain ⟨-, hall⟩ := code_digits ⟨h.code, h.isCode.2⟩
  intro c hc
  simp only [List.mem_append] at hc
  obtain (hc | hc) | hc := hc
  · have hversion : ("HTTP/1.1 ".toList.all fun c => c.toNat < 0x80 && c.toNat ≠ 13) = true := by
      decide
    have hc' := List.all_eq_true.mp hversion c hc
    rwa [Bool.and_eq_true, decide_eq_true_eq, decide_eq_true_eq] at hc'
  · have hc' := List.all_eq_true.mp hall c hc
    simp only [Bool.and_eq_true, Bool.not_eq_eq_eq_not, Bool.not_true, decide_eq_true_eq] at hc'
    refine ⟨hc'.1.2, fun h13 => ?_⟩
    rw [Char.toNat_inj.mp (h13.trans (show 13 = '\r'.toNat from rfl))] at hc'
    exact absurd hc'.1.1 (by decide)
  · rw [List.mem_singleton.mp hc]
    decide

theorem status_clear : 13 ∉ h.status := by
  rw [status, List.mem_append, not_or]
  refine ⟨?_, fun hmem => (h.isReason 13 hmem).1 rfl⟩
  rw [Utf8.encode_ascii fun c hc => (h.code_ascii c hc).1]
  intro hmem
  obtain ⟨c, hc, hbyte⟩ := List.mem_map.mp hmem
  obtain ⟨hlt, hne⟩ := h.code_ascii c hc
  have hmod := congrArg UInt8.toNat hbyte
  change c.toNat % 256 = 13 at hmod
  omega

theorem bytes_clear : ¬ CRLF ++ CRLF <:+: h.bytes ++ (CRLF ++ CRLF).dropLast := by
  have hlines := lines_clear (h.fields.map Field.line) h.status_clear
    fun l hl => by
      obtain ⟨f, -, rfl⟩ := List.mem_map.mp hl
      exact f.line_clear
  rw [List.flatMap_map] at hlines
  rw [bytes, List.append_assoc]
  exact hlines

/-- The text of the head. -/
def text : Text := (Utf8.lossy h.bytes).toList

/-- The status of the head is read. -/
theorem statusCode_text : statusCode h.text = some h.code := by
  have htext : h.text = "HTTP/1.1 ".toList ++ Nat.toDigits 10 h.code ++ [' '] ++
      Utf8.lossyAfter 0 (h.reason ++ h.fields.flatMap fun f => CRLF ++ f.line) := by
    rw [text, Utf8.lossy, String.toList_ofList, bytes, status, List.append_assoc,
      Utf8.lossyAfter_encode_append fun c hc => (h.code_ascii c hc).1]
  rw [htext]
  exact statusCode_status h.isCode.2 _

end Head

/-- What is made of the bytes after a head. -/
theorem decodeBody_head {response : Slice} (h : Head) {raw : List UInt8}
    (hbytes : response.bytes = h.bytes ++ (CRLF ++ CRLF) ++ raw) :
    decodeBody response =
      if saysChunked h.text then
        (chunks.run ([], raw)).map fun body => body.map fun b => (h.code, b)
      else .ok (some (h.code, raw)) := by
  have hsplit : Find.split (CRLF ++ CRLF) response.bytes = some (h.bytes, raw) := by
    rw [hbytes]
    exact Find.split_first (by decide) h.bytes_clear
  have hcode : statusCode (Utf8.lossy h.bytes).toList = some h.code := h.statusCode_text
  rw [decodeBody, hsplit]
  dsimp only
  rw [hcode]
  rfl

/-! ### Which responses are served -/

namespace Response

variable (r : Response)

theorem decodeBody_slice : decodeBody r.slice =
    if saysChunked r.head.text then
      (chunks.run ([], r.body.bytes)).map fun body => body.map fun b => (r.head.code, b)
    else .ok (some (r.head.code, r.body.bytes)) :=
  decodeBody_head r.head rfl

/-- Nothing is read of a response that is cut off in its head. -/
theorem decodeBody_take_head {k : ℕ} (hk : k < r.head.bytes.length + 4) :
    decodeBody (r.slice.take k) = .ok none := by
  have hsplit : Find.split (CRLF ++ CRLF) (r.slice.take k).bytes = none :=
    Find.split_take (by decide) r.head.bytes_clear hk
  rw [decodeBody, hsplit]

/-- What is left of the body of a response that is cut off after its head. -/
theorem take_slice (j : ℕ) : (r.slice.take (r.head.bytes.length + 4 + j)).bytes =
    r.head.bytes ++ (CRLF ++ CRLF) ++ r.body.bytes.take j := by
  change (r.head.bytes ++ (CRLF ++ CRLF) ++ r.body.bytes).take _ = _
  rw [show r.head.bytes.length + 4 = (r.head.bytes ++ (CRLF ++ CRLF)).length from by
    rw [List.length_append]; rfl, List.take_length_add_append]

theorem length_body : r.body.bytes.length < 2 ^ 63 := by
  have hfits := r.fits
  rw [List.length_append] at hfits
  omega

end Response

/-- The data of chunks is shorter than the chunks. -/
theorem length_data (cs : List Chunk) :
    (cs.flatMap Chunk.data).length ≤ (cs.flatMap Chunk.bytes).length := by
  induction cs with
  | nil => rfl
  | cons c cs ih =>
    simp only [List.flatMap_cons, Chunk.bytes, List.length_append]
    omega

/-- A body in chunks is longer than what is in it. -/
theorem length_content {body : Body} (h : body.IsChunked) :
    body.content.length < body.bytes.length := by
  cases body with
  | chunked cs last trailer =>
    have hdata := length_data cs
    rw [Body.content, Body.bytes]
    simp only [List.length_append, show CRLF.length = 2 from rfl]
    omega
  | length _ | close _ | empty => exact h.elim

/-- What is in a body that is not in chunks is the body. -/
theorem content_eq {body : Body} (h : ¬ body.IsChunked) : body.content = body.bytes := by
  cases body with
  | chunked _ _ _ => exact absurd trivial h
  | length _ | close _ | empty => rfl

/-- The head announces bytes by their number. -/
def Body.IsCounted : Body → Prop
  | length data => data ≠ []
  | _ => False

/-- A response is read as it is meant when its head says that chunks are used, as it is read,
exactly if they are. -/
theorem decodeBody_whole (r : Response) :
    decodeBody r.slice = .ok (some (r.head.code, r.body.content)) ↔
      (saysChunked r.head.text = true ↔ r.body.IsChunked) := by
  rw [r.decodeBody_slice]
  by_cases hstated : saysChunked r.head.text = true
  · rw [if_pos hstated]
    constructor
    · intro h
      refine iff_of_true hstated (Classical.byContradiction fun hplain => ?_)
      cases hrun : chunks.run ([], r.body.bytes) with
      | error panic =>
        rw [hrun] at h
        cases h
      | ok body =>
        rw [hrun] at h
        obtain ⟨b, hb, heq⟩ := Option.map_eq_some_iff.mp (Except.ok.inj h)
        -- chunks would have to be as long as what is in them
        have hshort := length_run _ b (by rw [hrun, hb])
        rw [(Prod.mk.inj heq).2, content_eq hplain] at hshort
        dsimp only [List.length_nil] at hshort
        omega
    · intro h
      have hchunked := h.mp hstated
      have hfits := r.length_body
      have hframed := r.framed
      have hlength := length_content hchunked
      cases hbody : r.body with
      | chunked cs last trailer =>
        rw [hbody] at hfits hframed hlength
        rw [Body.content] at hlength
        have hrun := run_chunks hframed.2.1 cs (by omega) []
          (trailer.flatMap (fun f => f.line ++ CRLF) ++ CRLF)
        rw [Body.bytes, hrun]
        rfl
      | length _ | close _ | empty =>
        rw [hbody] at hchunked
        exact hchunked.elim
  · rw [if_neg hstated]
    constructor
    · intro h
      refine iff_of_false hstated fun hchunked => ?_
      have hlength := length_content hchunked
      rw [(Prod.mk.inj (Option.some.inj (Except.ok.inj h))).2] at hlength
      omega
    · intro h
      rw [content_eq fun hchunked => hstated (h.mpr hchunked)]

/-- Nothing is read of a response that is cut short, when its head is right about chunks and does
not announce bytes by their number. -/
theorem decodeBody_cut {r : Response} (hstated : saysChunked r.head.text = true ↔ r.body.IsChunked)
    (hcounted : ¬ r.body.IsCounted) {k : ℕ} (hk : k < r.stops) :
    decodeBody (r.slice.take k) = .ok none := by
  by_cases hhead : k < r.head.bytes.length + 4
  · exact r.decodeBody_take_head hhead
  obtain ⟨j, rfl⟩ : ∃ j, k = r.head.bytes.length + 4 + j :=
    ⟨k - (r.head.bytes.length + 4), by omega⟩
  have hj : j < r.body.announced.length := Nat.lt_of_add_lt_add_left hk
  have hfits := r.length_body
  have htake := r.take_slice j
  cases hbody : r.body with
  | chunked cs last trailer =>
    rw [hbody] at hj hfits hstated htake
    rw [Body.announced] at hj
    rw [Body.bytes, List.length_append] at hfits
    rw [Body.bytes, List.take_append_of_le_length (Nat.le_of_lt hj)] at htake
    rw [decodeBody_head r.head htake, if_pos (hstated.mpr trivial), run_cut last cs (by omega) hj]
    rfl
  | length data =>
    rw [hbody] at hj hcounted
    exact absurd (List.ne_nil_of_length_pos (Nat.zero_lt_of_lt hj)) hcounted
  | close _ | empty =>
    rw [hbody] at hj
    exact absurd hj (Nat.not_lt_zero j)

/-- A size of one digit. -/
def oneDigit (c : Char) (n : ℕ) (h : Flex.digits 16 [c] = some n) : Size :=
  ⟨[c], [], [], n, ⟨List.cons_ne_nil c [], h⟩, nofun, nofun, nofun⟩

/-- The field that says that chunks are used, without a space before its value. -/
def unspaced : Field where
  name := Utf8.encode "Transfer-Encoding".toList
  value := Utf8.encode "chunked".toList
  isName := by
    unfold IsLine
    decide +kernel
  isValue := by
    unfold IsLine
    decide +kernel

/-- A response of one chunk, whose head has that field. -/
def unspacedHead : Head where
  code := 200
  isCode := by decide
  reason := Utf8.encode "OK".toList
  isReason := by
    unfold IsLine
    decide +kernel
  fields := [unspaced]

def oneChunk : Body :=
  .chunked [⟨oneDigit '1' 1 rfl, [97], by decide⟩] (oneDigit '0' 0 rfl) []

theorem unspaced_is : unspaced.Is "transfer-encoding" "chunked" := by
  unfold Field.Is Utf8.lossy
  rw [String.toList_ofList, String.toList_ofList, unspaced,
    Utf8.lossyAfter_encode (Utf8.lt_of_isAscii (by decide)), Utf8.lossyAfter_encode (Utf8.lt_of_isAscii (by decide))]
  decide

def unspacedResponse : Response where
  head := unspacedHead
  body := oneChunk
  framed := ⟨⟨by decide, by decide, by decide⟩, rfl, unspaced, .head _, unspaced_is⟩
  fits := by decide

theorem unspaced_text :
    unspacedHead.text = "HTTP/1.1 200 OK\r\nTransfer-Encoding:chunked".toList := by
  have hbytes : unspacedHead.bytes =
      Utf8.encode "HTTP/1.1 200 OK\r\nTransfer-Encoding:chunked".toList := by decide
  rw [Head.text, Utf8.lossy, String.toList_ofList, hbytes, Utf8.lossyAfter_encode (Utf8.lt_of_isAscii (by decide))]

/-- **A response is read as it is meant, and no part of it is taken for the whole**, exactly when
the head is right about chunks as it is read, and does not announce bytes by their number. -/
theorem decodeBody_served (received : Slice) (r : Response) :
    (∃ out, decodeBody received = .ok out) ∧
      (Served r ↔
        (saysChunked r.head.text = true ↔ r.body.IsChunked) ∧ ¬ r.body.IsCounted) := by
  refine ⟨decodeBody_ok received, fun h => ?_, fun h => ?_⟩
  · have hstated := (decodeBody_whole r).mp h.1
    refine ⟨hstated, fun hcounted => ?_⟩
    cases hbody : r.body with
    | length data =>
      rw [hbody] at hstated hcounted
      have hplain : ¬ saysChunked r.head.text = true := hstated.mp
      have hpos : 0 < data.length := List.length_pos_of_ne_nil hcounted
      -- the response that is cut off after its head is taken for one without a body
      have hcut := h.2 (r.head.bytes.length + 4 + 0) (by
        rw [Response.stops, hbody]
        exact Nat.add_lt_add_left hpos _)
      rw [decodeBody_head r.head (r.take_slice 0), if_neg hplain] at hcut
      cases hcut
    | chunked _ _ _ | close _ | empty =>
      rw [hbody] at hcounted
      exact hcounted
  · exact ⟨(decodeBody_whole r).mpr h.1, fun k => decodeBody_cut h.1 h.2⟩

/-- A head without the space is not understood, so the chunks are taken for the body. -/
theorem unspaced_unserved : ¬ Served unspacedResponse := by
  intro h
  have hstated := ((decodeBody_whole unspacedResponse).mp h.1).mpr trivial
  rw [show unspacedResponse.head.text = _ from unspaced_text] at hstated
  revert hstated
  decide

end HamsOpen.Radioctld.Answer
