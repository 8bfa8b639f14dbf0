import HamsOpen.Ascii.Tokenizer
import HamsOpen.Lib.Decimal
import HamsOpen.Rig.Memory

/-!
# The composite status of a Kenwood

The `IF` answer is a record of fixed columns (`kenwood.rs`). The engine reads it a field at a time,
and the offset by its sign, since models put it in different columns.
-/

namespace HamsOpen.Ascii

open Rig (Mode Vfo Observation Inbound)

abbrev Bytes := List UInt8

/-- The bytes of characters of ASCII. -/
def ascii (text : List Char) : Bytes := text.map fun c => .ofNat c.toNat

def isAsciiDigit (b : UInt8) : Bool := 0x30 ≤ b && b ≤ 0x39

/-- Parses a string of ASCII digits only. -/
def parseDigits (text : Bytes) : Option ℕ :=
  if text = [] ∨ 18 < text.length ∨ text.all isAsciiDigit = false then none
  else some (Decimal.value (text.map fun b => Char.ofNat b.toNat))

/-- The part of a text between two places. -/
def field (text : Bytes) (start stop : ℕ) : Option Bytes :=
  if start ≤ stop ∧ stop ≤ text.length then some ((text.drop start).take (stop - start)) else none

/-- The last place with such a byte. -/
def rfind (p : UInt8 → Bool) (text : Bytes) : Option ℕ :=
  (text.reverse.findIdx? p).map fun i => text.length - 1 - i

def PLUS : UInt8 := 0x2B
def MINUS : UInt8 := 0x2D

def isSign (b : UInt8) : Bool := b = PLUS || b = MINUS

/-- The offset in the ten characters that hold it: the sign nearest the end, then 4 or 5 digits to
the end. -/
def parseIfOffset (region : Bytes) : Option ℤ := do
  let place ← rfind isSign region
  let digits := region.drop (place + 1)
  if digits.length < 4 ∨ 5 < digits.length ∨ place < 4 then none
  else
    let magnitude ← parseDigits digits
    if 2 ^ 15 ≤ magnitude then none
    else if region[place]? = some MINUS then some (-magnitude)
    else some magnitude

def flagAt (body : Bytes) (place : ℕ) : Option Bool :=
  match field body place (place + 1) with
  | some [0x30] => some false
  | some [0x31] => some true
  | _ => none

/-- The engine for one rig, as far as it reads a status. What it makes of other commands is
`otherwise`. -/
structure KenwoodEngine where
  modeCodes : List (Mode × UInt8)
  ts990 : Bool
  r5000 : Bool
  tokenizer : Tokenizer
  otherwise : Bytes → List Inbound

namespace KenwoodEngine

/-- The mode of a wire code. -/
def codeMode (e : KenwoodEngine) (code : UInt8) : Option Mode :=
  (e.modeCodes.find? (·.2 = code)).map (·.1)

/-- The observations in an `IF` answer, without `IF` and `;`. -/
def decodeIf (e : KenwoodEngine) (body : Bytes) : Option (List Inbound) := do
  let ascii := body.all (· < 0x80)
  -- five characters are missing after the frequency
  let body := if e.r5000 && body.length = 30 && ascii then
    body.take 11 ++ List.replicate 5 0x30 ++ body.drop 11 else body
  if body.length ≠ 35 ∨ body.all (· < 0x80) = false then none
  let frequency ← parseDigits (← field body 0 11)
  let offset ← parseIfOffset (← field body 11 21)
  let rit ← flagAt body 21
  let xit ← flagAt body 22
  let tx ← flagAt body 26
  let split ← flagAt body 30
  let code ← field body 27 28
  let mode ← code.head?.bind e.codeMode
  if e.ts990 then
    return [.frequency .a frequency, .mode mode, .rit rit, .xit xit, .ritOffset offset].map
      Inbound.observation
  let receive ← field body 28 29
  let vfo : Option Vfo := match receive with
    | [0x30] => some .a
    | [0x31] => some .b
    | _ => none
  let received : List Observation := match vfo with
    | some vfo => [.frequency vfo frequency, .rxVfo vfo, .txVfo (if split then vfo.other else vfo)]
    | none => []
  let status : List Observation :=
    [.mode mode, .ptt tx, .rit rit, .xit xit, .ritOffset offset, .split split]
  return (received ++ status).map Inbound.observation

/-- What a command means. -/
def decode (e : KenwoodEngine) (text : Bytes) : List Inbound :=
  if text = [0x3F] then [.nak]
  else if [0x49, 0x46].isPrefixOf text then
    (e.decodeIf (text.drop 2)).getD [.unrecognised (text ++ [TERMINATOR])]
  else e.otherwise text

/-- What the bytes received at `now` mean. -/
def feed (e : KenwoodEngine) (bytes : Bytes) (now : ℕ) : List Inbound × KenwoodEngine :=
  let (tokens, tokenizer) := e.tokenizer.feed bytes now
  (tokens.flatMap fun
    | .command text => e.decode text
    | .junk junk => [.unrecognised junk], { e with tokenizer })

end KenwoodEngine

/-! ### Digits -/

/-- The digits of a number, with zeros before them up to a width. -/
def digits (width n : ℕ) : Bytes := ascii (Decimal.padded width n)

section Digits

variable {width n : ℕ} {b s : UInt8} {front ds : Bytes}

/-- A digit keeps its value as a byte. -/
theorem digit_byte {c : Char} (hc : c.isDigit = true) :
    isAsciiDigit (.ofNat c.toNat) = true ∧ Char.ofNat (UInt8.ofNat c.toNat).toNat = c := by
  have hrange : 48 ≤ c.toNat ∧ c.toNat ≤ 57 := by
    rw [Char.isDigit, Bool.and_eq_true, decide_eq_true_eq, decide_eq_true_eq] at hc
    exact hc
  have hchar : Char.ofNat c.toNat = c := Char.ofNat_toNat c
  have hall : ∀ n < 58, 48 ≤ n → isAsciiDigit (.ofNat n) = true ∧ (UInt8.ofNat n).toNat = n := by
    decide
  obtain ⟨hdigit, hvalue⟩ := hall c.toNat (by omega) hrange.1
  rw [hvalue]
  exact ⟨hdigit, hchar⟩

theorem isAsciiDigit_of_digits (hb : b ∈ digits width n) : isAsciiDigit b = true := by
  obtain ⟨c, hc, rfl⟩ := List.mem_map.mp hb
  exact (digit_byte (Decimal.isDigit_of_padded hc)).1

theorem length_digits (hwidth : 0 < width) (h : n < 10 ^ width) :
    (digits width n).length = width := by
  rw [digits, ascii, List.length_map, Decimal.length_padded hwidth h]

/-- Digits are read back. -/
theorem parseDigits_digits (hwidth : 0 < width) (hle : width ≤ 18) (h : n < 10 ^ width) :
    parseDigits (digits width n) = some n := by
  have hlength := length_digits hwidth h
  have hne : digits width n ≠ [] := by
    rw [← List.length_pos_iff, hlength]
    exact hwidth
  have hall : (digits width n).all isAsciiDigit = true :=
    List.all_eq_true.mpr fun b hb => isAsciiDigit_of_digits hb
  have hback : (digits width n).map (fun b => Char.ofNat b.toNat) = Decimal.padded width n := by
    rw [digits, ascii, List.map_map]
    refine (List.map_congr_left fun c hc => ?_).trans (List.map_id _)
    exact (digit_byte (Decimal.isDigit_of_padded hc)).2
  rw [parseDigits, if_neg, hback, Decimal.value_padded]
  rw [not_or, not_or, hall, hlength]
  exact ⟨hne, Nat.not_lt.mpr hle, nofun⟩

theorem rfind_append {p : UInt8 → Bool} (hs : p s = true) (hds : ∀ b ∈ ds, p b = false) :
    rfind p (front ++ s :: ds) = some front.length := by
  have hreverse : (front ++ s :: ds).reverse = ds.reverse ++ s :: front.reverse := by simp
  have hnone : ds.reverse.findIdx? p = none := by
    rw [List.findIdx?_eq_none_iff]
    intro b hb
    exact hds b (List.mem_reverse.mp hb)
  rw [rfind, hreverse, List.findIdx?_append, hnone, List.findIdx?_cons, if_pos hs]
  simp only [Option.map_some, Option.or, List.length_append, List.length_cons, List.length_reverse]
  congr 1
  omega

theorem isSign_of_isAsciiDigit (h : isAsciiDigit b = true) : isSign b = false := by
  have hall : ∀ n : Fin 256, isAsciiDigit (UInt8.ofFin n) = true →
      isSign (UInt8.ofFin n) = false := by
    decide +kernel
  exact hall b.toFin h

/-- An offset of five digits is read back, but for one beyond the type. -/
theorem parseIfOffset_signed (hs : isSign s = true) (hfront : front.length = 4)
    (h : n < 10 ^ 5) : parseIfOffset (front ++ s :: digits 5 n) =
      if 2 ^ 15 ≤ n then none else if s = MINUS then some (-(n : ℤ)) else some (n : ℤ) := by
  have hlength := length_digits (by decide) h
  have hplace : rfind isSign (front ++ s :: digits 5 n) = some 4 := by
    rw [rfind_append hs fun b hb => isSign_of_isAsciiDigit (isAsciiDigit_of_digits hb), hfront]
  have hdrop : (front ++ s :: digits 5 n).drop 5 = digits 5 n := by
    rw [List.drop_append, hfront, List.drop_of_length_le (by omega)]
    rfl
  have hsign : (front ++ s :: digits 5 n)[4]? = some s := by
    rw [List.getElem?_append_right (by omega), hfront]
    rfl
  rw [parseIfOffset, hplace, Option.bind_eq_bind, Option.bind_some]
  dsimp only
  rw [hdrop, if_neg (by rw [hlength]; decide), parseDigits_digits (by decide) (by decide) h,
    Option.bind_some, hsign]
  by_cases hbig : 2 ^ 15 ≤ n
  · rw [if_pos hbig, if_pos hbig]
  · rw [if_neg hbig, if_neg hbig]
    by_cases hminus : s = MINUS
    · rw [if_pos (congrArg some hminus), if_pos hminus]
    · rw [if_neg hminus, if_neg fun heq => hminus (Option.some.inj heq)]

end Digits

/-! ### Fields -/

section Fields

variable {front rest : Bytes} {i n : ℕ}

theorem field_append (front mid rest : Bytes) :
    field (front ++ mid ++ rest) front.length (front.length + mid.length) = some mid := by
  rw [field, if_pos, List.append_assoc, List.drop_left, Nat.add_sub_cancel_left, List.take_left]
  rw [List.length_append, List.length_append]
  omega

/-- A field behind some bytes. -/
theorem field_right (h : front.length = n) (stop : ℕ) :
    field (front ++ rest) (n + i) (n + stop) = field rest i stop := by
  rw [field, field, List.length_append, ← h, Nat.add_sub_add_left, List.drop_append,
    List.drop_of_length_le (Nat.le_add_right _ _), Nat.add_sub_cancel_left, List.nil_append]
  simp only [Nat.add_le_add_iff_left]

theorem flagAt_right (h : front.length = n) : flagAt (front ++ rest) (n + i) = flagAt rest i := by
  rw [flagAt, flagAt, Nat.add_assoc, field_right h]

end Fields

/-! ### One command -/

/-- A command that is not blank at its ends is decoded. -/
theorem KenwoodEngine.feed_command {e : KenwoodEngine} {body : Bytes} {now : ℕ}
    (hempty : e.tokenizer.pending = []) (hprintable : printable body = true)
    (htext : text body = body) (hne : body ≠ []) :
    (e.feed (body ++ [TERMINATOR]) now).1 = e.decode body := by
  have hclear := Tokenizer.not_stop_of_printable hprintable
  have hstale : e.tokenizer.stale now = false := by
    rw [Tokenizer.stale, hempty]
    exact Bool.and_eq_false_iff.mpr (.inr (decide_eq_false (not_not.mpr rfl)))
  have hsplit : e.tokenizer.split (body ++ [TERMINATOR]) now = ([body ++ [TERMINATOR]], []) := by
    rw [Tokenizer.split, hstale, if_neg Bool.false_ne_true, hempty, List.nil_append]
    exact Delimited.pieces_message hclear (decide_eq_true rfl)
  have htoken : tokenOf (body ++ [TERMINATOR]) = .command body := by
    rw [tokenOf, List.dropLast_concat, htext, if_pos ⟨hprintable, hne⟩]
  have htokens : (e.tokenizer.feed (body ++ [TERMINATOR]) now).1 = [.command body] := by
    rw [Tokenizer.feed, hstale, hsplit]
    dsimp only
    rw [List.length_nil, if_neg (Nat.not_lt_zero _), List.map_singleton, htoken]
    rfl
  rw [feed]
  dsimp only
  rw [htokens]
  exact List.append_nil _

end HamsOpen.Ascii
