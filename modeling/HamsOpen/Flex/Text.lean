import HamsOpen.Rig.Memory
import Mathlib

/-!
# Lines of the SmartSDR API

The text of commands, replies and status lines, as it is written and read (`flex.rs`). A text is a
list of characters.
-/

namespace HamsOpen.Flex

open Rig (Hz Mode ErrorKind RigError)

/-- Longest CW text sent in one command. -/
def MAX_CW_CHARS : ℕ := 100

/-! ### Text -/

abbrev Text := List Char

/-- What comes before and after the first `c`. -/
def splitOnce (c : Char) (text : Text) : Option (Text × Text) :=
  if c ∈ text then some (text.takeWhile (· ≠ c), (text.dropWhile (· ≠ c)).tail) else none

/-- The part before the first `c`, and the rest, which is empty when there is none. -/
def splitFirst (c : Char) (text : Text) : Text × Text := (splitOnce c text).getD (text, [])

def stripPrefix (start text : Text) : Option Text :=
  if start <+: text then some (text.drop start.length) else none

/-- White space of Unicode. -/
def isSpace (c : Char) : Bool :=
  (9 ≤ c.toNat && c.toNat ≤ 13) || c.toNat ∈ [0x20, 0x85, 0xA0, 0x1680, 0x2028, 0x2029, 0x202F,
    0x205F, 0x3000] || (0x2000 ≤ c.toNat && c.toNat ≤ 0x200A)

/-- The words between white space; `word` is what was read of the first one. -/
def wordsFrom : Text → Text → List Text
  | word, [] => if word = [] then [] else [word]
  | word, c :: text =>
    if isSpace c then (if word = [] then wordsFrom [] text else word :: wordsFrom [] text)
    else wordsFrom (word ++ [c]) text

def words (text : Text) : List Text := wordsFrom [] text

def isDigit (c : Char) : Bool := '0' ≤ c && c ≤ '9'

/-- The value of a digit. -/
def digit (radix : ℕ) (c : Char) : Option ℕ :=
  let d :=
    if isDigit c then c.toNat - '0'.toNat
    else if 'a' ≤ c ∧ c ≤ 'z' then c.toNat - 'a'.toNat + 10
    else if 'A' ≤ c ∧ c ≤ 'Z' then c.toNat - 'A'.toNat + 10
    else radix
  if d < radix then some d else none

def digits (radix : ℕ) (text : Text) : Option ℕ :=
  text.foldlM (fun n c => (digit radix c).map (n * radix + ·)) 0

/-- An unsigned number below `bound`, with a plus sign or without. -/
def parseUnsigned (radix bound : ℕ) (text : Text) : Option ℕ :=
  let number := (stripPrefix ['+'] text).getD text
  if number = [] then none else (digits radix number).filter (· < bound)

def parseU16 : Text → Option ℕ := parseUnsigned 10 (2 ^ 16)
def parseU32 : Text → Option ℕ := parseUnsigned 10 (2 ^ 32)

def lowercase (text : Text) : Text := text.map Char.toLower

/-! ### Frequencies -/

/-- A frequency in megahertz as hertz; the seventh decimal rounds. -/
def parseMhz (text : Text) : Option Hz :=
  let (whole, frac) := splitFirst '.' text
  if whole = [] ∧ frac = [] then none
  else if !(whole.all isDigit) || !(frac.all isDigit) || 5 < whole.length || 15 < frac.length then
    none
  else do
    let mhz ← digits 10 whole
    let hz ← digits 10 ((frac ++ List.replicate 6 '0').take 6)
    pure (mhz * 1000000 + hz + if '5' ≤ frac.getD 6 '0' then 1 else 0)

/-- A frequency with a sign. -/
def parseMhzSigned (text : Text) : Option ℤ :=
  match stripPrefix ['-'] text with
  | some rest => (parseMhz rest).map fun hz => -(hz : ℤ)
  | none => (parseMhz ((stripPrefix ['+'] text).getD text)).map fun hz => (hz : ℤ)

def formatMhz (hz : Hz) : String :=
  let frac := toString (hz % 1000000)
  toString (hz / 1000000) ++ "." ++ String.ofList (List.replicate (6 - frac.length) '0') ++ frac

/-! ### Modes -/

/-! ### Lines -/

/-- True when a command can put RF on the air, or play a recording to the transmitter. -/
def lineMayTransmit (line : String) : Bool :=
  let word (i : ℕ) := String.ofList (lowercase ((words line.toList).getD i []))
  let isOff (s : String) := s ∈ ["0", "-", "f", "off"]
  match word 0 with
  | "xmit" => !isOff (word 1)
  | "transmit" => word 1 = "tune" && !isOff (word 2)
  | "cwx" => word 1 ≠ "clear"
  | "dvk" => true
  | "atu" => word 1 = "start"
  | _ => false

/-- An `R` line. -/
structure Reply where
  seq : UInt32
  code : ℕ
  message : Text
  deriving DecidableEq

/-- Reads `R<seq>|<hex>|message`. -/
def parseReply (line : Text) : Option Reply := do
  let body ← stripPrefix ['R'] line
  let (seqText, rest) ← splitOnce '|' body
  let seq ← parseU32 seqText
  let (codeText, message) := splitFirst '|' rest
  let hex := ((stripPrefix "0x".toList codeText).orElse fun _ =>
    stripPrefix "0X".toList codeText).getD codeText
  let code ← parseUnsigned 16 (2 ^ 32) hex
  pure ⟨UInt32.ofNat seq, code, message⟩

/-- The `key=value` words of a line, in order. -/
def parsePairs (text : Text) : List (Text × Text) := (words text).filterMap (splitOnce '=')

/-- The items between separators. -/
def items (c : Char) (text : Text) : List Text := text.splitOn c

end HamsOpen.Flex
