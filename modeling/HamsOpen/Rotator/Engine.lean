import HamsOpen.Flex.Text
import HamsOpen.Lib.Decimal
import HamsOpen.Lib.Utf8
import HamsOpen.Station.Model
import Mathlib.Data.List.DropRight

/-!
# Rotators

The descriptions of antenna rotators, and the two protocols that they are commanded by
(`rotator.rs`): Hamlib's `rotctld`, and the Yaesu GS-232 ASCII family. Degrees are exact rational
numbers, all of which are finite.
-/

namespace HamsOpen.Rotator

open Flex (Text isSpace splitOnce stripPrefix)
open Station (StationError config refused)

/-- Which wire protocol the rotator speaks. -/
inductive RotatorProtocol
  | rotctld | gs232
  deriving DecidableEq

/-- A position, in degrees. -/
structure ParkPosition where
  az : ℚ
  el : ℚ
  deriving DecidableEq

/-- What a rotator is and can do. -/
structure RotatorDescription where
  id : String
  protocol : RotatorProtocol
  azMin : ℚ
  /-- Above 360 for an overlap. -/
  azMax : ℚ
  elMin : ℚ
  elMax : ℚ
  hasElevation : Bool
  slewDegPerS : ℚ
  park : Option ParkPosition
  replyTimeoutMs : ℕ
  deriving DecidableEq

inductive RotOp
  | setPosition (az el : ℚ)
  | getPosition
  | stop
  | park
  deriving DecidableEq

/-- What reply a command expects. -/
inductive RotExpect
  | nothing | status | position
  deriving DecidableEq

/-- A command on the wire. -/
structure Encoded where
  bytes : List UInt8
  expect : RotExpect
  deriving DecidableEq

inductive RotReply
  | done
  | position (az el : ℚ)
  deriving DecidableEq

/-- A protocol. A reply is parsed off the start of what was received, with the bytes that it used;
there is none while more bytes are needed. -/
structure RotatorEngine where
  encode : RotOp → Except StationError Encoded
  parse : RotExpect → List UInt8 → Except StationError (Option (RotReply × ℕ))

def driver (m : String) : StationError := ⟨.driver, m⟩

/-! ### Descriptions -/

namespace RotatorDescription

/-- Whether a position is inside the travel. -/
def contains (d : RotatorDescription) (az el : ℚ) : Bool :=
  (d.azMin ≤ az && az ≤ d.azMax) && (d.elMin ≤ el && el ≤ d.elMax)

/-- Ordered limits, sane travel, a park position inside it, and for GS-232 what that protocol can
carry. -/
def validate (d : RotatorDescription) : Except StationError Unit :=
  let bad (m : String) := .error (config ("rotator " ++ d.id ++ ": " ++ m))
  if d.id = "" then bad "needs a name and finite numbers"
  else if d.azMin ≥ d.azMax ∨ d.azMax - d.azMin > 720 then
    bad "azimuth travel must be between 0 and 720 degrees and ordered"
  else if d.elMin > d.elMax ∨ d.elMin < -90 ∨ d.elMax > 180 then
    bad "elevation limits are out of range"
  else if d.hasElevation = false ∧ (d.elMin ≠ 0 ∨ d.elMax ≠ 0) then
    bad "an azimuth-only rotator has elevation 0 to 0"
  else if d.slewDegPerS ≤ 0 ∨ d.replyTimeoutMs = 0 ∨ d.replyTimeoutMs > 60000 then
    bad "slew rate and reply timeout must be positive and sane"
  else if d.protocol = .gs232 ∧
      (d.azMin < 0 ∨ d.azMax > 450 ∨ d.elMin < 0 ∨ d.elMax > 180) then
    bad "GS-232 carries azimuth 0 to 450 and elevation 0 to 180"
  else match d.park with
    | some p =>
      if !d.contains p.az p.el then bad "the park position is outside the travel" else .ok ()
    | none => .ok ()

end RotatorDescription

/-- Degrees in a message, with the decimal places that they have; `f32` never has more than 149. -/
def degrees (x : ℚ) : String := .ofList (Decimal.shortest 149 x)

/-- Degrees in a message, to a tenth. -/
def tenths (x : ℚ) : String := .ofList (Decimal.format 1 x)

/-- The position that a command means, if it is one to move: the explicit one, or the park
position. -/
def target (d : RotatorDescription) : RotOp → Except StationError (Option (ℚ × ℚ))
  | .setPosition az el =>
    let el := if d.hasElevation then el else 0
    if !d.contains az el then
      .error (refused (tenths az ++ ", " ++ tenths el ++ " is outside the travel of " ++ d.id ++
        " (azimuth " ++ degrees d.azMin ++ " to " ++ degrees d.azMax ++
        ", elevation " ++ degrees d.elMin ++ " to " ++ degrees d.elMax ++ ")"))
    else .ok (some (az, el))
  | .park =>
    match d.park with
    | some p => .ok (some (p.az, p.el))
    | none => .error (refused (d.id ++ " has no park position"))
  | .getPosition | .stop => .ok none

/-! ### Lines -/

def trim (text : Text) : Text := (text.dropWhile isSpace).rdropWhile isSpace

def isEnd (b : UInt8) : Bool := b = 0x0D || b = 0x0A

/-- The first line, after any ends of lines before it, and the bytes used with its own end. There
is none while it is not complete. -/
def line (buf : List UInt8) : Option (Text × ℕ) :=
  let start := (buf.takeWhile isEnd).length
  let rest := buf.drop start
  let size := (rest.takeWhile fun b => !isEnd b).length
  if size = rest.length then none
  else some (trim (Utf8.lossy (rest.take size)).toList, start + size + 1)

/-! ### Hamlib's `rotctld` -/

namespace RotctldEngine

/-- The meaning of a code. -/
def rprtText : ℤ → String
  | -1 => "invalid parameter"
  | -2 => "invalid configuration"
  | -4 => "function not implemented"
  | -5 => "communication timed out"
  | -6 => "I/O error"
  | -8 => "protocol error"
  | -9 => "command rejected by the rotator"
  | -11 => "function not available"
  | -17 => "value out of the rotator's domain"
  | _ => "error"

/-- A code, which is an `i32`. -/
def code (text : Text) : Option ℤ :=
  (Decimal.parseInt text).filter fun n => -2 ^ 31 ≤ n && n < 2 ^ 31

def encode (d : RotatorDescription) (op : RotOp) : Except StationError Encoded := do
  let pos ← target d op
  pure (match op, pos with
    | .setPosition _ _, some (az, el) | .park, some (az, el) =>
      ⟨Utf8.encode ("P ".toList ++ Decimal.format 2 az ++ " ".toList ++ Decimal.format 2 el ++
        "\n".toList), .status⟩
    | .getPosition, _ => ⟨Utf8.encode "p\n".toList, .position⟩
    | _, _ => ⟨Utf8.encode "S\n".toList, .status⟩)

def status (text : Text) : Except StationError Unit :=
  match (stripPrefix "RPRT ".toList text).bind fun rest => code (trim rest) with
  | none => .error (driver ("unexpected reply \"" ++ .ofList text ++ "\""))
  | some 0 => .ok ()
  | some n => .error (driver ("the rotator reported " ++ toString n ++ ": " ++ rprtText n))

def number (text : Text) : Except StationError ℚ :=
  match Decimal.parse text with
  | some v => .ok v
  | none => .error (driver ("\"" ++ .ofList text ++ "\" is not a position"))

def parse (expect : RotExpect) (buf : List UInt8) : Except StationError (Option (RotReply × ℕ)) :=
  match expect with
  | .nothing => .ok (some (.done, 0))
  | .status =>
    match line buf with
    | none => .ok none
    | some (text, used) => do
      status text
      pure (some (.done, used))
  | .position =>
    match line buf with
    | none => .ok none
    | some (first, used₁) =>
      if "RPRT".toList <+: first then do
        status first
        throw (driver "the rotator answered a read with a status")
      else
        match line (buf.drop used₁) with
        | none => .ok none
        | some (second, used₂) => do
          let az ← number first
          let el ← number second
          pure (some (.position az el, used₁ + used₂))

end RotctldEngine

/-! ### Yaesu GS-232A/B -/

namespace Gs232Engine

/-- What comes before and after the first occurrence of a pattern. -/
def splitOnText (pattern : Text) : Text → Option (Text × Text)
  | [] => if pattern = [] then some ([], []) else none
  | c :: text =>
    if pattern <+: c :: text then some ([], (c :: text).drop pattern.length)
    else (splitOnText pattern text).map fun (before, after) => (c :: before, after)

/-- A number of at most four digits. -/
def digits (text : Text) : Option ℚ :=
  let text := (trim text).dropWhile (· = '+')
  if text ≠ [] ∧ text.length ≤ 4 ∧ text.all Char.isDigit then some (Decimal.value text) else none

/-- A position line: `+0aaa+eee`, the leading zero of the azimuth optional, or `AZ=aaa EL=eee`. -/
def gs232Position (text : Text) : Option (ℚ × ℚ) :=
  match stripPrefix ['+'] text with
  | some rest => do
    let (az, el) ← splitOnce '+' rest
    pure (← digits az, ← digits el)
  | none => do
    let rest ← stripPrefix "AZ=".toList text
    let (az, el) ← splitOnText "EL=".toList rest
    pure (← digits az, ← digits el)

/-- An `f32` as an `i32`. -/
def toI32 (n : ℤ) : ℤ := max (-2 ^ 31) (min (2 ^ 31 - 1) n)

/-- An integer of at least three digits, its sign counted. -/
def threeDigits (n : ℤ) : Text :=
  if n < 0 then '-' :: Decimal.padded 2 n.natAbs else Decimal.padded 3 n.natAbs

def encode (d : RotatorDescription) (op : RotOp) : Except StationError Encoded := do
  let pos ← target d op
  pure (match op, pos with
    | .setPosition _ _, some (az, el) | .park, some (az, el) =>
      ⟨Utf8.encode ("W".toList ++ threeDigits (toI32 (Decimal.halfAway az)) ++ " ".toList ++
        threeDigits (toI32 (Decimal.halfAway el)) ++ "\r".toList), .nothing⟩
    | .getPosition, _ => ⟨Utf8.encode "C2\r".toList, .position⟩
    | _, _ => ⟨Utf8.encode "S\r".toList, .nothing⟩)

def parse (expect : RotExpect) (buf : List UInt8) : Except StationError (Option (RotReply × ℕ)) :=
  match expect with
  | .nothing => .ok (some (.done, 0))
  | .status => .error (driver "GS-232 has no status replies")
  | .position =>
    match line buf with
    | none => .ok none
    | some (text, used) =>
      match gs232Position text with
      | none => .error (driver ("unexpected reply \"" ++ .ofList text ++ "\""))
      | some (az, el) => .ok (some (.position az el, used))

end Gs232Engine

/-- The protocol engine for a description. -/
def RotatorDescription.engine (d : RotatorDescription) : Except StationError RotatorEngine := do
  d.validate
  pure (match d.protocol with
    | .rotctld => ⟨RotctldEngine.encode d, RotctldEngine.parse⟩
    | .gs232 => ⟨Gs232Engine.encode d, Gs232Engine.parse⟩)

end HamsOpen.Rotator
