import HamsOpen.Lib.Bits
import Mathlib.Data.List.DropRight
import Mathlib.Data.Int.Notation

/-!
# WSPR messages and symbols

The encoder of `wspr.rs`. A callsign takes 28 bits, a grid square and a power take 22; these are
followed by zeros, go through a convolutional code of rate one half and an interleaver, and are sent
as 162 symbols beside a fixed sequence. A text is the list of its bytes.
-/

namespace HamsOpen.Wspr

/-! ### Characters -/

abbrev SPACE : ℕ := 32

def isAsciiDigit (c : ℕ) : Bool := 48 ≤ c && c ≤ 57

def toAsciiUppercase (c : ℕ) : ℕ := if 97 ≤ c ∧ c ≤ 122 then c - 32 else c

def callsignCharCode (c : ℕ) : Option ℕ :=
  if 48 ≤ c ∧ c ≤ 57 then some (c - 48)
  else if c = SPACE then some 36
  else if 65 ≤ c ∧ c ≤ 90 then some (c - 65 + 10)
  else none

/-- The character of a code. -/
def callsignChar (code : ℕ) : Option ℕ :=
  if code ≤ 9 then some (48 + code)
  else if code = 36 then some SPACE
  else if code ≤ 35 then some (65 + (code - 10))
  else none

def gridCharCode (c : ℕ) : Option ℕ :=
  if 48 ≤ c ∧ c ≤ 57 then some (c - 48)
  else if c = SPACE then some 36
  else if 65 ≤ c ∧ c ≤ 90 then some (c - 65)
  else none

/-! ### Callsigns -/

/-- What ends the program: a slice past the end of its array. -/
inductive Panic
  | sliceIndex
  deriving DecidableEq

/-- The six characters, in mixed radix; the last three are letters or spaces. -/
def packCodes : List ℕ → Option ℕ
  | [c0, c1, c2, c3, c4, c5] =>
    if 10 ≤ c3 ∧ 10 ≤ c4 ∧ 10 ≤ c5 then
      some (((((c0 * 36 + c1) * 10 + c2) * 27 + (c3 - 10)) * 27 + (c4 - 10)) * 27 + (c5 - 10))
    else none
  | _ => none

/-- Six spaces, with a text copied into them. -/
def copyInto (start : ℕ) (bytes : List ℕ) : Except Panic (List ℕ) :=
  if start + bytes.length ≤ 6 then
    .ok (List.replicate start SPACE ++ bytes ++ List.replicate (6 - (start + bytes.length)) SPACE)
  else .error .sliceIndex

def packCall (callsign : List ℕ) : Except Panic (Option ℕ) := do
  let bytes := callsign.map toAsciiUppercase
  if 6 < bytes.length ∨ bytes = [] then
    return none
  else if bytes[2]?.any isAsciiDigit then
    let call6 ← copyInto 0 bytes
    return (call6.mapM callsignCharCode).bind packCodes
  else if bytes[1]?.any isAsciiDigit then
    let call6 ← copyInto 1 bytes
    return (call6.mapM callsignCharCode).bind packCodes
  else return none

def trimEnd (text : List ℕ) : List ℕ := text.rdropWhile (· == SPACE)

/-- The text without the space it begins with, if it does. -/
def stripSpace : List ℕ → List ℕ
  | [] => []
  | c :: rest => if c = SPACE then rest else c :: rest

def unpackCall (n : ℕ) : Option (List ℕ) := do
  let c5 := n % 27 + 10
  let n := n / 27
  let c4 := n % 27 + 10
  let n := n / 27
  let c3 := n % 27 + 10
  let n := n / 27
  let c2 := n % 10
  let n := n / 10
  let c1 := n % 36
  let c0 := n / 36
  if 36 < c0 then none
  else do
    let chars ← [c0, c1, c2, c3, c4, c5].mapM callsignChar
    let call := stripSpace (trimEnd chars)
    if call = [] then none else some call

/-! ### Grid squares and powers -/

def packGrid4Power (grid4 : List ℕ) (powerDbm : ℤ) : Option ℕ :=
  match grid4.map toAsciiUppercase with
  | [b0, b1, b2, b3] =>
    if ¬ (65 ≤ b0 ∧ b0 ≤ 82) ∨ ¬ (65 ≤ b1 ∧ b1 ≤ 82) then none
    else if !isAsciiDigit b2 || !isAsciiDigit b3 then none
    else do
      let g0 ← gridCharCode b0
      let g1 ← gridCharCode b1
      let g2 ← gridCharCode b2
      let g3 ← gridCharCode b3
      let m : ℤ := (179 - 10 * g0 - g2) * 180 + 10 * g1 + g3
      let m := m * 128 + powerDbm + 64
      if 0 ≤ m ∧ m < 2 ^ 22 then some m.toNat else none
  | _ => none

/-- The division and the remainder round towards zero. -/
def unpackGrid4Power (m : ℕ) : Option (List ℕ × ℤ) :=
  let m : ℤ := m
  let powerDbm := m.tmod 128 - 64
  if ¬ (0 ≤ powerDbm ∧ powerDbm ≤ 60) then none
  else
    let gv := m.tdiv 128
    let sum := 179 - gv.tdiv 180
    let g1g3 := gv.tmod 180
    let g0 := sum.tdiv 10
    let g2 := sum.tmod 10
    let g1 := g1g3.tdiv 10
    let g3 := g1g3.tmod 10
    if ¬ (0 ≤ g0 ∧ g0 < 18) ∨ ¬ (0 ≤ g1 ∧ g1 < 18) ∨ ¬ (0 ≤ g2 ∧ g2 < 10) ∨ ¬ (0 ≤ g3 ∧ g3 < 10)
    then none
    else some ([65 + g0.toNat, 65 + g1.toNat, 48 + g2.toNat, 48 + g3.toNat], powerDbm)

/-! ### Messages -/

/-- The eleven bytes of a message: 28 bits, 22 bits, and zeros. -/
def packBytes (n m : ℕ) : List ℕ :=
  [n >>> 20 % 256, n >>> 12 % 256, n >>> 4 % 256, (n % 16) <<< 4 + m >>> 18 % 16, m >>> 10 % 256,
    m >>> 2 % 256, (m % 4) <<< 6, 0, 0, 0, 0]

/-- The bytes that `wspr_encode_symbols` encodes, when it accepts its arguments. -/
def messageData (callsign grid4 : List ℕ) (powerDbm : ℤ) : Except Panic (Option (List ℕ)) := do
  let n ← packCall callsign
  return n.bind fun n => (packGrid4Power grid4 powerDbm).map (packBytes n)

/-- The bits of some bytes, in the order they go through the encoder. -/
def bitsOfBytes (data : List ℕ) : List Bool := data.flatMap (Bits.toBits 8)

/-- A run of the decoded bits, shifted in one after the other. -/
def readField (decodedBits start len : ℕ) : ℕ :=
  (List.range' start len).foldl (fun n i => 2 * n + (decodedBits.testBit i).toNat) 0

def unpackWsprMessage (decodedBits : ℕ) : Option (List ℕ × List ℕ × ℤ) := do
  let n := readField decodedBits 0 28
  let m := readField decodedBits 28 22
  let call ← unpackCall n
  let (grid4, powerDbm) ← unpackGrid4Power m
  some (call, grid4, powerDbm)

/-! ### Symbols -/

def NUM_SYMBOLS : ℕ := 162
def POLY1 : ℕ := 0xf2d05351
def POLY2 : ℕ := 0xe4613c47

/-- The sequence that is sent beside the data. -/
def SYNC_VECTOR : List ℕ :=
  [1, 1, 0, 0, 0, 0, 0, 0, 1, 0, 0, 0, 1, 1, 1, 0, 0, 0, 1, 0,
   0, 1, 0, 1, 1, 1, 1, 0, 0, 0, 0, 0, 0, 0, 1, 0, 0, 1, 0, 1,
   0, 0, 0, 0, 0, 0, 1, 0, 1, 1, 0, 0, 1, 1, 0, 1, 0, 0, 0, 1,
   1, 0, 1, 0, 0, 0, 0, 1, 1, 0, 1, 0, 1, 0, 1, 0, 1, 0, 0, 1,
   0, 0, 1, 0, 1, 1, 0, 0, 0, 1, 1, 0, 1, 0, 1, 0, 0, 0, 1, 0,
   0, 0, 0, 0, 1, 0, 0, 1, 0, 0, 1, 1, 1, 0, 1, 1, 0, 0, 1, 1,
   0, 1, 0, 0, 0, 1, 1, 1, 0, 0, 0, 0, 0, 1, 0, 1, 0, 0, 1, 1,
   0, 0, 0, 0, 0, 0, 0, 1, 1, 0, 1, 0, 1, 1, 0, 0, 0, 1, 1, 0,
   0, 0]

/-- `u8::reverse_bits`. -/
def reverseBits (i : ℕ) : ℕ := Bits.ofBits (Bits.toBits 8 i).reverse

def interleavePermutation : List ℕ :=
  ((List.range 256).map reverseBits).filter (· < NUM_SYMBOLS)

/-- Whether an odd number of the 32 bits are ones. -/
def parity (x : ℕ) : Bool := (List.range 32).foldl (fun odd i => odd ^^ x.testBit i) false

/-- The shift register after one more bit. -/
def shiftIn (state : ℕ) (bit : Bool) : ℕ := (2 * state + bit.toNat) % 2 ^ 32

/-- The channel bits of some bits, from a state of the register on. -/
def encodeFrom (state : ℕ) : List Bool → List Bool
  | [] => []
  | bit :: rest =>
    let state := shiftIn state bit
    parity (state &&& POLY1) :: parity (state &&& POLY2) :: encodeFrom state rest

def convolutionalEncode (data : List ℕ) : List Bool := encodeFrom 0 (bitsOfBytes data)

/-- The channel bits in the order of the symbols: the `p`-th goes where the permutation puts it. -/
def interleave (channelBits : List Bool) : List Bool :=
  (interleavePermutation.zip channelBits).foldl (fun out x => out.set x.1 x.2)
    (List.replicate NUM_SYMBOLS false)

def wsprEncodeSymbols (callsign grid4 : List ℕ) (powerDbm : ℤ) :
    Except Panic (Option (List ℕ)) := do
  let data ← messageData callsign grid4 powerDbm
  return data.map fun data =>
    List.zipWith (fun bit sync => 2 * bit.toNat + sync) (interleave (convolutionalEncode data))
      SYNC_VECTOR

end HamsOpen.Wspr
