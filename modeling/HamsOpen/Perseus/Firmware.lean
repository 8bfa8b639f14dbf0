import HamsOpen.Flex.Text
import HamsOpen.Lib.Memory
import HamsOpen.Lib.Utf8
import HamsOpen.Usb.Link
import Mathlib

/-!
# The firmware of the Perseus

The image of the microcontroller is a text of Intel HEX records, which is parsed and then loaded
into the RAM of the board while its processor is held in reset (`perseus.rs`). The register that
holds it there lies among the addresses that can be written.
-/

namespace HamsOpen.Perseus

open Flex (Text isSpace stripPrefix)
open Rig (ErrorKind RigError)
open Usb (Byte UsbFailure)

/-! ### Records -/

/-- One data record of an Intel HEX file. -/
structure HexRecord where
  address : UInt16
  data : List Byte
  deriving DecidableEq

def malformed (detail : String) : RigError := ⟨.malformed, detail⟩

def bad (n : ℕ) (why : String) : RigError :=
  malformed ("intel hex line " ++ toString n ++ ": " ++ why)

/-- The lines of a text, of which the first has begun. -/
def linesFrom : Text → Text → List Text
  | line, [] => if line = [] then [] else [line]
  | line, c :: text =>
    if c = '\n' then line :: linesFrom [] text else linesFrom (line ++ [c]) text

/-- The lines of a text. A carriage return at the end of one is white space, as `trim` removes. -/
def lines (text : Text) : List Text := linesFrom [] text

def trim (text : Text) : Text := (text.dropWhile isSpace).rdropWhile isSpace

/-- The value of a hexadecimal digit. -/
def hexDigit (b : Byte) : Option Byte :=
  if 0x30 ≤ b && b ≤ 0x39 then some (b - 0x30)
  else if 0x41 ≤ b && b ≤ 0x46 then some (b - 0x37)
  else if 0x61 ≤ b && b ≤ 0x66 then some (b - 0x57)
  else none

def PLUS : Byte := 0x2B

/-- Two hexadecimal digits. -/
def hexPair (a b : Byte) : Option Byte := do
  let high ← hexDigit a
  let low ← hexDigit b
  some (16 * high + low)

/-- A number of two characters, as the language reads it: a plus sign may stand before a digit. -/
def fromStrRadix (a b : Byte) : Option Byte := if a = PLUS then hexDigit b else hexPair a b

/-- The number at a place of a text. A place within a character has no digit. -/
def hexByte (text : List Byte) (start : ℕ) : Option Byte :=
  match text.drop start with
  | a :: b :: _ => fromStrRadix a b
  | _ => none

/-- `k` numbers from a place on. -/
def hexBytes (text : List Byte) : ℕ → ℕ → Option (List Byte)
  | _, 0 => some []
  | start, k + 1 => do
    let b ← hexByte text start
    let rest ← hexBytes text (start + 2) k
    some (b :: rest)

/-- Big endian. -/
def fromBeBytes (high low : Byte) : UInt16 := .ofNat (256 * high.toNat + low.toNat)

/-- The kind and the content of the record in a line. -/
def parseRecord (n : ℕ) (line : Text) : Except RigError (Byte × HexRecord) :=
  match stripPrefix [':'] line with
  | none => .error (bad n "no colon")
  | some body =>
    let body := Utf8.encode body
    match hexByte body 0 with
    | none => .error (bad n "bad length")
    | some length =>
      if body.length ≠ (length.toNat + 5) * 2 then
        .error (bad n "length does not match the record")
      else
        match hexBytes body 0 (length.toNat + 5) with
        | none => .error (bad n "not hexadecimal")
        | some bytes =>
          if bytes.sum ≠ 0 then .error (bad n "checksum")
          else .ok (bytes.getD 3 0xFF, ⟨fromBeBytes (bytes.getD 1 0) (bytes.getD 2 0),
            (bytes.drop 4).take length.toNat⟩)

/-- The records of lines, after some were read, and whether there was an end record. -/
def parseLines : ℕ → List HexRecord → Bool → List Text → Except RigError (List HexRecord × Bool)
  | _, records, ended, [] => .ok (records, ended)
  | n, records, ended, line :: rest =>
    if trim line = [] then parseLines (n + 1) records ended rest
    else if ended then .error (bad n "data after the end record")
    else
      match parseRecord n (trim line) with
      | .error e => .error e
      | .ok (kind, record) =>
        if kind = 0x00 then parseLines (n + 1) (records ++ [record]) false rest
        else if kind = 0x01 then parseLines (n + 1) records true rest
        else .error (bad n "unsupported record type")

/-- Parses Intel HEX text into data records. -/
def parseIntelHex (text : Text) : Except RigError (List HexRecord) :=
  match parseLines 1 [] false (lines text) with
  | .error e => .error e
  | .ok (records, ended) =>
    if !ended then .error (malformed "intel hex: no end record")
    else if records = [] then .error (malformed "intel hex: no data records")
    else .ok records

/-! ### What is well formed -/

/-- The numbers that a text spells, two characters each. -/
def pairs (read : Byte → Byte → Option Byte) : List Byte → Option (List Byte)
  | [] => some []
  | [_] => none
  | a :: b :: rest => do
    let v ← read a b
    let vs ← pairs read rest
    some (v :: vs)

/-- The bytes of a record before its checksum. -/
def HexRecord.front (kind : Byte) (r : HexRecord) : List Byte :=
  [.ofNat r.data.length, .ofNat (r.address.toNat / 256), r.address.toUInt8, kind] ++ r.data

/-- The bytes of a record: its length, address, kind, data, and what makes their sum zero. -/
def HexRecord.bytes (kind : Byte) (r : HexRecord) : List Byte :=
  r.front kind ++ [-(r.front kind).sum]

/-- The line is a colon and the bytes of the record. -/
def Spells (read : Byte → Byte → Option Byte) (line : Text) (kind : Byte) (r : HexRecord) : Prop :=
  ∃ body, line = ':' :: body ∧ r.data.length < 256 ∧
    pairs read (Utf8.encode body) = some (r.bytes kind)

/-- Data records, and one end record after them. -/
inductive Spelled (read : Byte → Byte → Option Byte) : List Text → List HexRecord → Prop
  | last {line : Text} {r : HexRecord} (h : Spells read line 0x01 r) : Spelled read [line] []
  | data {line : Text} {r : HexRecord} {ls : List Text} {rs : List HexRecord}
      (h : Spells read line 0x00 r) (hrest : Spelled read ls rs) :
      Spelled read (line :: ls) (r :: rs)

/-- The lines of a text that say something. -/
def statements (ls : List Text) : List Text := (ls.map trim).filter (· ≠ [])

/-- The text is a sequence of data records with right checksums, ended by one end record. -/
def WellFormed (read : Byte → Byte → Option Byte) (text : Text) (records : List HexRecord) : Prop :=
  Spelled read (statements (lines text)) records ∧ records ≠ []

/-- No number has a sign. -/
def Unsigned (text : Text) : Prop := ∀ line ∈ statements (lines text), PLUS ∉ Utf8.encode line

/-! ### The board -/

def REQUEST_TYPE_VENDOR_OUT : Byte := 0x40

def REQUEST_FIRMWARE_LOAD : Byte := 0xA0

/-- The register whose lowest bit holds the processor in reset. -/
def ADDR_CPUCS : UInt16 := 0xE600

/-- In milliseconds. -/
def TIMEOUT : ℕ := 1000

/-- A control transfer to the board. -/
structure ControlOut where
  requestType : Byte
  request : Byte
  value : UInt16
  index : UInt16
  data : List Byte
  timeout : ℕ
  deriving DecidableEq

/-- How a transfer ended. One that is accepted has moved all of its bytes. Of one that failed, some
of the first bytes may have been moved all the same. -/
inductive Outcome
  | accepted
  | failed (failure : UsbFailure) (moved : ℕ)
  deriving DecidableEq

/-- Where a board has RAM; its registers are at other addresses. -/
structure AddressMap where
  isRam : UInt16 → Bool
  cpucs : isRam ADDR_CPUCS = false

structure Board where
  held : Bool
  ram : UInt16 → Byte

/-- The bytes at their addresses, which go around at the end. -/
def cells : UInt16 → List Byte → List (UInt16 × Byte)
  | _, [] => []
  | a, v :: vs => (a, v) :: cells (a + 1) vs

namespace Board

variable (m : AddressMap)

/-- A byte is written at an address. -/
def put (b : Board) (c : UInt16 × Byte) : Board :=
  if c.1 = ADDR_CPUCS then { b with held := c.2 &&& 1 = 1 }
  else if m.isRam c.1 then { b with ram := Function.update b.ram c.1 c.2 }
  else b

def store (b : Board) (cs : List (UInt16 × Byte)) : Board := cs.foldl (put m) b

/-- A load request with so many of its bytes moved. -/
def take (b : Board) (t : ControlOut) (moved : ℕ) : Board :=
  if t.requestType = REQUEST_TYPE_VENDOR_OUT ∧ t.request = REQUEST_FIRMWARE_LOAD then
    b.store m ((cells t.value t.data).take moved)
  else b

end Board

/-! ### The load -/

/-- An error of a transfer, before its text is made of what was done and what failed. -/
structure UsbError where
  kind : ErrorKind
  what : String
  failure : UsbFailure
  deriving DecidableEq

def usbErr (what : String) (failure : UsbFailure) : UsbError :=
  let kind := match failure with
    | .noDevice => .linkDown
    | .timeout => .timeout
    | .stall | .other _ => .rejected
  ⟨kind, what, failure⟩

def firmwareLoad (address : UInt16) (data : List Byte) : ControlOut :=
  ⟨REQUEST_TYPE_VENDOR_OUT, REQUEST_FIRMWARE_LOAD, address, 0, data, TIMEOUT⟩

/-- What a transfer of a load is for. -/
inductive Sent
  /-- The processor is held in reset. -/
  | hold
  | record (r : HexRecord)
  /-- The processor is released. -/
  | release
  deriving DecidableEq

def Sent.request : Sent → ControlOut
  | hold => firmwareLoad ADDR_CPUCS [1]
  | record r => firmwareLoad r.address r.data
  | release => firmwareLoad ADDR_CPUCS [0]

/-- The records are written up to the first failure; `n` transfers were made before. -/
def writeRecords (usb : ℕ → Outcome) :
    ℕ → List HexRecord → List (Sent × Outcome) × Except UsbError Unit
  | _, [] => ([], .ok ())
  | n, r :: rs =>
    match usb n with
    | .failed failure _ => ([(.record r, usb n)], .error (usbErr "writing FX2 RAM" failure))
    | .accepted =>
      let (sent, result) := writeRecords usb (n + 1) rs
      ((.record r, .accepted) :: sent, result)

/-- Loads the firmware: the transfers with their outcomes, as the bus gives them, and the result.
The outcome of the release is no error. -/
def loadFx2 (usb : ℕ → Outcome) (records : List HexRecord) :
    List (Sent × Outcome) × Except UsbError Unit :=
  match usb 0 with
  | .failed failure _ => ([(.hold, usb 0)], .error (usbErr "holding the FX2 in reset" failure))
  | .accepted =>
    match writeRecords usb 1 records with
    | (sent, .error e) => ((.hold, .accepted) :: sent, .error e)
    | (sent, .ok ()) =>
      ((.hold, .accepted) :: (sent ++ [(.release, usb (records.length + 1))]), .ok ())

namespace Board

variable (m : AddressMap)

/-- The board after a transfer. -/
def after (b : Board) (t : Sent × Outcome) : Board :=
  match t.2 with
  | .accepted => b.take m t.1.request t.1.request.data.length
  | .failed _ moved => b.take m t.1.request moved

/-- The board after some transfers. -/
def run (b : Board) (ts : List (Sent × Outcome)) : Board := ts.foldl (after m) b

end Board

/-- The bytes of an image at their addresses. -/
def image (records : List HexRecord) : List (UInt16 × Byte) :=
  records.flatMap fun r => cells r.address r.data

/-- However the transfers end, the processor is held before, during and after each write, and when
it is released each byte of the image is in RAM at its address. -/
structure Loads (m : AddressMap) (records : List HexRecord) : Prop where
  held (usb : ℕ → Outcome) (b : Board) (before after : List (Sent × Outcome)) (r : HexRecord)
    (o : Outcome) (moved : ℕ) : (loadFx2 usb records).1 = before ++ (.record r, o) :: after →
    ((b.run m before).take m (Sent.record r).request moved).held = true
  loaded (usb : ℕ → Outcome) (b : Board) (before after : List (Sent × Outcome)) (o : Outcome) :
    (loadFx2 usb records).1 = before ++ (.release, o) :: after →
    ∀ c ∈ image records, m.isRam c.1 = true ∧ (b.run m before).ram c.1 = c.2

/-- Every byte lies in RAM, and no two records put different bytes at one address. -/
def Fits (m : AddressMap) (records : List HexRecord) : Prop :=
  (∀ c ∈ image records, m.isRam c.1 = true) ∧ Memory.Agree (image records)

/-- The text is accepted just when it is well formed, and an image that is accepted is loaded as it
should be. -/
def Right (m : AddressMap) (text : Text) : Prop :=
  (∀ records, parseIntelHex text = .ok records ↔ WellFormed hexPair text records) ∧
    ∀ records, parseIntelHex text = .ok records → Loads m records


/-! ### The numbers of a line -/

section Numbers

variable {read : Byte → Byte → Option Byte} {text bs vs : List Byte} {a b v : Byte}

theorem hexPair_iff : hexPair a b = some v ↔ fromStrRadix a b = some v ∧ a ≠ PLUS ∧ b ≠ PLUS := by
  have hplus : hexDigit PLUS = none := by decide
  rw [fromStrRadix]
  by_cases ha : a = PLUS
  · -- a sign is no digit
    have hnone : hexPair a b = none := by rw [ha, hexPair, hplus]; rfl
    rw [hnone]
    exact ⟨nofun, fun h => absurd ha h.2.1⟩
  · rw [if_neg ha]
    refine ⟨fun h => ⟨h, ha, ?_⟩, And.left⟩
    rintro rfl
    rw [hexPair, hplus] at h
    cases hhigh : hexDigit a with
    | none => rw [hhigh] at h; cases h
    | some high => rw [hhigh] at h; cases h

theorem pairs_cons : pairs read (a :: b :: bs) = some vs ↔
    ∃ w ws, read a b = some w ∧ pairs read bs = some ws ∧ vs = w :: ws := by
  rw [pairs]
  cases read a b with
  | none => exact ⟨nofun, fun ⟨_, _, h, _⟩ => nomatch h⟩
  | some w =>
    cases pairs read bs with
    | none => exact ⟨nofun, fun ⟨_, _, _, h, _⟩ => nomatch h⟩
    | some ws => exact ⟨fun h => ⟨w, ws, rfl, rfl, (Option.some.inj h).symm⟩,
        fun ⟨_, _, hw, hws, h⟩ => by cases hw; cases hws; exact congrArg some h.symm⟩

theorem length_of_pairs (h : pairs read bs = some vs) : bs.length = 2 * vs.length := by
  induction bs using pairs.induct generalizing vs with
  | case1 => cases h; rfl
  | case2 => cases h
  | case3 a b bs ih =>
    obtain ⟨w, ws, -, hws, rfl⟩ := pairs_cons.mp h
    rw [List.length_cons, List.length_cons, ih hws, List.length_cons, Nat.mul_succ]

/-- Without signs the numbers are pairs of digits. -/
theorem pairs_hexPair_iff :
    pairs hexPair bs = some vs ↔ pairs fromStrRadix bs = some vs ∧ PLUS ∉ bs := by
  induction bs using pairs.induct generalizing vs with
  | case1 => exact ⟨fun h => ⟨h, List.not_mem_nil⟩, And.left⟩
  | case2 a => exact ⟨nofun, fun h => nomatch h.1⟩
  | case3 a b bs ih =>
    rw [pairs_cons, pairs_cons]
    simp only [List.mem_cons, not_or, hexPair_iff, ih, ne_comm (a := PLUS)]
    constructor
    · rintro ⟨w, ws, ⟨hw, ha, hb⟩, ⟨hws, hbs⟩, rfl⟩
      exact ⟨⟨w, ws, hw, hws, rfl⟩, ha, hb, hbs⟩
    · rintro ⟨⟨w, ws, hw, hws, rfl⟩, ha, hb, hbs⟩
      exact ⟨w, ws, ⟨hw, ha, hb⟩, ⟨hws, hbs⟩, rfl⟩

/-- The numbers are read one after the other. -/
theorem hexBytes_eq {start k : ℕ} (h : (text.drop start).length = 2 * k) :
    hexBytes text start k = pairs fromStrRadix (text.drop start) := by
  induction k generalizing start with
  | zero => rw [List.length_eq_zero_iff.mp h]; rfl
  | succ k ih =>
    match hdrop : text.drop start with
    | [] => rw [hdrop] at h; cases h
    | [_] => rw [hdrop] at h; simp only [List.length_cons, List.length_nil] at h; omega
    | a :: b :: rest =>
      have hrest : text.drop (start + 2) = rest := by rw [← List.drop_drop, hdrop]; rfl
      rw [hdrop, List.length_cons, List.length_cons] at h
      rw [hexBytes, hexByte, hdrop, ih (by rw [hrest]; omega), hrest, pairs]

/-- The number at the start is the first one. -/
theorem hexByte_zero (h : pairs fromStrRadix bs = some vs) : hexByte bs 0 = vs.head? := by
  match bs, h with
  | [], h => cases h; rfl
  | a :: b :: rest, h =>
    obtain ⟨w, ws, hw, -, rfl⟩ := pairs_cons.mp h
    exact hw

end Numbers

/-! ### The bytes of a record -/

section Bytes

variable {kind high low : Byte} {bytes : List Byte} {r : HexRecord}

theorem high_fromBeBytes : UInt8.ofNat ((fromBeBytes high low).toNat / 256) = high := by
  have hhigh := high.toNat_lt
  have hlow := low.toNat_lt
  apply UInt8.toNat_inj.mp
  rw [fromBeBytes, UInt16.toNat_ofNat', UInt8.toNat_ofNat']
  omega

theorem low_fromBeBytes : (fromBeBytes high low).toUInt8 = low := by
  have hlow := low.toNat_lt
  apply UInt8.toNat_inj.mp
  rw [fromBeBytes, UInt16.toNat_toUInt8, UInt16.toNat_ofNat']
  omega

theorem fromBeBytes_address (a : UInt16) :
    fromBeBytes (.ofNat (a.toNat / 256)) a.toUInt8 = a := by
  have ha := a.toNat_lt
  apply UInt16.toNat_inj.mp
  rw [fromBeBytes, UInt16.toNat_ofNat', UInt8.toNat_ofNat', UInt16.toNat_toUInt8]
  omega

/-- The bytes of a record are those with the length of their own first byte and a sum of zero. -/
theorem bytes_iff : r.data.length < 256 ∧ bytes = r.bytes kind ↔
    ∃ length, bytes.head? = some length ∧ bytes.length = length.toNat + 5 ∧ bytes.sum = 0 ∧
      kind = bytes.getD 3 0xFF ∧ r = ⟨fromBeBytes (bytes.getD 1 0) (bytes.getD 2 0),
        (bytes.drop 4).take length.toNat⟩ := by
  constructor
  · rintro ⟨hlength, rfl⟩
    refine ⟨.ofNat r.data.length, rfl, ?_, ?_, rfl, ?_⟩
    · rw [UInt8.toNat_ofNat', Nat.mod_eq_of_lt hlength]
      simp [HexRecord.bytes, HexRecord.front]
    · rw [HexRecord.bytes, List.sum_append, List.sum_singleton]
      exact UInt8.add_right_neg _
    · rw [UInt8.toNat_ofNat', Nat.mod_eq_of_lt hlength]
      simp [HexRecord.bytes, HexRecord.front, fromBeBytes_address]
  · rintro ⟨length, hhead, hlength, hsum, rfl, rfl⟩
    -- the four bytes at the front, the data, and one byte more
    match bytes, hhead, hlength with
    | length' :: high :: low :: kind :: rest, hhead, hlength =>
      obtain rfl : length' = length := Option.some.inj hhead
      have hrest : rest.length = length'.toNat + 1 := by
        simp only [List.length_cons] at hlength
        omega
      obtain ⟨data, c, rfl⟩ := (List.eq_nil_or_concat' rest).resolve_left
        (by rintro rfl; cases hrest)
      rw [List.length_append, List.length_singleton, Nat.add_right_cancel_iff] at hrest
      have hdata : ((length' :: high :: low :: kind :: (data ++ [c])).drop 4).take
          length'.toNat = data := by
        rw [← hrest]
        exact List.take_left
      rw [hdata]
      constructor
      · rw [hrest]
        exact length'.toNat_lt
      · have hfront : HexRecord.front kind ⟨fromBeBytes high low, data⟩ =
            length' :: high :: low :: kind :: data := by
          rw [HexRecord.front, high_fromBeBytes, low_fromBeBytes, hrest, UInt8.ofNat_toNat]
          rfl
        have hsplit : length' :: high :: low :: kind :: (data ++ [c]) =
            (length' :: high :: low :: kind :: data) ++ [c] := rfl
        rw [hsplit, List.sum_append, List.sum_singleton] at hsum
        have hcheck : c = -(length' :: high :: low :: kind :: data).sum :=
          (UInt8.add_right_inj _).mp (hsum.trans (UInt8.add_right_neg _).symm)
        have hbytes : (length' :: high :: low :: kind :: data) ++ [c] =
            HexRecord.bytes kind ⟨fromBeBytes high low, data⟩ := by
          rw [HexRecord.bytes, hfront, hcheck]
        exact hbytes

end Bytes

/-! ### The texts that are accepted -/

section Texts

variable {line text : Text} {kind : Byte} {r : HexRecord} {n : ℕ} {ls : List Text}
  {records rs : List HexRecord}

theorem stripPrefix_colon {body : Text} :
    stripPrefix [':'] line = some body ↔ line = ':' :: body := by
  rw [stripPrefix]
  constructor
  · intro h
    by_cases hprefix : [':'] <+: line
    · obtain ⟨rest, rfl⟩ := hprefix
      rw [if_pos ⟨rest, rfl⟩] at h
      exact congrArg (':' :: ·) (Option.some.inj h)
    · rw [if_neg hprefix] at h
      cases h
  · rintro rfl
    exact if_pos ⟨body, rfl⟩

/-- The line of a record is what spells it. -/
theorem parseRecord_iff :
    parseRecord n line = .ok (kind, r) ↔ Spells fromStrRadix line kind r := by
  have hstart (bs : List Byte) : bs.drop 0 = bs := rfl
  constructor
  · intro h
    rw [parseRecord] at h
    split at h
    next => cases h
    next body hbody =>
      rw [stripPrefix_colon] at hbody
      dsimp only at h
      split at h
      next => cases h
      next length hlength =>
        split at h
        next => cases h
        next hsize =>
          rw [not_not] at hsize
          rw [hexBytes_eq (by rw [hstart, hsize, Nat.mul_comm]), hstart] at h
          split at h
          next => cases h
          next bytes hbytes =>
            split at h
            next => cases h
            next hsum =>
              rw [not_not] at hsum
              obtain ⟨rfl, rfl⟩ := Prod.mk.inj (Except.ok.inj h)
              have hcount := length_of_pairs hbytes
              have hhead := (hexByte_zero hbytes).symm.trans hlength
              obtain ⟨hsmall, hspelled⟩ := bytes_iff.mpr
                ⟨length, hhead, by omega, hsum, rfl, rfl⟩
              exact ⟨body, hbody, hsmall, hbytes.trans (congrArg some hspelled)⟩
  · rintro ⟨body, rfl, hsmall, hbytes⟩
    generalize hspelled : r.bytes kind = bytes at hbytes
    obtain ⟨length, hhead, hcount, hsum, rfl, rfl⟩ := bytes_iff.mp ⟨hsmall, hspelled.symm⟩
    have hsize := length_of_pairs hbytes
    rw [hcount, Nat.mul_comm] at hsize
    have hread : hexBytes (Utf8.encode body) 0 (length.toNat + 5) = some bytes := by
      rw [hexBytes_eq (by rw [hstart, hsize, Nat.mul_comm]), hstart, hbytes]
    rw [parseRecord, stripPrefix_colon.mpr rfl]
    dsimp only
    rw [hexByte_zero hbytes, hhead]
    dsimp only
    rw [if_neg (not_not.mpr hsize), hread]
    dsimp only
    rw [if_neg (not_not.mpr hsum)]

theorem statements_cons : statements (line :: ls) =
    if trim line = [] then statements ls else trim line :: statements ls := by
  unfold statements
  rw [List.map_cons, List.filter_cons]
  by_cases h : trim line = []
  · rw [if_neg (by simpa using h), if_pos h]
  · rw [if_pos (by simpa using h), if_neg h]

/-- After the end record there is nothing more. -/
theorem parseLines_ended :
    parseLines n records true ls = .ok (rs, true) ↔ statements ls = [] ∧ rs = records := by
  induction ls generalizing n with
  | nil =>
    rw [parseLines]
    exact ⟨fun h => ⟨rfl, by cases h; rfl⟩, fun h => by rw [h.2]⟩
  | cons line ls ih =>
    rw [parseLines, statements_cons]
    by_cases hblank : trim line = []
    · rw [if_pos hblank, if_pos hblank, ih]
    · rw [if_neg hblank, if_neg hblank, if_pos rfl]
      exact ⟨nofun, fun h => nomatch h.1⟩

/-- The records that are read are those that the lines spell. -/
theorem parseLines_iff : parseLines n records false ls = .ok (rs, true) ↔
    ∃ read, Spelled fromStrRadix (statements ls) read ∧ rs = records ++ read := by
  induction ls generalizing n records with
  | nil =>
    rw [parseLines]
    exact ⟨nofun, fun ⟨_, h, _⟩ => nomatch h⟩
  | cons line ls ih =>
    rw [parseLines, statements_cons]
    by_cases hblank : trim line = []
    · rw [if_pos hblank, if_pos hblank, ih]
    rw [if_neg hblank, if_neg hblank, if_neg Bool.false_ne_true]
    constructor
    · intro h
      cases hparse : parseRecord n (trim line) with
      | error e => rw [hparse] at h; cases h
      | ok parsed =>
        obtain ⟨kind, r⟩ := parsed
        rw [hparse] at h
        dsimp only at h
        by_cases hdata : kind = 0x00
        · rw [if_pos hdata, ih] at h
          obtain ⟨read, hread, rfl⟩ := h
          rw [hdata, parseRecord_iff] at hparse
          exact ⟨r :: read, .data hparse hread, List.append_assoc _ _ _⟩
        · rw [if_neg hdata] at h
          by_cases hend : kind = 0x01
          · rw [if_pos hend, parseLines_ended] at h
            rw [hend, parseRecord_iff] at hparse
            rw [h.1, h.2]
            exact ⟨[], .last hparse, (List.append_nil _).symm⟩
          · rw [if_neg hend] at h
            cases h
    · rintro ⟨read, hread, rfl⟩
      generalize hrest : statements ls = rest at hread
      cases hread with
      | last hspells =>
        rw [parseRecord_iff.mpr hspells]
        dsimp only
        rw [if_neg (by decide), if_pos rfl, parseLines_ended]
        exact ⟨hrest, List.append_nil _⟩
      | data hspells hrest' =>
        rw [parseRecord_iff.mpr hspells]
        dsimp only
        rw [if_pos rfl, ih, hrest]
        exact ⟨_, hrest', List.append_cons _ _ _⟩

/-- What is accepted is well formed, when a plus sign may stand for a digit of zero. -/
theorem parseIntelHex_iff :
    parseIntelHex text = .ok records ↔ WellFormed fromStrRadix text records := by
  have hlines (rs : List HexRecord) : parseLines 1 [] false (lines text) = .ok (rs, true) ↔
      Spelled fromStrRadix (statements (lines text)) rs := by
    rw [parseLines_iff]
    exact ⟨fun ⟨_, h, heq⟩ => heq ▸ h, fun h => ⟨rs, h, rfl⟩⟩
  rw [WellFormed, ← hlines, parseIntelHex]
  match hparse : parseLines 1 [] false (lines text) with
  | .error e => exact ⟨nofun, fun h => nomatch h.1⟩
  | .ok (rs, false) => exact ⟨nofun, fun h => nomatch h.1⟩
  | .ok (rs, true) =>
    dsimp only
    rw [if_neg (by decide)]
    by_cases hnil : rs = []
    · rw [if_pos hnil]
      refine ⟨nofun, fun h => absurd ?_ h.2⟩
      cases h.1
      exact hnil
    · rw [if_neg hnil]
      exact ⟨fun h => by cases h; exact ⟨rfl, hnil⟩, fun h => by cases h.1; rfl⟩

theorem spells_hexPair_iff : Spells hexPair line kind r ↔
    Spells fromStrRadix line kind r ∧ PLUS ∉ Utf8.encode line := by
  have hcolon (body : Text) : PLUS ∉ Utf8.encode (':' :: body) ↔ PLUS ∉ Utf8.encode body := by
    rw [Utf8.encode_cons, List.mem_append, not_or]
    exact and_iff_right (by decide)
  constructor
  · rintro ⟨body, rfl, hsmall, hbytes⟩
    obtain ⟨hbytes, hplus⟩ := pairs_hexPair_iff.mp hbytes
    exact ⟨⟨body, rfl, hsmall, hbytes⟩, (hcolon body).mpr hplus⟩
  · rintro ⟨⟨body, rfl, hsmall, hbytes⟩, hplus⟩
    exact ⟨body, rfl, hsmall, pairs_hexPair_iff.mpr ⟨hbytes, (hcolon body).mp hplus⟩⟩

/-- Lines without signs are spelled with digits alone. -/
theorem spelled_hexPair_iff : Spelled hexPair ls rs ↔
    Spelled fromStrRadix ls rs ∧ ∀ line ∈ ls, PLUS ∉ Utf8.encode line := by
  constructor
  · intro h
    induction h with
    | last h =>
      obtain ⟨h, hplus⟩ := spells_hexPair_iff.mp h
      exact ⟨.last h, List.forall_mem_singleton.mpr hplus⟩
    | data h _ ih =>
      obtain ⟨h, hplus⟩ := spells_hexPair_iff.mp h
      exact ⟨.data h ih.1, List.forall_mem_cons.mpr ⟨hplus, ih.2⟩⟩
  · rintro ⟨h, hplus⟩
    induction h with
    | last h => exact .last (spells_hexPair_iff.mpr ⟨h, hplus _ List.mem_cons_self⟩)
    | data h _ ih =>
      obtain ⟨hline, hplus⟩ := List.forall_mem_cons.mp hplus
      exact .data (spells_hexPair_iff.mpr ⟨h, hline⟩) (ih hplus)

theorem wellFormed_hexPair_iff : WellFormed hexPair text records ↔
    WellFormed fromStrRadix text records ∧ Unsigned text := by
  rw [WellFormed, spelled_hexPair_iff, WellFormed, Unsigned, and_right_comm]

end Texts

/-! ### The images that are loaded -/

section Loads

variable {m : AddressMap} {b : Board} {cs : List (UInt16 × Byte)} {usb : ℕ → Outcome} {n : ℕ}
  {records : List HexRecord} {r : HexRecord} {s : Sent} {o : Outcome}
  {before after : List (Sent × Outcome)}

/-- What lies in RAM changes nothing else. -/
theorem store_of_isRam (h : ∀ c ∈ cs, m.isRam c.1 = true) :
    b.store m cs = { b with ram := Memory.store b.ram cs } := by
  induction cs generalizing b with
  | nil => rfl
  | cons c cs ih =>
    obtain ⟨hc, hcs⟩ := List.forall_mem_cons.mp h
    have hput : b.put m c = { b with ram := Function.update b.ram c.1 c.2 } := by
      rw [Board.put, if_neg, if_pos hc]
      intro heq
      rw [heq, m.cpucs] at hc
      cases hc
    rw [Board.store, List.foldl_cons, hput]
    exact ih hcs

@[simp]
theorem length_cells (a : UInt16) (vs : List Byte) : (cells a vs).length = vs.length := by
  induction vs generalizing a with
  | nil => rfl
  | cons v vs ih => rw [cells, List.length_cons, List.length_cons, ih]

/-- The records up to a transfer were accepted before it. -/
theorem mem_writeRecords (h : (writeRecords usb n records).1 = before ++ (s, o) :: after) :
    ∃ front r rest, records = front ++ r :: rest ∧ s = .record r ∧
      before = front.map fun r => (.record r, .accepted) := by
  induction records generalizing n before with
  | nil =>
    rw [writeRecords] at h
    exact absurd h.symm (List.append_ne_nil_of_right_ne_nil _ (List.cons_ne_nil _ _))
  | cons r rs ih =>
    rw [writeRecords] at h
    match before with
    | [] =>
      refine ⟨[], r, rs, rfl, ?_, rfl⟩
      split at h
      · exact (congrArg Prod.fst (List.cons.inj h).1).symm
      · exact (congrArg Prod.fst (List.cons.inj h).1).symm
    | first :: before =>
      split at h
      · exact absurd (List.cons.inj h).2.symm
          (List.append_ne_nil_of_right_ne_nil _ (List.cons_ne_nil _ _))
      · obtain ⟨hfirst, hrest⟩ := List.cons.inj h
        obtain ⟨front, r', rest, hrs, hs, hbefore⟩ := ih hrest
        exact ⟨r :: front, r', rest, by rw [hrs, List.cons_append], hs, by
          rw [← hfirst, hbefore, List.map_cons]⟩

/-- When no write fails, all records were written. -/
theorem writeRecords_ok (h : (writeRecords usb n records).2 = .ok ()) :
    (writeRecords usb n records).1 = records.map fun r => (.record r, .accepted) := by
  induction records generalizing n with
  | nil => rfl
  | cons r rs ih =>
    rw [writeRecords] at h ⊢
    split at h
    · cases h
    · next haccepted =>
      rw [List.map_cons, ← ih h]

/-- A transfer after the hold is a write after accepted ones, or the release after all of them. -/
theorem mem_loadFx2 (h : (loadFx2 usb records).1 = before ++ (s, o) :: after) (hs : s ≠ .hold) :
    ∃ front rest, records = front ++ rest ∧
      before = (.hold, .accepted) :: front.map (fun r => (.record r, .accepted)) ∧
      (rest = [] ∧ s = .release ∨ ∃ r rest', rest = r :: rest' ∧ s = .record r) := by
  have hwrite {before' : List (Sent × Outcome)} {after' : List (Sent × Outcome)}
      (hsent : (writeRecords usb 1 records).1 = before' ++ (s, o) :: after') :
      ∃ front rest, records = front ++ rest ∧
        before' = front.map (fun r => (.record r, .accepted)) ∧
        (rest = [] ∧ s = .release ∨ ∃ r rest', rest = r :: rest' ∧ s = .record r) := by
    obtain ⟨front, r, rest, hrecords, hs, hbefore⟩ := mem_writeRecords hsent
    exact ⟨front, r :: rest, hrecords, hbefore, .inr ⟨r, rest, rfl, hs⟩⟩
  -- the hold itself is no such transfer, so there is one before it
  match before with
  | [] =>
    have hfirst : ((loadFx2 usb records).1.head?).map Prod.fst = some .hold := by
      rw [loadFx2]
      split
      · rfl
      · split <;> rfl
    rw [h] at hfirst
    exact absurd (Option.some.inj hfirst) hs
  | first :: before =>
    rw [loadFx2] at h
    split at h
    · exact absurd (List.cons.inj h).2.symm
        (List.append_ne_nil_of_right_ne_nil _ (List.cons_ne_nil _ _))
    · split at h
      next sent e hsent =>
        obtain ⟨rfl, hrest⟩ := List.cons.inj h
        obtain ⟨front, rest, hrecords, hbefore, hcase⟩ :=
          hwrite ((congrArg Prod.fst hsent).trans hrest)
        exact ⟨front, rest, hrecords, congrArg _ hbefore, hcase⟩
      next sent hsent =>
        obtain ⟨rfl, hrest⟩ := List.cons.inj h
        rcases List.eq_nil_or_concat' after with rfl | ⟨after', last, rfl⟩
        · -- the last transfer is the release
          obtain ⟨hbefore, hlast⟩ := List.append_inj' hrest rfl
          have hall := writeRecords_ok (congrArg Prod.snd hsent)
          rw [hsent] at hall
          refine ⟨records, [], (List.append_nil _).symm, congrArg _ (hbefore.symm.trans hall),
            .inl ⟨rfl, ?_⟩⟩
          exact (congrArg Prod.fst (List.cons.inj hlast).1).symm
        · have hrest := hrest.trans (List.append_assoc before ((s, o) :: after') [last]).symm
          obtain ⟨front, rest, hrecords, hbefore, hcase⟩ :=
            hwrite ((congrArg Prod.fst hsent).trans (List.append_inj' hrest rfl).1)
          exact ⟨front, rest, hrecords, congrArg _ hbefore, hcase⟩

theorem take_request (r : HexRecord) (moved : ℕ) :
    b.take m (Sent.record r).request moved = b.store m ((cells r.address r.data).take moved) :=
  if_pos ⟨rfl, rfl⟩

/-- An accepted hold holds the processor. -/
theorem after_hold : (b.after m (.hold, .accepted)).held = true := by
  have htake : b.after m (.hold, .accepted) = b.take m Sent.hold.request 1 := rfl
  have hput : b.take m Sent.hold.request 1 = b.put m (ADDR_CPUCS, 1) := if_pos ⟨rfl, rfl⟩
  have hbit : (1 : Byte) &&& 1 = 1 := by decide
  rw [htake, hput, Board.put, if_pos rfl]
  exact decide_eq_true hbit

/-- Records that were accepted are in RAM. -/
theorem run_records (h : ∀ c ∈ image records, m.isRam c.1 = true) :
    b.run m (records.map fun r => (.record r, .accepted)) =
      { b with ram := Memory.store b.ram (image records) } := by
  induction records generalizing b with
  | nil => rfl
  | cons r rs ih =>
    rw [image, List.flatMap_cons] at h ⊢
    obtain ⟨hr, hrs⟩ := List.forall_mem_append.mp h
    have hafter : b.after m (.record r, .accepted) =
        { b with ram := Memory.store b.ram (cells r.address r.data) } := by
      refine (take_request r _).trans ?_
      have hall : (cells r.address r.data).take r.data.length = cells r.address r.data :=
        List.take_of_length_le (length_cells _ _).le
      rw [Sent.request, firmwareLoad, hall]
      exact store_of_isRam hr
    rw [List.map_cons, Board.run, List.foldl_cons, hafter]
    refine (ih hrs).trans ?_
    rw [Memory.store_append]
    rfl

/-- When nothing fails, the release comes after the hold and all records. -/
theorem loadFx2_accepted : (loadFx2 (fun _ => .accepted) records).1 =
    ((.hold, .accepted) :: records.map fun r => (.record r, .accepted)) ++
      [(.release, .accepted)] := by
  have hwrite (n : ℕ) : writeRecords (fun _ => .accepted) n records =
      (records.map fun r => (.record r, .accepted), .ok ()) := by
    induction records generalizing n with
    | nil => rfl
    | cons r rs ih =>
      rw [writeRecords]
      dsimp only
      rw [ih, List.map_cons]
  rw [loadFx2]
  dsimp only
  rw [hwrite]
  rfl

/-- Exactly the images that fit are loaded as they should be. -/
theorem loads_iff : Loads m records ↔ Fits m records := by
  constructor
  · intro h
    have hall := h.loaded _ ⟨false, fun _ => 0⟩ _ _ _ loadFx2_accepted
    refine ⟨fun c hc => (hall c hc).1, fun c hc c' hc' haddress => Prod.ext haddress ?_⟩
    -- one address has one byte
    rw [← (hall c hc).2, ← (hall c' hc').2, haddress]
  · rintro ⟨hram, hagree⟩
    constructor
    · intro usb b before after r o moved hload
      obtain ⟨front, rest, rfl, rfl, ⟨-, hs⟩ | ⟨r, rest', rfl, hs⟩⟩ := mem_loadFx2 hload nofun
      · cases hs
      cases hs
      rw [image, List.flatMap_append, List.flatMap_cons] at hram
      obtain ⟨hfront, hrest⟩ := List.forall_mem_append.mp hram
      have hr := (List.forall_mem_append.mp hrest).1
      rw [take_request, Board.run, List.foldl_cons,
        store_of_isRam fun c hc => hr c (List.mem_of_mem_take hc)]
      exact (congrArg Board.held (run_records hfront)).trans
        (after_hold (m := m) (b := b))
    · intro usb b before after o hload c hc
      obtain ⟨front, rest, rfl, rfl, ⟨rfl, -⟩ | ⟨r, rest', -, hs⟩⟩ := mem_loadFx2 hload nofun
      · rw [List.append_nil] at hram hagree hc
        rw [Board.run, List.foldl_cons]
        refine ⟨hram c hc, (congrFun (congrArg Board.ram (run_records hram)) c.1).trans ?_⟩
        exact Memory.store_of_mem hagree hc
      · cases hs

end Loads

/-- A text is treated as it should be exactly when it would not be well formed even with a plus sign
in place of a digit of zero, or it has no sign, its bytes lie in RAM and its records agree. -/
theorem right_iff (m : AddressMap) (text : Text) : Right m text ↔
    ∀ records, WellFormed fromStrRadix text records → Unsigned text ∧ Fits m records := by
  unfold Right
  simp only [parseIntelHex_iff, loads_iff, wellFormed_hexPair_iff]
  constructor
  · rintro ⟨haccepts, hloads⟩ records h
    exact ⟨((haccepts records).mp h).2, hloads records h⟩
  · intro h
    constructor
    · intro records
      exact ⟨fun hform => ⟨hform, (h records hform).1⟩, And.left⟩
    · intro records hform
      exact (h records hform).2

/-- Only the register is not RAM. -/
def allRam : AddressMap := ⟨fun a => a ≠ ADDR_CPUCS, by decide⟩

/-- A sign is accepted as the first digit of a length. -/
def signed : Text := ":+1000000AA55\n:00000001FF".toList

/-- A record lies at the register that holds the processor in reset. -/
def resetting : Text := ":01E600000019\n:00000001FF".toList

/-- A text with a sign is accepted, and an image that releases the processor is loaded. -/
theorem sign_and_reset : ¬ Right allRam signed ∧ ¬ Right allRam resetting := by
  constructor
  · rintro ⟨haccepts, -⟩
    have hparse : parseIntelHex signed = .ok [⟨0, [0xAA]⟩] := by decide
    have hsign : ¬ Unsigned signed := by unfold Unsigned; decide
    exact hsign (wellFormed_hexPair_iff.mp ((haccepts _).mp hparse)).2
  · rintro ⟨-, hloads⟩
    have hparse : parseIntelHex resetting = .ok [⟨ADDR_CPUCS, [0]⟩] := by decide
    have hram := (loads_iff.mp (hloads _ hparse)).1 (ADDR_CPUCS, 0) List.mem_cons_self
    cases hram

end HamsOpen.Perseus
