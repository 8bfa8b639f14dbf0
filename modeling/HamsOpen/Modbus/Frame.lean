import Mathlib.Data.List.GetD
import Mathlib.Tactic.IntervalCases

/-!
# Modbus frames

The sans-IO half of the coil relay driver (`modbus.rs`): checksums, ASCII and RTU framing, the
request PDUs and the check of a reply. A byte is a `UInt8`; a coil address is a `UInt16`, as on the
wire.
-/

namespace HamsOpen.Modbus

abbrev Byte := UInt8

def FN_READ_COILS : Byte := 0x01
def FN_WRITE_COIL : Byte := 0x05
def FN_WRITE_COILS : Byte := 0x0F
def MAX_FRAME : Nat := 520

/-- Serial-line framing. -/
inductive Framing
  | ascii | rtu
  deriving DecidableEq

/-- The classes of `StationErrorKind` an error of this driver has. -/
inductive ErrorKind
  | config | driver | timeout
  deriving DecidableEq

/-- What can go wrong in the driver. The text of an error that the port reports is part of it. -/
inductive ModbusError
  | notAscii | asciiLength | nonHexDigit | asciiChecksum
  | rtuTooShort | rtuChecksum
  | emptyPdu | exception (code : Option Byte) | otherFunction | byteCount | mismatch
  | pastCoils (line coils : Nat)
  | portClosed | readFailed (e : String) | writeFailed (e : String) | flushFailed (e : String)
  | noReply | tooLong
  | notReadable | otherSlave
  | backoff | safeNotAcknowledged | notAcknowledged
  | unknownRecord | unexpectedRead
  deriving DecidableEq

namespace ModbusError

def kind : ModbusError → ErrorKind
  | pastCoils _ _ => .config
  | noReply => .timeout
  | _ => .driver

def detail : ModbusError → String
  | notAscii => "modbus: not an ASCII frame"
  | asciiLength => "modbus: ASCII frame has a bad length"
  | nonHexDigit => "modbus: ASCII frame has a non-hex digit"
  | asciiChecksum => "modbus: ASCII checksum mismatch"
  | rtuTooShort => "modbus: RTU frame too short"
  | rtuChecksum => "modbus: RTU checksum mismatch"
  | emptyPdu => "modbus: empty PDU"
  | exception (some code) => s!"modbus: exception code Some({code}) from the board"
  | exception none => "modbus: exception code None from the board"
  | otherFunction => "modbus: reply to a different function"
  | byteCount => "modbus: coil read has the wrong byte count"
  | mismatch => "modbus: reply does not match the request"
  | pastCoils line coils => s!"line {line} is past the board's {coils} coils"
  | portClosed => "modbus: the port closed"
  | readFailed e => s!"modbus: read failed: {e}"
  | writeFailed e => s!"modbus: write failed: {e}"
  | flushFailed e => s!"modbus: flush failed: {e}"
  | noReply => "modbus: no reply"
  | tooLong => "modbus: reply too long"
  | notReadable => "modbus: this board's status is not readable; read coils is never sent"
  | otherSlave => "modbus: reply from a different slave"
  | backoff => "modbus: the safe state is not applied yet; retrying with backoff"
  | safeNotAcknowledged => "modbus: the safe-state write was not acknowledged"
  | notAcknowledged => "modbus: write was not acknowledged"
  | unknownRecord => "modbus: the recorded state of this line is unknown"
  | unexpectedRead => "modbus: unexpected read reply"

/-- The detail says `port closed` or `failed:`. -/
def portLost : ModbusError → Bool
  | portClosed | readFailed _ | writeFailed _ | flushFailed _ => true
  | _ => false

end ModbusError

/-! ### Checksums -/

/-- The Modbus ASCII checksum: the two's complement of the byte sum, low byte. -/
def lrc (data : List Byte) : Byte := -data.foldl (· + ·) 0

/-- One bit of the CRC. -/
def crcBit (crc : UInt16) : UInt16 :=
  if crc &&& 1 == 1 then (crc >>> 1) ^^^ 0xA001 else crc >>> 1

/-- The Modbus RTU CRC-16 (polynomial 0xA001 reflected, start 0xFFFF). -/
def crc16 (data : List Byte) : UInt16 :=
  data.foldl (fun crc byte => Nat.repeat crcBit 8 (crc ^^^ byte.toUInt16)) 0xFFFF

def highByte (n : UInt16) : Byte := (n >>> 8).toUInt8
def lowByte (n : UInt16) : Byte := n.toUInt8

/-- The number of two bytes, the high one first. -/
def beNumber (high low : Byte) : Nat := 256 * high.toNat + low.toNat

/-! ### Framing -/

def COLON : Byte := 0x3A
def CRLF : List Byte := [0x0D, 0x0A]

/-- One hex digit's value. -/
def hexVal (c : Byte) : Option Byte :=
  if 0x30 ≤ c ∧ c ≤ 0x39 then some (c - 0x30)
  else if 0x41 ≤ c ∧ c ≤ 0x46 then some (c - 0x41 + 10)
  else if 0x61 ≤ c ∧ c ≤ 0x66 then some (c - 0x61 + 10)
  else none

/-- The upper-case hex digit of a value below 16. -/
def hexDigit (n : Byte) : Byte := if n < 10 then n + 0x30 else n - 10 + 0x41

/-- The two hex digits of a byte. -/
def hexByte (b : Byte) : List Byte := [hexDigit (b >>> 4), hexDigit (b &&& 0x0F)]

/-- An ASCII frame: `:`, slave and PDU as upper-case hex, the LRC, CR LF. -/
def encodeAscii (slave : Byte) (pdu : List Byte) : List Byte :=
  COLON :: ((slave :: pdu) ++ [lrc (slave :: pdu)]).flatMap hexByte ++ CRLF

/-- The bytes of a list of hex digits, two digits a byte. -/
def unhex : List Byte → Option (List Byte)
  | high :: low :: rest => do
    let h ← hexVal high
    let l ← hexVal low
    let bytes ← unhex rest
    return (h <<< 4 ||| l) :: bytes
  | _ => some []

/-- Checks an ASCII frame (colon, even hex digits, CR LF, LRC) and returns slave and PDU. -/
def decodeAscii (frame : List Byte) : Except ModbusError (Byte × List Byte) :=
  match frame with
  | first :: rest =>
    if first == COLON && CRLF.isSuffixOf rest then
      let body := rest.take (rest.length - CRLF.length)
      if body.length % 2 != 0 || body.length < 6 then .error .asciiLength
      else
        match unhex body with
        | none => .error .nonHexDigit
        | some bytes =>
          let raw := bytes.dropLast
          if lrc raw != bytes.getLastD 0 then .error .asciiChecksum
          else .ok (raw.headD 0, raw.tail)
    else .error .notAscii
  | [] => .error .notAscii

/-- An RTU frame: slave, PDU, CRC-16 low byte first. -/
def encodeRtu (slave : Byte) (pdu : List Byte) : List Byte :=
  (slave :: pdu) ++ [lowByte (crc16 (slave :: pdu)), highByte (crc16 (slave :: pdu))]

/-- Checks an RTU frame's CRC and returns slave and PDU. -/
def decodeRtu (frame : List Byte) : Except ModbusError (Byte × List Byte) :=
  if frame.length < 4 then .error .rtuTooShort
  else
    let body := frame.take (frame.length - 2)
    let crc := frame.drop (frame.length - 2)
    if [lowByte (crc16 body), highByte (crc16 body)] != crc then .error .rtuChecksum
    else .ok (body.headD 0, body.tail)

def encode : Framing → Byte → List Byte → List Byte
  | .ascii => encodeAscii
  | .rtu => encodeRtu

def decode : Framing → List Byte → Except ModbusError (Byte × List Byte)
  | .ascii => decodeAscii
  | .rtu => decodeRtu

theorem hexVal_highDigit (b : Byte) : hexVal (hexDigit (b >>> 4)) = some (b >>> 4) := by
  obtain ⟨⟨b⟩⟩ := b
  revert b
  decide +kernel

theorem hexVal_lowDigit (b : Byte) : hexVal (hexDigit (b &&& 0x0F)) = some (b &&& 0x0F) := by
  obtain ⟨⟨b⟩⟩ := b
  revert b
  decide +kernel

theorem nibbles (b : Byte) : b >>> 4 <<< 4 ||| b &&& 0x0F = b := by
  obtain ⟨⟨b⟩⟩ := b
  revert b
  decide +kernel

/-- A hex digit is neither the colon nor the line feed. -/
theorem hexByte_plain (b : Byte) : COLON ∉ hexByte b ∧ 0x0A ∉ hexByte b := by
  obtain ⟨⟨b⟩⟩ := b
  revert b
  decide +kernel

theorem unhex_flatMap_hexByte (bytes : List Byte) : unhex (bytes.flatMap hexByte) = some bytes := by
  induction bytes with
  | nil => rfl
  | cons b bytes ih =>
    simp only [List.flatMap_cons, hexByte, List.cons_append, List.nil_append, unhex,
      hexVal_highDigit, hexVal_lowDigit, Option.bind_eq_bind, Option.bind_some]
    rw [ih]
    simp [nibbles]

theorem length_flatMap_hexByte (bytes : List Byte) :
    (bytes.flatMap hexByte).length = 2 * bytes.length := by
  induction bytes with
  | nil => rfl
  | cons b bytes ih =>
    rw [List.flatMap_cons, List.length_append, ih, List.length_cons]
    simp only [hexByte, List.length_cons, List.length_nil]
    omega

theorem decodeAscii_encodeAscii (slave : Byte) {pdu : List Byte} (hpdu : pdu ≠ []) :
    decodeAscii (encodeAscii slave pdu) = .ok (slave, pdu) := by
  have hpos := List.length_pos_iff.mpr hpdu
  obtain ⟨raw, hraw⟩ : ∃ raw, raw = slave :: pdu := ⟨_, rfl⟩
  obtain ⟨body, hbody⟩ : ∃ body, body = (raw ++ [lrc raw]).flatMap hexByte := ⟨_, rfl⟩
  have hlength : body.length = 2 * (pdu.length + 2) := by
    rw [hbody, length_flatMap_hexByte, hraw]
    simp
  have hunhex : unhex body = some (raw ++ [lrc raw]) := by
    rw [hbody]
    exact unhex_flatMap_hexByte _
  have hframe : encodeAscii slave pdu = COLON :: (body ++ CRLF) := by
    rw [hbody, hraw]
    rfl
  have hsuffix : CRLF.isSuffixOf (body ++ CRLF) = true :=
    List.isSuffixOf_iff_suffix.mpr (List.suffix_append _ _)
  have htake : (body ++ CRLF).take ((body ++ CRLF).length - CRLF.length) = body := by
    rw [List.length_append, Nat.add_sub_cancel, List.take_left]
  have hodd : ¬ (body.length % 2 != 0 || body.length < 6) = true := by
    simp only [hlength, Bool.or_eq_true, bne_iff_ne, decide_eq_true_eq]
    omega
  simp only [hframe, decodeAscii, hsuffix, htake, hunhex, if_neg hodd, BEq.rfl, Bool.and_self,
    if_true, List.dropLast_concat, List.getLastD_concat, bne_self_eq_false, Bool.false_eq_true,
    if_false]
  simp [hraw]

/-- Only the whole of an ASCII frame is read at all. -/
theorem eq_of_decodeAscii {slave : Byte} {pdu frame : List Byte} {r : Byte × List Byte}
    (hpre : frame <+: encodeAscii slave pdu) (hok : decodeAscii frame = .ok r) :
    frame = encodeAscii slave pdu := by
  have hfeed : (0x0A : Byte) ∈ frame := by
    cases frame with
    | nil => cases hok
    | cons first rest =>
      simp only [decodeAscii] at hok
      split at hok
      next hshape =>
        have hsuffix := List.isSuffixOf_iff_suffix.mp (Bool.and_eq_true_iff.mp hshape).2
        exact .tail _ (hsuffix.subset (by decide))
      next => cases hok
  -- the line feed is the last byte of the frame and no other
  have hbody : encodeAscii slave pdu =
      (COLON :: (slave :: pdu ++ [lrc (slave :: pdu)]).flatMap hexByte ++ [0x0D]) ++ [0x0A] := by
    simp [encodeAscii, CRLF]
  rw [hbody] at hpre ⊢
  refine (List.prefix_concat_iff.mp hpre).resolve_right fun hshort => ?_
  have hmem := hshort.subset hfeed
  simp only [List.cons_append, List.mem_cons, List.mem_append, List.mem_flatMap,
    List.not_mem_nil, or_false] at hmem
  rcases hmem with hcolon | ⟨b, -, hb⟩ | hreturn
  · exact absurd hcolon (by decide)
  · exact (hexByte_plain b).2 hb
  · exact absurd hreturn (by decide)

theorem decodeRtu_encodeRtu (slave : Byte) {pdu : List Byte} (hpdu : pdu ≠ []) :
    decodeRtu (encodeRtu slave pdu) = .ok (slave, pdu) := by
  have hpos := List.length_pos_iff.mpr hpdu
  obtain ⟨body, hbody⟩ : ∃ body, body = slave :: pdu := ⟨_, rfl⟩
  obtain ⟨crc, hcrc⟩ : ∃ crc, crc = [lowByte (crc16 body), highByte (crc16 body)] := ⟨_, rfl⟩
  have hframe : encodeRtu slave pdu = body ++ crc := by rw [hcrc, hbody, encodeRtu]
  have hlength : (body ++ crc).length - 2 = body.length := by simp [hcrc]
  have hlong : ¬ (body ++ crc).length < 4 := by
    simp only [hcrc, hbody, List.length_append, List.length_cons, List.length_nil]
    omega
  simp only [hframe, decodeRtu, if_neg hlong, hlength, List.take_left, List.drop_left, ← hcrc,
    bne_self_eq_false, Bool.false_eq_true, if_false]
  simp [hbody]

theorem length_encodeRtu (slave : Byte) (pdu : List Byte) :
    (encodeRtu slave pdu).length = pdu.length + 3 := by
  simp [encodeRtu]

/-- A frame is read back as it was sent. -/
theorem decode_encode (framing : Framing) (slave : Byte) {pdu : List Byte} (hpdu : pdu ≠ []) :
    decode framing (encode framing slave pdu) = .ok (slave, pdu) := by
  cases framing with
  | ascii => exact decodeAscii_encodeAscii slave hpdu
  | rtu => exact decodeRtu_encodeRtu slave hpdu

/-- The first bytes of a frame, when they are a frame themselves, are read as the first bytes of
what was sent. -/
theorem prefix_of_decode {framing : Framing} {slave slave' : Byte} {pdu pdu' frame : List Byte}
    (hpdu : pdu ≠ []) (hpre : frame <+: encode framing slave pdu)
    (hok : decode framing frame = .ok (slave', pdu')) : pdu' <+: pdu := by
  cases framing with
  | ascii =>
    have hframe := decodeAscii_encodeAscii slave hpdu
    rw [← eq_of_decodeAscii hpre hok] at hframe
    obtain ⟨-, rfl⟩ := Prod.mk.inj (Except.ok.inj (hok.symm.trans hframe))
    exact List.prefix_rfl
  | rtu =>
    have hlong : 4 ≤ frame.length := by
      by_contra hshort
      simp [decode, decodeRtu, Nat.lt_of_not_le hshort] at hok
    have hlength := hpre.length_le
    simp only [encode, length_encodeRtu] at hlength
    simp only [decode, decodeRtu, if_neg (Nat.not_lt.mpr hlong)] at hok
    split at hok
    · cases hok
    · obtain ⟨-, rfl⟩ := Prod.mk.inj (Except.ok.inj hok)
      have htake : frame.take (frame.length - 2) <+: slave :: pdu := by
        refine List.prefix_of_prefix_length_le ((List.take_prefix _ _).trans hpre)
          (List.prefix_append _ _) ?_
        rw [List.length_take, List.length_cons]
        omega
      cases htaken : frame.take (frame.length - 2) with
      | nil => exact List.nil_prefix
      | cons first rest =>
        rw [htaken] at htake
        exact (List.cons_prefix_cons.mp htake).2

/-! ### Requests and replies -/

/-- Function 5: write one coil (`FF00` on, `0000` off). -/
def pduWriteCoil (coil : UInt16) (on : Bool) : List Byte :=
  [FN_WRITE_COIL, highByte coil, lowByte coil] ++ if on then [0xFF, 0x00] else [0x00, 0x00]

/-- The bits as bytes, bit 0 of the first byte first. -/
def packBits (bits : List Bool) : List Byte :=
  (List.range ((bits.length + 7) / 8)).map fun n =>
    (List.range 8).foldl (fun byte i =>
      if bits.getD (8 * n + i) false then byte ||| (1 <<< UInt8.ofNat i) else byte) 0

/-- The first `count` bits of the bytes. -/
def unpackBits (count : Nat) (bytes : List Byte) : List Bool :=
  (List.range count).map fun i => (bytes.getD (i / 8) 0 >>> UInt8.ofNat (i % 8)) &&& 1 == 1

theorem packBits_length (bits : List Bool) : (packBits bits).length = (bits.length + 7) / 8 := by
  simp [packBits]

/-- Each bit of a byte is the one that was packed there. -/
theorem packed_bit (b : Nat → Bool) {i : Nat} (hi : i < 8) :
    ((List.range 8).foldl (fun byte j => if b j then byte ||| (1 <<< UInt8.ofNat j) else byte)
      (0 : Byte) >>> UInt8.ofNat i &&& 1 == 1) = b i := by
  have hall : ∀ (b₀ b₁ b₂ b₃ b₄ b₅ b₆ b₇ : Bool) (i : Fin 8),
      ([(b₀, 0), (b₁, 1), (b₂, 2), (b₃, 3), (b₄, 4), (b₅, 5), (b₆, 6), (b₇, 7)].foldl
        (fun byte p => if p.1 then byte ||| (1 <<< UInt8.ofNat p.2) else byte) (0 : Byte) >>>
          UInt8.ofNat i &&& 1 == 1) = [b₀, b₁, b₂, b₃, b₄, b₅, b₆, b₇].getD i false := by
    decide
  refine (hall (b 0) (b 1) (b 2) (b 3) (b 4) (b 5) (b 6) (b 7) ⟨i, hi⟩).trans ?_
  interval_cases i <;> rfl

/-- The coils are read back as they were sent. -/
theorem unpackBits_packBits (bits : List Bool) : unpackBits bits.length (packBits bits) = bits := by
  refine List.ext_getElem (by simp [unpackBits]) fun i hi hi' => ?_
  have hbyte : i / 8 < (bits.length + 7) / 8 := by omega
  have hbit := packed_bit (fun j => bits.getD (8 * (i / 8) + j) false) (Nat.mod_lt i (by decide))
  simp only [Nat.div_add_mod] at hbit
  simp only [unpackBits, List.getElem_map, List.getElem_range, packBits]
  rw [List.getD_eq_getElem _ _ (by simpa using hbyte), List.getElem_map, List.getElem_range, hbit]
  exact List.getD_eq_getElem _ _ hi'

/-- Function 15: write `bits.length` coils from `start`, bit 0 of the first data byte first. -/
def pduWriteCoils (start : UInt16) (bits : List Bool) : List Byte :=
  let count := UInt16.ofNat bits.length
  [FN_WRITE_COILS, highByte start, lowByte start, highByte count, lowByte count,
    UInt8.ofNat (packBits bits).length] ++ packBits bits

/-- Function 1: read `count` coils from `start`. -/
def pduReadCoils (start count : UInt16) : List Byte :=
  [FN_READ_COILS, highByte start, lowByte start, highByte count, lowByte count]

/-- A validated reply. -/
inductive Reply
  | written
  | coils (bits : List Bool)
  deriving DecidableEq

/-- Checks a reply PDU against the request PDU it answers. Fails closed. -/
def parseReply (request reply : List Byte) : Except ModbusError Reply :=
  match request, reply with
  | reqFn :: reqRest, repFn :: repRest =>
    if repFn == reqFn ||| 0x80 then .error (.exception repRest.head?)
    else if repFn != reqFn then .error .otherFunction
    else if reqFn == FN_WRITE_COIL && reply == request then .ok .written
    else if reqFn == FN_WRITE_COILS && (reply.length == 5 && request.length ≥ 5 &&
        repRest.take 4 == reqRest.take 4) then .ok .written
    else if reqFn == FN_READ_COILS && (request.length == 5 && reply.length ≥ 2) then
      let count := beNumber (request.getD 3 0) (request.getD 4 0)
      let bytes := (count + 7) / 8
      if (reply.getD 1 0).toNat != bytes || reply.length != 2 + bytes then .error .byteCount
      else .ok (.coils (unpackBits count (reply.drop 2)))
    else .error .mismatch
  | _, _ => .error .emptyPdu

/-- How many coils a request is about. -/
def coilCount (request : List Byte) : Nat := beNumber (request.getD 3 0) (request.getD 4 0)

/-- What a reply is that is accepted: the echo of a write, or the coils. -/
theorem parseReply_ok {request reply : List Byte} {r : Reply} (h : parseReply request reply = .ok r) :
    (request.head? = some FN_WRITE_COIL ∧ r = .written ∧ reply = request) ∨
    (request.head? = some FN_WRITE_COILS ∧ r = .written ∧ reply.length = 5 ∧ 5 ≤ request.length) ∨
    (request.head? = some FN_READ_COILS ∧ reply.length = 2 + (coilCount request + 7) / 8 ∧
      r = .coils (unpackBits (coilCount request) (reply.drop 2))) := by
  unfold parseReply at h
  split at h
  next reqFn reqRest repFn repRest =>
    split at h
    · cases h
    split at h
    · cases h
    split at h
    next hecho =>
      simp only [Bool.and_eq_true, beq_iff_eq] at hecho
      exact .inl ⟨by simp [hecho.1], (Except.ok.inj h).symm, hecho.2⟩
    split at h
    next hwrite =>
      simp only [Bool.and_eq_true, beq_iff_eq, decide_eq_true_eq] at hwrite
      exact .inr (.inl ⟨by simp [hwrite.1], (Except.ok.inj h).symm, hwrite.2.1.1, hwrite.2.1.2⟩)
    split at h
    next hread =>
      simp only [Bool.and_eq_true, beq_iff_eq, decide_eq_true_eq] at hread
      dsimp only at h
      split at h
      · cases h
      next hcount =>
        simp only [Bool.or_eq_true, bne_iff_ne, not_or, ne_eq, not_not] at hcount
        exact .inr (.inr ⟨by simp [hread.1], hcount.2, (Except.ok.inj h).symm⟩)
    · cases h
  next => cases h

/-- An exception is never an acknowledgement, and neither is a part of it. -/
theorem parseReply_exception {request pdu : List Byte} (code : Byte)
    (hpre : pdu <+: [request.headD 0 ||| 0x80, code]) (reply : Reply) :
    parseReply request pdu ≠ .ok reply := by
  intro h
  cases request with
  | nil => simp [parseReply] at h
  | cons reqFn reqRest => cases pdu with
    | nil => simp [parseReply] at h
    | cons repFn repRest =>
      obtain rfl := (List.cons_prefix_cons.mp hpre).1
      simp [parseReply] at h

end HamsOpen.Modbus
