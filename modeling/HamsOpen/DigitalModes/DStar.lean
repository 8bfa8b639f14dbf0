import HamsOpen.Lib.Checks
import HamsOpen.Lib.Crc
import HamsOpen.Lib.Utf8
import Mathlib.Data.List.DropRight
import Mathlib.Data.List.Induction

/-!
# D-STAR headers

The routing header of `dstar.rs`: three bytes of flags and five texts of fixed width, padded with
spaces, and the checksum that follows them. The complement of the register follows the checksummed
bytes, so what verifies leaves the same register behind, whatever it says.
-/

namespace HamsOpen.DStar

open Except (ok_of_bind)

abbrev Byte := UInt8

/-! ### The checksum -/

/-- One bit of the checksum. -/
def crcBit (crc : UInt16) : UInt16 :=
  if crc &&& 1 != 0 then (crc >>> 1) ^^^ 0x8408 else crc >>> 1

/-- D-STAR's header checksum (polynomial 0x8408 reflected, start 0xFFFF, complemented). -/
def dstarChecksum (data : List Byte) : UInt16 :=
  ~~~data.foldl (fun crc byte => Nat.repeat crcBit 8 (crc ^^^ byte.toUInt16)) 0xFFFF

/-- The bytes of a checksum, the low one first. -/
def littleEndian (n : UInt16) : List Byte := [n.toUInt8, (n >>> 8).toUInt8]

/-- Appends the checksum. -/
def dstarChecksumAppend (data : List Byte) : List Byte := data ++ littleEndian (dstarChecksum data)

/-- The last two bytes are the checksum of everything before them. -/
def dstarChecksumVerify (data : List Byte) : Bool :=
  if data.length < 2 then false
  else
    let body := data.take (data.length - 2)
    let fcs := data.drop (data.length - 2)
    littleEndian (dstarChecksum body) == fcs

/-! ### The header -/

def DSTAR_HEADER_LEN : Nat := 41
def DSTAR_HEADER_BODY_LEN : Nat := 39

/-- Bytes of a length. -/
abbrev Bytes (n : Nat) := { bytes : List Byte // bytes.length = n }

/-- One D-STAR routing header. -/
structure DStarHeader where
  /-- Opaque flag bytes. -/
  flags : Bytes 3
  /-- Destination repeater callsign. -/
  rpt2 : String
  /-- Departure repeater callsign. -/
  rpt1 : String
  /-- Companion station's callsign. -/
  urCall : String
  /-- Own station's callsign. -/
  myCall : String
  /-- Own station's callsign suffix. -/
  myCallSuffix : String
  deriving DecidableEq

/-- Why a header is refused. -/
inductive DStarHeaderError
  | nonAscii | fieldTooLong
  deriving DecidableEq

/-- All characters are ASCII. -/
def isAscii (value : String) : Bool := value.toList.all fun c => c.toNat < 128

/-- A text without the spaces at its end. -/
def trimEnd (value : String) : String := .ofList (value.toList.rdropWhile (· == ' '))

namespace DStarHeader

/-- A text in its field, padded with spaces. -/
def packField (value : String) (width : Nat) : Except DStarHeaderError (Bytes width) :=
  if isAscii value = false then .error .nonAscii
  else if h : width < (Utf8.bytes value).length then .error .fieldTooLong
  else
    .ok ⟨Utf8.bytes value ++ List.replicate (width - (Utf8.bytes value).length) 0x20, by
      rw [List.length_append, List.length_replicate, Nat.add_sub_cancel' (Nat.le_of_not_lt h)]⟩

/-- Packs the header without the checksum. An overlong or non-ASCII field is refused. -/
def pack (h : DStarHeader) : Except DStarHeaderError (Bytes DSTAR_HEADER_BODY_LEN) := do
  let rpt2 ← packField h.rpt2 8
  let rpt1 ← packField h.rpt1 8
  let urCall ← packField h.urCall 8
  let myCall ← packField h.myCall 8
  let myCallSuffix ← packField h.myCallSuffix 4
  return ⟨h.flags.1 ++ (rpt2.1 ++ (rpt1.1 ++ (urCall.1 ++ (myCall.1 ++ myCallSuffix.1)))), by
    simp only [List.length_append, h.flags.2, rpt2.2, rpt1.2, urCall.2, myCall.2, myCallSuffix.2]
    rfl⟩

/-- The header with its checksum, as it is on the air. -/
def packWithFcs (h : DStarHeader) : Except DStarHeaderError (Bytes DSTAR_HEADER_LEN) := do
  let body ← h.pack
  return ⟨dstarChecksumAppend body.1, by
    rw [dstarChecksumAppend, List.length_append, body.2]
    rfl⟩

/-- A field as a text, without the spaces at its end. -/
def unpackField (bytes : List Byte) : String := trimEnd (Utf8.lossy bytes)

/-- The fields of a header. The checksum is not looked at. -/
def unpack (body : Bytes DSTAR_HEADER_BODY_LEN) : DStarHeader where
  flags := ⟨body.1.take 3, by rw [List.length_take, body.2]; rfl⟩
  rpt2 := unpackField ((body.1.drop 3).take 8)
  rpt1 := unpackField ((body.1.drop 11).take 8)
  urCall := unpackField ((body.1.drop 19).take 8)
  myCall := unpackField ((body.1.drop 27).take 8)
  myCallSuffix := unpackField ((body.1.drop 35).take 4)

/-- A header without the spaces at the end of its fields. -/
def trimmed (h : DStarHeader) : DStarHeader where
  flags := h.flags
  rpt2 := trimEnd h.rpt2
  rpt1 := trimEnd h.rpt1
  urCall := trimEnd h.urCall
  myCall := trimEnd h.myCall
  myCallSuffix := trimEnd h.myCallSuffix

end DStarHeader

/-! ### What is packed -/

theorem trimEnd_padded (chars : List Char) (n : Nat) :
    trimEnd (.ofList (chars ++ List.replicate n ' ')) = trimEnd (.ofList chars) := by
  unfold trimEnd
  rw [String.toList_ofList, String.toList_ofList]
  induction n with
  | zero => rw [List.replicate_zero, List.append_nil]
  | succ n ih =>
    rw [List.replicate_succ', ← List.append_assoc, List.rdropWhile_concat_pos _ _ _ rfl, ih]

/-- An ASCII text is one byte for each character. -/
theorem bytes_of_isAscii {value : String} (h : isAscii value = true) :
    Utf8.bytes value = value.toList.map fun c => .ofNat c.toNat := by
  have hascii : ∀ c ∈ value.toList, c.toNat < 128 := fun c hc =>
    of_decide_eq_true (List.all_eq_true.mp h c hc)
  rw [Utf8.bytes_eq_encode, Utf8.encode]
  generalize value.toList = chars at hascii ⊢
  induction chars with
  | nil => rfl
  | cons c chars ih =>
    have hsize : c.utf8Size = 1 := by
      refine Char.utf8Size_eq_one_iff.mpr (UInt32.le_iff_toNat_le.mpr ?_)
      exact Nat.le_of_lt_succ (hascii c (.head _))
    rw [List.flatMap_cons, ih fun c' hc' => hascii c' (.tail _ hc'),
      String.utf8EncodeChar_eq_singleton hsize]
    rfl

/-- A field is read as the text that was put into it, without the spaces at its end. -/
theorem unpackField_packField {value : String} {width : Nat} {bytes : Bytes width}
    (h : DStarHeader.packField value width = .ok bytes) :
    DStarHeader.unpackField bytes.1 = trimEnd value := by
  unfold DStarHeader.packField at h
  split at h
  · cases h
  next hascii =>
  split at h
  · cases h
  cases h
  have hbytes := bytes_of_isAscii (eq_true_of_ne_false hascii)
  have hchars : ∀ c ∈ value.toList, c.toNat < 128 := fun c hc =>
    of_decide_eq_true (List.all_eq_true.mp (eq_true_of_ne_false hascii) c hc)
  have hlow : ∀ b ∈ Utf8.bytes value ++
      List.replicate (width - (Utf8.bytes value).length) 0x20, b < 0x80 := by
    intro b hb
    rcases List.mem_append.mp hb with hb | hb
    · rw [hbytes] at hb
      obtain ⟨c, hc, rfl⟩ := List.mem_map.mp hb
      have hlt := hchars c hc
      rw [UInt8.lt_iff_toNat_lt, UInt8.toNat_ofNat']
      exact (Nat.mod_le _ _).trans_lt hlt
    · rw [List.eq_of_mem_replicate hb]
      decide
  have hback : (Utf8.bytes value).map (fun b => Char.ofNat b.toNat) = value.toList := by
    rw [hbytes, List.map_map]
    refine (List.map_congr_left fun c hc => ?_).trans (List.map_id _)
    have hlt := hchars c hc
    have hmod : c.toNat % 2 ^ 8 = c.toNat := Nat.mod_eq_of_lt (by omega)
    change Char.ofNat (UInt8.ofNat c.toNat).toNat = c
    rw [UInt8.toNat_ofNat', hmod, Char.ofNat_toNat]
  rw [DStarHeader.unpackField, Utf8.lossy, Utf8.lossyAfter_ascii hlow, List.map_append, hback,
    List.map_replicate]
  refine (trimEnd_padded value.toList _).trans ?_
  rw [String.ofList_toList]

/-- A field between others is found by its place. -/
theorem take_drop_field {before field : List Byte} (after : List Byte) {n k : Nat}
    (hn : before.length = n) (hk : field.length = k) :
    ((before ++ (field ++ after)).drop n).take k = field := by
  rw [← hn, List.drop_left, ← hk, List.take_left]

/-- What was packed is unpacked, without the spaces at the end of its fields. -/
theorem DStarHeader.unpack_pack {h : DStarHeader} {body : Bytes DSTAR_HEADER_BODY_LEN}
    (hpack : h.pack = .ok body) : unpack body = h.trimmed := by
  obtain ⟨rpt2, hrpt2, hpack⟩ := ok_of_bind hpack
  obtain ⟨rpt1, hrpt1, hpack⟩ := ok_of_bind hpack
  obtain ⟨urCall, hur, hpack⟩ := ok_of_bind hpack
  obtain ⟨myCall, hmy, hpack⟩ := ok_of_bind hpack
  obtain ⟨myCallSuffix, hsuffix, hpack⟩ := ok_of_bind hpack
  cases hpack
  have hflags := h.flags.2
  have h2 := rpt2.2
  have h1 := rpt1.2
  have hu := urCall.2
  have hm := myCall.2
  have hs := myCallSuffix.2
  -- each field follows those before it
  have hrpt2' := take_drop_field (rpt1.1 ++ (urCall.1 ++ (myCall.1 ++ myCallSuffix.1))) hflags h2
  have hrpt1' := take_drop_field (urCall.1 ++ (myCall.1 ++ myCallSuffix.1))
    (show (h.flags.1 ++ rpt2.1).length = 11 by simp [hflags, h2]) h1
  have hur' := take_drop_field (myCall.1 ++ myCallSuffix.1)
    (show (h.flags.1 ++ rpt2.1 ++ rpt1.1).length = 19 by simp [hflags, h2, h1]) hu
  have hmy' := take_drop_field myCallSuffix.1
    (show (h.flags.1 ++ rpt2.1 ++ rpt1.1 ++ urCall.1).length = 27 by
      simp [hflags, h2, h1, hu]) hm
  have hsuffix' := take_drop_field []
    (show (h.flags.1 ++ rpt2.1 ++ rpt1.1 ++ urCall.1 ++ myCall.1).length = 35 by
      simp [hflags, h2, h1, hu, hm]) hs
  simp only [List.append_assoc, List.append_nil] at hrpt1' hur' hmy' hsuffix'
  simp only [unpack, hrpt2', hrpt1', hur', hmy', hsuffix', List.take_left' hflags,
    unpackField_packField hrpt2, unpackField_packField hrpt1, unpackField_packField hur,
    unpackField_packField hmy, unpackField_packField hsuffix]
  rfl

/-! ### What verifies -/

/-- The polynomial of the checksum. -/
def POLYNOMIAL : BitVec 16 := 0x8408#16

theorem toBitVec_crcBit (crc : UInt16) :
    (crcBit crc).toBitVec = Crc.shift POLYNOMIAL crc.toBitVec := by
  unfold crcBit Crc.shift
  rw [Crc.and_one]
  cases crc.toBitVec.getLsbD 0
  · rfl
  · rfl

/-- The checksum is the complement of the register after the bits of the data. -/
theorem toBitVec_dstarChecksum (data : List Byte) :
    (dstarChecksum data).toBitVec = ~~~Crc.run POLYNOMIAL 0xFFFF#16 (Crc.bits data) :=
  congrArg (~~~ ·) (Crc.toBitVec_foldl (by decide) toBitVec_crcBit 0xFFFF data)

/-- What the register holds after bytes that verify. -/
def RESIDUE : BitVec 16 := Crc.run POLYNOMIAL 0#16 (List.replicate 16 true)

/-- The complement of a register leaves the same behind, whatever it held. -/
theorem run_complement (c : BitVec 16) : Crc.run POLYNOMIAL c (Crc.toBits (~~~c)) = RESIDUE := by
  have hbits : Crc.toBits (~~~c) =
      List.zipWith (· ^^ ·) (Crc.toBits c) (List.replicate 16 true) := by
    apply List.ext_getElem
    · simp
    · intro i hi hi'
      rw [Crc.length_toBits] at hi
      rw [List.getElem_zipWith, List.getElem_replicate]
      simp [Crc.toBits, hi]
  have hown : Crc.run POLYNOMIAL c (Crc.toBits c) = 0#16 :=
    (Crc.run_eq_zero (by decide) (Crc.length_toBits c).le).mpr (Crc.ofBits_toBits c).symm
  have hlength : (Crc.toBits c).length = (List.replicate 16 true).length := by simp
  have hsum := Crc.run_xor POLYNOMIAL c 0#16 hlength
  rw [BitVec.xor_zero, ← hbits, hown, BitVec.zero_xor] at hsum
  exact hsum

theorem run_append_checksum (data : List Byte) :
    Crc.run POLYNOMIAL 0xFFFF#16 (Crc.bits (dstarChecksumAppend data)) = RESIDUE := by
  rw [dstarChecksumAppend, Crc.bits_append, Crc.run_append, littleEndian, Crc.bits_word,
    toBitVec_dstarChecksum, run_complement]

/-- What verifies has its checksum appended. -/
theorem eq_append_of_verify {data : List Byte} (h : dstarChecksumVerify data = true) :
    ∃ body, data = dstarChecksumAppend body := by
  unfold dstarChecksumVerify at h
  split at h
  · cases h
  · have hframe := List.take_append_drop (data.length - 2) data
    rw [← beq_iff_eq.mp h] at hframe
    exact ⟨_, hframe.symm⟩

/-- What is appended verifies. -/
theorem dstarChecksumVerify_append (data : List Byte) :
    dstarChecksumVerify (dstarChecksumAppend data) = true := by
  have hlength : (dstarChecksumAppend data).length - 2 = data.length := by
    rw [dstarChecksumAppend, List.length_append]
    rfl
  have hlong : ¬ (dstarChecksumAppend data).length < 2 := by
    rw [dstarChecksumAppend, List.length_append]
    exact Nat.not_lt.mpr (Nat.le_add_left 2 data.length)
  rw [dstarChecksumVerify, if_neg hlong]
  simp only [hlength]
  rw [dstarChecksumAppend, List.take_left, List.drop_left]
  exact beq_self_eq_true _

/-- A burst of errors does not verify. -/
theorem dstarChecksumVerify_corrupt {message errors : List Byte}
    (hvalid : dstarChecksumVerify message = true) (hlength : errors.length = message.length)
    (hburst : Crc.IsBurst 16 (Crc.bits errors)) :
    dstarChecksumVerify (Crc.corrupt message errors) = false := by
  by_contra hverify
  obtain ⟨body, hbody⟩ := eq_append_of_verify hvalid
  obtain ⟨body', hbody'⟩ := eq_append_of_verify (eq_true_of_ne_false hverify)
  have hsame : Crc.run POLYNOMIAL 0xFFFF#16 (Crc.bits (Crc.corrupt message errors)) =
      Crc.run POLYNOMIAL 0xFFFF#16 (Crc.bits message) := by
    rw [hbody', hbody, run_append_checksum, run_append_checksum]
  exact Crc.run_corrupt_ne (by decide) hlength.symm hburst hsame

/-- A header that is packed verifies with its checksum and is unpacked without the spaces at the end
of its fields; and no message that verifies does so after a burst of at most 16 errors. -/
theorem header_and_checksum (h : DStarHeader) :
    (∀ body, h.pack = .ok body →
      dstarChecksumVerify (dstarChecksumAppend body.1) = true ∧
        DStarHeader.unpack body = h.trimmed) ∧
    ∀ message errors : List Byte, dstarChecksumVerify message = true →
      errors.length = message.length → Crc.IsBurst 16 (Crc.bits errors) →
        dstarChecksumVerify (Crc.corrupt message errors) = false :=
  ⟨fun body hpack => ⟨dstarChecksumVerify_append body.1, DStarHeader.unpack_pack hpack⟩,
    fun _ _ hvalid hlength hburst => dstarChecksumVerify_corrupt hvalid hlength hburst⟩

end HamsOpen.DStar
