import HamsOpen.Lib.Crc
import HamsOpen.Modbus.Frame

/-!
# Errors in Modbus frames

What the checksums of `modbus.rs` notice. The CRC of an RTU frame is followed by its own bits, which
empty the register, so errors that lie close together on the wire leave a trace in it. The sum of an
ASCII frame changes with every byte of its payload; the digits of a byte may be written in either
case.
-/

namespace HamsOpen.Modbus

/-- The polynomial of the CRC. -/
def POLYNOMIAL : BitVec 16 := 0xA001#16

theorem toBitVec_crcBit (crc : UInt16) :
    (crcBit crc).toBitVec = Crc.shift POLYNOMIAL crc.toBitVec := by
  unfold crcBit Crc.shift
  rw [Crc.and_one]
  cases crc.toBitVec.getLsbD 0
  · rfl
  · rfl

/-- The CRC is the register after the bits of the data. -/
theorem toBitVec_crc16 (data : List Byte) :
    (crc16 data).toBitVec = Crc.run POLYNOMIAL 0xFFFF#16 (Crc.bits data) :=
  Crc.toBitVec_foldl (by decide) toBitVec_crcBit 0xFFFF data

/-- The CRC that follows the data empties the register. -/
theorem run_crc16 (data : List Byte) : Crc.run POLYNOMIAL 0xFFFF#16
    (Crc.bits (data ++ [lowByte (crc16 data), highByte (crc16 data)])) = 0#16 := by
  rw [Crc.bits_append, Crc.run_append, ← toBitVec_crc16]
  refine (Crc.run_eq_zero (by decide) ?_).mpr ?_
  · exact (Crc.length_bits _).le
  · exact ((congrArg Crc.ofBits (Crc.bits_word _)).trans (Crc.ofBits_toBits _)).symm

/-- A frame is read only when its bits empty the register. -/
theorem run_of_decodeRtu {frame : List Byte} {r : Byte × List Byte} (h : decodeRtu frame = .ok r) :
    Crc.run POLYNOMIAL 0xFFFF#16 (Crc.bits frame) = 0#16 := by
  unfold decodeRtu at h
  split at h
  · cases h
  dsimp only at h
  split at h
  · cases h
  next hcrc =>
    have hframe := List.take_append_drop (frame.length - 2) frame
    rw [← of_not_not (mt bne_iff_ne.mpr hcrc)] at hframe
    rw [← hframe]
    exact run_crc16 _

/-- A burst of errors in an RTU frame is noticed. -/
theorem decodeRtu_corrupt (slave : Byte) (pdu : List Byte) {errors : List Byte}
    (hlength : errors.length = (encodeRtu slave pdu).length)
    (hburst : Crc.IsBurst 16 (Crc.bits errors)) :
    ∃ e, decodeRtu (Crc.corrupt (encodeRtu slave pdu) errors) = .error e := by
  cases h : decodeRtu (Crc.corrupt (encodeRtu slave pdu) errors) with
  | error e => exact ⟨e, rfl⟩
  | ok r =>
    -- both frames would empty the register
    have hsent : Crc.run POLYNOMIAL 0xFFFF#16 (Crc.bits (encodeRtu slave pdu)) = 0#16 :=
      run_crc16 (slave :: pdu)
    have hread := run_of_decodeRtu h
    exact absurd (hread.trans hsent.symm) (Crc.run_corrupt_ne (by decide) hlength.symm hburst)

/-! ### ASCII frames -/

/-- Between its ends, an ASCII frame is read by its digits. -/
theorem decodeAscii_body (body : List Byte) : decodeAscii (COLON :: (body ++ CRLF)) =
    if body.length % 2 != 0 || body.length < 6 then .error .asciiLength
    else
      match unhex body with
      | none => .error .nonHexDigit
      | some bytes =>
        if lrc bytes.dropLast != bytes.getLastD 0 then .error .asciiChecksum
        else .ok (bytes.dropLast.headD 0, bytes.dropLast.tail) := by
  have hsuffix : CRLF.isSuffixOf (body ++ CRLF) = true :=
    List.isSuffixOf_iff_suffix.mpr (List.suffix_append _ _)
  have htake : (body ++ CRLF).take ((body ++ CRLF).length - CRLF.length) = body := by
    rw [List.length_append, Nat.add_sub_cancel, List.take_left]
  have hframe : (COLON == COLON && CRLF.isSuffixOf (body ++ CRLF)) = true :=
    (Bool.and_eq_true _ _).mpr ⟨rfl, hsuffix⟩
  refine (if_pos hframe).trans ?_
  generalize (body ++ CRLF).take ((body ++ CRLF).length - CRLF.length) = between at htake ⊢
  subst htake
  rfl

/-- The digits of bytes are read before what follows them. -/
theorem unhex_append (bytes rest : List Byte) :
    unhex (bytes.flatMap hexByte ++ rest) = (unhex rest).map (bytes ++ ·) := by
  induction bytes with
  | nil => exact Option.map_id'.symm
  | cons b bytes ih =>
    rw [List.flatMap_cons, List.append_assoc]
    simp only [hexByte, List.cons_append, List.nil_append, unhex, hexVal_highDigit, hexVal_lowDigit,
      Option.bind_eq_bind, Option.bind_some]
    rw [ih, nibbles]
    cases unhex rest with
    | none => rfl
    | some bytes' => rfl

/-- Two characters are read as one byte, if they are digits. -/
theorem unhex_pair (high low : Byte) (rest : List Byte) : unhex (high :: low :: rest) =
    (unhex [high, low]).bind fun b => (unhex rest).map (b ++ ·) := by
  simp only [unhex, Option.bind_eq_bind]
  cases hexVal high with
  | none => rfl
  | some h =>
    cases hexVal low with
    | none => rfl
    | some l =>
      cases unhex rest with
      | none => rfl
      | some bytes => rfl

theorem length_unhex_pair {high low : Byte} {bytes : List Byte}
    (h : unhex [high, low] = some bytes) : ∃ b, bytes = [b] := by
  cases hh : hexVal high with
  | none => simp [unhex, hh] at h
  | some high' =>
    cases hl : hexVal low with
    | none => simp [unhex, hh, hl] at h
    | some low' =>
      simp only [unhex, hh, hl, Option.bind_eq_bind, Option.bind_some] at h
      exact ⟨_, (Option.some.inj h).symm⟩

theorem foldl_add (a : Byte) (data : List Byte) :
    data.foldl (· + ·) a = a + data.foldl (· + ·) 0 := by
  induction data generalizing a with
  | nil => exact (UInt8.add_zero a).symm
  | cons b data ih =>
    rw [List.foldl_cons, List.foldl_cons, ih, ih (0 + b), UInt8.zero_add, UInt8.add_assoc]

/-- The checksum changes with every byte. -/
theorem lrc_ne {left right : List Byte} {b b' : Byte} (h : b' ≠ b) :
    lrc (left ++ b' :: right) ≠ lrc (left ++ b :: right) := by
  have hsum (c : Byte) : (left ++ c :: right).foldl (· + ·) 0 =
      left.foldl (· + ·) 0 + (c + right.foldl (· + ·) 0) := by
    rw [List.foldl_append, List.foldl_cons, foldl_add, UInt8.add_assoc]
  intro heq
  rw [lrc, lrc, hsum, hsum] at heq
  exact h ((UInt8.add_left_inj _).mp ((UInt8.add_right_inj _).mp (UInt8.neg_inj.mp heq)))

/-- A change of one byte of the payload of an ASCII frame is noticed, whatever stands in the place
of its digits. -/
theorem decodeAscii_changed {slave b high low : Byte} {pdu left right : List Byte}
    (hpayload : slave :: pdu = left ++ b :: right) (hchanged : unhex [high, low] ≠ some [b]) :
    ∃ e, decodeAscii (COLON :: (left.flatMap hexByte ++ high :: low ::
      (right ++ [lrc (slave :: pdu)]).flatMap hexByte) ++ CRLF) = .error e := by
  have hbody : unhex (left.flatMap hexByte ++ high :: low ::
      (right ++ [lrc (slave :: pdu)]).flatMap hexByte) =
        (unhex [high, low]).map fun c => left ++ (c ++ (right ++ [lrc (slave :: pdu)])) := by
    rw [unhex_append, unhex_pair, unhex_flatMap_hexByte]
    cases unhex [high, low] with
    | none => rfl
    | some c => rfl
  rw [List.cons_append, decodeAscii_body, hbody]
  split
  · exact ⟨_, rfl⟩
  cases hpair : unhex [high, low] with
  | none => exact ⟨_, rfl⟩
  | some c =>
    obtain ⟨b', rfl⟩ := length_unhex_pair hpair
    have hne : b' ≠ b := fun h => hchanged (h ▸ hpair)
    have hbytes : left ++ ([b'] ++ (right ++ [lrc (slave :: pdu)])) =
        (left ++ b' :: right) ++ [lrc (slave :: pdu)] := by simp
    have hsum : (lrc (left ++ b' :: right) != lrc (slave :: pdu)) = true := by
      rw [hpayload]
      exact bne_iff_ne.mpr (lrc_ne hne)
    rw [Option.map_some, hbytes]
    dsimp only
    rw [List.dropLast_concat, List.getLastD_concat, if_pos hsum]
    exact ⟨_, rfl⟩

/-! ### Both framings -/

/-- A frame is read back as it was sent, unless it has no PDU: then it is too short to be read. -/
theorem decode_encode_iff (framing : Framing) (slave : Byte) (pdu : List Byte) :
    decode framing (encode framing slave pdu) = .ok (slave, pdu) ↔ pdu ≠ [] := by
  refine ⟨?_, decode_encode framing slave⟩
  rintro h rfl
  cases framing with
  | ascii =>
    have hframe : encodeAscii slave [] = COLON :: ([slave, lrc [slave]].flatMap hexByte ++ CRLF) :=
      rfl
    have hfour : ([slave, lrc [slave]].flatMap hexByte).length = 4 := length_flatMap_hexByte _
    have hshort : decodeAscii (encodeAscii slave []) = .error .asciiLength := by
      rw [hframe, decodeAscii_body, if_pos]
      rw [hfour]
      decide
    cases hshort.symm.trans h
  | rtu => cases h

/-- What is read of frames. They are read as they were sent when they have a PDU; a burst of at most
16 errors in an RTU frame is noticed, its bits in the order of the wire; and so is it in an ASCII
frame when the two characters of a byte of the payload do not spell that byte. -/
theorem codecs_exactly (slave : Byte) (pdu : List Byte) :
    (∀ framing, decode framing (encode framing slave pdu) = .ok (slave, pdu) ↔ pdu ≠ []) ∧
    (∀ errors : List Byte, errors.length = (encodeRtu slave pdu).length →
      Crc.IsBurst 16 (Crc.bits errors) →
        ∃ e, decodeRtu (Crc.corrupt (encodeRtu slave pdu) errors) = .error e) ∧
    ∀ left b right high low, slave :: pdu = left ++ b :: right → unhex [high, low] ≠ some [b] →
      ∃ e, decodeAscii (COLON :: (left.flatMap hexByte ++ high :: low ::
        (right ++ [lrc (slave :: pdu)]).flatMap hexByte) ++ CRLF) = .error e :=
  ⟨fun framing => decode_encode_iff framing slave pdu,
    fun _ hlength hburst => decodeRtu_corrupt slave pdu hlength hburst,
    fun _ _ _ _ _ hpayload hchanged => decodeAscii_changed hpayload hchanged⟩

/-- A frame without a PDU is not read back, and a digit of a payload may change its case. -/
theorem codecs_tolerate :
    decodeRtu (encodeRtu 1 []) = .error .rtuTooShort ∧
      (encodeAscii 0x0A [0x05]).set 2 0x61 ≠ encodeAscii 0x0A [0x05] ∧
      decodeAscii ((encodeAscii 0x0A [0x05]).set 2 0x61) = .ok (0x0A, [0x05]) := by
  decide +kernel

end HamsOpen.Modbus
