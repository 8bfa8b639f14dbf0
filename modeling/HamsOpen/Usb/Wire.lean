import HamsOpen.Lib.Scanner

/-!
# The frames of the USB transport

A protocol engine and a USB device exchange a request frame for each transfer and a reply frame for
its result, both little-endian and self-delimiting, over a stream that may cut them anywhere.
-/

namespace HamsOpen.Usb

abbrev Byte := UInt8

/-- Longest data field either frame may carry. -/
def MAX_DATA : ℕ := 4096
def REQUEST_HEADER : ℕ := 9
def REPLY_HEADER : ℕ := 4

/-- The status byte of a reply. -/
inductive UsbStatus where
  | ok
  | timeout
  | noDevice
  | stall
  | other
  deriving DecidableEq

namespace UsbStatus

def code : UsbStatus → Byte
  | ok => 0
  | timeout => 1
  | noDevice => 2
  | stall => 3
  | other => 4

/-- The status of a byte; an unknown byte is `other`. -/
def fromCode (code : Byte) : UsbStatus :=
  match code.toNat with
  | 0 => ok
  | 1 => timeout
  | 2 => noDevice
  | 3 => stall
  | _ => other

@[simp] theorem fromCode_code (s : UsbStatus) : fromCode s.code = s := by
  cases s <;> rfl

end UsbStatus

/-- One USB transfer, as a request frame. -/
inductive UsbTransfer where
  | controlIn (requestType request : Byte) (value index length : UInt16)
  | controlOut (requestType request : Byte) (value index : UInt16) (data : List Byte)
  | bulkWrite (endpoint : Byte) (data : List Byte)
  | bulkRead (endpoint : Byte) (length : UInt16)
  | interruptWrite (endpoint : Byte) (data : List Byte)
  | interruptRead (endpoint : Byte) (length : UInt16)
  | interruptExchange (outEndpoint inEndpoint : Byte) (data : List Byte) (readLength : UInt16)
  deriving DecidableEq

/-- Why a frame could not be decoded. -/
inductive FrameError where
  /-- More bytes are needed. -/
  | incomplete
  /-- The bytes are not a frame. -/
  | malformed
  deriving DecidableEq

/-! ### Decoders as scanners -/

section Scanners

variable {α : Type} {decode : List Byte → Except FrameError (α × ℕ)} {bytes : List Byte} {a : α}
  {n : ℕ}

/-- A decoder of frames as the scanner of a stream of them. -/
def scannerOf (decode : List Byte → Except FrameError (α × ℕ))
    (hnil : decode [] = .error .incomplete)
    (hok : ∀ {bytes a n}, decode bytes = .ok (a, n) → ∀ cs,
      decode (bytes ++ cs) = .ok (a, n) ∧ 0 < n ∧ n ≤ bytes.length)
    (hbad : ∀ {bytes}, decode bytes = .error .malformed → ∀ cs,
      decode (bytes ++ cs) = .error .malformed) : Scanner Byte α Unit where
  scan bytes := match decode bytes with
    | .ok (a, used) => .item a used
    | .error .incomplete => .more
    | .error .malformed => .bad ()
  scan_nil := by rw [hnil]
  used_pos h := by
    split at h
    next hdecode =>
      obtain ⟨rfl, rfl⟩ := Scan.item.inj h
      exact (hok hdecode []).2.1
    · cases h
    · cases h
  used_le h := by
    split at h
    next hdecode =>
      obtain ⟨rfl, rfl⟩ := Scan.item.inj h
      exact (hok hdecode []).2.2
    · cases h
    · cases h
  item_append cs h := by
    split at h
    next hdecode =>
      obtain ⟨rfl, rfl⟩ := Scan.item.inj h
      rw [(hok hdecode cs).1]
    · cases h
    · cases h
  bad_append cs h := by
    split at h
    · cases h
    · cases h
    next hdecode => rw [hbad hdecode cs]

variable {hnil : decode [] = .error .incomplete}
  {hok : ∀ {bytes a n}, decode bytes = .ok (a, n) → ∀ cs,
    decode (bytes ++ cs) = .ok (a, n) ∧ 0 < n ∧ n ≤ bytes.length}
  {hbad : ∀ {bytes}, decode bytes = .error .malformed → ∀ cs,
    decode (bytes ++ cs) = .error .malformed}

theorem scan_ok (h : decode bytes = .ok (a, n)) :
    (scannerOf decode hnil hok hbad).scan bytes = .item a n := by
  simp only [scannerOf, h]

theorem decode_of_item (h : (scannerOf decode hnil hok hbad).scan bytes = .item a n) :
    decode bytes = .ok (a, n) := by
  simp only [scannerOf] at h
  split at h
  next hdecode =>
    obtain ⟨rfl, rfl⟩ := Scan.item.inj h
    exact hdecode
  · cases h
  · cases h

theorem decode_of_more (h : (scannerOf decode hnil hok hbad).scan bytes = .more) :
    decode bytes = .error .incomplete := by
  simp only [scannerOf] at h
  split at h
  · cases h
  next hdecode => exact hdecode
  · cases h

end Scanners

/-! ### Words -/

/-- The bytes of a word, the low one first. -/
def toLeBytes (n : UInt16) : List Byte := [n.toUInt8, (n >>> 8).toUInt8]

/-- The word of two bytes, the low one first. -/
def fromLeBytes (lo hi : Byte) : UInt16 := .ofNat (lo.toNat + 256 * hi.toNat)

@[simp] theorem fromLeBytes_toLeBytes (n : UInt16) :
    fromLeBytes n.toUInt8 (n >>> 8).toUInt8 = n := by
  apply UInt16.toNat_inj.mp
  have hn := n.toNat_lt
  simp only [fromLeBytes, UInt16.toNat_ofNat', UInt16.toNat_toUInt8, UInt16.toNat_shiftRight]
  simp [Nat.shiftRight_eq_div_pow]
  omega

/-- The length of a data field, in the largest word when it does not fit one. -/
def dataLen (data : List Byte) : UInt16 :=
  if data.length < 65536 then .ofNat data.length else 65535

theorem dataLen_toNat {data : List Byte} (h : data.length ≤ MAX_DATA) :
    (dataLen data).toNat = data.length := by
  have hlt : data.length < 65536 := Nat.lt_of_le_of_lt h (by decide)
  rw [dataLen, if_pos hlt, UInt16.toNat_ofNat']
  omega

/-- What is sent of a data field. -/
def cut (data : List Byte) : List Byte := data.take MAX_DATA

theorem cut_of_le {data : List Byte} (h : data.length ≤ MAX_DATA) : cut data = data :=
  List.take_of_length_le h

/-! ### Requests -/

def putHeader (op a b : Byte) (value index len : UInt16) (data : List Byte) : List Byte :=
  [op, a, b] ++ toLeBytes value ++ toLeBytes index ++ toLeBytes len ++ data

/-- The operations whose request carries data. -/
def sends (op : Byte) : Bool :=
  match op.toNat with
  | 2 | 3 | 5 | 7 => true
  | _ => false

namespace UsbTransfer

/-- The operation byte of the frame. -/
def op : UsbTransfer → Byte
  | controlIn .. => 1
  | controlOut .. => 2
  | bulkWrite .. => 3
  | bulkRead .. => 4
  | interruptWrite .. => 5
  | interruptRead .. => 6
  | interruptExchange .. => 7

/-- The request frame. Data longer than `MAX_DATA` is cut. -/
def encode (t : UsbTransfer) : List Byte :=
  match t with
  | controlIn requestType request value index length =>
    putHeader t.op requestType request value index length []
  | controlOut requestType request value index data =>
    putHeader t.op requestType request value index (dataLen (cut data)) (cut data)
  | bulkWrite endpoint data | interruptWrite endpoint data =>
    putHeader t.op endpoint 0 0 0 (dataLen (cut data)) (cut data)
  | bulkRead endpoint length | interruptRead endpoint length =>
    putHeader t.op endpoint 0 0 0 length []
  | interruptExchange outEndpoint inEndpoint data readLength =>
    putHeader t.op outEndpoint inEndpoint readLength 0 (dataLen (cut data)) (cut data)

/-- The transfer of a header. Its data field is asked for by the operations that send one. -/
def ofHeader (op a b : Byte) (value index len : UInt16) (data : Except FrameError (List Byte)) :
    Except FrameError UsbTransfer :=
  match op.toNat with
  | 1 => .ok (controlIn a b value index len)
  | 2 => data.map (controlOut a b value index)
  | 3 => data.map (bulkWrite a)
  | 4 => .ok (bulkRead a len)
  | 5 => data.map (interruptWrite a)
  | 6 => .ok (interruptRead a len)
  | 7 => data.map fun data => interruptExchange a b data value
  | _ => .error .malformed

/-- A data field of the length a header announces. -/
def field (len : UInt16) (rest : List Byte) : Except FrameError (List Byte) :=
  if len.toNat ≤ rest.length then .ok (rest.take len.toNat) else .error .incomplete

/-- Decodes the first request frame; gives it and the number of bytes it used. -/
def decode (bytes : List Byte) : Except FrameError (UsbTransfer × ℕ) :=
  match bytes with
  | op :: a :: b :: v₀ :: v₁ :: i₀ :: i₁ :: l₀ :: l₁ :: rest =>
    let len := fromLeBytes l₀ l₁
    if MAX_DATA < len.toNat then .error .malformed
    else
      let used := REQUEST_HEADER + if sends op then len.toNat else 0
      (ofHeader op a b (fromLeBytes v₀ v₁) (fromLeBytes i₀ i₁) len (field len rest)).map (·, used)
  | _ => .error .incomplete

/-- The data and the read lengths that a frame may carry. The answer to an exchange may be of any
length: its read length is not in the length field. -/
def Fits : UsbTransfer → Prop
  | controlIn _ _ _ _ length | bulkRead _ length | interruptRead _ length =>
    length.toNat ≤ MAX_DATA
  | controlOut _ _ _ _ data | bulkWrite _ data | interruptWrite _ data
  | interruptExchange _ _ data _ => data.length ≤ MAX_DATA

instance (t : UsbTransfer) : Decidable t.Fits := by
  cases t <;> exact inferInstanceAs (Decidable (_ ≤ _))

section Laws

variable {op a b : Byte} {value index len : UInt16} {data data' : Except FrameError (List Byte)}
  {bytes rest cs : List Byte} {t : UsbTransfer} {n : ℕ}

/-- A data field that is there stays there when more follows. -/
theorem field_append {d : List Byte} (h : field len rest = .ok d) (cs : List Byte) :
    field len (rest ++ cs) = .ok d := by
  unfold field at h ⊢
  split at h
  next hle =>
    rw [if_pos (by rw [List.length_append]; omega), List.take_append_of_le_length hle]
    exact h
  · cases h

theorem le_of_field {d : List Byte} (h : field len rest = .ok d) : len.toNat ≤ rest.length := by
  unfold field at h
  split at h
  · assumption
  · cases h

theorem field_ne_malformed : field len rest ≠ .error .malformed := by
  unfold field
  split <;> nofun

theorem field_dataLen {d : List Byte} (h : d.length ≤ MAX_DATA) (cs : List Byte) :
    field (dataLen d) (d ++ cs) = .ok d := by
  unfold field
  rw [dataLen_toNat h, if_pos (by rw [List.length_append]; omega), List.take_left]

/-- A transfer that is decoded is decoded from any later state of its data field. -/
theorem ofHeader_mono (hdata : ∀ d, data = .ok d → data' = .ok d)
    (h : ofHeader op a b value index len data = .ok t) :
    ofHeader op a b value index len data' = .ok t := by
  cases data with
  | ok d => rwa [hdata d rfl]
  | error e =>
    unfold ofHeader at h ⊢
    split at h <;> first | exact h | cases h

/-- Only the operation makes a header malformed. -/
theorem ofHeader_malformed (hdata : data ≠ .error .malformed)
    (h : ofHeader op a b value index len data = .error .malformed) :
    ofHeader op a b value index len data' = .error .malformed := by
  unfold ofHeader at h ⊢
  cases data with
  | ok d => split at h <;> first | exact h | cases h
  | error e =>
    cases e with
    | malformed => exact absurd rfl hdata
    | incomplete => split at h <;> first | exact h | cases h

/-- An operation that sends data is decoded with its data field. -/
theorem field_of_sends (hsends : sends op = true)
    (h : ofHeader op a b value index len data = .ok t) : ∃ d, data = .ok d := by
  cases data with
  | ok d => exact ⟨d, rfl⟩
  | error e =>
    unfold ofHeader at h
    unfold sends at hsends
    split at h <;> simp_all [Except.map]

theorem decode_cons (op a b v₀ v₁ i₀ i₁ l₀ l₁ : Byte) (rest : List Byte) :
    decode (op :: a :: b :: v₀ :: v₁ :: i₀ :: i₁ :: l₀ :: l₁ :: rest) =
      if MAX_DATA < (fromLeBytes l₀ l₁).toNat then .error .malformed
      else (ofHeader op a b (fromLeBytes v₀ v₁) (fromLeBytes i₀ i₁) (fromLeBytes l₀ l₁)
        (field (fromLeBytes l₀ l₁) rest)).map
          (·, REQUEST_HEADER + if sends op then (fromLeBytes l₀ l₁).toNat else 0) := rfl

/-- Short of a header there is nothing to decode. -/
theorem exists_header (h : decode bytes ≠ .error .incomplete) :
    ∃ op a b v₀ v₁ i₀ i₁ l₀ l₁ rest,
      bytes = op :: a :: b :: v₀ :: v₁ :: i₀ :: i₁ :: l₀ :: l₁ :: rest := by
  unfold decode at h
  split at h
  · exact ⟨_, _, _, _, _, _, _, _, _, _, rfl⟩
  · exact absurd rfl h

/-- What decoding finds is found again when more bytes follow, and it is no longer than the bytes
that were there. -/
theorem decode_ok (h : decode bytes = .ok (t, n)) (cs : List Byte) :
    decode (bytes ++ cs) = .ok (t, n) ∧ 0 < n ∧ n ≤ bytes.length := by
  obtain ⟨op, a, b, v₀, v₁, i₀, i₁, l₀, l₁, rest, rfl⟩ :=
    exists_header fun hshort => by rw [h] at hshort; cases hshort
  simp only [List.cons_append, decode_cons, List.length_cons] at h ⊢
  by_cases hlen : MAX_DATA < (fromLeBytes l₀ l₁).toNat
  · rw [if_pos hlen] at h
    cases h
  rw [if_neg hlen] at h ⊢
  cases hhead : ofHeader op a b (fromLeBytes v₀ v₁) (fromLeBytes i₀ i₁) (fromLeBytes l₀ l₁)
      (field (fromLeBytes l₀ l₁) rest) with
  | error e =>
    rw [hhead] at h
    cases h
  | ok t' =>
    rw [hhead] at h
    obtain ⟨rfl, rfl⟩ := Prod.mk.inj (Except.ok.inj h)
    rw [ofHeader_mono (fun d hd => field_append hd cs) hhead]
    refine ⟨rfl, Nat.lt_of_lt_of_le (by decide) (Nat.le_add_right _ _), ?_⟩
    simp only [REQUEST_HEADER]
    cases hsends : sends op with
    | false => simp
    | true =>
      obtain ⟨d, hd⟩ := field_of_sends hsends hhead
      have hle := le_of_field hd
      simp only [if_true]
      omega

theorem decode_malformed (h : decode bytes = .error .malformed) (cs : List Byte) :
    decode (bytes ++ cs) = .error .malformed := by
  obtain ⟨op, a, b, v₀, v₁, i₀, i₁, l₀, l₁, rest, rfl⟩ :=
    exists_header fun hshort => by rw [h] at hshort; cases hshort
  simp only [List.cons_append, decode_cons] at h ⊢
  by_cases hlen : MAX_DATA < (fromLeBytes l₀ l₁).toNat
  · rw [if_pos hlen]
  rw [if_neg hlen] at h ⊢
  cases hhead : ofHeader op a b (fromLeBytes v₀ v₁) (fromLeBytes i₀ i₁) (fromLeBytes l₀ l₁)
      (field (fromLeBytes l₀ l₁) rest) with
  | ok t' =>
    rw [hhead] at h
    cases h
  | error e =>
    rw [hhead] at h
    obtain rfl := Except.error.inj h
    rw [ofHeader_malformed field_ne_malformed hhead]
    exact rfl

theorem decode_putHeader (data cs : List Byte) (hlen : len.toNat ≤ MAX_DATA) :
    decode (putHeader op a b value index len data ++ cs) =
      (ofHeader op a b value index len (field len (data ++ cs))).map
        (·, REQUEST_HEADER + if sends op then len.toNat else 0) := by
  simp [putHeader, toLeBytes, decode, Nat.not_lt.mpr hlen]

/-- A request frame is decoded, whatever follows it. -/
theorem decode_encode (h : t.Fits) (cs : List Byte) :
    decode (t.encode ++ cs) = .ok (t, t.encode.length) := by
  cases t with
  | controlIn _ _ _ _ length | bulkRead _ length | interruptRead _ length =>
    exact decode_putHeader [] cs h
  | controlOut _ _ _ _ data | bulkWrite _ data | interruptWrite _ data
  | interruptExchange _ _ data _ =>
    have hlen : (dataLen data).toNat = data.length := dataLen_toNat h
    simp only [encode, cut_of_le h]
    rw [decode_putHeader data cs (by rw [hlen]; exact h), field_dataLen h, hlen]
    exact congrArg Except.ok (Prod.ext rfl (Nat.add_comm _ _))

end Laws

/-- Decoding requests as the scanning of a stream. -/
def scanner : Scanner Byte UsbTransfer Unit := scannerOf decode rfl decode_ok decode_malformed

theorem encodes {t : UsbTransfer} (h : t.Fits) : scanner.Encodes t.encode t :=
  fun cs => scan_ok (decode_encode h cs)

/-- A strict prefix of a request frame is incomplete. -/
theorem decode_prefix {t : UsbTransfer} {p : List Byte} (h : t.Fits) (hpre : p <+: t.encode)
    (hne : p ≠ t.encode) : decode p = .error .incomplete :=
  decode_of_more ((encodes h).of_shorter hpre hne)

end UsbTransfer

/-! ### Replies -/

/-- The reply frame to one transfer. -/
structure UsbReply where
  /-- The operation of the request this answers. -/
  op : Byte
  status : UsbStatus
  /-- Bytes read from the device. -/
  data : List Byte
  deriving DecidableEq

namespace UsbReply

def encode (r : UsbReply) : List Byte :=
  let data := cut r.data
  [r.op, r.status.code] ++ toLeBytes (dataLen data) ++ data

/-- Decodes the first reply frame; gives it and the number of bytes it used. -/
def decode (bytes : List Byte) : Except FrameError (UsbReply × ℕ) :=
  match bytes with
  | op :: status :: l₀ :: l₁ :: rest =>
    let len := fromLeBytes l₀ l₁
    if MAX_DATA < len.toNat then .error .malformed
    else (UsbTransfer.field len rest).map
      fun data => (⟨op, .fromCode status, data⟩, REPLY_HEADER + len.toNat)
  | _ => .error .incomplete

/-- The data that a frame may carry. -/
def Fits (r : UsbReply) : Prop := r.data.length ≤ MAX_DATA

instance (r : UsbReply) : Decidable r.Fits := inferInstanceAs (Decidable (_ ≤ _))

variable {bytes : List Byte} {r : UsbReply} {n : ℕ}

theorem decode_cons (op status l₀ l₁ : Byte) (rest : List Byte) :
    decode (op :: status :: l₀ :: l₁ :: rest) =
      if MAX_DATA < (fromLeBytes l₀ l₁).toNat then .error .malformed
      else (UsbTransfer.field (fromLeBytes l₀ l₁) rest).map
        fun data => (⟨op, .fromCode status, data⟩, REPLY_HEADER + (fromLeBytes l₀ l₁).toNat) := rfl

theorem exists_header (h : decode bytes ≠ .error .incomplete) :
    ∃ op status l₀ l₁ rest, bytes = op :: status :: l₀ :: l₁ :: rest := by
  unfold decode at h
  split at h
  · exact ⟨_, _, _, _, _, rfl⟩
  · exact absurd rfl h

/-- As for a request. -/
theorem decode_ok (h : decode bytes = .ok (r, n)) (cs : List Byte) :
    decode (bytes ++ cs) = .ok (r, n) ∧ 0 < n ∧ n ≤ bytes.length := by
  obtain ⟨op, status, l₀, l₁, rest, rfl⟩ :=
    exists_header fun hshort => by rw [h] at hshort; cases hshort
  simp only [List.cons_append, decode_cons, List.length_cons] at h ⊢
  by_cases hlen : MAX_DATA < (fromLeBytes l₀ l₁).toNat
  · rw [if_pos hlen] at h
    cases h
  rw [if_neg hlen] at h ⊢
  cases hfield : UsbTransfer.field (fromLeBytes l₀ l₁) rest with
  | error e =>
    rw [hfield] at h
    cases h
  | ok d =>
    rw [hfield] at h
    obtain ⟨rfl, rfl⟩ := Prod.mk.inj (Except.ok.inj h)
    rw [UsbTransfer.field_append hfield cs]
    have hle := UsbTransfer.le_of_field hfield
    simp only [REPLY_HEADER]
    exact ⟨rfl, by omega, by omega⟩

theorem decode_malformed (h : decode bytes = .error .malformed) (cs : List Byte) :
    decode (bytes ++ cs) = .error .malformed := by
  obtain ⟨op, status, l₀, l₁, rest, rfl⟩ :=
    exists_header fun hshort => by rw [h] at hshort; cases hshort
  simp only [List.cons_append, decode_cons] at h ⊢
  by_cases hlen : MAX_DATA < (fromLeBytes l₀ l₁).toNat
  · rw [if_pos hlen]
  rw [if_neg hlen] at h
  cases hfield : UsbTransfer.field (fromLeBytes l₀ l₁) rest with
  | ok d =>
    rw [hfield] at h
    cases h
  | error e =>
    rw [hfield] at h
    obtain rfl := Except.error.inj h
    exact absurd hfield UsbTransfer.field_ne_malformed

/-- A reply frame is decoded, whatever follows it. -/
theorem decode_encode (h : r.Fits) (cs : List Byte) :
    decode (r.encode ++ cs) = .ok (r, r.encode.length) := by
  have hlen : (dataLen r.data).toNat = r.data.length := dataLen_toNat h
  have hle : ¬MAX_DATA < r.data.length := Nat.not_lt.mpr h
  simp only [encode, cut_of_le h, toLeBytes, List.cons_append, List.nil_append, decode_cons,
    fromLeBytes_toLeBytes, UsbTransfer.field_dataLen h, hlen, if_neg hle, UsbStatus.fromCode_code]
  exact congrArg Except.ok (Prod.ext rfl (Nat.add_comm _ _))

/-- Decoding replies as the scanning of a stream. -/
def scanner : Scanner Byte UsbReply Unit := scannerOf decode rfl decode_ok decode_malformed

theorem encodes (h : r.Fits) : scanner.Encodes r.encode r := fun cs => scan_ok (decode_encode h cs)

/-- A strict prefix of a reply frame is incomplete. -/
theorem decode_prefix {p : List Byte} (h : r.Fits) (hpre : p <+: r.encode) (hne : p ≠ r.encode) :
    decode p = .error .incomplete :=
  decode_of_more ((encodes h).of_shorter hpre hne)

end UsbReply

end HamsOpen.Usb
