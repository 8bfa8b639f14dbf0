import HamsOpen.RelayBroker.Codec
import Mathlib

/-!
# Messages through a frame

A body goes through its frame whole when it is no longer than the largest frame, and is cut short
otherwise. No request is longer, and no answer but a list of devices is. A response whose frame cuts
it is not read as what it was cut to, since that has the whole body for its encoding.
-/

namespace HamsOpen.RelayBroker

/-! ### Frames -/

theorem foldl_be32 {n : ℕ} (h : n < 256 ^ 4) :
    (be32 n).foldl (fun m b => m * 256 + b.toNat) 0 = n := by
  simp only [be32, List.foldl_cons, List.foldl_nil, UInt8.toNat_ofNat']
  omega

theorem frameBodyLen_be32 {n : ℕ} (hpos : 0 < n) (hmax : n ≤ MAX_FRAME) :
    frameBodyLen (be32 n) = .ok n := by
  have hfold : (be32 n).foldl (fun m b => m * 256 + b.toNat) 0 = n := by
    apply foldl_be32
    unfold MAX_FRAME at hmax
    omega
  unfold frameBodyLen
  rw [hfold]
  exact if_neg (by omega)

/-- A frame holds the front of its body. -/
theorem frameBody_frameEncode {body : List UInt8} (h : body ≠ []) :
    frameBody (frameEncode body) = .ok (body.take MAX_FRAME) := by
  have htake : body.take (min body.length MAX_FRAME) = body.take MAX_FRAME := by
    rw [Nat.min_comm, ← List.take_take, List.take_length]
  have hpos : 0 < (body.take MAX_FRAME).length := by
    have hlength := List.length_pos_of_ne_nil h
    rw [List.length_take]
    exact Nat.lt_min.mpr ⟨by decide, hlength⟩
  have hframe : frameEncode body = be32 (body.take MAX_FRAME).length ++ body.take MAX_FRAME := by
    unfold frameEncode
    rw [htake]
  have hheader : (frameEncode body).take 4 = be32 (body.take MAX_FRAME).length := by
    rw [hframe]
    rfl
  have hbody : (frameEncode body).drop 4 = body.take MAX_FRAME := by
    rw [hframe]
    rfl
  unfold frameBody
  rw [hheader, frameBodyLen_be32 hpos (List.length_take_le _ _), hbody]
  change (if (body.take MAX_FRAME).length ≤ (body.take MAX_FRAME).length then _ else _) = _
  rw [if_pos (Nat.le_refl _), List.take_length]

/-- What is made of a body is made of its front. -/
theorem received_eq {α : Type} (decode : List UInt8 → Except WireError α) {body : List UInt8}
    (h : body ≠ []) : received decode body = decode (body.take MAX_FRAME) := by
  unfold received
  rw [frameBody_frameEncode h]
  rfl

/-! ### How long bodies are -/

theorem length_putString (s : String) :
    (putString s).length = 2 + (Utf8.bytes (cut s)).length := by
  rw [putString_eq, List.length_append, be16_length]

theorem length_putString_le (s : String) : (putString s).length ≤ 2 + MAX_STRING := by
  rw [length_putString]
  exact Nat.add_le_add_left (clean_cut s).short 2

/-- A device is as long as its strings, once they are cut, and its fixed fields. -/
def DeviceDescriptor.size (d : DeviceDescriptor) : ℕ :=
  11 + (Utf8.bytes (RelayBroker.cut d.path)).length +
    (Utf8.bytes (RelayBroker.cut d.product)).length +
    (Utf8.bytes (RelayBroker.cut d.manufacturer)).length

theorem DeviceDescriptor.length_encode (d : DeviceDescriptor) : d.encode.length = d.size := by
  simp only [encode, size, List.length_append, List.length_singleton, be16_length, length_putString]
  omega

namespace Request

theorem encode_ne_nil (m : Request) : m.encode ≠ [] := by
  cases m <;> exact List.cons_ne_nil _ _

theorem length_encode_le (m : Request) : m.encode.length ≤ MAX_FRAME := by
  cases m with
  | openDevice klass readOnly path =>
    have hpath := length_putString_le path
    simp only [encode, List.length_append, List.length_cons, List.length_nil]
    unfold MAX_STRING at hpath
    unfold MAX_FRAME
    omega
  | listDevices klass => exact (by decide : 3 ≤ MAX_FRAME)
  | grantGroup group => exact (by decide : 3 ≤ MAX_FRAME)
  | provisionGroups => decide

/-- A request is received as it was cut. -/
theorem received_encode (m : Request) : received decode m.encode = .ok m.cut := by
  rw [received_eq decode m.encode_ne_nil, List.take_of_length_le m.length_encode_le]
  exact decode_iff.mpr ⟨m.sound_cut, m.encode_cut.symm⟩

end Request

namespace Response

/-- How long the body of a response is. -/
def size : Response → ℕ
  | devices devs => 5 + ((devs.take MAX_DEVICES).map DeviceDescriptor.size).sum
  | opened => 3
  | groupReport _ user groups =>
    7 + (Utf8.bytes (RelayBroker.cut user)).length +
      ((groups.take MAX_GROUPS).map fun g => 2 + (Utf8.bytes (RelayBroker.cut g)).length).sum
  | error _ reason => 4 + (Utf8.bytes (RelayBroker.cut reason)).length

theorem length_encode (m : Response) : m.encode.length = m.size := by
  cases m with
  | devices devs =>
    have htake : devs.take (min devs.length MAX_DEVICES) = devs.take MAX_DEVICES := by
      rw [Nat.min_comm, ← List.take_take, List.take_length]
    simp only [encode, size, htake, List.length_append, List.length_cons, List.length_nil,
      be16_length, List.length_flatMap, DeviceDescriptor.length_encode]
  | opened => rfl
  | groupReport applied user groups =>
    have htake : groups.take (min groups.length MAX_GROUPS) = groups.take MAX_GROUPS := by
      rw [Nat.min_comm, ← List.take_take, List.take_length]
    simp only [encode, size, htake, List.length_append, List.length_cons, List.length_nil,
      List.length_flatMap, length_putString]
    omega
  | error status reason =>
    simp only [encode, size, List.length_append, List.length_cons, List.length_nil,
      length_putString]
    omega

/-- No answer but a list of devices is longer than a frame. -/
theorem size_le {m : Response} (h : ∀ devs, m ≠ devices devs) : m.size ≤ MAX_FRAME := by
  have hcut (s : String) : (Utf8.bytes (RelayBroker.cut s)).length ≤ 255 := (clean_cut s).short
  cases m with
  | devices devs => exact absurd rfl (h devs)
  | opened => decide
  | groupReport applied user groups =>
    have hsum : ((groups.take MAX_GROUPS).map
        fun g => 2 + (Utf8.bytes (RelayBroker.cut g)).length).sum ≤
        (groups.take MAX_GROUPS).length * 257 := by
      induction groups.take MAX_GROUPS with
      | nil => exact Nat.le_refl 0
      | cons g groups ih =>
        have hg := hcut g
        simp only [List.map_cons, List.sum_cons, List.length_cons]
        omega
    have huser := hcut user
    have hfew : (groups.take MAX_GROUPS).length ≤ MAX_GROUPS := List.length_take_le _ _
    simp only [size]
    unfold MAX_FRAME
    unfold MAX_GROUPS at hfew hsum ⊢
    omega
  | error status reason =>
    have hreason := hcut reason
    simp only [size]
    unfold MAX_FRAME
    omega

theorem encode_ne_nil (m : Response) : m.encode ≠ [] := by
  intro hnil
  have hlength := m.length_encode
  rw [hnil] at hlength
  cases m with
  | opened => cases hlength
  | _ =>
    change 0 = _ at hlength
    simp only [size] at hlength
    omega

/-- A response is received as it was cut, when its size is that of a frame. -/
theorem received_encode_iff {m : Response} (h : m.Proper) :
    received decode m.encode = .ok m.cut ↔ m.size ≤ MAX_FRAME := by
  rw [received_eq decode m.encode_ne_nil]
  constructor
  · intro hread
    -- what was read has the whole body for its encoding, so nothing of it was cut off
    have hwhole : m.encode.take MAX_FRAME = m.encode := by
      rw [(decode_iff.mp hread).2, encode_cut]
    rw [← length_encode, ← hwhole]
    exact List.length_take_le _ _
  · intro hsize
    rw [List.take_of_length_le (by rw [length_encode]; exact hsize)]
    exact decode_iff.mpr ⟨sound_cut h, m.encode_cut.symm⟩

end Response

end HamsOpen.RelayBroker
