import HamsOpen.Lib.Peek
import Mathlib

/-!
# WebSocket frames

A frame is a first byte with the final flag and the type, a length in one of three forms with the
mask flag, the mask key if there is one, and the payload. A decoder finds the first frame of what it
has received so far, and refuses what no peer may send.
-/

namespace HamsOpen.Ws

abbrev Byte := UInt8

/-- A WebSocket frame type. -/
inductive Opcode where
  | continuation
  | text
  | binary
  | close
  | ping
  | pong
  deriving DecidableEq

/-- The wire value. -/
def Opcode.code : Opcode → Byte
  | continuation => 0
  | text => 1
  | binary => 2
  | close => 8
  | ping => 9
  | pong => 10

/-- The type for a wire value, if it is one this codec knows. -/
def Opcode.fromCode (code : Byte) : Option Opcode :=
  match code.toNat with
  | 0 => some continuation
  | 1 => some text
  | 2 => some binary
  | 8 => some close
  | 9 => some ping
  | 10 => some pong
  | _ => none

/-- One frame as read: final-fragment flag, type, unmasked payload. -/
abbrev Frame := Bool × Opcode × List Byte

/-- A mask key. -/
structure Mask where
  k₀ : Byte
  k₁ : Byte
  k₂ : Byte
  k₃ : Byte
  deriving DecidableEq

namespace Mask

def bytes (m : Mask) : List Byte := [m.k₀, m.k₁, m.k₂, m.k₃]

/-- The byte of the key for the `i`-th byte of a payload. -/
def at4 (m : Mask) (i : ℕ) : Byte :=
  match i % 4 with
  | 0 => m.k₀
  | 1 => m.k₁
  | 2 => m.k₂
  | _ => m.k₃

end Mask

/-- A payload masked, or unmasked again. -/
def applyMask (mask : Option Mask) (payload : List Byte) : List Byte :=
  match mask with
  | some m => payload.mapIdx fun i b => b ^^^ m.at4 i
  | none => payload

@[simp] theorem length_applyMask (mask : Option Mask) (payload : List Byte) :
    (applyMask mask payload).length = payload.length := by
  cases mask with
  | none => rfl
  | some m => exact List.length_mapIdx

@[simp] theorem applyMask_applyMask (mask : Option Mask) (payload : List Byte) :
    applyMask mask (applyMask mask payload) = payload := by
  cases mask with
  | none => rfl
  | some m =>
    simp only [applyMask, List.mapIdx_mapIdx]
    apply List.ext_getElem
    · simp
    · intro i h h'
      simp [UInt8.xor_assoc]

/-! ### Lengths -/

/-- The `k` low bytes of a number, the high one first. -/
def toBeBytes : ℕ → ℕ → List Byte
  | 0, _ => []
  | k + 1, n => toBeBytes k (n / 256) ++ [.ofNat n]

def fromBeBytes (bytes : List Byte) : ℕ := bytes.foldl (fun n b => n * 256 + b.toNat) 0

@[simp] theorem length_toBeBytes (k n : ℕ) : (toBeBytes k n).length = k := by
  induction k generalizing n with
  | zero => rfl
  | succ k ih => simp [toBeBytes, ih]

theorem fromBeBytes_toBeBytes (k n : ℕ) : fromBeBytes (toBeBytes k n) = n % 256 ^ k := by
  induction k generalizing n with
  | zero => simp [toBeBytes, fromBeBytes, Nat.mod_one]
  | succ k ih =>
    have hstep : fromBeBytes (toBeBytes (k + 1) n) =
        fromBeBytes (toBeBytes k (n / 256)) * 256 + n % 256 := by
      simp [toBeBytes, fromBeBytes, List.foldl_append]
    rw [hstep, ih, Nat.pow_succ, Nat.mul_comm (256 ^ k), Nat.mod_mul]
    omega

/-- The length of a payload in the shortest of its three forms, with the mask flag. -/
def lengthBytes (masked : Bool) (len : ℕ) : List Byte :=
  let flag : Byte := if masked then 0x80 else 0
  if len < 126 then [flag ||| .ofNat len]
  else if len < 65536 then (flag ||| 126) :: toBeBytes 2 len
  else (flag ||| 127) :: toBeBytes 8 len

/-! ### Encoding -/

/-- What follows the first byte of a frame. -/
def afterFirst (payload : List Byte) (mask : Option Mask) : List Byte :=
  lengthBytes mask.isSome payload.length ++ ((mask.map Mask.bytes).getD [] ++
    applyMask mask payload)

/-- One final frame. A client masks, a server does not. -/
def encodeFrame (opcode : Opcode) (payload : List Byte) (mask : Option Mask) : List Byte :=
  (0x80 ||| opcode.code) :: afterFirst payload mask

/-- One frame of a message that goes on: the final flag is clear. -/
def encodeFragment (opcode : Opcode) (payload : List Byte) (mask : Option Mask) : List Byte :=
  opcode.code :: afterFirst payload mask

def encodeAs (f : Frame) (mask : Option Mask) : List Byte :=
  if f.1 then encodeFrame f.2.1 f.2.2 mask else encodeFragment f.2.1 f.2.2 mask

/-! ### Decoding -/

/-- Why a decoder stops. -/
inductive Fault where
  /-- The stream is broken or hostile. -/
  | refused (why : String)
  /-- An index is outside its slice: the program panics. -/
  | outOfRange
  deriving DecidableEq

/-- An element of a slice by its index. -/
def index (s : List Byte) (i : ℕ) : Peek Byte Fault Byte :=
  .lift (match s[i]? with
    | some b => .ok b
    | none => .error .outOfRange)

/-- A slice copied into an array of `k` bytes. -/
def copyFromSlice (k : ℕ) (s : List Byte) : Peek Byte Fault (List Byte) :=
  .lift (if s.length = k then .ok s else .error .outOfRange)

/-- The length of the payload, and where the field ends. -/
def lengthField (b₁ : Byte) : Peek Byte Fault (ℕ × ℕ) :=
  match (b₁ &&& 0x7f).toNat with
  | 126 => do
    let s ← .slice 2 4
    let hi ← index s 0
    let lo ← index s 1
    return (fromBeBytes [hi, lo], 4)
  | 127 => do
    let s ← .slice 2 10
    let eight ← copyFromSlice 8 s
    return (fromBeBytes eight, 10)
  | n => return (n, 2)

/-- The mask key, if there is one, and where the payload begins. -/
def maskField (pos : ℕ) (masked : Bool) : Peek Byte Fault (Option Mask × ℕ) :=
  if masked then do
    let m ← .slice pos (pos + 4)
    let k₀ ← index m 0
    let k₁ ← index m 1
    let k₂ ← index m 2
    let k₃ ← index m 3
    return (some ⟨k₀, k₁, k₂, k₃⟩, pos + 4)
  else return (none, pos)

/-- The first complete frame in the bytes at hand and how many of them it used. -/
def frame (maxMessage : ℕ) : Peek Byte Fault (Frame × ℕ) := do
  let b₀ ← .get 0
  let b₁ ← .get 1
  .ensure (b₀ &&& 0x70 = 0) (.refused "a reserved bit is set (extensions are not negotiated)")
  let opcode ← .lift ((Opcode.fromCode (b₀ &&& 0x0f)).elim (.error (.refused "unknown opcode")) .ok)
  let (len, pos) ← lengthField b₁
  .ensure (len ≤ maxMessage) (.refused "frame too large")
  let (mask, pos) ← maskField pos (b₁ &&& 0x80 != 0)
  -- A sum that overflows its word makes a range that is not in the buffer either.
  let raw ← .slice pos (pos + len)
  return ((b₀ &&& 0x80 != 0, opcode, applyMask mask raw), pos + len)

/-! ### What decoding a frame comes to -/

section Spec

variable {bytes : List Byte} {W : Prop} {P : Byte → Prop}

theorem index_spec {s : List Byte} {i : ℕ} (hlt : i < s.length) (hP : ∀ b, P b) :
    (index s i).Spec bytes W (· ≠ .outOfRange) P := by
  apply Peek.Spec.lift
  · intro a _
    exact hP a
  · intro e he
    rw [List.getElem?_eq_getElem hlt] at he
    cases he

theorem lengthField_spec (b₁ : Byte) (hwait : bytes.length < 10 → W) :
    (lengthField b₁).Spec bytes W (· ≠ .outOfRange) fun r => 2 ≤ r.2 ∧ r.2 ≤ 10 := by
  unfold lengthField
  split
  · apply Peek.Spec.bind (P := fun s => s.length = 2)
    · exact .slice (by omega) (fun _ => hwait (by omega)) fun _ _ hlen => hlen
    intro s hs
    apply Peek.Spec.bind (index_spec (P := fun _ => True) (by omega) fun _ => trivial)
    intro hi _
    apply Peek.Spec.bind (index_spec (P := fun _ => True) (by omega) fun _ => trivial)
    intro lo _
    exact ⟨by omega, by omega⟩
  · apply Peek.Spec.bind (P := fun s => s.length = 8)
    · exact .slice (by omega) (fun _ => hwait (by omega)) fun _ _ hlen => hlen
    intro s hs
    apply Peek.Spec.bind (P := fun _ => True)
    · apply Peek.Spec.lift
      · exact fun _ _ => trivial
      · intro e he
        rw [if_pos hs] at he
        cases he
    intro eight _
    exact ⟨by omega, by omega⟩
  · exact ⟨by omega, by omega⟩

theorem maskField_spec {pos : ℕ} (masked : Bool) (hwait : bytes.length < pos + 4 → W) :
    (maskField pos masked).Spec bytes W (· ≠ .outOfRange) fun r => pos ≤ r.2 ∧ r.2 ≤ pos + 4 := by
  unfold maskField
  split
  · apply Peek.Spec.bind (P := fun s => s.length = 4)
    · exact .slice (by omega) hwait fun _ _ hlen => by omega
    intro m hm
    apply Peek.Spec.bind (index_spec (P := fun _ => True) (by omega) fun _ => trivial)
    intro _ _
    apply Peek.Spec.bind (index_spec (P := fun _ => True) (by omega) fun _ => trivial)
    intro _ _
    apply Peek.Spec.bind (index_spec (P := fun _ => True) (by omega) fun _ => trivial)
    intro _ _
    apply Peek.Spec.bind (index_spec (P := fun _ => True) (by omega) fun _ => trivial)
    intro _ _
    exact ⟨by omega, Nat.le_refl _⟩
  · exact ⟨Nat.le_refl _, by omega⟩

/-- No index of a decoder is out of range. A frame it finds is within the bytes at hand and its
payload within the limit, and bytes that are no frame yet are fewer than the longest header and the
limit. -/
theorem frame_spec (maxMessage : ℕ) (bytes : List Byte) :
    (frame maxMessage).Spec bytes (bytes.length < 14 + maxMessage) (· ≠ .outOfRange) fun r =>
      (0 < r.2 ∧ r.2 ≤ bytes.length) ∧ r.1.2.2.length ≤ maxMessage := by
  unfold frame
  apply Peek.Spec.bind (P := fun _ => True)
  · exact .get (fun _ => by omega) fun _ _ _ => trivial
  intro b₀ _
  apply Peek.Spec.bind (P := fun _ => True)
  · exact .get (fun _ => by omega) fun _ _ _ => trivial
  intro b₁ _
  apply Peek.Spec.bind (P := fun _ => True)
  · exact .ensure (fun _ => nofun) fun _ => trivial
  intro _ _
  apply Peek.Spec.bind (P := fun _ => True)
  · apply Peek.Spec.lift
    · exact fun _ _ => trivial
    · intro e he
      cases hopcode : Opcode.fromCode (b₀ &&& 0x0f) with
      | none =>
        rw [hopcode] at he
        obtain rfl := Except.error.inj he
        nofun
      | some o =>
        rw [hopcode] at he
        cases he
  intro opcode _
  apply Peek.Spec.bind (lengthField_spec b₁ fun _ => by omega)
  rintro ⟨len, pos⟩ ⟨hpos, hpos'⟩
  apply Peek.Spec.bind (P := fun _ => len ≤ maxMessage)
  · exact .ensure (fun _ => nofun) fun h => h
  intro _ hlen
  apply Peek.Spec.bind (maskField_spec _ fun _ => by omega)
  rintro ⟨mask, pos'⟩ ⟨hle, hle'⟩
  apply Peek.Spec.bind (P := fun raw => pos' + len ≤ bytes.length ∧ raw.length = len)
  · exact .slice (Nat.le_add_right _ _) (fun _ => by omega) fun raw hle hraw => ⟨hle, by omega⟩
  rintro raw ⟨hraw, hlength⟩
  refine ⟨⟨?_, hraw⟩, ?_⟩
  · change 0 < pos' + len
    omega
  · change (applyMask mask raw).length ≤ maxMessage
    rw [length_applyMask]
    omega

end Spec

/-! ### Reading a frame back -/

theorem Opcode.bits (opcode : Opcode) (fin : Bool) :
    ∃ b₀ : Byte, b₀ = (if fin then 0x80 else 0) ||| opcode.code ∧ b₀ &&& 0x70 = 0 ∧
      Opcode.fromCode (b₀ &&& 0x0f) = some opcode ∧ (b₀ &&& 0x80 != 0) = fin := by
  cases opcode <;> cases fin <;> exact ⟨_, rfl, by decide⟩

theorem short_length (masked : Bool) : ∀ n < 126,
    (((if masked then 0x80 else 0) ||| UInt8.ofNat n) &&& 0x7f).toNat = n ∧
      ((((if masked then 0x80 else 0) : Byte) ||| .ofNat n) &&& 0x80 != 0) = masked := by
  cases masked <;> decide

/-- The length field is read back, with the mask flag. -/
theorem lengthBytes_read (masked : Bool) {len : ℕ} (hlen : len < 2 ^ 64) :
    ∃ b₁ tail, lengthBytes masked len = b₁ :: tail ∧ (b₁ &&& 0x80 != 0) = masked ∧
      ∀ b₀ rest, (lengthField b₁).run (b₀ :: b₁ :: (tail ++ rest)) =
        .ok (some (len, 2 + tail.length)) := by
  unfold lengthBytes
  by_cases hshort : len < 126
  · obtain ⟨hvalue, hflag⟩ := short_length masked len hshort
    refine ⟨_, [], if_pos hshort, hflag, fun b₀ rest => ?_⟩
    unfold lengthField
    split
    · omega
    · omega
    · rw [hvalue]
      exact rfl
  by_cases hmiddle : len < 65536
  · refine ⟨(if masked then 0x80 else 0) ||| 126, toBeBytes 2 len,
      (if_neg hshort).trans (if_pos hmiddle), by cases masked <;> decide, fun b₀ rest => ?_⟩
    have hform : (((if masked then 0x80 else 0) ||| 126 : Byte) &&& 0x7f).toNat = 126 := by
      cases masked <;> decide
    have hvalue := fromBeBytes_toBeBytes 2 len
    unfold lengthField
    rw [hform]
    change Peek.run (do
      let s ← Peek.slice 2 4
      let hi ← index s 0
      let lo ← index s 1
      return (fromBeBytes [hi, lo], 4)) _ = _
    have hslice : (Peek.slice 2 4 : Peek Byte Fault (List Byte)).run
        (b₀ :: ((if masked then 0x80 else 0) ||| 126) :: (toBeBytes 2 len ++ rest)) =
          .ok (some (toBeBytes 2 len)) := Peek.run_slice [b₀, _] (toBeBytes 2 len) rest rfl (by simp)
    rw [Peek.run_bind_of hslice]
    change Except.ok (some (fromBeBytes (toBeBytes 2 len), 4)) = _
    rw [hvalue, length_toBeBytes, Nat.mod_eq_of_lt (by omega)]
  · refine ⟨(if masked then 0x80 else 0) ||| 127, toBeBytes 8 len,
      (if_neg hshort).trans (if_neg hmiddle), by cases masked <;> decide, fun b₀ rest => ?_⟩
    have hform : (((if masked then 0x80 else 0) ||| 127 : Byte) &&& 0x7f).toNat = 127 := by
      cases masked <;> decide
    have hvalue := fromBeBytes_toBeBytes 8 len
    unfold lengthField
    rw [hform]
    change Peek.run (do
      let s ← Peek.slice 2 10
      let eight ← copyFromSlice 8 s
      return (fromBeBytes eight, 10)) _ = _
    have hslice : (Peek.slice 2 10 : Peek Byte Fault (List Byte)).run
        (b₀ :: ((if masked then 0x80 else 0) ||| 127) :: (toBeBytes 8 len ++ rest)) =
          .ok (some (toBeBytes 8 len)) := Peek.run_slice [b₀, _] (toBeBytes 8 len) rest rfl (by simp)
    have hcopy : (copyFromSlice 8 (toBeBytes 8 len)).run
        (b₀ :: ((if masked then 0x80 else 0) ||| 127) :: (toBeBytes 8 len ++ rest)) =
          .ok (some (toBeBytes 8 len)) := rfl
    rw [Peek.run_bind_of hslice, Peek.run_bind_of hcopy, Peek.run_pure, hvalue, length_toBeBytes,
      Nat.mod_eq_of_lt (by omega)]

/-- The mask key is read back. -/
theorem maskField_read {rest : List Byte} {pos : ℕ} (head : List Byte) (mask : Option Mask)
    (hpos : head.length = pos) :
    (maskField pos mask.isSome).run (head ++ ((mask.map Mask.bytes).getD [] ++ rest)) =
      .ok (some (mask, pos + ((mask.map Mask.bytes).getD []).length)) := by
  cases mask with
  | none => exact rfl
  | some m =>
    change Peek.run (do
      let s ← Peek.slice pos (pos + 4)
      let k₀ ← index s 0
      let k₁ ← index s 1
      let k₂ ← index s 2
      let k₃ ← index s 3
      return (some (Mask.mk k₀ k₁ k₂ k₃), pos + 4)) (head ++ (m.bytes ++ rest)) = _
    have hslice : (Peek.slice pos (pos + 4) : Peek Byte Fault (List Byte)).run
        (head ++ (m.bytes ++ rest)) = .ok (some m.bytes) := Peek.run_slice _ _ _ hpos rfl
    rw [Peek.run_bind_of hslice]
    exact rfl

/-- A frame is read back, whatever follows it. -/
theorem frame_encodeAs {maxMessage : ℕ} (f : Frame) (mask : Option Mask)
    (hmax : f.2.2.length ≤ maxMessage) (hword : f.2.2.length < 2 ^ 64) (cs : List Byte) :
    (frame maxMessage).run (encodeAs f mask ++ cs) = .ok (some (f, (encodeAs f mask).length)) := by
  obtain ⟨fin, opcode, payload⟩ := f
  obtain ⟨b₀, hb₀, hreserved, hopcode, hfin⟩ := opcode.bits fin
  obtain ⟨b₁, tail, hlength, hmask, hfield⟩ := lengthBytes_read mask.isSome hword
  have hencode : encodeAs (fin, opcode, payload) mask = b₀ :: b₁ :: (tail ++
      ((mask.map Mask.bytes).getD [] ++ applyMask mask payload)) := by
    have hafter : afterFirst payload mask = b₁ :: (tail ++
        ((mask.map Mask.bytes).getD [] ++ applyMask mask payload)) := by
      rw [afterFirst, hlength]
      exact rfl
    cases fin with
    | true => rw [hb₀, ← hafter]; exact rfl
    | false => rw [hb₀, ← hafter]; simp [encodeAs, encodeFragment]
  rw [hencode]
  simp only [List.cons_append, List.append_assoc]
  unfold frame
  rw [Peek.run_bind_of (Peek.run_get (b := b₀) rfl), Peek.run_bind_of (Peek.run_get (b := b₁) rfl),
    Peek.run_bind_of (Peek.run_ensure hreserved), hopcode,
    Peek.run_bind_of (a := opcode) rfl, Peek.run_bind_of (hfield b₀ _),
    Peek.run_bind_of (Peek.run_ensure hmax), hmask]
  have hkey : (maskField (2 + tail.length) mask.isSome).run (b₀ :: b₁ :: (tail ++
      ((mask.map Mask.bytes).getD [] ++ (applyMask mask payload ++ cs)))) =
      .ok (some (mask, 2 + tail.length + ((mask.map Mask.bytes).getD []).length)) :=
    maskField_read (b₀ :: b₁ :: tail) mask (by rw [List.length_cons, List.length_cons]; omega)
  have hraw := Peek.run_slice (ε := Fault) (b₀ :: b₁ :: (tail ++ (mask.map Mask.bytes).getD []))
    (applyMask mask payload) cs rfl rfl
  have hpos : (b₀ :: b₁ :: (tail ++ (mask.map Mask.bytes).getD [])).length =
      2 + tail.length + ((mask.map Mask.bytes).getD []).length := by
    simp only [List.length_cons, List.length_append]
    omega
  simp only [hpos, length_applyMask, List.cons_append, List.append_assoc] at hraw
  rw [Peek.run_bind_of hkey, Peek.run_bind_of hraw, hfin, applyMask_applyMask, Peek.run_pure]
  refine congrArg (fun n => Except.ok (some ((fin, opcode, payload), n))) ?_
  simp only [List.length_cons, List.length_append, length_applyMask]
  omega

/-! ### Frames of a stream -/

/-- Frames as they are scanned off a stream. -/
def scanner (maxMessage : ℕ) : Scanner Byte Frame Fault :=
  (frame maxMessage).scanner rfl fun bytes => by
    have hspec := frame_spec maxMessage bytes
    unfold Peek.Spec at hspec ⊢
    generalize (frame maxMessage).run bytes = r at hspec
    match r, hspec with
    | .ok (some _), h => exact h.1
    | .ok none, _ => exact trivial
    | .error _, _ => exact trivial

theorem encodes {maxMessage : ℕ} {f : Frame} {mask : Option Mask}
    (hmax : f.2.2.length ≤ maxMessage) (hword : f.2.2.length < 2 ^ 64) :
    (scanner maxMessage).Encodes (encodeAs f mask) f :=
  fun cs => Peek.scan_of_run (frame_encodeAs f mask hmax hword cs)

end HamsOpen.Ws
