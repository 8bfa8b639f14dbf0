import HamsOpen.Lib.Loop
import HamsOpen.Ws.Frame
import Mathlib

/-!
# Type, length and value

A datagram of `radiod` is a byte for its kind and entries of a type, a length and a value, up to an
end entry. A length below 128 is one byte, a longer one says how many bytes it has. Integers are
written without their leading zero bytes, floats with all of theirs.
-/

namespace HamsOpen.Radiod

open Ws (toBeBytes fromBeBytes)

abbrev Bytes := List UInt8

/-- A 32-bit float, by its bits. -/
structure F32 where
  bits : UInt32
  deriving DecidableEq

/-- A 64-bit float, by its bits. -/
structure F64 where
  bits : UInt64
  deriving DecidableEq

/-! ### Types -/

namespace Ty

def EOL : UInt8 := 0
def COMMAND_TAG : UInt8 := 1
def SPECTRUM_AVG : UInt8 := 12
def OUTPUT_SSRC : UInt8 := 18
def OUTPUT_SAMPRATE : UInt8 := 20
def RADIO_FREQUENCY : UInt8 := 33
def LOW_EDGE : UInt8 := 39
def HIGH_EDGE : UInt8 := 40
def DEMOD_TYPE : UInt8 := 48
def OUTPUT_CHANNELS : UInt8 := 49
def PLL_ENABLE : UInt8 := 51
def PLL_SQUARE : UInt8 := 53
def ENVELOPE : UInt8 := 56
def SNR_SQUELCH : UInt8 := 57
def AGC_ENABLE : UInt8 := 62
def GAIN : UInt8 := 68
def OPUS_BIT_RATE : UInt8 := 71
def SQUELCH_OPEN : UInt8 := 83
def SQUELCH_CLOSE : UInt8 := 84
def DEEMPH_TC : UInt8 := 86
def DEEMPH_GAIN : UInt8 := 87
def THRESH_EXTEND : UInt8 := 90
def RESOLUTION_BW : UInt8 := 93
def BIN_COUNT : UInt8 := 94
def OUTPUT_ENCODING : UInt8 := 107
def LIFETIME : UInt8 := 117

end Ty

/-! ### Reading -/

/-- Why a datagram was rejected. -/
inductive TlvError
  | tooShort
  /-- The declared length of an entry runs past the end. -/
  | truncated
  /-- A length of more than four bytes. -/
  | badLength
  | badKind (kind : UInt8)
  /-- A value with a length that its type cannot have. -/
  | badValue (ty : UInt8)
  deriving DecidableEq

inductive Kind
  | status | command
  deriving DecidableEq

structure Entry where
  ty : UInt8
  value : Bytes
  deriving DecidableEq

/-- An unsigned integer of up to eight bytes; no bytes are zero. -/
def Entry.uint (e : Entry) : Except TlvError UInt64 :=
  if e.value.length > 8 then .error (.badValue e.ty) else .ok (.ofNat (fromBeBytes e.value))

/-- A float of up to four bytes or of up to eight. -/
def Entry.float (e : Entry) : Except TlvError (F32 ⊕ F64) := do
  let n ← e.uint
  return if e.value.length ≤ 4 then .inl ⟨n.toUInt32⟩ else .inr ⟨n⟩

/-- The length of a value and what follows it, from its first byte. -/
def valueLength (l0 : UInt8) (r : Bytes) : Except TlvError (ℕ × Bytes) :=
  if l0 &&& 0x80 = 0 then .ok (l0.toNat, r)
  else
    let n := (l0 &&& 0x7f).toNat
    if n = 0 ∨ n > 4 then .error .badLength
    else if r.length < n then .error .truncated
    else .ok (fromBeBytes (r.take n), r.drop n)

theorem length_of_valueLength {l0 : UInt8} {r r' : Bytes} {len : ℕ}
    (h : valueLength l0 r = .ok (len, r')) : r'.length ≤ r.length := by
  unfold valueLength at h
  simp only at h
  split at h
  · cases h
    exact Nat.le_refl _
  · split at h
    · cases h
    · split at h
      · cases h
      · cases h
        rw [List.length_drop]
        exact Nat.sub_le ..

/-- The entries up to the end entry or the end of the bytes, after those already found. -/
def entries : Loop (List Entry × Bytes) (Except TlvError (List Entry)) where
  body s := match s.2 with
    | [] => .inr (.ok s.1)
    | t :: r =>
      if t = Ty.EOL then .inr (.ok s.1)
      else match r with
        | [] => .inr (.error .truncated)
        | l0 :: r => match valueLength l0 r with
          | .error e => .inr (.error e)
          | .ok (len, r) =>
            if r.length < len then .inr (.error .truncated)
            else .inl (s.1 ++ [⟨t, r.take len⟩], r.drop len)
  size s := s.2.length
  shrinks {s t} h := by
    obtain ⟨out, rest⟩ := s
    match rest with
    | [] => cases h
    | t :: r =>
      simp only at h
      split at h
      · cases h
      · match r with
        | [] => cases h
        | l0 :: r =>
          simp only at h
          split at h
          · cases h
          next len r' hlen =>
            have hle := length_of_valueLength hlen
            split at h
            · cases h
            · cases h
              simp only [List.length_drop, List.length_cons]
              omega

/-- The kind and the entries of a datagram. -/
def parse (pkt : Bytes) : Except TlvError (Kind × List Entry) :=
  match pkt with
  | [] => .error .tooShort
  | k :: rest => do
    let kind ← match k with
      | 0 => .ok Kind.status
      | 1 => .ok Kind.command
      | other => .error (.badKind other)
    let out ← entries.run ([], rest)
    return (kind, out)

/-! ### Writing -/

/-- A command datagram as it is built. -/
structure Writer where
  buf : Bytes

namespace Writer

def command : Writer := ⟨[1]⟩

def header (w : Writer) (t : UInt8) (len : ℕ) : Writer := ⟨w.buf ++ [t, .ofNat len]⟩

def extend (w : Writer) (bytes : Bytes) : Writer := ⟨w.buf ++ bytes⟩

def uint (w : Writer) (t : UInt8) (v : UInt64) : Writer :=
  let bytes := toBeBytes 8 v.toNat
  let skip := (bytes.takeWhile (· == 0)).length
  (w.header t (8 - skip)).extend (bytes.drop skip)

def bool (w : Writer) (t : UInt8) (v : Bool) : Writer := w.uint t v.toUInt64

def f32 (w : Writer) (t : UInt8) (v : F32) : Writer :=
  (w.header t 4).extend (toBeBytes 4 v.bits.toNat)

def f64 (w : Writer) (t : UInt8) (v : F64) : Writer :=
  (w.header t 8).extend (toBeBytes 8 v.bits.toNat)

def finish (w : Writer) : Bytes := w.buf ++ [Ty.EOL]

end Writer

/-! ### What is written is read back -/

/-- An entry as it stands in a datagram, its length in one byte. -/
def Entry.bytes (e : Entry) : Bytes := e.ty :: .ofNat e.value.length :: e.value

/-- It is not the end entry, and its length fits one byte. -/
def Entry.IsShort (e : Entry) : Prop := e.ty ≠ Ty.EOL ∧ e.value.length < 0x80

theorem valueLength_of_lt {len : ℕ} (h : len < 0x80) (r : Bytes) :
    valueLength (.ofNat len) r = .ok (len, r) := by
  have htoNat : (UInt8.ofNat len).toNat = len := by
    rw [UInt8.toNat_ofNat', Nat.mod_eq_of_lt (by omega)]
  have hall : ∀ l : Fin 0x80, UInt8.ofNat l &&& 0x80 = 0 := by decide
  have hbit : UInt8.ofNat len &&& 0x80 = 0 := hall ⟨len, h⟩
  rw [valueLength, if_pos hbit, htoNat]

/-- An entry is found, whatever follows it. -/
theorem entries_cons {e : Entry} {out : List Entry} {rest : Bytes} (h : e.IsShort) :
    entries.run (out, e.bytes ++ rest) = entries.run (out ++ [e], rest) := by
  apply Loop.run_of_next
  have hlen := valueLength_of_lt h.2 (e.value ++ rest)
  have hfits : ¬ (e.value ++ rest).length < e.value.length := by
    rw [List.length_append]
    omega
  change (if e.ty = Ty.EOL then _ else _) = _
  rw [if_neg h.1]
  change (match valueLength (.ofNat e.value.length) (e.value ++ rest) with
    | .error _ => _
    | .ok (len, r) => _) = _
  rw [hlen]
  change (if (e.value ++ rest).length < e.value.length then _ else _) = _
  rw [if_neg hfits, List.take_left, List.drop_left]

theorem entries_eol (out : List Entry) (rest : Bytes) :
    entries.run (out, Ty.EOL :: rest) = .ok out := Loop.run_of_break rfl

/-- The entries of a datagram are those written into it. -/
theorem parse_datagram {es : List Entry} (h : ∀ e ∈ es, e.IsShort) :
    parse (1 :: (es.flatMap Entry.bytes ++ [Ty.EOL])) = .ok (.command, es) := by
  have hrun (out : List Entry) :
      entries.run (out, es.flatMap Entry.bytes ++ [Ty.EOL]) = .ok (out ++ es) := by
    induction es generalizing out with
    | nil => rw [List.flatMap_nil, List.nil_append, entries_eol, List.append_nil]
    | cons e es ih =>
      have hes := ih fun e' he => h e' (List.mem_cons_of_mem e he)
      rw [List.flatMap_cons, List.append_assoc, entries_cons (h e List.mem_cons_self), hes,
        List.append_assoc, List.singleton_append]
  have hes := hrun []
  rw [List.nil_append] at hes
  change (do let out ← entries.run _; return (Kind.command, out)) = _
  rw [hes]
  rfl

/-- Leading zero bytes do not count. -/
theorem fromBeBytes_drop_zeros (bs : Bytes) :
    fromBeBytes (bs.drop (bs.takeWhile (· == 0)).length) = fromBeBytes bs := by
  induction bs with
  | nil => rfl
  | cons b bs ih =>
    by_cases hb : (b == 0) = true
    · have hzero : fromBeBytes (b :: bs) = fromBeBytes bs := by
        rw [beq_iff_eq] at hb
        subst hb
        rfl
      rw [List.takeWhile_cons, if_pos hb, List.length_cons, List.drop_succ_cons, ih, hzero]
    · rw [List.takeWhile_cons, if_neg hb]
      rfl

theorem uint_toBeBytes {t : UInt8} {k : ℕ} {v : UInt64} (hk : k ≤ 8) (hv : v.toNat < 256 ^ k) :
    Entry.uint ⟨t, toBeBytes k v.toNat⟩ = .ok v := by
  have hlen : ¬ (toBeBytes k v.toNat).length > 8 := by
    rw [Ws.length_toBeBytes]
    omega
  rw [Entry.uint, if_neg hlen, Ws.fromBeBytes_toBeBytes, Nat.mod_eq_of_lt hv, UInt64.ofNat_toNat]

/-- The bytes of a number without its leading zero bytes. -/
def stripped (v : UInt64) : Bytes :=
  (toBeBytes 8 v.toNat).drop ((toBeBytes 8 v.toNat).takeWhile (· == 0)).length

theorem length_stripped (v : UInt64) :
    (stripped v).length = 8 - ((toBeBytes 8 v.toNat).takeWhile (· == 0)).length := by
  rw [stripped, List.length_drop, Ws.length_toBeBytes]

theorem uint_stripped (t : UInt8) (v : UInt64) : Entry.uint ⟨t, stripped v⟩ = .ok v := by
  have hlen : ¬ (stripped v).length > 8 := by
    rw [length_stripped]
    omega
  have hv : v.toNat < 256 ^ 8 := v.toNat_lt
  rw [Entry.uint, if_neg hlen, stripped, fromBeBytes_drop_zeros, Ws.fromBeBytes_toBeBytes,
    Nat.mod_eq_of_lt hv, UInt64.ofNat_toNat]

end HamsOpen.Radiod
