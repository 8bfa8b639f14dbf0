import HamsOpen.Lib.Checks
import HamsOpen.Radiod.Tlv
import Mathlib

/-!
# The commands of `radiod`

Every datagram that is sent is made from a command whose fields were checked against the limits of
the site (`command.rs`). The bits of a float say which of two is smaller, so the checks are made on
the bits.
-/

namespace HamsOpen.Radiod

open Except (ok_of_bind)
open Ws (toBeBytes)

/-! ### Floats by their bits -/

/-- A binary format: the widths of its exponent and its fraction. -/
structure Format where
  exponent : ℕ
  fraction : ℕ

namespace Format

variable (F : Format)

def infinity : ℕ := (2 ^ F.exponent - 1) * 2 ^ F.fraction

/-- The bits without the sign. -/
def magnitude (bits : ℕ) : ℕ := bits % 2 ^ (F.exponent + F.fraction)

def isFinite (bits : ℕ) : Bool := F.magnitude bits < F.infinity

def isNaN (bits : ℕ) : Bool := F.infinity < F.magnitude bits

/-- Numbers are ordered as these are; both zeros are the same. -/
def key (bits : ℕ) : ℤ :=
  if bits < 2 ^ (F.exponent + F.fraction) then F.magnitude bits else -F.magnitude bits

def le (x y : ℕ) : Bool := !F.isNaN x && !F.isNaN y && F.key x ≤ F.key y

def lt (x y : ℕ) : Bool := !F.isNaN x && !F.isNaN y && F.key x < F.key y

/-- The bits of a whole number, which has to fit the fraction. -/
def ofNat (n : ℕ) : ℕ :=
  if n = 0 then 0
  else (2 ^ (F.exponent - 1) - 1 + n.log2) * 2 ^ F.fraction +
    (n * 2 ^ (F.fraction - n.log2) - 2 ^ F.fraction)

end Format

def binary32 : Format := ⟨8, 23⟩
def binary64 : Format := ⟨11, 52⟩

instance (n : ℕ) : OfNat F32 n := ⟨⟨.ofNat (binary32.ofNat n)⟩⟩
instance : Neg F32 := ⟨fun x => ⟨x.bits ^^^ 0x80000000⟩⟩
instance (n : ℕ) : OfNat F64 n := ⟨⟨.ofNat (binary64.ofNat n)⟩⟩

namespace F32

def isFinite (x : F32) : Bool := binary32.isFinite x.bits.toNat
def le (x y : F32) : Bool := binary32.le x.bits.toNat y.bits.toNat
def lt (x y : F32) : Bool := binary32.lt x.bits.toNat y.bits.toNat
def abs (x : F32) : F32 := ⟨x.bits &&& 0x7FFFFFFF⟩

end F32

namespace F64

def isFinite (x : F64) : Bool := binary64.isFinite x.bits.toNat
def le (x y : F64) : Bool := binary64.le x.bits.toNat y.bits.toNat

end F64

/-- The thresholds in the source as their bits. -/
example : (-1000 : F32).bits = 0xC47A0000 ∧ (12000 : F32).bits = 0x463B8000 := by decide

/-! ### Commands -/

def MAX_FLOAT_BINS : UInt32 := 16000
def MAX_BYTE_BINS : UInt32 := 60000
def MAX_FILTER_EDGE_HZ : F32 := 12000
def GAIN_RANGE_DB : F32 × F32 := (-20, 160)
def SAM_SQUELCH_OPEN_DB : F32 := -1000

/-- A rejected command. -/
inductive CommandError
  | reservedSsrc (v : UInt32)
  | frequency (f : F64)
  | binCount (n : UInt32)
  | binWidth (hz : F32)
  | lifetime (l : UInt32)
  | averaging (n : UInt32)
  | bitrate (bps : UInt32)
  | filter (low high : F32)
  | gain (db : F32)
  deriving DecidableEq

/-- The number of a channel: neither the front end nor all channels. -/
structure Ssrc where
  val : UInt32
  valid : val ≠ 0 ∧ val ≠ 0xFFFFFFFF
  deriving DecidableEq

def Ssrc.new (v : UInt32) : Except CommandError Ssrc :=
  if h : v = 0 ∨ v = 0xFFFFFFFF then .error (.reservedSsrc v) else .ok ⟨v, not_or.mp h⟩

inductive Mode
  | usb | lsb | cw | am | fm | iq | sam | samLower | samUpper
  deriving DecidableEq

def Mode.isSynchronous : Mode → Bool
  | .sam | .samLower | .samUpper => true
  | _ => false

inductive Encoding
  | pcm16Be
  | opus (bitrate : UInt32)
  deriving DecidableEq

/-- A narrow audio channel. -/
structure AudioChannel where
  ssrc : Ssrc
  mode : Mode
  frequencyHz : F64
  encoding : Encoding
  lifetimeFrames : UInt32
  deriving DecidableEq

/-- A spectrum channel. -/
structure SpectrumChannel where
  ssrc : Ssrc
  centerHz : F64
  binCount : UInt32
  binHz : F32
  averaging : UInt32
  lifetimeFrames : UInt32
  byteFormat : Bool
  deriving DecidableEq

/-- Everything that may be asked. -/
inductive Command
  | audio (a : AudioChannel)
  | spectrum (s : SpectrumChannel)
  | poll (ssrc : Ssrc) (lifetimeFrames : UInt32)
  | remove (ssrc : Ssrc)
  | filter (ssrc : Ssrc) (lowHz highHz : F32) (lifetimeFrames : UInt32)
  | gain (ssrc : Ssrc) (gainDb : Option F32) (lifetimeFrames : UInt32)
  deriving DecidableEq

/-- The limits of a site. -/
structure Policy where
  minHz : F64
  maxHz : F64
  maxBins : UInt32
  minBinHz : F32
  maxLifetimeFrames : UInt32
  maxAveraging : UInt32
  deriving DecidableEq

def Policy.default : Policy where
  minHz := 10000
  maxHz := 30000000
  maxBins := 8192
  minBinHz := 1
  maxLifetimeFrames := 15000
  maxAveraging := 64

def Policy.binLimit (p : Policy) (byteFormat : Bool) : UInt32 :=
  min p.maxBins (if byteFormat then MAX_BYTE_BINS else MAX_FLOAT_BINS)

/-! ### The check -/

def checkFreq (p : Policy) (f : F64) : Except CommandError Unit :=
  if f.isFinite && p.minHz.le f && f.le p.maxHz then .ok () else .error (.frequency f)

def checkLife (p : Policy) (l : UInt32) : Except CommandError Unit :=
  if 1 ≤ l ∧ l ≤ p.maxLifetimeFrames then .ok () else .error (.lifetime l)

def checkFilter (low high : F32) : Except CommandError Unit :=
  let edgeOk (e : F32) : Bool := e.isFinite && e.abs.le MAX_FILTER_EDGE_HZ
  if edgeOk low && edgeOk high && low.lt high then .ok () else .error (.filter low high)

def checkGain (g : F32) : Except CommandError Unit :=
  if g.isFinite && GAIN_RANGE_DB.1.le g && g.le GAIN_RANGE_DB.2 then .ok () else .error (.gain g)

namespace Command

/-- The channel that is addressed. -/
def ssrc : Command → Ssrc
  | .audio a => a.ssrc
  | .spectrum s => s.ssrc
  | .poll ssrc _ | .filter ssrc _ _ _ | .gain ssrc _ _ => ssrc
  | .remove s => s

def validate (p : Policy) : Command → Except CommandError Unit
  | .audio a => do
    checkFreq p a.frequencyHz
    checkLife p a.lifetimeFrames
    match a.encoding with
    | .opus bitrate =>
      if 6000 ≤ bitrate ∧ bitrate ≤ 128000 then .ok () else .error (.bitrate bitrate)
    | .pcm16Be => .ok ()
  | .spectrum s => do
    checkFreq p s.centerHz
    checkLife p s.lifetimeFrames
    if s.binCount = 0 ∨ s.binCount > p.binLimit s.byteFormat then .error (.binCount s.binCount)
    else if !s.binHz.isFinite || s.binHz.lt p.minBinHz then .error (.binWidth s.binHz)
    else if s.averaging = 0 ∨ s.averaging > p.maxAveraging then .error (.averaging s.averaging)
    else .ok ()
  | .poll _ lifetimeFrames => checkLife p lifetimeFrames
  | .remove _ => .ok ()
  | .filter _ lowHz highHz lifetimeFrames => do
    checkLife p lifetimeFrames
    checkFilter lowHz highHz
  | .gain _ gainDb lifetimeFrames => do
    checkLife p lifetimeFrames
    match gainDb with
    | some g => checkGain g
    | none => .ok ()

/-! ### The datagram -/

/-- The parameters of a mode. Every datagram of a linear mode says whether the carrier loop is on;
the one for FM says nothing of it. -/
def writeMode (w : Writer) (mode : Mode) : Writer :=
  match mode with
  | .iq =>
    let w := w.uint Ty.DEMOD_TYPE 0
    let w := w.uint Ty.OUTPUT_SAMPRATE 12000
    let w := w.f32 Ty.LOW_EDGE (-5000)
    let w := w.f32 Ty.HIGH_EDGE 5000
    let w := w.bool Ty.ENVELOPE false
    let w := w.bool Ty.PLL_ENABLE false
    w.bool Ty.AGC_ENABLE true
  | .usb | .lsb | .cw | .am =>
    let edges : F32 × F32 := match mode with
      | .usb => (50, 3000)
      | .lsb => (-3000, -50)
      | .cw => (400, 800)
      | _ => (-5000, 5000)
    let w := w.uint Ty.DEMOD_TYPE 0
    let w := w.uint Ty.OUTPUT_SAMPRATE 12000
    let w := w.f32 Ty.LOW_EDGE edges.1
    let w := w.f32 Ty.HIGH_EDGE edges.2
    let w := w.bool Ty.ENVELOPE (mode = .am)
    let w := w.bool Ty.PLL_ENABLE false
    w.bool Ty.AGC_ENABLE true
  | .sam | .samLower | .samUpper =>
    let edges : F32 × F32 := match mode with
      | .samLower => (-5000, 100)
      | .samUpper => (-100, 5000)
      | _ => (-5000, 5000)
    let w := w.uint Ty.DEMOD_TYPE 0
    let w := w.uint Ty.OUTPUT_SAMPRATE 12000
    let w := w.f32 Ty.LOW_EDGE edges.1
    let w := w.f32 Ty.HIGH_EDGE edges.2
    let w := w.bool Ty.ENVELOPE false
    let w := w.bool Ty.PLL_ENABLE true
    let w := w.bool Ty.PLL_SQUARE false
    let w := w.bool Ty.SNR_SQUELCH false
    let w := w.f32 Ty.SQUELCH_OPEN SAM_SQUELCH_OPEN_DB
    let w := w.f32 Ty.SQUELCH_CLOSE SAM_SQUELCH_OPEN_DB
    w.bool Ty.AGC_ENABLE true
  | .fm =>
    let w := w.uint Ty.DEMOD_TYPE 1
    let w := w.uint Ty.OUTPUT_SAMPRATE 24000
    let w := w.f32 Ty.LOW_EDGE (-8000)
    let w := w.f32 Ty.HIGH_EDGE 8000
    let w := w.bool Ty.THRESH_EXTEND true
    let w := w.f32 Ty.DEEMPH_TC ⟨0x4404A000⟩ -- 530.5
    w.f32 Ty.DEEMPH_GAIN 12

def writeBody (w : Writer) : Command → Writer
  | .poll _ lifetimeFrames => w.uint Ty.LIFETIME lifetimeFrames.toUInt64
  | .remove _ => w.uint Ty.LIFETIME 1
  | .filter _ lowHz highHz lifetimeFrames =>
    let w := w.uint Ty.LIFETIME lifetimeFrames.toUInt64
    let w := w.f32 Ty.LOW_EDGE lowHz
    w.f32 Ty.HIGH_EDGE highHz
  | .gain _ gainDb lifetimeFrames =>
    let w := w.uint Ty.LIFETIME lifetimeFrames.toUInt64
    match gainDb with
    | some g =>
      let w := w.bool Ty.AGC_ENABLE false
      w.f32 Ty.GAIN g
    | none => w.bool Ty.AGC_ENABLE true
  | .audio a =>
    let w := w.uint Ty.LIFETIME a.lifetimeFrames.toUInt64
    let w := w.f64 Ty.RADIO_FREQUENCY a.frequencyHz
    let w := w.uint Ty.OUTPUT_CHANNELS (if a.mode = .iq then 2 else 1)
    let w := writeMode w a.mode
    match a.encoding with
    | .pcm16Be => w.uint Ty.OUTPUT_ENCODING 2
    | .opus bitrate =>
      let w := w.uint Ty.OUTPUT_ENCODING 3
      w.uint Ty.OPUS_BIT_RATE bitrate.toUInt64
  | .spectrum s =>
    let w := w.uint Ty.LIFETIME s.lifetimeFrames.toUInt64
    let w := w.uint Ty.DEMOD_TYPE (if s.byteFormat then 4 else 3)
    let w := w.f64 Ty.RADIO_FREQUENCY s.centerHz
    let w := w.uint Ty.BIN_COUNT s.binCount.toUInt64
    let w := w.f32 Ty.RESOLUTION_BW s.binHz
    w.uint Ty.SPECTRUM_AVG s.averaging.toUInt64

/-- The datagram of a command that was checked. -/
def datagram (c : Command) (tag : UInt32) : Bytes :=
  let w := Writer.command
  let w := w.uint Ty.OUTPUT_SSRC c.ssrc.val.toUInt64
  let w := w.uint Ty.COMMAND_TAG tag.toUInt64
  (writeBody w c).finish

/-- The datagram of a command, if the command is within the limits. -/
def encode (c : Command) (p : Policy) (tag : UInt32) : Except CommandError Bytes := do
  c.validate p
  return c.datagram tag

end Command

theorem encode_eq_ok {c : Command} {p : Policy} {tag : UInt32} {bytes : Bytes} :
    c.encode p tag = .ok bytes ↔ c.validate p = .ok () ∧ c.datagram tag = bytes := by
  unfold Command.encode
  cases c.validate p with
  | error e => exact iff_of_false nofun nofun
  | ok u =>
    constructor
    · intro h
      exact ⟨rfl, Except.ok.inj h⟩
    · intro h
      exact congrArg Except.ok h.2

/-! ### What a command names -/

inductive Value
  | uint (n : UInt64)
  | f32 (x : F32)
  | f64 (x : F64)
  deriving DecidableEq

/-- A parameter with its value. -/
structure Field where
  ty : UInt8
  value : Value
  deriving DecidableEq

namespace Field

def flag (ty : UInt8) (b : Bool) : Field := ⟨ty, .uint b.toUInt64⟩

/-- The field as an entry. -/
def entry (f : Field) : Entry where
  ty := f.ty
  value := match f.value with
    | .uint n => stripped n
    | .f32 x => toBeBytes 4 x.bits.toNat
    | .f64 x => toBeBytes 8 x.bits.toNat

/-- The number that the bytes of the field are. -/
def number (f : Field) : UInt64 :=
  match f.value with
  | .uint n => n
  | .f32 x => x.bits.toUInt64
  | .f64 x => x.bits

end Field

/-- The entry reads as the field. -/
def Entry.Holds (e : Entry) (f : Field) : Prop :=
  e.ty = f.ty ∧ match f.value with
    | .uint n => e.uint = .ok n
    | .f32 x => e.float = .ok (.inl x)
    | .f64 x => e.float = .ok (.inr x)

namespace Mode

def demodType (m : Mode) : UInt64 := if m = .fm then 1 else 0
def outputSamprate (m : Mode) : UInt64 := if m = .fm then 24000 else 12000
def outputChannels (m : Mode) : UInt64 := if m = .iq then 2 else 1

/-- The passband. -/
def edges : Mode → F32 × F32
  | .usb => (50, 3000)
  | .lsb => (-3000, -50)
  | .cw => (400, 800)
  | .am | .iq | .sam => (-5000, 5000)
  | .samLower => (-5000, 100)
  | .samUpper => (-100, 5000)
  | .fm => (-8000, 8000)

/-- How the signal is detected. -/
def detection : Mode → List Field
  | .fm => [.flag Ty.THRESH_EXTEND true, ⟨Ty.DEEMPH_TC, .f32 ⟨0x4404A000⟩⟩,
      ⟨Ty.DEEMPH_GAIN, .f32 12⟩]
  | .sam | .samLower | .samUpper => [.flag Ty.ENVELOPE false, .flag Ty.PLL_ENABLE true,
      .flag Ty.PLL_SQUARE false, .flag Ty.SNR_SQUELCH false,
      ⟨Ty.SQUELCH_OPEN, .f32 SAM_SQUELCH_OPEN_DB⟩, ⟨Ty.SQUELCH_CLOSE, .f32 SAM_SQUELCH_OPEN_DB⟩,
      .flag Ty.AGC_ENABLE true]
  | m => [.flag Ty.ENVELOPE (m = .am), .flag Ty.PLL_ENABLE false, .flag Ty.AGC_ENABLE true]

end Mode

def Encoding.fields : Encoding → List Field
  | .pcm16Be => [⟨Ty.OUTPUT_ENCODING, .uint 2⟩]
  | .opus bitrate => [⟨Ty.OUTPUT_ENCODING, .uint 3⟩, ⟨Ty.OPUS_BIT_RATE, .uint bitrate.toUInt64⟩]

namespace Command

/-- The lifetime that the channel is given. -/
def lifetime : Command → UInt32
  | .audio a => a.lifetimeFrames
  | .spectrum s => s.lifetimeFrames
  | .poll _ lifetimeFrames | .filter _ _ _ lifetimeFrames | .gain _ _ lifetimeFrames =>
    lifetimeFrames
  | .remove _ => 1

/-- What is set beside the lifetime. -/
def settings : Command → List Field
  | .audio a =>
    [⟨Ty.RADIO_FREQUENCY, .f64 a.frequencyHz⟩, ⟨Ty.OUTPUT_CHANNELS, .uint a.mode.outputChannels⟩,
      ⟨Ty.DEMOD_TYPE, .uint a.mode.demodType⟩, ⟨Ty.OUTPUT_SAMPRATE, .uint a.mode.outputSamprate⟩,
      ⟨Ty.LOW_EDGE, .f32 a.mode.edges.1⟩, ⟨Ty.HIGH_EDGE, .f32 a.mode.edges.2⟩] ++
      a.mode.detection ++ a.encoding.fields
  | .spectrum s =>
    [⟨Ty.DEMOD_TYPE, .uint (if s.byteFormat then 4 else 3)⟩, ⟨Ty.RADIO_FREQUENCY, .f64 s.centerHz⟩,
      ⟨Ty.BIN_COUNT, .uint s.binCount.toUInt64⟩, ⟨Ty.RESOLUTION_BW, .f32 s.binHz⟩,
      ⟨Ty.SPECTRUM_AVG, .uint s.averaging.toUInt64⟩]
  | .poll _ _ | .remove _ => []
  | .filter _ lowHz highHz _ => [⟨Ty.LOW_EDGE, .f32 lowHz⟩, ⟨Ty.HIGH_EDGE, .f32 highHz⟩]
  | .gain _ (some g) _ => [.flag Ty.AGC_ENABLE false, ⟨Ty.GAIN, .f32 g⟩]
  | .gain _ none _ => [.flag Ty.AGC_ENABLE true]

/-- What every command names. -/
def header (c : Command) (tag : UInt32) : List Field :=
  [⟨Ty.OUTPUT_SSRC, .uint c.ssrc.val.toUInt64⟩, ⟨Ty.COMMAND_TAG, .uint tag.toUInt64⟩,
    ⟨Ty.LIFETIME, .uint c.lifetime.toUInt64⟩]

/-- Everything that a command names. -/
def fields (c : Command) (tag : UInt32) : List Field := c.header tag ++ c.settings

end Command

/-! ### The datagram holds the fields -/

@[simp] theorem Writer.buf_uint (w : Writer) (t : UInt8) (n : UInt64) :
    (w.uint t n).buf = w.buf ++ (Field.entry ⟨t, .uint n⟩).bytes := by
  have hlen := length_stripped n
  change w.buf ++ [t, .ofNat (8 - _)] ++ stripped n = w.buf ++ t :: .ofNat (stripped n).length :: _
  rw [hlen, List.append_assoc]
  rfl

@[simp] theorem Writer.buf_bool (w : Writer) (t : UInt8) (b : Bool) :
    (w.bool t b).buf = w.buf ++ (Field.flag t b).entry.bytes := w.buf_uint t _

@[simp] theorem Writer.buf_f32 (w : Writer) (t : UInt8) (x : F32) :
    (w.f32 t x).buf = w.buf ++ (Field.entry ⟨t, .f32 x⟩).bytes := by
  change w.buf ++ [t, 4] ++ _ = w.buf ++ t :: .ofNat (toBeBytes 4 x.bits.toNat).length :: _
  rw [Ws.length_toBeBytes, List.append_assoc]
  rfl

@[simp] theorem Writer.buf_f64 (w : Writer) (t : UInt8) (x : F64) :
    (w.f64 t x).buf = w.buf ++ (Field.entry ⟨t, .f64 x⟩).bytes := by
  change w.buf ++ [t, 8] ++ _ = w.buf ++ t :: .ofNat (toBeBytes 8 x.bits.toNat).length :: _
  rw [Ws.length_toBeBytes, List.append_assoc]
  rfl

/-- The bytes of fields, one after the other. -/
def bytesOf (fs : List Field) : Bytes := (fs.map Field.entry).flatMap Entry.bytes

@[simp] theorem bytesOf_nil : bytesOf [] = [] := rfl

@[simp] theorem bytesOf_cons (f : Field) (fs : List Field) :
    bytesOf (f :: fs) = f.entry.bytes ++ bytesOf fs := rfl

@[simp] theorem bytesOf_append (fs gs : List Field) :
    bytesOf (fs ++ gs) = bytesOf fs ++ bytesOf gs := by
  rw [bytesOf, List.map_append, List.flatMap_append]
  rfl

theorem buf_writeMode (w : Writer) (m : Mode) : (Command.writeMode w m).buf = w.buf ++
    bytesOf ([⟨Ty.DEMOD_TYPE, .uint m.demodType⟩, ⟨Ty.OUTPUT_SAMPRATE, .uint m.outputSamprate⟩,
      ⟨Ty.LOW_EDGE, .f32 m.edges.1⟩, ⟨Ty.HIGH_EDGE, .f32 m.edges.2⟩] ++ m.detection) := by
  cases m <;> simp [Command.writeMode, Mode.demodType, Mode.outputSamprate, Mode.edges,
    Mode.detection]

theorem buf_writeBody (w : Writer) (c : Command) : (Command.writeBody w c).buf = w.buf ++
    bytesOf (⟨Ty.LIFETIME, .uint c.lifetime.toUInt64⟩ :: c.settings) := by
  cases c with
  | audio a =>
    cases hencoding : a.encoding <;>
      simp [Command.writeBody, Command.settings, Command.lifetime, buf_writeMode, hencoding,
        Encoding.fields, Mode.outputChannels]
  | gain ssrc gainDb lifetimeFrames =>
    cases gainDb <;> simp [Command.writeBody, Command.settings, Command.lifetime]
  | remove ssrc => simp [Command.writeBody, Command.settings, Command.lifetime]
  | _ => simp [Command.writeBody, Command.settings, Command.lifetime]

theorem datagram_eq (c : Command) (tag : UInt32) :
    c.datagram tag = 1 :: (bytesOf (c.fields tag) ++ [Ty.EOL]) := by
  simp [Command.datagram, Command.fields, Command.header, Writer.finish, Writer.command, buf_writeBody]

/-- Beside the header, no command names the end, a channel or a lifetime. -/
theorem ty_of_mem_settings {c : Command} {f : Field} (h : f ∈ c.settings) :
    f.ty ≠ Ty.EOL ∧ f.ty ≠ Ty.OUTPUT_SSRC ∧ f.ty ≠ Ty.LIFETIME := by
  let other (f : Field) : Bool :=
    f.ty != Ty.EOL && (f.ty != Ty.OUTPUT_SSRC && f.ty != Ty.LIFETIME)
  have hall : c.settings.all other = true := by
    cases c with
    | audio a =>
      have hencoding : a.encoding.fields.all other = true := by cases a.encoding <;> rfl
      have hdetection : a.mode.detection.all other = true := by cases a.mode <;> rfl
      simp only [Command.settings, List.all_append, hencoding, hdetection]
      rfl
    | gain ssrc gainDb lifetimeFrames => cases gainDb <;> rfl
    | _ => rfl
  have hf := List.all_eq_true.mp hall f h
  simpa [other] using hf

theorem ty_ne_eol {c : Command} {tag : UInt32} {f : Field} (h : f ∈ c.fields tag) :
    f.ty ≠ Ty.EOL := by
  rcases List.mem_append.mp h with hheader | hsettings
  · have hall : (c.header tag).all (·.ty != Ty.EOL) = true := rfl
    exact bne_iff_ne.mp (List.all_eq_true.mp hall f hheader)
  · exact (ty_of_mem_settings hsettings).1

theorem Field.isShort_entry {f : Field} (h : f.ty ≠ Ty.EOL) : f.entry.IsShort := by
  refine ⟨h, ?_⟩
  obtain ⟨t, value⟩ := f
  cases value with
  | uint n =>
    change (stripped n).length < 0x80
    rw [length_stripped]
    omega
  | f32 x =>
    change (toBeBytes 4 x.bits.toNat).length < 0x80
    rw [Ws.length_toBeBytes]
    omega
  | f64 x =>
    change (toBeBytes 8 x.bits.toNat).length < 0x80
    rw [Ws.length_toBeBytes]
    omega

/-- The number of a field is read back from its bytes. -/
theorem Field.uint_entry (f : Field) : f.entry.uint = .ok f.number := by
  obtain ⟨t, value⟩ := f
  cases value with
  | uint n => exact uint_stripped t n
  | f32 x =>
    have hlt : x.bits.toUInt64.toNat < 256 ^ 4 := by
      rw [UInt32.toNat_toUInt64]
      exact x.bits.toNat_lt
    have hread := uint_toBeBytes (t := t) (k := 4) (by omega) hlt
    rw [UInt32.toNat_toUInt64] at hread
    exact hread
  | f64 x => exact uint_toBeBytes (by omega) x.bits.toNat_lt

theorem Field.holds_entry (f : Field) : f.entry.Holds f := by
  have hread := f.uint_entry
  obtain ⟨t, value⟩ := f
  refine ⟨rfl, ?_⟩
  cases value with
  | uint n => exact hread
  | f32 x =>
    have hlen : (Field.entry ⟨t, .f32 x⟩).value.length ≤ 4 := by
      change (toBeBytes 4 x.bits.toNat).length ≤ 4
      rw [Ws.length_toBeBytes]
    change Entry.float _ = _
    rw [Entry.float, hread]
    change Except.ok (if _ then _ else _) = _
    rw [if_pos hlen]
    change Except.ok (Sum.inl (F32.mk x.bits.toUInt64.toUInt32)) = _
    rw [UInt32.toUInt32_toUInt64]
  | f64 x =>
    have hlen : ¬ (Field.entry ⟨t, .f64 x⟩).value.length ≤ 4 := by
      change ¬ (toBeBytes 8 x.bits.toNat).length ≤ 4
      rw [Ws.length_toBeBytes]
      omega
    change Entry.float _ = _
    rw [Entry.float, hread]
    change Except.ok (if _ then _ else _) = _
    rw [if_neg hlen]
    rfl

/-- What is parsed is what the command names. -/
theorem parse_command (c : Command) (tag : UInt32) :
    parse (c.datagram tag) = .ok (.command, (c.fields tag).map Field.entry) := by
  rw [datagram_eq]
  apply parse_datagram
  intro e he
  obtain ⟨f, hf, rfl⟩ := List.mem_map.mp he
  exact Field.isShort_entry (ty_ne_eol hf)

/-- An accepted lifetime is one at least, and but for a removal within the limit. -/
theorem lifetime_of_validate {c : Command} {p : Policy} (h : c.validate p = .ok ()) :
    1 ≤ c.lifetime ∧ (c.lifetime ≤ p.maxLifetimeFrames ∨ ∃ ssrc, c = .remove ssrc) := by
  have hlife {l : UInt32} (hl : checkLife p l = .ok ()) : 1 ≤ l ∧ l ≤ p.maxLifetimeFrames := by
    unfold checkLife at hl
    split at hl
    next hin => exact hin
    · cases hl
  have hchecked (hl : checkLife p c.lifetime = .ok ()) :
      1 ≤ c.lifetime ∧ (c.lifetime ≤ p.maxLifetimeFrames ∨ ∃ ssrc, c = .remove ssrc) :=
    ⟨(hlife hl).1, .inl (hlife hl).2⟩
  cases c with
  | remove ssrc => exact ⟨UInt32.le_refl _, .inr ⟨ssrc, rfl⟩⟩
  | poll ssrc lifetimeFrames => exact hchecked h
  | audio a =>
    obtain ⟨_, _, hrest⟩ := ok_of_bind h
    obtain ⟨_, hl, _⟩ := ok_of_bind hrest
    exact hchecked hl
  | spectrum s =>
    obtain ⟨_, _, hrest⟩ := ok_of_bind h
    obtain ⟨_, hl, _⟩ := ok_of_bind hrest
    exact hchecked hl
  | filter ssrc lowHz highHz lifetimeFrames =>
    obtain ⟨_, hl, _⟩ := ok_of_bind h
    exact hchecked hl
  | gain ssrc gainDb lifetimeFrames =>
    obtain ⟨_, hl, _⟩ := ok_of_bind h
    exact hchecked hl

end HamsOpen.Radiod
