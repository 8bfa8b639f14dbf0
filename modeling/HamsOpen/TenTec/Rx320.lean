import HamsOpen.Lib.Loop
import HamsOpen.Lib.Scanner
import HamsOpen.Rig.Op
import Mathlib

/-!
# The RX-320 and the Pegasus

A receiver that is tuned by three words, which are computed from the frequency, the mode and the
width of a filter (`tentec_rx320.rs`). The engine keeps the frequency and the mode, and sends the
words anew when one of them changes; a radio makes the frequency of the words, of the mode and of
the filter that it has.
-/

namespace HamsOpen.TenTec

open Rig (CapabilitySet ErrorKind Hz Mode Op RigError Vfo)

abbrev Byte := UInt8
abbrev Duration := ℕ

/-- In milliseconds. -/
def PARTIAL_FRAME_TIMEOUT : Duration := 500

def CR : Byte := 13

/-- The filter widths in hertz, in the order of the radio's index byte. -/
def FILTERS : List ℕ :=
  [6000, 5700, 5400, 5100, 4800, 4500, 4200, 3900, 3600, 3300, 3000, 2850, 2700, 2550, 2400, 2250,
    2100, 1950, 1800, 1650, 1500, 1350, 1200, 1050, 900, 750, 675, 600, 525, 450, 375, 330, 300,
    8000]

/-- Which radio's formulas and frames. -/
inductive Variant
  | rx320
  /-- Pegasus TT-550, of which only the receive side is served. -/
  | tt550
  deriving DecidableEq

def Variant.fromName : String → Option Variant
  | "rx320" => some .rx320
  | "tt550" => some .tt550
  | _ => none

/-- The CW BFO offset the Pegasus formulas use. -/
def PEGASUS_CW_BFO : ℤ := 700

def unsupported (what : String) : RigError := ⟨.unsupported, what⟩

/-! ### Tuning words -/

/-- The filter index this engine selects for a mode. -/
def defaultFilter (mode : Mode) : Byte :=
  let width := match mode with
    | .cw | .cwR => 600
    | .lsb | .usb => 2400
    | _ => 6000
  .ofNat ((FILTERS.findIdx? (· = width)).getD 0)

/-- The `m` of the tuning formula: -1 lower side (and CW), +1 upper side, 0 otherwise. -/
def sideband : Mode → ℤ
  | .lsb | .cw | .cwR => -1
  | .usb => 1
  | _ => 0

/-- The `c` of the tuning formula: half the filter width plus 200 Hz, or 0 in CW. -/
def correction (variant : Variant) (mode : Mode) (width : ℕ) : ℤ :=
  let cw := mode = .cw ∨ mode = .cwR
  match variant with
  | .rx320 => if cw then 0 else width / 2 + 200
  | .tt550 => if cw then width / 2 + 200 + PEGASUS_CW_BFO else width / 2 + 200

/-- A signed number of 64 bits, which wraps around. -/
def wrap (x : ℤ) : ℤ := Int.bmod x (2 ^ 64)

/-- A number that fits into 16 bits. -/
def word (x : ℤ) : Option UInt16 := if 0 ≤ x ∧ x < 2 ^ 16 then some (.ofNat x.toNat) else none

structure Words where
  coarse : UInt16
  fine : UInt16
  bfo : UInt16
  deriving DecidableEq

/-- The tuning words of a variant, unless the filter is unknown or the words cannot hold the
frequency. -/
def tuningWordsFor (variant : Variant) (hz : Hz) (mode : Mode) (filter : Byte) : Option Words := do
  let width ← FILTERS[filter.toNat]?
  let c := correction variant mode width
  if 2 ^ 63 ≤ hz then none
  else
    let adjusted := wrap (hz - 1250 + sideband mode * c)
    if adjusted < 0 then none
    else
      let coarse ← word (adjusted.tdiv 2500 + 18000)
      -- 5.46 = 546 / 100, rounded down, in integers
      let fine ← word ((adjusted.tmod 2500 * 546).tdiv 100)
      -- 2.73 = 273 / 100
      let bfo ← word (((c + 8000) * 273).tdiv 100)
      return ⟨coarse, fine, bfo⟩

/-- The frequency tuning words of a variant tune to. -/
def frequencyOfFor (variant : Variant) (words : Words) (mode : Mode) (filter : Byte) :
    Option Hz := do
  let width ← FILTERS[filter.toNat]?
  let c := correction variant mode width
  -- the smallest whole number of hertz that gives the fine word
  let fine := ((words.fine.toNat : ℤ) * 100 + 545).tdiv 546
  let adjusted := ((words.coarse.toNat : ℤ) - 18000) * 2500 + fine
  let hz := adjusted + 1250 - sideband mode * c
  if 0 ≤ hz then some hz.toNat else none

/-- The bytes of a word, the high one first. -/
def toBeBytes (w : UInt16) : List Byte := [.ofNat (w.toNat / 256), .ofNat (w.toNat % 256)]

def fromBeBytes (high low : Byte) : UInt16 := .ofNat (high.toNat * 256 + low.toNat)

/-- `N` and the three words, CR. -/
def tuneFrame (words : Words) : List Byte :=
  78 :: (toBeBytes words.coarse ++ toBeBytes words.fine ++ toBeBytes words.bfo ++ [CR])

/-! ### The engine -/

/-- What is read of a description. Each mode has one code. -/
structure RigDescription where
  dialect : String
  capabilities : CapabilitySet
  modeCodes : List (Mode × Byte)
  defaultFrequency : Hz
  defaultMode : Mode
  deriving DecidableEq

namespace RigDescription

variable (desc : RigDescription)

/-- The wire code for a mode. -/
def modeCode (mode : Mode) : Option Byte := (desc.modeCodes.find? (·.1 = mode)).map Prod.snd

/-- The mode for a wire code. -/
def codeMode (code : Byte) : Option Mode := (desc.modeCodes.find? (·.2 = code)).map Prod.fst

end RigDescription

structure Rx320Engine where
  desc : RigDescription
  variant : Variant
  hz : Hz
  mode : Mode
  deriving DecidableEq

namespace Rx320Engine

/-- Builds an engine from a description. -/
def new (desc : RigDescription) : Except RigError Rx320Engine :=
  match Variant.fromName desc.dialect with
  | some variant => .ok ⟨desc, variant, desc.defaultFrequency, desc.defaultMode⟩
  | none => .error (unsupported "not an RX-320 or TT-550 file")

/-- What is sent for a command, and the engine after it. -/
def encode (e : Rx320Engine) (op : Op) : Except RigError (List Byte) × Rx320Engine :=
  if !e.desc.capabilities.has op.requiredCapability then
    (.error (unsupported "capability not in the rig description"), e)
  else match op with
    | .setFrequency .a hz =>
      match tuningWordsFor e.variant hz e.mode (defaultFilter e.mode) with
      | none => (.error (unsupported "frequency outside the tuning words"), e)
      | some words => (.ok (tuneFrame words), { e with hz := hz })
    | .setMode mode =>
      match e.desc.modeCode mode with
      | none => (.error (unsupported "mode not in the description"), e)
      | some code =>
        let filter := defaultFilter mode
        match tuningWordsFor e.variant e.hz mode filter with
        | none => (.error (unsupported "frequency outside the tuning words"), e)
        | some words =>
          let select := match e.variant with
            -- receive and transmit mode digits; the transmit side follows the receive
            | .tt550 => [77, code, code, CR]
            | .rx320 => [77, code, CR]
          (.ok ([87, filter, CR] ++ tuneFrame words ++ select), { e with mode := mode })
    | _ => (.error (unsupported "not implemented for the RX-320"), e)

end Rx320Engine

/-! ### The radio -/

/-- Receive buffer that drops a partial frame older than a time. -/
structure RxBuffer where
  bytes : List Byte
  lastAt : Duration
  deriving DecidableEq

/-- Appends bytes received now. -/
def RxBuffer.push (bytes : List Byte) (now : Duration) (rx : RxBuffer) : RxBuffer :=
  let stale := rx.bytes ≠ [] ∧ PARTIAL_FRAME_TIMEOUT < now - rx.lastAt
  ⟨(if stale then [] else rx.bytes) ++ bytes, now⟩

/-- What a radio is set to. -/
structure Tuned where
  words : Option Words
  hz : Hz
  mode : Mode
  filter : Byte
  deriving DecidableEq

/-- A virtual RX-320. -/
structure Rx320Twin where
  desc : RigDescription
  variant : Variant
  rx : RxBuffer
  tuned : Tuned
  deriving DecidableEq

/-- How long the frame is that begins with a byte. -/
def need (variant : Variant) (first : Byte) : ℕ :=
  if first = 77 ∧ variant = .tt550 then 4
  else if (first = 88 ∨ first = 80) ∧ variant = .tt550 then 3
  else if first = 87 ∨ first = 77 ∨ first = 71 then 3
  else if first = 78 then 8
  else 1

/-- The frame at the front of the bytes that are held. -/
def frame (variant : Variant) (held : List Byte) : Scan (List Byte) (List Byte) :=
  match held.head? with
  | none => .more
  | some first =>
    let need := need variant first
    if held.length < need then .more
    else
      let frame := held.take need
      if 1 < need ∧ frame.getLast? ≠ some CR then .bad frame else .item frame need

/-- What a frame sets. -/
def apply (desc : RigDescription) (t : Tuned) (frame : List Byte) : Tuned :=
  match frame with
  | [87, n, _] => if n.toNat < FILTERS.length then { t with filter := n } else t
  | [78, a, b, c, d, e, f, _] =>
    { t with words := some ⟨fromBeBytes a b, fromBeBytes c d, fromBeBytes e f⟩ }
  | [77, c, _] | [77, c, _, _] =>
    match desc.codeMode c with
    | some mode => { t with mode := mode }
    | none => t
  | _ => t

/-- What is said to a frame. -/
def answer (frame : List Byte) : String :=
  if frame = [88, 88, CR] then " DSP START"
  else if frame = [80, 49, CR] then " RADIO START"
  else ""

theorem need_pos (variant : Variant) (first : Byte) : 0 < need variant first := by
  unfold need
  split_ifs <;> decide

/-- A frame is what is at the front of the bytes held, and as long as its first byte says. -/
theorem frame_cases {variant : Variant} {held f : List Byte} {n : ℕ}
    (h : frame variant held = .item f n ∨ frame variant held = .bad f ∧ n = f.length) :
    0 < n ∧ n ≤ held.length ∧ f = held.take n := by
  unfold frame at h
  split at h
  · obtain h | ⟨h, -⟩ := h <;> cases h
  next first hfirst =>
    have hpos := need_pos variant first
    dsimp only at h
    split_ifs at h with hshort hend
    · obtain h | ⟨h, -⟩ := h <;> cases h
    · obtain h | ⟨h, hn⟩ := h
      · cases h
      · cases h
        rw [List.length_take] at hn
        obtain rfl : n = need variant first := by omega
        exact ⟨hpos, Nat.le_of_not_lt hshort, rfl⟩
    · obtain h | ⟨h, -⟩ := h
      · cases h
        exact ⟨hpos, Nat.le_of_not_lt hshort, rfl⟩
      · cases h

/-- More bytes do not change what frame is at the front. -/
theorem frame_append {variant : Variant} {held : List Byte} {first : Byte}
    (hfirst : held.head? = some first) (hlong : need variant first ≤ held.length)
    (more : List Byte) : frame variant (held ++ more) = frame variant held := by
  have hhead : (held ++ more).head? = some first := by
    rw [List.head?_append, hfirst]
    rfl
  have hlong' : need variant first ≤ (held ++ more).length := by
    rw [List.length_append]
    omega
  rw [frame, frame, hfirst, hhead]
  dsimp only
  rw [if_neg (Nat.not_lt.mpr hlong), if_neg (Nat.not_lt.mpr hlong'),
    List.take_append_of_le_length hlong]

/-- The frames of a stream, as a scanner. -/
def frames (variant : Variant) : Scanner Byte (List Byte) (List Byte) where
  scan := frame variant
  scan_nil := rfl
  used_pos h := (frame_cases (.inl h)).1
  used_le h := (frame_cases (.inl h)).2.1
  item_append {bs f n} cs h := by
    cases hfirst : bs.head? with
    | none =>
      rw [frame, hfirst] at h
      cases h
    | some first =>
      by_cases hlong : need variant first ≤ bs.length
      · rw [frame_append hfirst hlong, h]
      · rw [frame, hfirst] at h
        dsimp only at h
        rw [if_pos (Nat.lt_of_not_le hlong)] at h
        cases h
  bad_append {bs f} cs h := by
    cases hfirst : bs.head? with
    | none =>
      rw [frame, hfirst] at h
      cases h
    | some first =>
      by_cases hlong : need variant first ≤ bs.length
      · rw [frame_append hfirst hlong, h]
      · rw [frame, hfirst] at h
        dsimp only at h
        rw [if_pos (Nat.lt_of_not_le hlong)] at h
        cases h

namespace Rx320Twin

/-- A twin in the description's default state. -/
def new (desc : RigDescription) : Except RigError Rx320Twin :=
  match Variant.fromName desc.dialect with
  | some variant => .ok ⟨desc, variant, ⟨[], 0⟩,
      ⟨none, desc.defaultFrequency, desc.defaultMode, defaultFilter desc.defaultMode⟩⟩
  | none => .error (unsupported "not an RX-320 or TT-550 file")

/-- The frequency now: decoded from the last tuning words with the mode and filter held. -/
def currentHz (t : Rx320Twin) : Hz :=
  (t.tuned.words.bind fun words =>
    frequencyOfFor t.variant words t.tuned.mode t.tuned.filter).getD t.tuned.hz

/-- One frame of the bytes held, or none. -/
def round (now : Duration) (s : Rx320Twin × String) :
    Rx320Twin × String ⊕ Rx320Twin × String :=
  let (t, out) := s
  match frame t.variant t.rx.bytes with
  | .more => .inr s
  -- not a frame after all: what follows its first byte is looked at once more
  | .bad frame =>
    let rest : RxBuffer := { t.rx with bytes := t.rx.bytes.drop frame.length }
    .inl ({ t with rx := rest.push frame.tail now }, out)
  | .item frame used =>
    .inl ({ t with
      rx := { t.rx with bytes := t.rx.bytes.drop used }
      tuned := apply t.desc t.tuned frame }, out ++ answer frame)

theorem length_of_round {now : Duration} {s s' : Rx320Twin × String}
    (h : round now s = .inl s') : s'.1.rx.bytes.length < s.1.rx.bytes.length := by
  unfold round at h
  split at h
  next t out =>
    split at h
    · cases h
    next f hf =>
      cases h
      obtain ⟨hpos, hle, hframe⟩ := frame_cases (.inr ⟨hf, rfl⟩)
      dsimp only [RxBuffer.push]
      split_ifs <;>
        simp only [List.length_append, List.length_drop, List.length_tail, List.length_nil] <;>
        omega
    next f used hf =>
      cases h
      obtain ⟨hpos, hle, hframe⟩ := frame_cases (.inl hf)
      dsimp only
      rw [List.length_drop]
      omega

/-- All frames of the bytes held. -/
def rounds (now : Duration) : Loop (Rx320Twin × String) (Rx320Twin × String) where
  body := round now
  size s := s.1.rx.bytes.length
  shrinks := length_of_round

/-- What a radio says to bytes that it hears now, and the radio after them. -/
def feed (t : Rx320Twin) (bytes : List Byte) (now : Duration) : Rx320Twin × String :=
  (rounds now).run ({ t with rx := t.rx.push bytes now }, "")

/-- The radio after bytes that come in pieces, each at its time. -/
def feedAll (t : Rx320Twin) (pieces : List (List Byte × Duration)) : Rx320Twin :=
  pieces.foldl (fun t piece => (t.feed piece.1 piece.2).1) t

/-- No piece comes late when a frame is not complete. -/
def InTime : Rx320Twin → List (List Byte × Duration) → Prop
  | _, [] => True
  | t, piece :: pieces =>
    (t.rx.bytes = [] ∨ piece.2 - t.rx.lastAt ≤ PARTIAL_FRAME_TIMEOUT) ∧
      (t.feed piece.1 piece.2).1.InTime pieces

end Rx320Twin

/-! ### Which frequencies have words -/

/-- The adjusted frequency of the tuning formula. -/
def adjustedOf (variant : Variant) (hz : Hz) (mode : Mode) (width : ℕ) : ℤ :=
  hz - 1250 + sideband mode * correction variant mode width

/-- The number fits into a word. -/
def IsWord (x : ℤ) : Prop := 0 ≤ x ∧ x < 2 ^ 16

/-- The three numbers of the tuning formula fit into words. -/
def Fits (variant : Variant) (hz : Hz) (mode : Mode) (width : ℕ) : Prop :=
  IsWord ((adjustedOf variant hz mode width).tdiv 2500 + 18000) ∧
    IsWord (((adjustedOf variant hz mode width).tmod 2500 * 546).tdiv 100) ∧
    IsWord (((correction variant mode width + 8000) * 273).tdiv 100)

section Words

variable {variant : Variant} {hz : Hz} {mode : Mode} {filter : Byte} {width : ℕ}

theorem wrap_eq (x : ℤ) :
    wrap x = if x % 2 ^ 64 < 2 ^ 63 then x % 2 ^ 64 else x % 2 ^ 64 - 2 ^ 64 := Int.bmod_def _ _

theorem width_le (h : FILTERS[filter.toNat]? = some width) : width ≤ 8000 := by
  have hall : ∀ w ∈ FILTERS, w ≤ 8000 := by decide
  exact hall width (List.mem_of_getElem? h)

theorem correction_bounds (h : width ≤ 8000) :
    0 ≤ correction variant mode width ∧ correction variant mode width ≤ 4900 := by
  unfold correction PEGASUS_CW_BFO
  cases variant <;> dsimp only <;> split_ifs <;> omega

theorem adjusted_bounds (h : width ≤ 8000) :
    (hz : ℤ) - 6150 ≤ adjustedOf variant hz mode width ∧
      adjustedOf variant hz mode width ≤ (hz : ℤ) + 3650 := by
  obtain ⟨hlow, hhigh⟩ : 0 ≤ correction variant mode width ∧
      correction variant mode width ≤ 4900 := correction_bounds h
  have hside : sideband mode = -1 ∨ sideband mode = 0 ∨ sideband mode = 1 := by
    cases mode <;> decide
  unfold adjustedOf
  obtain hside | hside | hside := hside <;> rw [hside] <;> constructor <;> omega

theorem word_eq_some {x : ℤ} {w : UInt16} : word x = some w ↔ IsWord x ∧ (w.toNat : ℤ) = x := by
  unfold word IsWord
  constructor
  · intro h
    split_ifs at h with hx
    cases h
    have hlt : x.toNat < 2 ^ 16 := by omega
    refine ⟨hx, ?_⟩
    rw [UInt16.toNat_ofNat_of_lt' hlt]
    exact Int.toNat_of_nonneg hx.1
  · rintro ⟨hx, hw⟩
    rw [if_pos hx, ← hw, Int.toNat_natCast, UInt16.ofNat_toNat]

/-- The numbers of a frequency that is far too high do not fit. -/
theorem not_isWord_of_large {a : ℤ} (h : 2 ^ 62 ≤ a) : ¬ IsWord (a.tdiv 2500 + 18000) := by
  rw [Int.tdiv_eq_ediv_of_nonneg (by omega)]
  unfold IsWord
  omega

/-- Words are given when the adjusted frequency is not negative, and the numbers fit. -/
theorem tuningWordsFor_eq_some (hwidth : FILTERS[filter.toNat]? = some width) {words : Words} :
    tuningWordsFor variant hz mode filter = some words ↔
      0 ≤ adjustedOf variant hz mode width ∧ Fits variant hz mode width ∧
        (words.coarse.toNat : ℤ) = (adjustedOf variant hz mode width).tdiv 2500 + 18000 ∧
        (words.fine.toNat : ℤ) = ((adjustedOf variant hz mode width).tmod 2500 * 546).tdiv 100 ∧
        (words.bfo.toNat : ℤ) = ((correction variant mode width + 8000) * 273).tdiv 100 := by
  obtain ⟨hlow, hhigh⟩ : (hz : ℤ) - 6150 ≤ adjustedOf variant hz mode width ∧
      adjustedOf variant hz mode width ≤ (hz : ℤ) + 3650 := adjusted_bounds (width_le hwidth)
  have hlarge : 2 ^ 62 ≤ adjustedOf variant hz mode width → ¬ Fits variant hz mode width :=
    fun h hfits => not_isWord_of_large h hfits.1
  unfold tuningWordsFor
  rw [hwidth]
  change (if 2 ^ 63 ≤ hz then none
    else if wrap (adjustedOf variant hz mode width) < 0 then none
    else (word ((wrap (adjustedOf variant hz mode width)).tdiv 2500 + 18000)).bind fun coarse =>
      (word (((wrap (adjustedOf variant hz mode width)).tmod 2500 * 546).tdiv 100)).bind fun fine =>
        (word (((correction variant mode width + 8000) * 273).tdiv 100)).bind fun bfo =>
          some ⟨coarse, fine, bfo⟩) = some words ↔ _
  by_cases hhz : 2 ^ 63 ≤ hz
  · rw [if_pos hhz]
    refine ⟨nofun, fun h => absurd h.2.1 (hlarge ?_)⟩
    have hcast : (2 : ℤ) ^ 63 ≤ (hz : ℤ) := by exact_mod_cast hhz
    omega
  rw [if_neg hhz]
  have hcast : (hz : ℤ) < 2 ^ 63 := by exact_mod_cast Nat.lt_of_not_le hhz
  obtain ⟨a, ha⟩ : ∃ a, a = adjustedOf variant hz mode width := ⟨_, rfl⟩
  obtain ⟨c, hc⟩ : ∃ c, c = correction variant mode width := ⟨_, rfl⟩
  rw [Fits, ← ha, ← hc]
  rw [← ha] at hlow hhigh
  by_cases hfit : 0 ≤ a ∧ a < 2 ^ 63
  · -- the sum does not wrap around
    have hmod : a % 2 ^ 64 = a := by omega
    have hwrap : wrap a = a := by rw [wrap_eq, hmod, if_pos hfit.2]
    rw [hwrap, if_neg (Int.not_lt.mpr hfit.1)]
    constructor
    · intro h
      obtain ⟨coarse, hcoarse, h⟩ := Option.bind_eq_some_iff.mp h
      obtain ⟨fine, hfine, h⟩ := Option.bind_eq_some_iff.mp h
      obtain ⟨bfo, hbfo, h⟩ := Option.bind_eq_some_iff.mp h
      cases h
      obtain ⟨hcoarse, hcoarse'⟩ := word_eq_some.mp hcoarse
      obtain ⟨hfine, hfine'⟩ := word_eq_some.mp hfine
      obtain ⟨hbfo, hbfo'⟩ := word_eq_some.mp hbfo
      exact ⟨hfit.1, ⟨hcoarse, hfine, hbfo⟩, hcoarse', hfine', hbfo'⟩
    · rintro ⟨-, ⟨hcoarse, hfine, hbfo⟩, hcoarse', hfine', hbfo'⟩
      refine Option.bind_eq_some_iff.mpr ⟨_, word_eq_some.mpr ⟨hcoarse, hcoarse'⟩, ?_⟩
      refine Option.bind_eq_some_iff.mpr ⟨_, word_eq_some.mpr ⟨hfine, hfine'⟩, ?_⟩
      exact Option.bind_eq_some_iff.mpr ⟨_, word_eq_some.mpr ⟨hbfo, hbfo'⟩, rfl⟩
  · -- a sum that is too large wraps around to one that is negative
    have hneg : wrap a < 0 := by
      rw [wrap_eq]
      split_ifs <;> omega
    rw [if_pos hneg]
    refine ⟨nofun, fun h => ?_⟩
    exact absurd h.2.1.1 (not_isWord_of_large (by omega))

/-- The fine word is rounded down, and gives back the hertz that it is of. -/
theorem fine_inverse {x : ℤ} (h : 0 ≤ x) : ((x * 546).tdiv 100 * 100 + 545).tdiv 546 = x := by
  have hfine : (x * 546).tdiv 100 = x * 546 / 100 := Int.tdiv_eq_ediv_of_nonneg (by omega)
  have hback : (x * 546 / 100 * 100 + 545).tdiv 546 = (x * 546 / 100 * 100 + 545) / 546 :=
    Int.tdiv_eq_ediv_of_nonneg (by omega)
  rw [hfine, hback]
  omega

/-- Words tune to the frequency that they are the words of. -/
theorem frequencyOfFor_words {words : Words}
    (h : tuningWordsFor variant hz mode filter = some words) :
    frequencyOfFor variant words mode filter = some hz := by
  cases hwidth : FILTERS[filter.toNat]? with
  | none =>
    unfold tuningWordsFor at h
    rw [hwidth] at h
    cases h
  | some width =>
    obtain ⟨hnonneg, -, hcoarse, hfine, -⟩ := (tuningWordsFor_eq_some hwidth).mp h
    unfold frequencyOfFor
    rw [hwidth]
    change (if 0 ≤ (((words.coarse.toNat : ℤ) - 18000) * 2500 +
      ((words.fine.toNat : ℤ) * 100 + 545).tdiv 546) + 1250 -
        sideband mode * correction variant mode width then _ else none) = some hz
    obtain ⟨a, ha⟩ : ∃ a, a = adjustedOf variant hz mode width := ⟨_, rfl⟩
    rw [← ha] at hnonneg hcoarse hfine
    have hrest : 0 ≤ a.tmod 2500 := Int.tmod_nonneg 2500 hnonneg
    have hwhole : a.tdiv 2500 * 2500 + a.tmod 2500 = a := by
      rw [Int.mul_comm]
      exact Int.mul_tdiv_add_tmod a 2500
    have hadjusted : ((words.coarse.toNat : ℤ) - 18000) * 2500 +
        ((words.fine.toNat : ℤ) * 100 + 545).tdiv 546 = a := by
      rw [hcoarse, hfine, fine_inverse hrest, Int.add_sub_cancel, hwhole]
    have hhz : a + 1250 - sideband mode * correction variant mode width = hz := by
      rw [ha, adjustedOf]
      omega
    rw [hadjusted, hhz, if_pos (Int.natCast_nonneg hz)]
    rfl

/-- **Which frequencies have no words**: those of an unknown filter, those whose adjusted frequency
is negative, and those of which a number does not fit. -/
theorem tuningWordsFor_eq_none : tuningWordsFor variant hz mode filter = none ↔
    ∀ width, FILTERS[filter.toNat]? = some width →
      adjustedOf variant hz mode width < 0 ∨ ¬ Fits variant hz mode width := by
  constructor
  · intro h width hwidth
    by_contra hok
    rw [not_or, not_not, Int.not_lt] at hok
    obtain ⟨hnonneg, hfits⟩ := hok
    have hword : ∀ {x : ℤ}, IsWord x → ((UInt16.ofNat x.toNat).toNat : ℤ) = x := by
      intro x hx
      exact (word_eq_some.mp (if_pos hx)).2
    have hsome : tuningWordsFor variant hz mode filter = some ⟨.ofNat _, .ofNat _, .ofNat _⟩ :=
      (tuningWordsFor_eq_some hwidth).mpr
        ⟨hnonneg, hfits, hword hfits.1, hword hfits.2.1, hword hfits.2.2⟩
    rw [h] at hsome
    cases hsome
  · intro h
    cases hsome : tuningWordsFor variant hz mode filter with
    | none => rfl
    | some words =>
      cases hwidth : FILTERS[filter.toNat]? with
      | none =>
        unfold tuningWordsFor at hsome
        rw [hwidth] at hsome
        cases hsome
      | some width =>
        obtain ⟨hnonneg, hfits, -⟩ := (tuningWordsFor_eq_some hwidth).mp hsome
        obtain hneg | hfits' := h width hwidth
        · exact absurd hnonneg (Int.not_le.mpr hneg)
        · exact absurd hfits hfits'

end Words

/-! ### Frames in a stream -/

section Stream

variable {variant : Variant} {desc : RigDescription} {t : Rx320Twin} {now : Duration}

/-- Bytes as many as the first one says, with a carriage return at their end, are a frame. -/
theorem encodes_frame {first : Byte} {rest : List Byte}
    (hneed : need variant first = rest.length + 1)
    (hlast : (first :: rest).getLast? = some CR) :
    (frames variant).Encodes (first :: rest) (first :: rest) := by
  intro cs
  change frame variant (first :: rest ++ cs) = _
  have htake : (first :: rest ++ cs).take (first :: rest).length = first :: rest :=
    List.take_left
  have hlong : ¬ (first :: rest ++ cs).length < rest.length + 1 := by
    rw [List.length_append, List.length_cons]
    omega
  rw [frame, List.cons_append, List.head?_cons]
  dsimp only
  rw [hneed, ← List.cons_append, if_neg hlong,
    show rest.length + 1 = (first :: rest).length from rfl, htake, if_neg fun h => h.2 hlast]

/-- The bytes held are read, frame by frame. -/
theorem run_reads (now : Duration) {bs rest : List Byte} {fs : List (List Byte)}
    (h : (frames t.variant).Reads bs fs rest) (tuned : Tuned) (lastAt : Duration) (out : String) :
    ∃ out', (Rx320Twin.rounds now).run ({ t with rx := ⟨bs, lastAt⟩, tuned := tuned }, out) =
      ({ t with rx := ⟨rest, lastAt⟩, tuned := fs.foldl (apply t.desc) tuned }, out') := by
  induction h generalizing tuned out with
  | @wait bs hmore =>
    have hround : Rx320Twin.round now ({ t with rx := ⟨bs, lastAt⟩, tuned := tuned }, out) =
        .inr ({ t with rx := ⟨bs, lastAt⟩, tuned := tuned }, out) := by
      rw [Rx320Twin.round]
      dsimp only
      rw [show frame t.variant bs = .more from hmore]
    exact ⟨out, Loop.run_of_break hround⟩
  | @item bs f n fs rest hitem _ ih =>
    obtain ⟨out', hrun⟩ := ih (apply t.desc tuned f) (out ++ answer f)
    have hround : Rx320Twin.round now ({ t with rx := ⟨bs, lastAt⟩, tuned := tuned }, out) =
        .inl ({ t with rx := ⟨bs.drop n, lastAt⟩, tuned := apply t.desc tuned f },
          out ++ answer f) := by
      rw [Rx320Twin.round]
      dsimp only
      rw [show frame t.variant bs = .item f n from hitem]
    exact ⟨out', (Loop.run_of_next hround).trans hrun⟩

/-- **What a radio makes of the frames in a stream**, when no piece of it comes late. -/
theorem feed_reads {bytes rest : List Byte} {fs : List (List Byte)}
    (htime : t.rx.bytes = [] ∨ now - t.rx.lastAt ≤ PARTIAL_FRAME_TIMEOUT)
    (h : (frames t.variant).Reads (t.rx.bytes ++ bytes) fs rest) :
    (t.feed bytes now).1 =
      { t with rx := ⟨rest, now⟩, tuned := fs.foldl (apply t.desc) t.tuned } := by
  have hpush : t.rx.push bytes now = ⟨t.rx.bytes ++ bytes, now⟩ := by
    rw [RxBuffer.push, if_neg]
    rintro ⟨hne, hlate⟩
    obtain hnil | hsoon := htime
    · exact hne hnil
    · exact absurd hlate (Nat.not_lt.mpr hsoon)
  obtain ⟨out', hrun⟩ := run_reads now h t.tuned now ""
  rw [Rx320Twin.feed, hpush, hrun]

/-- The same of pieces one after another. -/
theorem feedAll_reads {pieces : List (List Byte × Duration)} {fs : List (List Byte)}
    {rest : List Byte} (htime : t.InTime pieces)
    (h : (frames t.variant).ReadsAll t.rx.bytes (pieces.map Prod.fst) fs rest) :
    ∃ rx, t.feedAll pieces = { t with rx := rx, tuned := fs.foldl (apply t.desc) t.tuned } := by
  induction pieces generalizing t fs with
  | nil =>
    cases h
    exact ⟨t.rx, rfl⟩
  | cons piece pieces ih =>
    cases h with
    | cons hreads hrest =>
      rename_i as as' mid
      have hfeed := feed_reads htime.1 hreads
      have htime' := htime.2
      rw [hfeed] at htime'
      obtain ⟨rx, hall⟩ := ih htime' hrest
      refine ⟨rx, ?_⟩
      change ((t.feed piece.1 piece.2).1).feedAll pieces = _
      rw [hfeed, hall, List.foldl_append]

end Stream

/-! ### Commands -/

/-- Each mode has a code of its own. -/
def RigDescription.Distinct (desc : RigDescription) : Prop := (desc.modeCodes.map Prod.snd).Nodup

/-- The commands that an engine accepts, each with what is sent for it, and the engine after them.
-/
def Rx320Engine.encodeAll (e : Rx320Engine) : List Op → List (Op × List Byte) × Rx320Engine
  | [] => ([], e)
  | op :: ops =>
    let (sent, e) := e.encode op
    let (accepted, e) := e.encodeAll ops
    match sent with
    | .ok bytes => ((op, bytes) :: accepted, e)
    | .error _ => (accepted, e)

/-- The frequency after commands. -/
def latestFrequency (start : Hz) (accepted : List Op) : Hz :=
  accepted.foldl (fun hz op => match op with | .setFrequency .a hz => hz | _ => hz) start

/-- The mode after commands. -/
def latestMode (start : Mode) (accepted : List Op) : Mode :=
  accepted.foldl (fun mode op => match op with | .setMode mode => mode | _ => mode) start

section Commands

variable {desc : RigDescription} {e e' : Rx320Engine} {t : Tuned} {op : Op} {bytes : List Byte}

/-- A command that is refused leaves the engine as it is. -/
theorem encode_refused {err : RigError} (h : (e.encode op).1 = .error err) :
    (e.encode op).2 = e := by
  unfold Rx320Engine.encode at h ⊢
  split_ifs at h ⊢ with hcap
  · rfl
  · cases op with
    | setFrequency vfo hz =>
      cases vfo with
      | a =>
        dsimp only at h ⊢
        cases hwords : tuningWordsFor e.variant hz e.mode (defaultFilter e.mode) with
        | none => rfl
        | some words =>
          rw [hwords] at h
          cases h
      | b => rfl
    | setMode mode =>
      dsimp only at h ⊢
      cases hcode : e.desc.modeCode mode with
      | none => rfl
      | some code =>
        rw [hcode] at h
        dsimp only at h ⊢
        cases hwords : tuningWordsFor e.variant e.hz mode (defaultFilter mode) with
        | none => rfl
        | some words =>
          rw [hwords] at h
          cases h
    | _ => rfl

/-- A command that is accepted sets the frequency, or the mode. -/
theorem encode_accepted (h : e.encode op = (.ok bytes, e')) :
    (∃ hz words, op = .setFrequency .a hz ∧
      tuningWordsFor e.variant hz e.mode (defaultFilter e.mode) = some words ∧
      bytes = tuneFrame words ∧ e' = { e with hz := hz }) ∨
    ∃ mode code words, op = .setMode mode ∧ e.desc.modeCode mode = some code ∧
      tuningWordsFor e.variant e.hz mode (defaultFilter mode) = some words ∧
      bytes = [87, defaultFilter mode, CR] ++ tuneFrame words ++
        (match e.variant with
          | .tt550 => [77, code, code, CR]
          | .rx320 => [77, code, CR]) ∧ e' = { e with mode := mode } := by
  unfold Rx320Engine.encode at h
  split_ifs at h with hcap
  · cases h
  · cases op with
    | setFrequency vfo hz =>
      cases vfo with
      | a =>
        dsimp only at h
        cases hwords : tuningWordsFor e.variant hz e.mode (defaultFilter e.mode) with
        | none =>
          rw [hwords] at h
          cases h
        | some words =>
          rw [hwords] at h
          cases h
          exact .inl ⟨hz, words, rfl, hwords, rfl, rfl⟩
      | b => cases h
    | setMode mode =>
      dsimp only at h
      cases hcode : e.desc.modeCode mode with
      | none =>
        rw [hcode] at h
        cases h
      | some code =>
        rw [hcode] at h
        dsimp only at h
        cases hwords : tuningWordsFor e.variant e.hz mode (defaultFilter mode) with
        | none =>
          rw [hwords] at h
          cases h
        | some words =>
          rw [hwords] at h
          cases h
          exact .inr ⟨mode, code, words, rfl, hcode, hwords, rfl, rfl⟩
    | _ => cases h

theorem find_code {entries : List (Mode × Byte)} (hdistinct : (entries.map Prod.snd).Nodup)
    {mode : Mode} {code : Byte}
    (h : (entries.find? (·.1 = mode)).map Prod.snd = some code) :
    (entries.find? (·.2 = code)).map Prod.fst = some mode := by
  induction entries with
  | nil => cases h
  | cons entry entries ih =>
    obtain ⟨hnew, hrest⟩ := List.nodup_cons.mp hdistinct
    by_cases hmode : entry.1 = mode
    · rw [List.find?_cons_of_pos (p := fun x : Mode × Byte => x.1 = mode)
        (decide_eq_true hmode)] at h
      have hcode : entry.2 = code := Option.some.inj h
      rw [List.find?_cons_of_pos (p := fun x : Mode × Byte => x.2 = code) (decide_eq_true hcode)]
      exact congrArg some hmode
    · rw [List.find?_cons_of_neg (p := fun x : Mode × Byte => x.1 = mode)
        (by simpa using hmode)] at h
      have hcode : ¬ entry.2 = code := by
        rintro rfl
        obtain ⟨other, hfound, hsnd⟩ := Option.map_eq_some_iff.mp h
        exact hnew (List.mem_map.mpr ⟨other, List.mem_of_find?_eq_some hfound, hsnd⟩)
      rw [List.find?_cons_of_neg (p := fun x : Mode × Byte => x.2 = code) (by simpa using hcode)]
      exact ih hrest h

/-- The code of a mode is read back. -/
theorem codeMode_modeCode (hdistinct : desc.Distinct) {mode : Mode} {code : Byte}
    (h : desc.modeCode mode = some code) : desc.codeMode code = some mode :=
  find_code hdistinct h

theorem fromBeBytes_toBeBytes (w : UInt16) :
    fromBeBytes (.ofNat (w.toNat / 256)) (.ofNat (w.toNat % 256)) = w := by
  have hlt := w.toNat_lt
  have hhigh : (UInt8.ofNat (w.toNat / 256)).toNat = w.toNat / 256 :=
    UInt8.toNat_ofNat_of_lt' (by change _ < 256; omega)
  have hlow : (UInt8.ofNat (w.toNat % 256)).toNat = w.toNat % 256 :=
    UInt8.toNat_ofNat_of_lt' (by change _ < 256; omega)
  have hnat : w.toNat / 256 * 256 + w.toNat % 256 = w.toNat := by omega
  rw [fromBeBytes, hhigh, hlow, hnat, UInt16.ofNat_toNat]

/-- What the words of a frame set. -/
theorem apply_tuneFrame (words : Words) :
    apply desc t (tuneFrame words) = { t with words := some words } := by
  change { t with words := some (Words.mk (fromBeBytes _ _) (fromBeBytes _ _) (fromBeBytes _ _)) } =
    _
  rw [fromBeBytes_toBeBytes, fromBeBytes_toBeBytes, fromBeBytes_toBeBytes]

/-- What a filter sets. -/
theorem apply_filter (mode : Mode) :
    apply desc t [87, defaultFilter mode, CR] = { t with filter := defaultFilter mode } := by
  have hknown : (defaultFilter mode).toNat < FILTERS.length := by
    cases mode <;> decide
  exact if_pos hknown

/-- The radio has the frequency and the mode of the engine, and the filter for it. -/
structure Agrees (e : Rx320Engine) (t : Tuned) : Prop where
  mode : t.mode = e.mode
  filter : t.filter = defaultFilter e.mode
  hz : (t.words.bind fun words => frequencyOfFor e.variant words t.mode t.filter).getD t.hz = e.hz

theorem encodes_tuneFrame (variant : Variant) (words : Words) :
    (frames variant).Encodes (tuneFrame words) (tuneFrame words) := by
  cases variant <;> exact encodes_frame rfl rfl

/-- What is sent for a command is frames, which set a radio that agrees with the engine as the
command does the engine. -/
theorem encode_frames (hdistinct : e.desc.Distinct) (hagrees : Agrees e t)
    (h : e.encode op = (.ok bytes, e')) : e'.desc = e.desc ∧ e'.variant = e.variant ∧
      ∃ fs, List.Forall₂ (frames e.variant).Encodes fs fs ∧ bytes = fs.flatten ∧
        Agrees e' (fs.foldl (apply e.desc) t) := by
  obtain ⟨hz, words, rfl, hwords, rfl, rfl⟩ | ⟨mode, code, words, rfl, hcode, hwords, rfl, rfl⟩ :=
    encode_accepted h
  · refine ⟨rfl, rfl, [tuneFrame words], .cons (encodes_tuneFrame _ words) .nil, ?_, ?_⟩
    · simp
    · change Agrees _ (apply e.desc t (tuneFrame words))
      rw [apply_tuneFrame]
      refine ⟨hagrees.mode, hagrees.filter, ?_⟩
      dsimp only
      rw [Option.bind_some, hagrees.mode, hagrees.filter, frequencyOfFor_words hwords,
        Option.getD_some]
  · have hmode : e.desc.codeMode code = some mode := codeMode_modeCode hdistinct hcode
    obtain ⟨select, hselect⟩ : ∃ select : List Byte, select = match e.variant with
        | .tt550 => [77, code, code, CR]
        | .rx320 => [77, code, CR] := ⟨_, rfl⟩
    have hencodes : (frames e.variant).Encodes select select := by
      rw [hselect]
      cases e.variant <;> exact encodes_frame rfl rfl
    have hset : ∀ u : Tuned, apply e.desc u select = { u with mode := mode } := by
      intro u
      rw [hselect]
      cases e.variant
      all_goals
        change (match e.desc.codeMode code with | some mode => _ | none => _) = _
        rw [hmode]
    have hfilter : (frames e.variant).Encodes [87, defaultFilter mode, CR]
        [87, defaultFilter mode, CR] := by
      cases e.variant <;> exact encodes_frame rfl rfl
    rw [← hselect]
    refine ⟨rfl, rfl, [[87, defaultFilter mode, CR], tuneFrame words, select],
      .cons hfilter (.cons (encodes_tuneFrame _ words) (.cons hencodes .nil)), ?_, ?_⟩
    · simp
    · change Agrees _ (apply e.desc (apply e.desc (apply e.desc t [87, defaultFilter mode, CR])
        (tuneFrame words)) select)
      rw [apply_filter, apply_tuneFrame, hset]
      refine ⟨rfl, rfl, ?_⟩
      dsimp only
      rw [Option.bind_some, frequencyOfFor_words hwords, Option.getD_some]

/-- The engine keeps the frequency and the mode of the latest commands that it accepts. -/
theorem encodeAll_latest (e : Rx320Engine) (ops : List Op) :
    (e.encodeAll ops).2.hz = latestFrequency e.hz ((e.encodeAll ops).1.map Prod.fst) ∧
      (e.encodeAll ops).2.mode = latestMode e.mode ((e.encodeAll ops).1.map Prod.fst) := by
  induction ops generalizing e with
  | nil => exact ⟨rfl, rfl⟩
  | cons op ops ih =>
    have hrest := ih (e.encode op).2
    unfold Rx320Engine.encodeAll
    dsimp only
    cases hsent : (e.encode op).1 with
    | error err =>
      rw [encode_refused hsent] at hrest
      dsimp only
      rw [encode_refused hsent]
      exact hrest
    | ok bytes =>
      have hencode : e.encode op = (.ok bytes, (e.encode op).2) := Prod.ext hsent rfl
      dsimp only
      obtain ⟨hz, words, rfl, -, -, he⟩ | ⟨mode, code, words, rfl, -, -, -, he⟩ :=
        encode_accepted hencode
      · rw [he] at hrest ⊢
        exact hrest
      · rw [he] at hrest ⊢
        exact hrest

/-- What is sent for commands is frames, and a radio that hears them agrees with the engine. -/
theorem encodeAll_frames (hdistinct : e.desc.Distinct) (hagrees : Agrees e t) (ops : List Op) :
    (e.encodeAll ops).2.variant = e.variant ∧
      ∃ fs, List.Forall₂ (frames e.variant).Encodes fs fs ∧
        ((e.encodeAll ops).1.map Prod.snd).flatten = fs.flatten ∧
        Agrees (e.encodeAll ops).2 (fs.foldl (apply e.desc) t) := by
  induction ops generalizing e t with
  | nil => exact ⟨rfl, [], .nil, rfl, hagrees⟩
  | cons op ops ih =>
    unfold Rx320Engine.encodeAll
    dsimp only
    cases hsent : (e.encode op).1 with
    | error err =>
      dsimp only
      rw [encode_refused hsent]
      exact ih hdistinct hagrees
    | ok bytes =>
      have hencode : e.encode op = (.ok bytes, (e.encode op).2) := Prod.ext hsent rfl
      obtain ⟨hdesc, hvariant, fs, hfs, rfl, hagrees'⟩ :=
        encode_frames hdistinct hagrees hencode
      obtain ⟨hvariant', gs, hgs, hwire, hall⟩ := ih (by rw [hdesc]; exact hdistinct) hagrees'
      dsimp only
      refine ⟨hvariant'.trans hvariant, fs ++ gs, ?_, ?_, ?_⟩
      · rw [hvariant] at hgs
        exact List.rel_append hfs hgs
      · rw [List.map_cons, List.flatten_cons, hwire, List.flatten_append]
      · rw [List.foldl_append, ← hdesc]
        rw [hdesc] at hall ⊢
        exact hall

/-- **The radio has the frequency and the mode of the latest commands that were accepted**, when
each mode has a code of its own, however the bytes are cut into pieces of which none comes late. -/
theorem radio_latest {t : Rx320Twin} (hdistinct : desc.Distinct)
    (he : Rx320Engine.new desc = .ok e)
    (ht : Rx320Twin.new desc = .ok t) (ops : List Op) {pieces : List (List Byte × Duration)}
    (hpieces : (pieces.map Prod.fst).flatten = ((e.encodeAll ops).1.map Prod.snd).flatten)
    (htime : t.InTime pieces) :
    (t.feedAll pieces).currentHz =
        latestFrequency desc.defaultFrequency ((e.encodeAll ops).1.map Prod.fst) ∧
      (t.feedAll pieces).tuned.mode =
        latestMode desc.defaultMode ((e.encodeAll ops).1.map Prod.fst) := by
  unfold Rx320Engine.new at he
  unfold Rx320Twin.new at ht
  cases hvariant : Variant.fromName desc.dialect with
  | none =>
    rw [hvariant] at he
    cases he
  | some variant =>
    rw [hvariant] at he ht
    cases he
    cases ht
    have hagrees : Agrees ⟨desc, variant, desc.defaultFrequency, desc.defaultMode⟩
        ⟨none, desc.defaultFrequency, desc.defaultMode, defaultFilter desc.defaultMode⟩ :=
      ⟨rfl, rfl, rfl⟩
    obtain ⟨hsame, fs, hfs, hwire, hall⟩ := encodeAll_frames hdistinct hagrees ops
    obtain ⟨hhz, hmode⟩ := encodeAll_latest
      ⟨desc, variant, desc.defaultFrequency, desc.defaultMode⟩ ops
    obtain ⟨rx, hfeed⟩ := feedAll_reads htime
      (Scanner.readsAll_of_encodes hfs (hpieces.trans hwire))
    rw [hfeed, ← hhz, ← hmode]
    refine ⟨?_, hall.mode⟩
    have hcurrent := hall.hz
    rw [hsame] at hcurrent
    exact hcurrent

/-- **Words and commands.** A frequency has no words exactly when the filter is unknown, the
adjusted frequency is negative or a number does not fit, and words give back their frequency. A
command that is refused changes nothing, and the radio has the frequency and the mode of the latest
commands that were accepted, when each mode has a code of its own and no piece of what is sent comes
late. -/
theorem tuned_latest :
    (∀ variant hz mode filter, (tuningWordsFor variant hz mode filter = none ↔
        ∀ width, FILTERS[filter.toNat]? = some width →
          adjustedOf variant hz mode width < 0 ∨ ¬ Fits variant hz mode width) ∧
      ∀ words, tuningWordsFor variant hz mode filter = some words →
        frequencyOfFor variant words mode filter = some hz) ∧
    (∀ (e : Rx320Engine) op err, (e.encode op).1 = .error err → (e.encode op).2 = e) ∧
    ∀ (desc : RigDescription) (e : Rx320Engine) (t : Rx320Twin) (ops : List Op)
      (pieces : List (List Byte × Duration)),
      desc.Distinct → Rx320Engine.new desc = .ok e → Rx320Twin.new desc = .ok t →
      (pieces.map Prod.fst).flatten = ((e.encodeAll ops).1.map Prod.snd).flatten →
      t.InTime pieces →
      (t.feedAll pieces).currentHz =
          latestFrequency desc.defaultFrequency ((e.encodeAll ops).1.map Prod.fst) ∧
        (t.feedAll pieces).tuned.mode =
          latestMode desc.defaultMode ((e.encodeAll ops).1.map Prod.fst) :=
  ⟨fun _ _ _ _ => ⟨tuningWordsFor_eq_none, fun _ => frequencyOfFor_words⟩,
    fun _ _ _ => encode_refused,
    fun _ _ _ ops _ hdistinct he ht => radio_latest hdistinct he ht ops⟩

/-- A receiver with two modes. -/
def receiver : RigDescription :=
  ⟨"rx320", [.setFrequency, .setMode], [(.am, 48), (.lsb, 50)], 10000000, .am⟩

/-- The same with a mode that has the code of another one. -/
def sharing : RigDescription :=
  ⟨"rx320", [.setFrequency, .setMode], [(.am, 48), (.usb, 49), (.data, 49)], 10000000, .am⟩

def engineOf (desc : RigDescription) : Rx320Engine :=
  ⟨desc, .rx320, desc.defaultFrequency, desc.defaultMode⟩

def twinOf (desc : RigDescription) : Rx320Twin :=
  ⟨desc, .rx320, ⟨[], 0⟩, ⟨none, desc.defaultFrequency, desc.defaultMode, 0⟩⟩

/-- What is sent for commands. -/
def wireOf (desc : RigDescription) (ops : List Op) : List Byte :=
  (((engineOf desc).encodeAll ops).1.map Prod.snd).flatten

/-- A radio after some bytes at once, and the others later. -/
def heard (desc : RigDescription) (n : ℕ) (late : Duration) (wire : List Byte) : Rx320Twin :=
  (twinOf desc).feedAll [(wire.take n, 0), (wire.drop n, late)]

/-- A mode and two frequencies, of which one is refused, that arrive in two parts. -/
theorem receiver_latest :
    (heard receiver 5 500 (wireOf receiver
        [.setMode .lsb, .setFrequency .a 150, .setFrequency .a 7000000])).currentHz = 7000000 ∧
      (heard receiver 5 500 (wireOf receiver
        [.setMode .lsb, .setFrequency .a 150, .setFrequency .a 7000000])).tuned.mode = .lsb := by
  obtain ⟨wire, hwire⟩ : ∃ wire, wire = wireOf receiver
    [.setMode .lsb, .setFrequency .a 150, .setFrequency .a 7000000] := ⟨_, rfl⟩
  have hdistinct : receiver.Distinct := by
    unfold RigDescription.Distinct
    decide
  have hwhole : ([(wire.take 5, 0), (wire.drop 5, 500)].map Prod.fst).flatten = wire := by simp
  have htime : (twinOf receiver).InTime [(wire.take 5, 0), (wire.drop 5, 500)] := by
    refine ⟨.inl rfl, ?_, trivial⟩
    rw [hwire]
    decide +kernel
  rw [← hwire]
  exact tuned_latest.2.2 receiver (engineOf receiver) (twinOf receiver)
    [.setMode .lsb, .setFrequency .a 150, .setFrequency .a 7000000]
    [(wire.take 5, 0), (wire.drop 5, 500)] hdistinct rfl rfl (hwhole.trans hwire) htime

/-- The words of 150 Hz would fit, and it has none. A radio does not tell modes of one code apart,
and it forgets the part of a frame when the rest comes late. -/
theorem words_modes_and_pieces :
    (tuningWordsFor .rx320 150 .lsb 14 = none ∧ FILTERS[14]? = some 2400 ∧
      Fits .rx320 150 .lsb 2400) ∧
    (((engineOf sharing).encodeAll [.setMode .data]).1.map Prod.fst = [.setMode .data] ∧
      (heard sharing 14 0 (wireOf sharing [.setMode .data])).tuned.mode = .usb ∧
      (heard sharing 14 0 (wireOf sharing [.setMode .data])).currentHz ≠ 10000000) ∧
    ((engineOf receiver).encodeAll [.setFrequency .a 7000000]).1.map Prod.fst =
        [.setFrequency .a 7000000] ∧
      (heard receiver 4 501 (wireOf receiver [.setFrequency .a 7000000])).currentHz =
        10000000 := by
  refine ⟨⟨by decide, rfl, ?_⟩, by decide +kernel, by decide +kernel⟩
  unfold Fits IsWord
  decide

end Commands

end HamsOpen.TenTec
