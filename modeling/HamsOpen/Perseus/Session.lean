import Mathlib
import HamsOpen.Lib.Machine
import HamsOpen.Perseus.Firmware
import HamsOpen.Rig.Op

/-!
# The front end of the Perseus

A session takes requests for the front end of a board and turns them into commands (`perseus.rs`).
Two registers carry several settings each: the port has the attenuator and the filter, and the
serial word has the control bits and the tuning. A session writes them from copies of its own, which
are zero when it begins, whatever the board has.
-/

namespace HamsOpen.Perseus

open Rig (ErrorKind)
open Usb (Byte UsbFailure)

/-- Product code of a production unit. -/
def PRODUCT_CODE : UInt16 := 0x8014

/-- Nominal ADC clock in hertz. -/
def ADC_CLOCK_HZ : ℕ := 80000000

/-- Highest tuning frequency. -/
def MAX_FREQUENCY_HZ : ℕ := ADC_CLOCK_HZ / 2

/-- ADC dither enable bit. -/
def SIO_DITHER : Byte := 0x02

/-- ADC preamplifier bit. -/
def SIO_GAIN_HIGH : Byte := 0x04

/-- Upper cut-off, in hertz, of each of the preselector filters. -/
def PRESELECTOR_CUTOFFS_HZ : List ℕ :=
  [1700000, 2100000, 3000000, 4200000, 6000000, 8400000, 12000000, 17000000, 24000000, 32000000]

/-- The wide-band filter. -/
def PRESELECTOR_WIDE : Byte := 10

/-- One of the few pre-production units, which drive the attenuator with inverted sense. -/
def isPreSeries (productCode : UInt16) : Bool := productCode ≠ PRODUCT_CODE

/-- The first filter whose cut-off is above the frequency. -/
def preselectorFor (hz : ℕ) (enabled : Bool) : Byte :=
  if !enabled then PRESELECTOR_WIDE
  else
    match PRESELECTOR_CUTOFFS_HZ.findIdx? (hz < ·) with
    | some i => .ofNat i
    | none => PRESELECTOR_WIDE

/-- The tuning word, truncated. Its exact value is a multiple of 1/78125, so the rounding of the
quotient in the source does not reach the next word. -/
def tuningWord (hz : ℕ) : UInt32 := .ofNat (hz * 2 ^ 32 / ADC_CLOCK_HZ)

/-! ### Commands -/

/-- What a board has in its registers. -/
structure FrontEnd where
  productCode : UInt16
  /-- The attenuator in the high nibble, the filter in the low one. -/
  port : Byte
  control : Byte
  word : UInt32
  deriving DecidableEq

/-- A board that is ready for control, as the program knows it. -/
structure PerseusControl where
  productCode : UInt16
  frontend : Byte
  sioControl : Byte
  sioWord : UInt32
  preselector : Option Byte
  deriving DecidableEq

/-- How a write ended. The board may have taken one that failed. -/
inductive Written
  | accepted
  | failed (failure : UsbFailure) (taken : Bool)
  deriving DecidableEq

def Written.taken : Written → Bool
  | accepted => true
  | failed _ taken => taken

/-- How the transfers of a request end; the status of the serial word is as long as it says. -/
structure Answers where
  sio : Written
  status : Except UsbFailure ℕ
  port : Written
  deriving DecidableEq

/-- The program and the board. -/
structure Pair where
  control : PerseusControl
  board : FrontEnd
  deriving DecidableEq

/-- The front-end port is written. Of an error its kind is kept, which is all that a session makes
of it. -/
def portE (a : Answers) (value : Byte) (p : Pair) : Except ErrorKind Unit × Pair :=
  match a.port with
  | .accepted =>
    (.ok (), ⟨{ p.control with frontend := value }, { p.board with port := value }⟩)
  | .failed failure taken =>
    (.error (usbErr "front-end port write" failure).kind,
      if taken then { p with board.port := value } else p)

/-- The serial word is written, and its status is read. -/
def sio (a : Answers) (control : Byte) (word : UInt32) (p : Pair) : Except ErrorKind Unit × Pair :=
  match a.sio with
  | .failed failure taken =>
    (.error (usbErr "serial-IO write" failure).kind,
      if taken then { p with board.control := control, board.word := word } else p)
  | .accepted =>
    let p := { p with board.control := control, board.word := word }
    match a.status with
    | .error failure => (.error (usbErr "serial-IO status" failure).kind, p)
    | .ok length =>
      if length ≠ 6 then (.error .malformed, p)
      else (.ok (), { p with control.sioControl := control, control.sioWord := word })

/-- The number of an attenuator step. -/
def attenuatorIndex (db : Byte) : Option Byte :=
  if db = 0 then some 0
  else if db = 10 then some 1
  else if db = 20 then some 2
  else if db = 30 then some 3
  else none

/-- The code of an attenuator step. -/
def attenuatorCode (productCode : UInt16) (db : Byte) : Option Byte :=
  (attenuatorIndex db).map fun index => if isPreSeries productCode then index ^^^ 3 else index

/-- Sets the input attenuator. -/
def setAttenuatorDb (a : Answers) (db : Byte) (p : Pair) : Except ErrorKind Unit × Pair :=
  match attenuatorCode p.control.productCode db with
  | none => (.error .unsupported, p)
  | some code => portE a ((code <<< 4) ||| (p.control.frontend &&& 0x0F)) p

def flag (on : Bool) (bit : Byte) : Byte := if on then bit else 0

/-- The control bits with these for dither and the preamplifier. -/
def bits (control : Byte) (dither preamp : Bool) : Byte :=
  (control &&& ~~~(SIO_DITHER ||| SIO_GAIN_HIGH)) ||| flag dither SIO_DITHER |||
    flag preamp SIO_GAIN_HIGH

/-- Sets ADC dither and the ADC preamplifier. -/
def setAdc (a : Answers) (dither preamp : Bool) (p : Pair) : Except ErrorKind Unit × Pair :=
  sio a (bits p.control.sioControl dither preamp) p.control.sioWord p

/-- Selects the filter when it is another one than before. -/
def selectFilter (a : Answers) (filter : Byte) (p : Pair) : Except ErrorKind Unit × Pair :=
  if p.control.preselector = some filter then (.ok (), p)
  else
    match portE a ((p.control.frontend &&& 0xF0) ||| (filter &&& 0x0F)) p with
    | (.error e, p) => (.error e, p)
    | (.ok (), p) => (.ok (), { p with control.preselector := some filter })

/-- Tunes, and selects the filter of the frequency. -/
def setFrequency (a : Answers) (hz : ℕ) (preselector : Bool) (p : Pair) :
    Except ErrorKind Unit × Pair :=
  if MAX_FREQUENCY_HZ < hz then (.error .unsupported, p)
  else
    match sio a p.control.sioControl (tuningWord hz) p with
    | (.error e, p) => (.error e, p)
    | (.ok (), p) => selectFilter a (preselectorFor hz preselector) p

/-! ### Requests -/

/-- A request of a session: its type, number, value and data. -/
structure SessionRequest where
  requestType : Byte
  request : Byte
  value : UInt16
  data : List Byte
  deriving DecidableEq

/-- A request that is understood. -/
inductive Setting
  | tune (hz : ℕ)
  | attenuator (db : Byte)
  | dither (on : Bool)
  | preamp (on : Bool)
  | preselector (on : Bool)
  deriving DecidableEq

def SESSION_REQUEST_TYPE : Byte := 0x40
def SESSION_TUNE : Byte := 0x21
def SESSION_ATTENUATOR : Byte := 0x22
def SESSION_DITHER : Byte := 0x23
def SESSION_PREAMP : Byte := 0x24
def SESSION_PRESELECTOR : Byte := 0x25

/-- A number of little endian bytes. -/
def fromLeBytes (data : List Byte) : ℕ := data.foldr (fun b n => b.toNat + 256 * n) 0

/-- What a request asks for; the others stall. -/
def SessionRequest.setting (r : SessionRequest) : Option Setting :=
  if r.requestType ≠ SESSION_REQUEST_TYPE then none
  else if r.request = SESSION_TUNE then
    if r.data.length = 8 then some (.tune (fromLeBytes r.data)) else none
  else if r.request = SESSION_ATTENUATOR then
    if r.value < 256 then some (.attenuator r.value.toUInt8) else none
  else if 1 < r.value then none
  else if r.request = SESSION_DITHER then some (.dither (r.value = 1))
  else if r.request = SESSION_PREAMP then some (.preamp (r.value = 1))
  else if r.request = SESSION_PRESELECTOR then some (.preselector (r.value = 1))
  else none

structure PerseusSession where
  control : PerseusControl
  frequencyHz : Option ℕ
  preselector : Bool
  dither : Bool
  preamp : Bool
  deriving DecidableEq

/-- A session when it begins: preselection on, dither and preamplifier off. -/
def PerseusSession.new (control : PerseusControl) : PerseusSession :=
  ⟨control, none, true, false, false⟩

def failure : ErrorKind → UsbFailure
  | .linkDown => .noDevice
  | .timeout => .timeout
  | _ => .stall

/-- What a setting does to the session and the board. -/
def perform (a : Answers) (setting : Setting) (s : PerseusSession) (board : FrontEnd) :
    Except ErrorKind Unit × PerseusSession × FrontEnd :=
  match setting with
  | .tune hz =>
    let (done, p) := setFrequency a hz s.preselector ⟨s.control, board⟩
    (done, { s with
      control := p.control, frequencyHz := if done.isOk then some hz else s.frequencyHz }, p.board)
  | .attenuator db =>
    let (done, p) := setAttenuatorDb a db ⟨s.control, board⟩
    (done, { s with control := p.control }, p.board)
  | .dither on =>
    let (done, p) := setAdc a on s.preamp ⟨s.control, board⟩
    (done, { s with control := p.control, dither := if done.isOk then on else s.dither }, p.board)
  | .preamp on =>
    let (done, p) := setAdc a s.dither on ⟨s.control, board⟩
    (done, { s with control := p.control, preamp := if done.isOk then on else s.preamp }, p.board)
  | .preselector on =>
    let (done, p) := match s.frequencyHz with
      | some hz => setFrequency a hz on ⟨s.control, board⟩
      | none => (.ok (), ⟨s.control, board⟩)
    (done, { s with
      control := p.control, preselector := if done.isOk then on else s.preselector }, p.board)

/-- The answer to a request, with what it does. -/
def controlOut (a : Answers) (r : SessionRequest) (s : PerseusSession) (board : FrontEnd) :
    Except UsbFailure ℕ × PerseusSession × FrontEnd :=
  match r.setting with
  | none => (.error .stall, s, board)
  | some setting =>
    match perform a setting s board with
    | (.ok (), s, board) => (.ok r.data.length, s, board)
    | (.error e, s, board) => (.error (failure e), s, board)

/-! ### What is wanted -/

/-- The latest request of each kind that succeeded. -/
structure Wanted where
  tuned : Option ℕ
  attenuator : Option Byte
  dither : Option Bool
  preamp : Option Bool
  preselector : Option Bool
  deriving DecidableEq

def Wanted.set (w : Wanted) : Setting → Wanted
  | .tune hz => { w with tuned := some hz }
  | .attenuator db => { w with attenuator := some db }
  | .dither on => { w with dither := some on }
  | .preamp on => { w with preamp := some on }
  | .preselector on => { w with preselector := some on }

/-- The filter that is wanted: that of the tuned frequency unless preselection is off, which it is
not at first. -/
def Wanted.filter (w : Wanted) : Option Byte :=
  if w.preselector = some false then some PRESELECTOR_WIDE
  else w.tuned.map (preselectorFor · true)

namespace FrontEnd

variable (b : FrontEnd)

/-- The filter in use. -/
def filter : Byte := b.port &&& 0x0F

/-- The attenuator step in the high nibble, of which the other bits are zero. -/
def attenuator : Byte := b.port &&& 0xF0

def dither : Bool := b.control &&& SIO_DITHER ≠ 0

def preamp : Bool := b.control &&& SIO_GAIN_HIGH ≠ 0

/-- The control bits of no request. -/
def otherBits : Byte := b.control &&& ~~~(SIO_DITHER ||| SIO_GAIN_HIGH)

/-- The attenuation in decibels that a high nibble stands for. -/
def decibels : Option ℕ :=
  let n := b.port.toNat / 16
  if 3 < n then none else some (if isPreSeries b.productCode then 30 - 10 * n else 10 * n)

end FrontEnd

/-- The board has what is wanted. -/
structure Matches (w : Wanted) (b : FrontEnd) : Prop where
  tuned : ∀ hz ∈ w.tuned, b.word = tuningWord hz
  filter : ∀ f ∈ w.filter, b.filter = f
  attenuator : ∀ db ∈ w.attenuator, b.decibels = some db.toNat
  dither : ∀ on ∈ w.dither, b.dither = on
  preamp : ∀ on ∈ w.preamp, b.preamp = on

/-- A request for one setting changes no other one. The filter goes with the tuning. -/
def Apart (b b' : FrontEnd) : Setting → Prop
  | .tune _ => b'.attenuator = b.attenuator ∧ b'.control = b.control
  | .attenuator _ => b'.filter = b.filter ∧ b'.control = b.control ∧ b'.word = b.word
  | .dither _ => b'.port = b.port ∧ b'.word = b.word ∧ b'.preamp = b.preamp ∧
      b'.otherBits = b.otherBits
  | .preamp _ => b'.port = b.port ∧ b'.word = b.word ∧ b'.dither = b.dither ∧
      b'.otherBits = b.otherBits
  | .preselector _ => b'.attenuator = b.attenuator ∧ b'.control = b.control ∧ b'.word = b.word

/-! ### Runs -/

/-- No transfer of the serial word fails. -/
def Answers.Whole (a : Answers) : Prop := a.sio = .accepted ∧ a.status = .ok 6

/-- When a tune reaches the board, it does not fail halfway, and what it writes of other settings is
what the board has. -/
def Tunes (a : Answers) (hz : ℕ) (preselector : Bool) (p : Pair) : Prop :=
  hz ≤ MAX_FREQUENCY_HZ → a.sio.taken = true →
    a.Whole ∧ p.control.sioControl = p.board.control ∧
      (p.control.preselector ≠ some (preselectorFor hz preselector) →
        a.port = .accepted ∧ p.control.frontend &&& 0xF0 = p.board.attenuator)

/-- A session, its board, and what was asked of them. -/
structure Setup where
  session : PerseusSession
  board : FrontEnd
  wanted : Wanted
  deriving DecidableEq

namespace Setup

/-- A session begins on a board. -/
def fresh (board : FrontEnd) : Setup :=
  ⟨.new ⟨board.productCode, 0, 0, 0, none⟩, board, ⟨none, none, none, none, none⟩⟩

/-- A request is made. -/
def step (t : Setup) (r : SessionRequest) (a : Answers) : Setup :=
  let (done, session, board) := controlOut a r t.session t.board
  ⟨session, board, match done, r.setting with
    | .ok _, some setting => t.wanted.set setting
    | _, _ => t.wanted⟩

/-- When a request reaches the board, it does not fail halfway, and what it writes of other settings
is what the board has. Without a tuned frequency preselection is not switched off, unless the
board already has the wide-band filter. -/
def Meets (t : Setup) (a : Answers) : Setting → Prop
  | .tune hz => Tunes a hz t.session.preselector ⟨t.session.control, t.board⟩
  | .attenuator db =>
    (attenuatorCode t.session.control.productCode db).isSome → a.port.taken = true →
      a.port = .accepted ∧ t.session.control.frontend &&& 0x0F = t.board.filter
  | .dither _ => a.sio.taken = true →
      a.Whole ∧ t.session.control.sioWord = t.board.word ∧
        t.session.control.sioControl &&& ~~~(SIO_DITHER ||| SIO_GAIN_HIGH) = t.board.otherBits ∧
        t.session.preamp = t.board.preamp
  | .preamp _ => a.sio.taken = true →
      a.Whole ∧ t.session.control.sioWord = t.board.word ∧
        t.session.control.sioControl &&& ~~~(SIO_DITHER ||| SIO_GAIN_HIGH) = t.board.otherBits ∧
        t.session.dither = t.board.dither
  | .preselector on =>
    match t.session.frequencyHz with
    | some hz => Tunes a hz on ⟨t.session.control, t.board⟩ ∧
      (a.sio.taken = true → tuningWord hz = t.board.word)
    | none => on = true ∨ t.board.filter = PRESELECTOR_WIDE

end Setup

/-- Any session on any board. -/
def sessions : Machine Setup (SessionRequest × Answers) where
  init t := ∃ board, t = .fresh board
  step t r := some (t.step r.1 r.2)

/-- The requests of a step meet the condition. -/
def Setup.Ok (t : Setup) (r : SessionRequest × Answers) : Prop :=
  ∀ setting, r.1.setting = some setting → t.Meets r.2 setting

/-! ### Bits -/

section Bits

variable {a b : Byte} {dither preamp : Bool}

theorem or_and (a b mask : Byte) : (a ||| b) &&& mask = (a &&& mask) ||| (b &&& mask) :=
  UInt8.toBitVec_inj.mp BitVec.and_or_distrib_right

theorem high_nibble : (a &&& 0xF0 ||| b &&& 0x0F) &&& 0xF0 = a &&& 0xF0 := by
  have hhigh : (0xF0 : Byte) &&& 0xF0 = 0xF0 := rfl
  have hlow : (0x0F : Byte) &&& 0xF0 = 0 := rfl
  rw [or_and, UInt8.and_assoc, UInt8.and_assoc, hhigh, hlow, UInt8.and_zero, UInt8.or_zero]

theorem low_nibble : (a &&& 0xF0 ||| b &&& 0x0F) &&& 0x0F = b &&& 0x0F := by
  have hhigh : (0xF0 : Byte) &&& 0x0F = 0 := rfl
  have hlow : (0x0F : Byte) &&& 0x0F = 0x0F := rfl
  rw [or_and, UInt8.and_assoc, UInt8.and_assoc, hhigh, hlow, UInt8.and_zero, UInt8.zero_or]

theorem bits_dither : (bits a dither preamp &&& SIO_DITHER ≠ 0) ↔ dither = true := by
  have hothers : (a &&& ~~~(SIO_DITHER ||| SIO_GAIN_HIGH)) &&& SIO_DITHER = 0 := by
    rw [UInt8.and_assoc]
    exact UInt8.and_zero
  rw [bits, or_and, or_and, hothers]
  cases dither <;> cases preamp <;> decide

theorem bits_preamp : (bits a dither preamp &&& SIO_GAIN_HIGH ≠ 0) ↔ preamp = true := by
  have hothers : (a &&& ~~~(SIO_DITHER ||| SIO_GAIN_HIGH)) &&& SIO_GAIN_HIGH = 0 := by
    rw [UInt8.and_assoc]
    exact UInt8.and_zero
  rw [bits, or_and, or_and, hothers]
  cases dither <;> cases preamp <;> decide

theorem bits_others : bits a dither preamp &&& ~~~(SIO_DITHER ||| SIO_GAIN_HIGH) =
    a &&& ~~~(SIO_DITHER ||| SIO_GAIN_HIGH) := by
  have hdither : flag dither SIO_DITHER &&& ~~~(SIO_DITHER ||| SIO_GAIN_HIGH) = 0 := by
    cases dither <;> rfl
  have hpreamp : flag preamp SIO_GAIN_HIGH &&& ~~~(SIO_DITHER ||| SIO_GAIN_HIGH) = 0 := by
    cases preamp <;> rfl
  rw [bits, or_and, or_and, hdither, hpreamp, UInt8.or_zero, UInt8.or_zero, UInt8.and_assoc,
    UInt8.and_self]

theorem preselectorFor_low {hz : ℕ} {on : Bool} :
    preselectorFor hz on &&& 0x0F = preselectorFor hz on := by
  unfold preselectorFor
  split
  · rfl
  · split
    next i hi =>
      have hlt : i < 10 := (List.findIdx?_eq_some_iff_getElem.mp hi).1
      have hall : ∀ i < 10, UInt8.ofNat i &&& 0x0F = UInt8.ofNat i := by decide
      exact hall i hlt
    next => rfl

theorem attenuatorIndex_cases {db index : Byte} (h : attenuatorIndex db = some index) :
    db = 0 ∧ index = 0 ∨ db = 10 ∧ index = 1 ∨ db = 20 ∧ index = 2 ∨ db = 30 ∧ index = 3 := by
  unfold attenuatorIndex at h
  split at h
  · cases h; exact .inl ⟨‹_›, rfl⟩
  split at h
  · cases h; exact .inr (.inl ⟨‹_›, rfl⟩)
  split at h
  · cases h; exact .inr (.inr (.inl ⟨‹_›, rfl⟩))
  split at h
  · cases h; exact .inr (.inr (.inr ⟨‹_›, rfl⟩))
  · cases h

/-- A code has two bits. -/
theorem attenuatorCode_nibble {productCode : UInt16} {code db : Byte}
    (hcode : attenuatorCode productCode db = some code) :
    (code <<< (4 : Byte)) &&& 0xF0 = code <<< (4 : Byte) ∧
      (code <<< (4 : Byte)).toNat / 16 = code.toNat ∧
      code.toNat ≤ 3 ∧ db.toNat = if isPreSeries productCode then 30 - 10 * code.toNat
        else 10 * code.toNat := by
  unfold attenuatorCode at hcode
  obtain ⟨index, hindex, hcode⟩ := Option.map_eq_some_iff.mp hcode
  generalize isPreSeries productCode = inverted at hcode ⊢
  rcases attenuatorIndex_cases hindex with
    ⟨rfl, rfl⟩ | ⟨rfl, rfl⟩ | ⟨rfl, rfl⟩ | ⟨rfl, rfl⟩ <;>
    cases inverted <;> subst hcode <;> decide

/-- The high nibble alone says how many decibels. -/
theorem port_div (b : FrontEnd) : b.port.toNat / 16 = b.attenuator.toNat / 16 := by
  have hall : ∀ n : Fin 256, (UInt8.ofFin n).toNat / 16 = (UInt8.ofFin n &&& 0xF0).toNat / 16 := by
    decide +kernel
  exact Utf8.forall_byte (p := fun x => x.toNat / 16 = (x &&& 0xF0).toNat / 16) hall b.port

/-- The attenuation of a code. -/
theorem decibels_eq {code db : Byte} {b : FrontEnd}
    (hcode : attenuatorCode b.productCode db = some code) (hport : b.attenuator = code <<< 4) :
    b.decibels = some db.toNat := by
  obtain ⟨hhigh, hvalue, hle, hdb⟩ := attenuatorCode_nibble hcode
  rw [← hport, ← port_div] at hvalue
  unfold FrontEnd.decibels
  dsimp only
  rw [hvalue, if_neg (Nat.not_lt.mpr hle), hdb]

end Bits

/-! ### What a command comes to -/

section Commands

variable {a : Answers} {p : Pair} {value control : Byte} {word : UInt32} {hz : ℕ}
  {db : Byte} {on dither preamp : Bool}

/-- A write of the port that is not taken changes nothing. -/
theorem portE_spec (value : Byte) (h : a.port.taken = true → a.port = .accepted) :
    (∃ e, portE a value p = (.error e, p)) ∧ a.port.taken = false ∨
      a.port.taken = true ∧ portE a value p =
        (.ok (), ⟨{ p.control with frontend := value }, { p.board with port := value }⟩) := by
  cases hport : a.port with
  | accepted => exact .inr ⟨rfl, by rw [portE, hport]⟩
  | failed failure taken =>
    cases taken with
    | true =>
      rw [hport] at h
      cases h rfl
    | false => exact .inl ⟨⟨_, by rw [portE, hport]; rfl⟩, rfl⟩

/-- A write of the serial word that is not taken changes nothing. -/
theorem sio_spec (control : Byte) (word : UInt32) (h : a.sio.taken = true → a.Whole) :
    (∃ e, sio a control word p = (.error e, p)) ∧ a.sio.taken = false ∨
      a.sio.taken = true ∧ sio a control word p =
        (.ok (), ⟨{ p.control with sioControl := control, sioWord := word },
          { p.board with control := control, word := word }⟩) := by
  cases hsio : a.sio with
  | accepted =>
    obtain ⟨-, hstatus⟩ := h (by rw [hsio]; rfl)
    refine .inr ⟨rfl, ?_⟩
    rw [sio, hsio]
    dsimp only
    rw [hstatus]
    rfl
  | failed failure taken =>
    cases taken with
    | true =>
      have hwhole := (h (by rw [hsio]; rfl)).1
      rw [hsio] at hwhole
      cases hwhole
    | false => exact .inl ⟨⟨_, by rw [sio, hsio]; rfl⟩, rfl⟩

/-- After a word was accepted the filter is selected, and the attenuator stays. -/
theorem selectFilter_spec {filter : Byte} (hlow : filter &&& 0x0F = filter)
    (hcontrol : p.control.sioControl = p.board.control)
    (hport : p.control.preselector ≠ some filter →
      a.port = .accepted ∧ p.control.frontend &&& 0xF0 = p.board.attenuator)
    (hfilter : ∀ f ∈ p.control.preselector, p.board.filter = f) :
    ∃ p', selectFilter a filter
        ⟨{ p.control with sioControl := p.control.sioControl, sioWord := word },
          { p.board with control := p.control.sioControl, word := word }⟩ = (.ok (), p') ∧
      p'.board.productCode = p.board.productCode ∧ p'.board.word = word ∧
      p'.board.control = p.board.control ∧ p'.board.attenuator = p.board.attenuator ∧
      p'.board.filter = filter ∧ p'.control.productCode = p.control.productCode ∧
      p'.control.preselector = some filter := by
  by_cases hsame : p.control.preselector = some filter
  · exact ⟨_, if_pos hsame, rfl, rfl, hcontrol, rfl, hfilter _ hsame, rfl, hsame⟩
  · obtain ⟨haccepted, hhigh⟩ := hport hsame
    rw [selectFilter, if_neg hsame, portE, haccepted]
    refine ⟨_, rfl, rfl, rfl, hcontrol, ?_, ?_, rfl, rfl⟩
    · exact high_nibble.trans hhigh
    · exact low_nibble.trans hlow

theorem setFrequency_of_error {q : Pair} {e : ErrorKind} (hrange : ¬ MAX_FREQUENCY_HZ < hz)
    (hsio : sio a p.control.sioControl (tuningWord hz) p = (.error e, q)) :
    setFrequency a hz on p = (.error e, q) := by
  rw [setFrequency, if_neg hrange, hsio]

theorem setFrequency_of_ok {q : Pair} (hrange : ¬ MAX_FREQUENCY_HZ < hz)
    (hsio : sio a p.control.sioControl (tuningWord hz) p = (.ok (), q)) :
    setFrequency a hz on p = selectFilter a (preselectorFor hz on) q := by
  rw [setFrequency, if_neg hrange, hsio]

/-- A tune that meets its condition tunes, selects the filter and changes nothing else, or it does
nothing. -/
theorem setFrequency_spec (hmeets : Tunes a hz on p)
    (hfilter : ∀ f ∈ p.control.preselector, p.board.filter = f) :
    (∃ e, setFrequency a hz on p = (.error e, p)) ∨
      a.sio.taken = true ∧ ∃ p', setFrequency a hz on p = (.ok (), p') ∧
        p'.board.productCode = p.board.productCode ∧ p'.board.word = tuningWord hz ∧
        p'.board.control = p.board.control ∧ p'.board.attenuator = p.board.attenuator ∧
        p'.board.filter = preselectorFor hz on ∧ p'.control.productCode = p.control.productCode ∧
        p'.control.preselector = some (preselectorFor hz on) := by
  by_cases hrange : MAX_FREQUENCY_HZ < hz
  · rw [setFrequency, if_pos hrange]
    exact .inl ⟨_, rfl⟩
  have hmeets := hmeets (Nat.le_of_not_lt hrange)
  rcases sio_spec (p := p) p.control.sioControl (tuningWord hz)
    (fun h => (hmeets h).1) with ⟨⟨e, hsio⟩, -⟩ | ⟨htaken, hsio⟩
  · exact .inl ⟨e, setFrequency_of_error hrange hsio⟩
  obtain ⟨-, hcontrol, hport⟩ := hmeets htaken
  rw [setFrequency_of_ok hrange hsio]
  exact .inr ⟨htaken, selectFilter_spec preselectorFor_low hcontrol hport hfilter⟩

/-- The attenuator is set, and nothing else changes. -/
theorem setAttenuatorDb_spec (hmeets : (attenuatorCode p.control.productCode db).isSome →
      a.port.taken = true →
      a.port = .accepted ∧ p.control.frontend &&& 0x0F = p.board.filter)
    (hproduct : p.control.productCode = p.board.productCode) :
    (∃ e, setAttenuatorDb a db p = (.error e, p)) ∨
      ∃ p', setAttenuatorDb a db p = (.ok (), p') ∧
        p'.board.productCode = p.board.productCode ∧ p'.board.decibels = some db.toNat ∧
        p'.board.filter = p.board.filter ∧ p'.board.control = p.board.control ∧
        p'.board.word = p.board.word ∧ p'.control.productCode = p.control.productCode ∧
        p'.control.preselector = p.control.preselector := by
  cases hcode : attenuatorCode p.control.productCode db with
  | none => exact .inl ⟨_, by rw [setAttenuatorDb, hcode]⟩
  | some code =>
    rw [hcode] at hmeets
    rw [setAttenuatorDb, hcode]
    dsimp only
    rcases portE_spec (p := p) ((code <<< 4) ||| (p.control.frontend &&& 0x0F))
      (fun h => (hmeets rfl h).1) with ⟨herror, -⟩ | ⟨htaken, hport⟩
    · exact .inl herror
    · obtain ⟨-, hlow⟩ := hmeets rfl htaken
      rw [hport]
      have hhigh := (attenuatorCode_nibble hcode).1
      rw [← hhigh]
      refine .inr ⟨_, rfl, rfl, ?_, ?_, rfl, rfl, rfl, rfl⟩
      · rw [hproduct] at hcode
        exact decibels_eq hcode (high_nibble.trans hhigh)
      · exact low_nibble.trans hlow

/-- The control bits are set, and nothing else changes. -/
theorem setAdc_spec (dither preamp : Bool) (hmeets : a.sio.taken = true →
      a.Whole ∧ p.control.sioWord = p.board.word ∧
      p.control.sioControl &&& ~~~(SIO_DITHER ||| SIO_GAIN_HIGH) = p.board.otherBits) :
    (∃ e, setAdc a dither preamp p = (.error e, p)) ∨
      a.sio.taken = true ∧ ∃ p', setAdc a dither preamp p = (.ok (), p') ∧
        p'.board.productCode = p.board.productCode ∧ p'.board.port = p.board.port ∧
        p'.board.word = p.board.word ∧ p'.board.dither = dither ∧ p'.board.preamp = preamp ∧
        p'.board.otherBits = p.board.otherBits ∧
        p'.control.productCode = p.control.productCode ∧
        p'.control.preselector = p.control.preselector := by
  rcases sio_spec (p := p) (bits p.control.sioControl dither preamp)
    p.control.sioWord (fun h => (hmeets h).1) with ⟨herror, -⟩ | ⟨htaken, hsio⟩
  · exact .inl herror
  · obtain ⟨-, hword, hothers⟩ := hmeets htaken
    refine .inr ⟨htaken, _, hsio, rfl, rfl, hword, ?_, ?_, ?_, rfl, rfl⟩
    · exact Bool.eq_iff_iff.mpr (decide_eq_true_iff.trans bits_dither)
    · exact Bool.eq_iff_iff.mpr (decide_eq_true_iff.trans bits_preamp)
    · exact bits_others.trans hothers

end Commands

/-! ### What is kept -/

section Kept

variable {t t' : Setup} {a : Answers} {r : SessionRequest} {setting : Setting} {w : Wanted}
  {b : FrontEnd} {hz : ℕ}

/-- The session knows what it was asked, and the board has it. -/
structure Synced (t : Setup) : Prop where
  product : t.session.control.productCode = t.board.productCode
  selected : ∀ f ∈ t.session.control.preselector, t.board.filter = f
  tuned : t.session.frequencyHz = t.wanted.tuned
  preselector : t.session.preselector = t.wanted.preselector.getD true
  has : Matches t.wanted t.board

theorem filter_of_tuned (h : w.tuned = some hz) :
    w.filter = some (preselectorFor hz (w.preselector.getD true)) := by
  unfold Wanted.filter
  rw [h]
  cases hpreselector : w.preselector with
  | none => rfl
  | some on =>
    cases on with
    | true => rfl
    | false => rfl

theorem apart_refl : Apart b b setting := by
  cases setting with
  | tune hz => exact ⟨rfl, rfl⟩
  | attenuator db => exact ⟨rfl, rfl, rfl⟩
  | dither on => exact ⟨rfl, rfl, rfl, rfl⟩
  | preamp on => exact ⟨rfl, rfl, rfl, rfl⟩
  | preselector on => exact ⟨rfl, rfl, rfl⟩

/-- Nothing was asked yet. -/
theorem synced_fresh : Synced (.fresh b) where
  product := rfl
  selected := nofun
  tuned := rfl
  preselector := rfl
  has := ⟨nofun, nofun, nofun, nofun, nofun⟩

/-- The board after a tune that succeeds. -/
theorem Matches.retuned {b' : FrontEnd} {w' : Wanted} (h : Matches w b) {on : Bool}
    (hproduct : b'.productCode = b.productCode) (hword : b'.word = tuningWord hz)
    (hcontrol : b'.control = b.control) (hattenuator : b'.attenuator = b.attenuator)
    (hfilter : b'.filter = preselectorFor hz on) (htuned : w'.tuned = some hz)
    (hwanted : w'.filter = some (preselectorFor hz on)) (hdb : w'.attenuator = w.attenuator)
    (hdither : w'.dither = w.dither) (hpreamp : w'.preamp = w.preamp) : Matches w' b' where
  tuned hz' h' := by
    rw [htuned] at h'
    rw [hword, Option.some.inj h']
  filter f h' := by
    rw [hwanted] at h'
    rw [hfilter, Option.some.inj h']
  attenuator db h' := by
    have hdecibels : b'.decibels = b.decibels := by
      unfold FrontEnd.decibels
      rw [port_div, port_div, hattenuator, hproduct]
    rw [hdecibels]
    exact h.attenuator db (hdb ▸ h')
  dither on h' := by
    rw [FrontEnd.dither, hcontrol]
    exact h.dither on (hdither ▸ h')
  preamp on h' := by
    rw [FrontEnd.preamp, hcontrol]
    exact h.preamp on (hpreamp ▸ h')

/-- The board after control bits were set. -/
theorem Matches.controlled {b' : FrontEnd} {w' : Wanted} (h : Matches w b)
    (hproduct : b'.productCode = b.productCode) (hport : b'.port = b.port)
    (hword : b'.word = b.word) (hdither : ∀ on ∈ w'.dither, b'.dither = on)
    (hpreamp : ∀ on ∈ w'.preamp, b'.preamp = on) (htuned : w'.tuned = w.tuned)
    (hfilter : w'.filter = w.filter) (hdb : w'.attenuator = w.attenuator) : Matches w' b' where
  tuned hz h' := hword.trans (h.tuned hz (htuned ▸ h'))
  filter f h' := by
    rw [FrontEnd.filter, hport]
    exact h.filter f (hfilter ▸ h')
  attenuator db h' := by
    rw [FrontEnd.decibels, hport, hproduct]
    exact h.attenuator db (hdb ▸ h')
  dither := hdither
  preamp := hpreamp

/-- A request that meets its condition does nothing, or it succeeds. -/
theorem perform_spec (hsync : Synced t) (hmeets : t.Meets a setting) :
    (∃ e, perform a setting t.session t.board = (.error e, t.session, t.board)) ∨
      ∃ s b, perform a setting t.session t.board = (.ok (), s, b) ∧ Apart t.board b setting ∧
        Synced ⟨s, b, t.wanted.set setting⟩ := by
  cases setting with
  | tune hz =>
    rcases setFrequency_spec hmeets hsync.selected with ⟨e, hdone⟩ | ⟨-, p', hdone, hproduct, hword,
      hcontrol, hattenuator, hfilter, hknown, hselected⟩
    · exact .inl ⟨e, by rw [perform, hdone]; rfl⟩
    · refine .inr ⟨_, _, by rw [perform, hdone], ⟨hattenuator, hcontrol⟩, ?_⟩
      rw [hsync.preselector] at hfilter
      exact {
        product := by rw [hknown, hproduct]; exact hsync.product
        selected := by
          intro f hf
          rw [hselected] at hf
          rw [hfilter, ← hsync.preselector]
          exact Option.some.inj hf
        tuned := rfl
        preselector := hsync.preselector
        has := hsync.has.retuned hproduct hword hcontrol hattenuator hfilter rfl
          (filter_of_tuned rfl) rfl rfl rfl }
  | attenuator db =>
    rcases setAttenuatorDb_spec (p := ⟨t.session.control, t.board⟩) hmeets hsync.product with
      ⟨e, hdone⟩ | ⟨p', hdone, hproduct, hdecibels, hfilter, hcontrol, hword, hknown, hselected⟩
    · exact .inl ⟨e, by rw [perform, hdone]⟩
    · refine .inr ⟨_, _, by rw [perform, hdone], ⟨hfilter, hcontrol, hword⟩, ?_⟩
      exact {
        product := by rw [hknown, hproduct]; exact hsync.product
        selected := by
          intro f hf
          rw [hselected] at hf
          rw [hfilter]
          exact hsync.selected f hf
        tuned := hsync.tuned
        preselector := hsync.preselector
        has := ⟨fun hz h => hword.trans (hsync.has.tuned hz h),
          fun f h => hfilter.trans (hsync.has.filter f h),
          fun db' h => by rw [hdecibels, Option.some.inj h],
          fun on h => by rw [FrontEnd.dither, hcontrol]; exact hsync.has.dither on h,
          fun on h => by rw [FrontEnd.preamp, hcontrol]; exact hsync.has.preamp on h⟩ }
  | dither on =>
    rcases setAdc_spec (p := ⟨t.session.control, t.board⟩) on t.session.preamp
      (fun h => ⟨(hmeets h).1, (hmeets h).2.1, (hmeets h).2.2.1⟩) with ⟨e, hdone⟩ | ⟨htaken, p',
      hdone, hproduct, hport, hword, hdither, hpreamp, hothers, hknown, hselected⟩
    · exact .inl ⟨e, by rw [perform, hdone]; rfl⟩
    · have hsame := hpreamp.trans (hmeets htaken).2.2.2
      refine .inr ⟨_, _, by rw [perform, hdone], ⟨hport, hword, hsame, hothers⟩, ?_⟩
      exact {
        product := by rw [hknown, hproduct]; exact hsync.product
        selected := by
          intro f hf
          rw [hselected] at hf
          rw [FrontEnd.filter, hport]
          exact hsync.selected f hf
        tuned := hsync.tuned
        preselector := hsync.preselector
        has := hsync.has.controlled hproduct hport hword
          (fun _ h => hdither.trans (Option.some.inj h))
          (fun on' h => hsame.trans (hsync.has.preamp on' h)) rfl rfl rfl }
  | preamp on =>
    rcases setAdc_spec (p := ⟨t.session.control, t.board⟩) t.session.dither on
      (fun h => ⟨(hmeets h).1, (hmeets h).2.1, (hmeets h).2.2.1⟩) with ⟨e, hdone⟩ | ⟨htaken, p',
      hdone, hproduct, hport, hword, hdither, hpreamp, hothers, hknown, hselected⟩
    · exact .inl ⟨e, by rw [perform, hdone]; rfl⟩
    · have hsame := hdither.trans (hmeets htaken).2.2.2
      refine .inr ⟨_, _, by rw [perform, hdone], ⟨hport, hword, hsame, hothers⟩, ?_⟩
      exact {
        product := by rw [hknown, hproduct]; exact hsync.product
        selected := by
          intro f hf
          rw [hselected] at hf
          rw [FrontEnd.filter, hport]
          exact hsync.selected f hf
        tuned := hsync.tuned
        preselector := hsync.preselector
        has := hsync.has.controlled hproduct hport hword
          (fun on' h => hsame.trans (hsync.has.dither on' h))
          (fun _ h => hpreamp.trans (Option.some.inj h)) rfl rfl rfl }
  | preselector on =>
    cases hfrequency : t.session.frequencyHz with
    | none =>
      have htuned : t.wanted.tuned = none := hsync.tuned.symm.trans hfrequency
      have hwide : on = true ∨ t.board.filter = PRESELECTOR_WIDE := by
        rwa [Setup.Meets, hfrequency] at hmeets
      refine .inr ⟨_, _, by rw [perform, hfrequency], apart_refl, ?_⟩
      exact {
        product := hsync.product
        selected := hsync.selected
        tuned := hfrequency.symm.trans hsync.tuned
        preselector := rfl
        has := { hsync.has with
          filter := by
            intro f hf
            cases on with
            | true =>
              rw [Wanted.filter, if_neg (by nofun)] at hf
              rw [Wanted.set, htuned] at hf
              cases hf
            | false =>
              exact (hwide.resolve_left nofun).trans (Option.some.inj hf) } }
    | some hz =>
      have htuned : t.wanted.tuned = some hz := hsync.tuned.symm.trans hfrequency
      obtain ⟨htune, hword⟩ : Tunes a hz on ⟨t.session.control, t.board⟩ ∧
          (a.sio.taken = true → tuningWord hz = t.board.word) := by
        rwa [Setup.Meets, hfrequency] at hmeets
      rcases setFrequency_spec htune hsync.selected with ⟨e, hdone⟩ | ⟨htaken, p', hdone, hproduct,
        hword', hcontrol, hattenuator, hfilter, hknown, hselected⟩
      · exact .inl ⟨e, by rw [perform, hfrequency]; dsimp only; rw [hdone, ← hfrequency]; rfl⟩
      · refine .inr ⟨_, _, by rw [perform, hfrequency]; dsimp only; rw [hdone],
          ⟨hattenuator, hcontrol, hword'.trans (hword htaken)⟩, ?_⟩
        exact {
          product := by rw [hknown, hproduct]; exact hsync.product
          selected := by
            intro f hf
            rw [hselected] at hf
            rw [hfilter]
            exact Option.some.inj hf
          tuned := hfrequency.symm.trans hsync.tuned
          preselector := rfl
          has := hsync.has.retuned hproduct hword' hcontrol hattenuator hfilter htuned
            (filter_of_tuned htuned) rfl rfl rfl }

/-- A step that meets its condition changes nothing that was not asked for, and what was asked for
is there after it. -/
theorem step_spec (hsync : Synced t)
    (hok : ∀ setting, r.setting = some setting → t.Meets a setting) :
    Synced (t.step r a) ∧
      ∀ setting, r.setting = some setting → Apart t.board (t.step r a).board setting := by
  cases hsetting : r.setting with
  | none =>
    have hstep : t.step r a = t := by rw [Setup.step, controlOut, hsetting]
    rw [hstep]
    exact ⟨hsync, nofun⟩
  | some setting =>
    rcases perform_spec hsync (hok setting hsetting) with ⟨e, hperform⟩ | ⟨s, b, hperform, hapart,
      hsync'⟩
    · have hstep : t.step r a = t := by
        rw [Setup.step, controlOut, hsetting]; dsimp only; rw [hperform]
      rw [hstep]
      exact ⟨hsync, fun _ _ => apart_refl⟩
    · have hstep : t.step r a = ⟨s, b, t.wanted.set setting⟩ := by
        rw [Setup.step, controlOut, hsetting]; dsimp only; rw [hperform]
      rw [hstep]
      exact ⟨hsync', fun setting' h => Option.some.inj h ▸ hapart⟩

/-- In a run whose requests all meet the condition, the board always has what was asked for last,
and a request changes nothing else. -/
theorem settings_kept (h : sessions.Reach Setup.Ok t) : Matches t.wanted t.board ∧
    ∀ r, t.Ok r → ∀ setting, r.1.setting = some setting →
      Apart t.board (t.step r.1 r.2).board setting := by
  have hsync : Synced t := by
    apply h.invariant
    · rintro s ⟨board, rfl⟩
      exact synced_fresh
    · rintro s ⟨r, a⟩ s' hs hok hstep
      obtain rfl := Option.some.inj hstep
      exact (step_spec hs hok).1
  exact ⟨hsync.has, fun r hok => (step_spec hsync hok).2⟩

end Kept

/-- To tune to 7.1 MHz. -/
def tuneRequest : SessionRequest :=
  ⟨SESSION_REQUEST_TYPE, SESSION_TUNE, 0, [0x60, 0x56, 0x6C, 0, 0, 0, 0, 0]⟩

/-- All transfers are accepted. -/
def allAccepted : Answers := ⟨.accepted, .ok 6, .accepted⟩

/-- A board without attenuation, which is tuned. -/
theorem tuned_kept :
    Matches ((Setup.fresh ⟨PRODUCT_CODE, 0, 0, 0⟩).step tuneRequest allAccepted).wanted
      ((Setup.fresh ⟨PRODUCT_CODE, 0, 0, 0⟩).step tuneRequest allAccepted).board := by
  have hok : (Setup.fresh ⟨PRODUCT_CODE, 0, 0, 0⟩).Ok (tuneRequest, allAccepted) := by
    intro setting h
    have hsetting : tuneRequest.setting = some (.tune 7100000) := by decide +kernel
    obtain rfl := Option.some.inj (h.symm.trans hsetting)
    intro _ _
    exact ⟨⟨rfl, rfl⟩, rfl, fun _ => ⟨rfl, rfl⟩⟩
  exact (settings_kept (.step (.init ⟨_, rfl⟩) hok rfl)).1

/-- On a board with 30 dB attenuation, where the last session left it, the first tune sets 0 dB. -/
theorem attenuator_lost : ¬ ∀ t, sessions.Reachable t → ∀ r : SessionRequest × Answers, ∀ setting,
    r.1.setting = some setting → Apart t.board (t.step r.1 r.2).board setting := by
  intro h
  have hsetting : tuneRequest.setting = some (.tune 7100000) := by decide +kernel
  have hapart := (h (.fresh ⟨PRODUCT_CODE, 0x30, 0, 0⟩) (.init ⟨_, rfl⟩) (tuneRequest, allAccepted)
    _ hsetting).1
  have hlost : ((Setup.fresh ⟨PRODUCT_CODE, 0x30, 0, 0⟩).step tuneRequest
      allAccepted).board.attenuator = 0 := by decide +kernel
  rw [hlost] at hapart
  exact absurd hapart (by decide)

end HamsOpen.Perseus
