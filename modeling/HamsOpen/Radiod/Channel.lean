import HamsOpen.Lib.Overwrite
import HamsOpen.Radiod.Command

/-!
# What a channel remembers

`radiod` keeps the parameters of a channel from one command to the next: a datagram overwrites the
parameters it names. Every mode names its own, and what the last mode does not name is left from
before.
-/

namespace HamsOpen.Radiod

/-! ### Channels -/

/-- The parameters of a channel that shape what is heard. -/
@[ext]
structure Channel where
  demodType : UInt64
  outputSamprate : UInt64
  outputChannels : UInt64
  lowEdge : F32
  highEdge : F32
  envelope : Bool
  pllEnable : Bool
  pllSquare : Bool
  snrSquelch : Bool
  squelchOpen : F32
  squelchClose : F32
  agcEnable : Bool
  deriving DecidableEq

namespace Channel

/-- One parameter overwritten by the number of an entry. -/
def set (ch : Channel) (t : UInt8) (n : UInt64) : Channel :=
  if t = Ty.DEMOD_TYPE then { ch with demodType := n }
  else if t = Ty.OUTPUT_SAMPRATE then { ch with outputSamprate := n }
  else if t = Ty.OUTPUT_CHANNELS then { ch with outputChannels := n }
  else if t = Ty.LOW_EDGE then { ch with lowEdge := ⟨n.toUInt32⟩ }
  else if t = Ty.HIGH_EDGE then { ch with highEdge := ⟨n.toUInt32⟩ }
  else if t = Ty.ENVELOPE then { ch with envelope := n != 0 }
  else if t = Ty.PLL_ENABLE then { ch with pllEnable := n != 0 }
  else if t = Ty.PLL_SQUARE then { ch with pllSquare := n != 0 }
  else if t = Ty.SNR_SQUELCH then { ch with snrSquelch := n != 0 }
  else if t = Ty.SQUELCH_OPEN then { ch with squelchOpen := ⟨n.toUInt32⟩ }
  else if t = Ty.SQUELCH_CLOSE then { ch with squelchClose := ⟨n.toUInt32⟩ }
  else if t = Ty.AGC_ENABLE then { ch with agcEnable := n != 0 }
  else ch

def overwrite (ch : Channel) (e : Entry) : Channel :=
  match e.uint with
  | .ok n => ch.set e.ty n
  | .error _ => ch

/-- The channel after a datagram for it. -/
def receive (ch : Channel) (pkt : Bytes) : Channel :=
  match parse pkt with
  | .ok (.command, es) => es.foldl overwrite ch
  | _ => ch

/-- What a command does to a channel, field by field. -/
theorem receive_datagram (ch : Channel) (c : Command) (tag : UInt32) :
    ch.receive (c.datagram tag) =
      (c.fields tag).foldl (fun ch f => ch.set f.ty f.number) ch := by
  have hstep (ch : Channel) (f : Field) : ch.overwrite f.entry = ch.set f.ty f.number := by
    rw [overwrite, f.uint_entry]
    rfl
  rw [receive, parse_command]
  simp only [List.foldl_map, hstep]

/-- The detectors of a channel. -/
def detector (ch : Channel) : Bool × Bool := (ch.envelope, ch.pllEnable)

/-- The squelch of a channel, with the way the carrier is tracked. -/
def squelch (ch : Channel) : Bool × Bool × F32 × F32 :=
  (ch.pllSquare, ch.snrSquelch, ch.squelchOpen, ch.squelchClose)

end Channel

/-- The squelch as the synchronous modes hold it open. -/
def heldOpen : Bool × Bool × F32 × F32 := (false, false, SAM_SQUELCH_OPEN_DB, SAM_SQUELCH_OPEN_DB)

/-! ### What each command sets -/

section Receive

variable (ch : Channel) (tag : UInt32)

/-- A 32-bit float travels as a number. -/
theorem F32.of_number (x : F32) : F32.mk x.bits.toUInt64.toUInt32 = x := by
  rw [UInt32.toUInt32_toUInt64]

theorem set_encoding (e : Encoding) :
    e.fields.foldl (fun ch f => ch.set f.ty f.number) ch = ch := by
  cases e <;> rfl

/-- A linear mode sets the detectors and the gain control, a synchronous one also the squelch. -/
theorem set_detection (m : Mode) :
    m.detection.foldl (fun ch f => ch.set f.ty f.number) ch =
      { ch with
        envelope := if m = .fm then ch.envelope else m = .am
        pllEnable := if m = .fm then ch.pllEnable else m.isSynchronous
        agcEnable := if m = .fm then ch.agcEnable else true
        pllSquare := if m.isSynchronous then false else ch.pllSquare
        snrSquelch := if m.isSynchronous then false else ch.snrSquelch
        squelchOpen := if m.isSynchronous then SAM_SQUELCH_OPEN_DB else ch.squelchOpen
        squelchClose := if m.isSynchronous then SAM_SQUELCH_OPEN_DB else ch.squelchClose } := by
  have hsynchronous (db : F32) : ([.flag Ty.ENVELOPE false, .flag Ty.PLL_ENABLE true,
      .flag Ty.PLL_SQUARE false, .flag Ty.SNR_SQUELCH false, ⟨Ty.SQUELCH_OPEN, .f32 db⟩,
      ⟨Ty.SQUELCH_CLOSE, .f32 db⟩, .flag Ty.AGC_ENABLE true] : List Field).foldl
        (fun ch f => ch.set f.ty f.number) ch =
      { ch with
        envelope := false, pllEnable := true, agcEnable := true, pllSquare := false
        snrSquelch := false, squelchOpen := db, squelchClose := db } := by
    change { ch with
      envelope := false, pllEnable := true, agcEnable := true, pllSquare := false
      snrSquelch := false, squelchOpen := F32.mk db.bits.toUInt64.toUInt32
      squelchClose := F32.mk db.bits.toUInt64.toUInt32 } = _
    rw [F32.of_number]
  cases m with
  | sam | samLower | samUpper => exact hsynchronous _
  | _ => rfl

/-- Every mode sets the demodulator, the output and the passband. -/
theorem receive_audio (a : AudioChannel) :
    ch.receive ((Command.audio a).datagram tag) =
      a.mode.detection.foldl (fun ch f => ch.set f.ty f.number)
        { ch with
          demodType := a.mode.demodType
          outputSamprate := a.mode.outputSamprate
          outputChannels := a.mode.outputChannels
          lowEdge := a.mode.edges.1
          highEdge := a.mode.edges.2 } := by
  rw [Channel.receive_datagram, Command.fields, Command.settings, List.foldl_append,
    List.foldl_append, List.foldl_append, set_encoding]
  change a.mode.detection.foldl (fun ch f => ch.set f.ty f.number)
    { ch with
      demodType := a.mode.demodType
      outputSamprate := a.mode.outputSamprate
      outputChannels := a.mode.outputChannels
      lowEdge := F32.mk a.mode.edges.1.bits.toUInt64.toUInt32
      highEdge := F32.mk a.mode.edges.2.bits.toUInt64.toUInt32 } = _
  rw [F32.of_number, F32.of_number]

theorem receive_poll (ssrc : Ssrc) (lifetimeFrames : UInt32) :
    ch.receive ((Command.poll ssrc lifetimeFrames).datagram tag) = ch := by
  rw [Channel.receive_datagram]
  rfl

theorem receive_filter (ssrc : Ssrc) (lowHz highHz : F32) (lifetimeFrames : UInt32) :
    ch.receive ((Command.filter ssrc lowHz highHz lifetimeFrames).datagram tag) =
      { ch with lowEdge := lowHz, highEdge := highHz } := by
  rw [Channel.receive_datagram]
  change { ch with
    lowEdge := F32.mk lowHz.bits.toUInt64.toUInt32
    highEdge := F32.mk highHz.bits.toUInt64.toUInt32 } = _
  rw [F32.of_number, F32.of_number]

theorem receive_gain (ssrc : Ssrc) (gainDb : Option F32) (lifetimeFrames : UInt32) :
    ch.receive ((Command.gain ssrc gainDb lifetimeFrames).datagram tag) =
      { ch with agcEnable := gainDb.isNone } := by
  rw [Channel.receive_datagram]
  cases gainDb <;> rfl

end Receive

/-! ### Histories -/

/-- An accepted command with its datagram. -/
structure Sent (c : Command) where
  policy : Policy
  tag : UInt32
  bytes : Bytes
  built : c.encode policy tag = .ok bytes

/-- It shapes an audio channel that stays. -/
def Command.isForAudio : Command → Bool
  | .audio _ | .filter _ _ _ _ | .gain _ _ _ | .poll _ _ => true
  | .spectrum _ | .remove _ => false

/-- An accepted command for an audio channel. -/
structure Request where
  command : Command
  forAudio : command.isForAudio = true
  sent : Sent command

/-- The channel after requests, the oldest first. -/
def after (template : Channel) (h : List Request) : Channel :=
  h.foldl (fun ch r => ch.receive r.sent.bytes) template

namespace Request

/-- The envelope detector and the carrier loop as the request sets them: only a linear mode does. -/
def detector (r : Request) : Option (Bool × Bool) :=
  match r.command with
  | .audio a => if a.mode = .fm then none else some (a.mode = .am, a.mode.isSynchronous)
  | _ => none

/-- The gain control: a linear mode turns it on, a gain decides. -/
def agc (r : Request) : Option Bool :=
  match r.command with
  | .audio a => if a.mode = .fm then none else some true
  | .gain _ gainDb _ => some gainDb.isNone
  | _ => none

/-- The squelch: only a synchronous mode sets it. -/
def squelch (r : Request) : Option (Bool × Bool × F32 × F32) :=
  match r.command with
  | .audio a => if a.mode.isSynchronous then some heldOpen else none
  | _ => none

end Request

/-- In what the mode does not set, the histories leave the same: the squelch, unless the mode is a
synchronous one, and for FM also the detectors and the gain control. -/
def KeptAlike (template : Channel) (h₁ h₂ : List Request) (m : Mode) : Prop :=
  (m.isSynchronous = false → Overwrite.last Request.squelch h₁ template.squelch =
    Overwrite.last Request.squelch h₂ template.squelch) ∧
  (m = .fm → Overwrite.last Request.detector h₁ template.detector =
      Overwrite.last Request.detector h₂ template.detector ∧
    Overwrite.last Request.agc h₁ template.agcEnable =
      Overwrite.last Request.agc h₂ template.agcEnable)

/-- What a request does to what a later mode may keep. -/
theorem kept_receive (ch : Channel) (r : Request) :
    (ch.receive r.sent.bytes).detector = r.detector.getD ch.detector ∧
      (ch.receive r.sent.bytes).agcEnable = r.agc.getD ch.agcEnable ∧
      (ch.receive r.sent.bytes).squelch = r.squelch.getD ch.squelch := by
  obtain ⟨command, forAudio, policy, tag, bytes, built⟩ := r
  obtain ⟨-, rfl⟩ := encode_eq_ok.mp built
  cases command with
  | audio a =>
    simp only [receive_audio, set_detection, Request.detector, Request.agc, Request.squelch]
    cases a.mode <;> exact ⟨rfl, rfl, rfl⟩
  | poll ssrc lifetimeFrames =>
    simp only [receive_poll]
    exact ⟨rfl, rfl, rfl⟩
  | filter ssrc lowHz highHz lifetimeFrames =>
    simp only [receive_filter]
    exact ⟨rfl, rfl, rfl⟩
  | gain ssrc gainDb lifetimeFrames =>
    simp only [receive_gain]
    exact ⟨rfl, rfl, rfl⟩
  | spectrum s => cases forAudio
  | remove ssrc => cases forAudio

section After

variable (template : Channel) (h : List Request)

theorem detector_after :
    (after template h).detector = Overwrite.last Request.detector h template.detector :=
  Overwrite.foldl_eq_last (fun ch r => (kept_receive ch r).1) h template

theorem agc_after :
    (after template h).agcEnable = Overwrite.last Request.agc h template.agcEnable :=
  Overwrite.foldl_eq_last (fun ch r => (kept_receive ch r).2.1) h template

theorem squelch_after :
    (after template h).squelch = Overwrite.last Request.squelch h template.squelch :=
  Overwrite.foldl_eq_last (fun ch r => (kept_receive ch r).2.2) h template

end After

/-- Two channels agree after a mode exactly when they agreed in what it does not set. -/
theorem receive_audio_inj {ch₁ ch₂ : Channel} {a : AudioChannel} {tag₁ tag₂ : UInt32} :
    ch₁.receive ((Command.audio a).datagram tag₁) = ch₂.receive ((Command.audio a).datagram tag₂) ↔
      (a.mode.isSynchronous = false → ch₁.squelch = ch₂.squelch) ∧
      (a.mode = .fm → ch₁.detector = ch₂.detector ∧ ch₁.agcEnable = ch₂.agcEnable) := by
  rw [receive_audio, receive_audio, set_detection, set_detection, Channel.ext_iff]
  cases a.mode <;>
    simp [Mode.isSynchronous, Channel.squelch, Channel.detector, and_assoc, and_left_comm]

/-- What a datagram has to say: it parses back to the fields of its command, every channel that is
named is a single one, and every lifetime is bounded. -/
structure Carries {c : Command} (s : Sent c) (es : List Entry) : Prop where
  parsed : parse s.bytes = .ok (.command, es)
  fields : List.Forall₂ Entry.Holds es (c.fields s.tag)
  channel : ∀ e ∈ es, e.ty = Ty.OUTPUT_SSRC →
    ∃ n, e.uint = .ok n ∧ n ≠ 0 ∧ n ≠ 0xFFFFFFFF
  lifetime : ∀ e ∈ es, e.ty = Ty.LIFETIME → ∃ n, e.uint = .ok n ∧ 1 ≤ n ∧
    (n ≤ s.policy.maxLifetimeFrames.toUInt64 ∨ ∃ ssrc, c = .remove ssrc)

theorem UInt32.toUInt64_ne {m n : UInt32} (h : m ≠ n) : m.toUInt64 ≠ n.toUInt64 := fun heq =>
  h (by rw [← UInt32.toUInt32_toUInt64 m, heq, UInt32.toUInt32_toUInt64])

theorem UInt32.toUInt64_le {m n : UInt32} (h : m ≤ n) : m.toUInt64 ≤ n.toUInt64 := by
  rw [UInt64.le_iff_toNat_le, UInt32.toNat_toUInt64, UInt32.toNat_toUInt64]
  exact UInt32.le_iff_toNat_le.mp h

/-- Every datagram says what it has to. -/
theorem carries {c : Command} (s : Sent c) : ∃ es, Carries s es := by
  obtain ⟨policy, tag, bytes, built⟩ := s
  obtain ⟨hvalid, rfl⟩ := encode_eq_ok.mp built
  obtain ⟨hone, hmax⟩ := lifetime_of_validate hvalid
  -- a type of the header is named by the header alone
  have hheader {e : Entry} {t : UInt8} (he : e ∈ (c.fields tag).map Field.entry) (ht : e.ty = t)
      (hne : ∀ f ∈ c.settings, f.ty ≠ t) :
      ∃ f ∈ c.header tag, f.ty = t ∧ e.uint = .ok f.number := by
    obtain ⟨f, hf, rfl⟩ := List.mem_map.mp he
    rcases List.mem_append.mp hf with hmem | hmem
    · exact ⟨f, hmem, ht, f.uint_entry⟩
    · exact absurd ht (hne f hmem)
  refine ⟨(c.fields tag).map Field.entry, parse_command c tag, ?_, ?_, ?_⟩
  · rw [List.forall₂_map_left_iff, List.forall₂_same]
    intro f hf
    exact f.holds_entry
  · intro e he ht
    obtain ⟨f, hmem, hty, hread⟩ := hheader he ht fun f hf => (ty_of_mem_settings hf).2.1
    simp only [Command.header, List.mem_cons, List.not_mem_nil, or_false] at hmem
    rcases hmem with rfl | rfl | rfl
    · exact ⟨_, hread, UInt32.toUInt64_ne c.ssrc.valid.1, UInt32.toUInt64_ne c.ssrc.valid.2⟩
    · cases hty
    · cases hty
  · intro e he ht
    obtain ⟨f, hmem, hty, hread⟩ := hheader he ht fun f hf => (ty_of_mem_settings hf).2.2
    simp only [Command.header, List.mem_cons, List.not_mem_nil, or_false] at hmem
    rcases hmem with rfl | rfl | rfl
    · cases hty
    · cases hty
    · exact ⟨_, hread, UInt32.toUInt64_le hone, hmax.imp_left UInt32.toUInt64_le⟩

/-- Two channels of one template agree after the same mode exactly when their histories left the
same in what the mode does not set, and every datagram says what it has to. -/
theorem same_settings_iff (template : Channel) (h₁ h₂ : List Request) (a : AudioChannel)
    (s₁ s₂ : Sent (.audio a)) :
    ((after template h₁).receive s₁.bytes = (after template h₂).receive s₂.bytes ↔
      KeptAlike template h₁ h₂ a.mode) ∧
    ∀ (c : Command) (s : Sent c), ∃ es, Carries s es := by
  refine ⟨?_, fun c s => carries s⟩
  obtain ⟨-, hbytes₁⟩ := encode_eq_ok.mp s₁.built
  obtain ⟨-, hbytes₂⟩ := encode_eq_ok.mp s₂.built
  rw [← hbytes₁, ← hbytes₂, receive_audio_inj, squelch_after, squelch_after, detector_after,
    detector_after, agc_after, agc_after]
  rfl

/-- A fixed gain that FM leaves in place: the gain control that a channel starts with is off after
it, and on without it. -/
theorem gain_outlives_fm : ∃ (template : Channel) (h₁ h₂ : List Request) (a : AudioChannel)
    (s₁ s₂ : Sent (.audio a)), template.agcEnable = true ∧ a.mode = .fm ∧
    ((after template h₁).receive s₁.bytes).agcEnable ≠
      ((after template h₂).receive s₂.bytes).agcEnable := by
  let ssrc : Ssrc := ⟨100, by decide⟩
  let template : Channel := ⟨0, 12000, 1, -5000, 5000, false, false, false, false, 0, 0, true⟩
  let fixed : Command := .gain ssrc (some 60) 500
  let fm : AudioChannel := ⟨ssrc, .fm, 29600000, .pcm16Be, 500⟩
  have hgain : fixed.validate Policy.default = .ok () := by decide
  have hfm : (Command.audio fm).validate Policy.default = .ok () := by decide
  let r : Request := ⟨fixed, rfl, Policy.default, 1, _, encode_eq_ok.mpr ⟨hgain, rfl⟩⟩
  let s : Sent (.audio fm) := ⟨Policy.default, 2, _, encode_eq_ok.mpr ⟨hfm, rfl⟩⟩
  refine ⟨template, [r], [], fm, s, s, rfl, rfl, ?_⟩
  change ((template.receive (fixed.datagram 1)).receive ((Command.audio fm).datagram 2)).agcEnable ≠
    (template.receive ((Command.audio fm).datagram 2)).agcEnable
  rw [receive_gain, receive_audio, receive_audio, set_detection, set_detection]
  decide

end HamsOpen.Radiod
