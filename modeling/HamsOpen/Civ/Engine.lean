import HamsOpen.Civ.Description
import Mathlib

/-!
# The CI-V engine

The engine turns each operation into a request frame, and each frame of the rig into what the rig
reports. It remembers little: the last mode, the filter number, the sweeps of the scope, and whether
a PTT set is the last thing that went by.
-/

namespace HamsOpen.Civ

open Rig (Hz Mode Vfo Level Meter Op Observation Field Request ReplyKind Inbound RigError)

/-- Reply meaning OK. -/
def OK : Byte := 0xFB
/-- Reply meaning NG. -/
def NG : Byte := 0xFA
/-- Most characters one CW text command carries. -/
def MAX_CW_CHARS : ℕ := 30
/-- Largest level value a rig takes. -/
def MAX_LEVEL : ℕ := 255
/-- Largest raw meter deflection. -/
def MAX_METER : ℕ := 255
/-- The filter number sent before any reply has reported one. -/
def DEFAULT_FILTER_NUMBER : Byte := 1
/-- The command number of the scope family. -/
def SCOPE_CMD : Byte := 0x27

/-! ### The engine -/

/-- The client engine for one rig. -/
structure CivEngine where
  desc : Description
  parser : FrameParser
  /-- The last mode the rig reported; the filter index tables depend on it. -/
  mode : Option Mode
  /-- The filter number the rig last reported with its mode. -/
  filterNumber : Byte
  scope : Option ScopeAssembler
  /-- True between a PTT set and the next reply: some radios answer it with `1C 00 <state>` instead
  of `FB`. -/
  awaitingPttAck : Bool

namespace CivEngine

def new (desc : Description) : CivEngine where
  desc := desc
  parser := ⟨[], 0⟩
  mode := none
  filterNumber := DEFAULT_FILTER_NUMBER
  scope := desc.scope.map fun scope => .new scope.toScopeParams
  awaitingPttAck := false

variable (e : CivEngine)

def command (cmd : Byte) (data : List Byte) (reply : ReplyKind) : Request :=
  ⟨Frame.toBytes ⟨e.desc.civ.address, e.desc.civ.controller, cmd, data⟩, reply⟩

def get (cmd : Byte) (data : List Byte) (field : Field) : Request :=
  e.command cmd data (.observation field)

def set (cmd : Byte) (data : List Byte) : Request := e.command cmd data .ack

/-! ### Requests -/

/-- Whether the filter widths are those of AM. -/
def filterTableIsAm : Except RigError Bool :=
  match e.mode with
  | some .am | some .sam | some .samL | some .samU => .ok true
  | some .fm | some .wfm => .error (unsupported "no filter width in FM")
  | some _ => .ok false
  | none =>
    .error (unsupported "read the mode before the filter width: the index tables differ")

/-- The frequency as the field of this model. -/
def freqBytes (hz : Hz) : Except RigError (List Byte) :=
  match encodeBcdFreqLen hz (e.desc.civ.fieldLen hz) with
  | some bcd => .ok bcd
  | none => .error (unsupported "frequency has more digits than the model's field")

/-- The commands of its own that the IC-F8101 has for the frequency and the mode. -/
def encodeF8101 : Op → Option (Except RigError Request × CivEngine)
  | .setFrequency .a hz => some ((e.freqBytes hz).map fun bcd => e.set 0x1A (0x35 :: bcd), e)
  | .getMode => some (.ok (e.get 0x1A [0x34] .mode), e)
  | .setMode mode => some <| match e.desc.modeCode mode with
    | some code => (.ok (e.set 0x1A [0x36, 0x00, code]), { e with mode := some mode })
    | none => (.error (unsupported "mode not in the description"), e)
  | _ => none

def encodeVfoBOrSplit : Op → Option (Except RigError Request)
  | .getFrequency .b => some (.ok (e.get 0x25 [0x01] (.frequency .b)))
  | .setFrequency .b hz => some ((e.freqBytes hz).map fun bcd => e.set 0x25 (0x01 :: bcd))
  | .getSplit => some (.ok (e.get 0x0F [] .split))
  | .setSplit on => some (.ok (e.set 0x0F [if on then 1 else 0]))
  | _ => none

def encodeRitXit : Op → Option (Except RigError Request)
  | .getRit => some (.ok (e.get 0x21 [0x01] .rit))
  | .setRit on => some (.ok (e.set 0x21 [0x01, if on then 1 else 0]))
  | .getXit => some (.ok (e.get 0x21 [0x02] .xit))
  | .setXit on => some (.ok (e.set 0x21 [0x02, if on then 1 else 0]))
  | .getRitOffset => some (.ok (e.get 0x21 [0x00] .ritOffset))
  | .setRitOffset hz => some <| match encodeRitOffset hz with
    | some bytes => .ok (e.set 0x21 (0x00 :: bytes))
    | none => .error (unsupported "RIT offset beyond 9999 Hz")
  | _ => none

/-- Sets the attenuator (decibels) or the preamplifier (a step). -/
def encodeFrontEnd (level : Level) (value : ℕ) : Except RigError Request := do
  let step ← e.desc.stepOf level value
  if level = .attenuator then
    if 99 < value then .error (unsupported "attenuation does not fit one BCD byte")
    else .ok (e.set 0x11 [bcdPair value])
  else .ok (e.set 0x16 [0x02, step])

/-- Reads a level other than those of the front end. -/
def encodeGetLevel (level : Level) : Except RigError Request :=
  if e.desc.levels.lacks level then .error (unsupported "the model has no such level")
  else match levelSub level with
    | some sub => .ok (e.get 0x14 [sub] (.level level))
    | none => .error (unsupported "level not implemented for CI-V")

/-- Sets a level other than those of the front end. -/
def encodeSetLevel (level : Level) (value : ℕ) : Except RigError Request :=
  if e.desc.levels.lacks level then .error (unsupported "the model has no such level")
  else if level = .keyerSpeed then
    match keyerWpmToRaw value with
    | some raw => .ok (e.set 0x14 (KEYER_SUB :: encodeBcdMeter raw))
    | none => .error (unsupported "keyer speed outside 6 to 48 wpm")
  else match levelSub level with
    | some sub =>
      if value ≤ MAX_LEVEL then .ok (e.set 0x14 (sub :: encodeBcdMeter value))
      else .error (unsupported "level above 255")
    | none => .error (unsupported "level not implemented for CI-V")

def encodeLevelsAndFilter : Op → Option (Except RigError Request)
  | .getLevel .attenuator =>
    some ((e.desc.stepOf .attenuator 0).map fun _ => e.get 0x11 [] (.level .attenuator))
  | .getLevel .preamp =>
    some ((e.desc.stepOf .preamp 0).map fun _ => e.get 0x16 [0x02] (.level .preamp))
  | .setLevel .attenuator value => some (e.encodeFrontEnd .attenuator value)
  | .setLevel .preamp value => some (e.encodeFrontEnd .preamp value)
  | .getLevel level => some (e.encodeGetLevel level)
  | .setLevel level value => some (e.encodeSetLevel level value)
  | .getFilterWidth => some (e.filterTableIsAm.map fun _ => e.get 0x1A [0x03] .filterWidth)
  | .setFilterWidth hz => some do
    let am ← e.filterTableIsAm
    match filterHzToIndex am hz with
    | some index => .ok (e.set 0x1A [0x03, bcdPair index])
    | none => .error (unsupported "no filter of exactly that width")
  | .getModelId => some (.ok (e.get 0x19 [0x00] .modelId))
  | _ => none

def scopeRequestFor (command : ScopeCommand) (reply : ReplyKind) : Except RigError Request :=
  if e.desc.scope.isNone then .error (unsupported "this model has no scope description")
  else match commandData command with
    | none => .error (unsupported "scope value out of range")
    | some [] => .error (unsupported "empty scope command")
    | some (sub :: rest) => .ok (e.command SCOPE_CMD (sub :: rest) reply)

/-- The scope operations. A span that the model does not offer is refused here. -/
def encodeScope : Op → Option (Except RigError Request)
  | .setScopeOutput on => some (e.scopeRequestFor (.setOutput on) .ack)
  | .getScopeOutput => some (e.scopeRequestFor .getOutput (.observation .scopeOutput))
  | .setScopeAxis rx axis => some (e.scopeRequestFor (.setMode rx (.ofAxis axis)) .ack)
  | .getScopeAxis rx => some (e.scopeRequestFor (.getMode rx) (.observation (.scopeAxis rx)))
  | .setScopeSpan rx span =>
    let offered := match e.desc.scope with
      | none => true
      | some scope => scope.spansHz.isEmpty || scope.spansHz.contains span
    some (if offered then e.scopeRequestFor (.setSpan rx span) .ack
      else .error (unsupported "span not offered by this scope"))
  | .getScopeSpan rx => some (e.scopeRequestFor (.getSpan rx) (.observation (.scopeSpan rx)))
  | .setScopeEdges range edge low high =>
    some (e.scopeRequestFor (.setEdges range edge low high) .ack)
  | .setScopeReference rx centiDb => some (e.scopeRequestFor (.setReference rx centiDb) .ack)
  | .getScopeReference rx =>
    some (e.scopeRequestFor (.getReference rx) (.observation (.scopeReference rx)))
  | _ => none

/-- The commands that most models share. -/
def encodeBasic : Op → Except RigError Request × CivEngine
  | .getFrequency _ => (.ok (e.get 0x03 [] (.frequency .a)), e)
  | .setFrequency _ hz => ((e.freqBytes hz).map fun bcd => e.set 0x05 bcd, e)
  | .getMode =>
    if e.desc.hasDataModes then (.ok (e.get 0x26 [0x00] .mode), e)
    else (.ok (e.get 0x04 [] .mode), e)
  | .setMode mode => match e.desc.modeCode mode with
    | none => (.error (unsupported "mode not in the description"), e)
    | some code =>
      -- The mode being set is the mode from now on; a refused set is corrected by the next read.
      let e := { e with mode := some mode }
      if e.desc.hasDataModes then
        let data : Byte := if (baseMode mode).2 then 1 else 0
        (.ok (e.set 0x26 [0x00, code, data, e.filterNumber]), e)
      else (.ok (e.set 0x06 [code]), e)
  | .getMeter meter => (.ok (e.get 0x15 [meterSub meter] (.meter meter)), e)
  | .getPtt => (.ok (e.get 0x1C [0x00] .ptt), e)
  | .setPtt on => (.ok (e.set 0x1C [0x00, if on then 1 else 0]), e)
  | .getSignal => (.ok (e.get 0x15 [0x02] .signal), e)
  | .getPower => (.ok (e.get 0x15 [0x11] .power), e)
  | .sendCw text =>
    let bytes := text.toUTF8.toList
    if bytes ≠ [] ∧ bytes.length ≤ MAX_CW_CHARS ∧ ∀ b ∈ bytes, 0x20 ≤ b ∧ b < 0x7F then
      (.ok (e.set 0x17 bytes), e)
    else (.error (unsupported "CW text must be 1 to 30 printable ASCII"), e)
  | .stopCw => (.ok (e.set 0x17 [0xFF]), e)
  | .setTransceive _ => (.error (unsupported "CI-V transceive is set in the rig's menu"), e)
  | _ => (.error (unsupported "not implemented for the CI-V engine"), e)

/-- True for a PTT set. -/
def isSetPtt : Op → Bool
  | .setPtt _ => true
  | _ => false

/-- The request for an operation. -/
def encode (op : Op) : Except RigError Request × CivEngine :=
  if !e.desc.capabilities.has op.requiredCapability then
    (.error (unsupported "capability not in the rig description"), e)
  else
    let e := { e with awaitingPttAck := isSetPtt op }
    match (e.encodeVfoBOrSplit op).or ((e.encodeRitXit op).or
        ((e.encodeLevelsAndFilter op).or (e.encodeScope op))) with
    | some done => (done, e)
    | none =>
      match if e.desc.civ.commandSet = .f8101 then e.encodeF8101 op else none with
      | some done => done
      | none => e.encodeBasic op

/-! ### Replies -/

/-- The mode of a reply. The filter number is kept for the next mode set. -/
def decodeMode (code : Byte) (data : Bool) (filter : Option Byte) :
    Option Observation × CivEngine :=
  match (e.desc.codeMode code).bind fun base => modeWithData (baseMode base).1 data with
  | none => (none, e)
  | some mode => (some (.mode mode),
    { e with filterNumber := (filter.filter fun f => 1 ≤ f ∧ f ≤ 3).getD e.filterNumber })

/-- The filter width for an index byte, by the mode last reported. -/
def decodeFilter (index : Byte) : Option Observation := do
  let index ← fromBcdByte index
  let am ← e.filterTableIsAm.toOption
  let hz ← filterIndexToHz am index
  return .filterWidth hz

/-- What the frame of a command reports. -/
def decodeValue (cmd : Byte) (data : List Byte) : Option Observation × CivEngine :=
  match cmd.toNat, data with
  | 0x00, bcd | 0x03, bcd => ((decodeBcdFreq bcd).map (.frequency .a), e)
  | 0x25, selector :: bcd => ((decodeBcdFreq bcd).bind fun hz => match selector.toNat with
    | 0x00 => some (.frequency .a hz)
    | 0x01 => some (.frequency .b hz)
    | _ => none, e)
  | 0x01, code :: rest | 0x04, code :: rest => e.decodeMode code false rest.head?
  | 0x26, sub :: code :: rest =>
    if sub = 0x00 then e.decodeMode code (rest.head?.any (· != 0)) rest[1]? else (none, e)
  | 0x0F, [state] => (some (.split (state != 0)), e)
  | 0x21, sub :: rest => (match sub.toNat, rest with
    | 0x00, rest => (decodeRitOffset rest).map .ritOffset
    | 0x01, [state] => some (.rit (state != 0))
    | 0x02, [state] => some (.xit (state != 0))
    | _, _ => none, e)
  | 0x14, sub :: rest => (do
    let level ← subLevel sub
    let value ← (decodeBcdMeter rest).filter (· ≤ MAX_LEVEL)
    let value ← if level = .keyerSpeed then keyerRawToWpm value else some value
    return .level level value, e)
  | 0x11, [byte] => (do
    let db ← fromBcdByte byte
    let _ ← (e.desc.stepOf .attenuator db).toOption
    return .level .attenuator db, e)
  | 0x16, [sub, step] =>
    (if sub = 0x02 then (e.desc.preampValueOf step).map (.level .preamp) else none, e)
  | 0x1A, [sub, index] => (if sub = 0x03 then e.decodeFilter index else none, e)
  | 0x1A, [sub, zero, code] =>
    if sub = 0x34 ∧ zero = 0x00 then e.decodeMode code false none else (none, e)
  | 0x19, [sub, id] => (if sub = 0x00 then some (.modelId id.toNat) else none, e)
  | 0x1C, [sub, state] => (if sub = 0x00 then some (.ptt (state != 0)) else none, e)
  | 0x15, sub :: rest => (if sub = 0x02 then (decodeBcdMeter rest).map .signal
    else if sub = 0x11 then (decodeBcdMeter rest).map .power
    else do
      let meter ← subMeter sub
      let value ← (decodeBcdMeter rest).filter (· ≤ MAX_METER)
      return .meter meter value, e)
  | _, _ => (none, e)

/-- The value of a scope setting's answer. -/
def scopeValue (sub : Byte) (rest : List Byte) : Option Observation :=
  if sub = SUB_OUTPUT then
    match rest with
    | [on] => some (.scopeOutput (on != 0))
    | _ => none
  else match rest with
    | rx :: bcd =>
      if sub = SUB_MODE then
        match bcd with
        | [code] => (ScopeMode.fromCode code).map fun mode => .scopeAxis rx.toNat mode.toAxis
        | _ => none
      else if sub = SUB_SPAN then
        if bcd.length = 5 then (decodeBcdFreq bcd).map fun half => .scopeSpan rx.toNat (half * 2)
        else none
      else if sub = SUB_REFERENCE then (decodeReference bcd).map (.scopeReference rx.toNat)
      else none
    | [] => none

/-- A scope frame: a waveform goes to the assembler, and comes out when it completes a sweep. -/
def decodeScope (data : List Byte) : Option Inbound × CivEngine :=
  match data with
  | [] => (none, e)
  | sub :: rest =>
    if sub = SUB_WAVEFORM then
      match e.scope with
      | none => (none, e)
      | some assembler =>
        let (line, assembler) := assembler.feed rest
        (line.map fun _ => .scopeFrame, { e with scope := some assembler })
    else ((scopeValue sub rest).map .observation, e)

/-- Decodes one frame; nothing for our own echoed frames and frames for other stations. -/
def decode (f : Frame) : Option Inbound × CivEngine :=
  if f.fromAddr = e.desc.civ.controller then (none, e)
  else if ¬ (f.toAddr = e.desc.civ.controller ∨ f.toAddr = BROADCAST) ∨
      f.fromAddr ≠ e.desc.civ.address then (none, e)
  else if f.cmd = SCOPE_CMD then e.decodeScope f.data
  else
    let pttEcho := f.pttState.isSome
    let awaiting := e.awaitingPttAck
    let e := { e with awaitingPttAck := false }
    if awaiting && pttEcho then (some .ack, e)
    else if f.cmd = OK ∧ f.data = [] then (some .ack, e)
    else if f.cmd = NG ∧ f.data = [] then (some .nak, e)
    else match e.decodeValue f.cmd f.data with
      | (some value, e) => (some (.observation value), e)
      | (none, e) => (some (.unrecognised f.toBytes), e)

/-- Decodes one frame and keeps the mode it reports. -/
def receive (f : Frame) : Option Inbound × CivEngine :=
  let (event, e) := e.decode f
  match event with
  | some (.observation (.mode mode)) => (event, { e with mode := some mode })
  | _ => (event, e)

/-- What the parser found, one after the other. -/
def receiveAll (e : CivEngine) : List Parsed → List Inbound × CivEngine
  | [] => ([], e)
  | .junk junk :: items =>
    let (out, e) := e.receiveAll items
    (.unrecognised junk :: out, e)
  | .frame f :: items =>
    let (event, e) := e.receive f
    let (out, e) := e.receiveAll items
    (event.toList ++ out, e)

/-- Bytes received at `now`. -/
def feed (bytes : List Byte) (now : Duration) : List Inbound × CivEngine :=
  let (items, parser) := e.parser.feed bytes now
  { e with parser := parser }.receiveAll items

/-! ### What an operation changes -/

variable {e : CivEngine} {op : Op} {f : Frame}

/-- The commands of a model's own change nothing but the mode. -/
theorem encodeF8101_mode {done : Except RigError Request × CivEngine}
    (h : e.encodeF8101 op = some done) : ∃ mode, done.2 = { e with mode := mode } := by
  unfold encodeF8101 at h
  split at h
  · obtain rfl := Option.some.inj h
    exact ⟨e.mode, rfl⟩
  · obtain rfl := Option.some.inj h
    exact ⟨e.mode, rfl⟩
  · obtain rfl := Option.some.inj h
    split
    · exact ⟨_, rfl⟩
    · exact ⟨e.mode, rfl⟩
  · cases h

theorem encodeBasic_mode : ∃ mode, (e.encodeBasic op).2 = { e with mode := mode } := by
  cases op with
  | setMode mode =>
    simp only [encodeBasic]
    split
    · exact ⟨e.mode, rfl⟩
    · split <;> exact ⟨_, rfl⟩
  | getMode =>
    simp only [encodeBasic]
    split <;> exact ⟨e.mode, rfl⟩
  | sendCw text =>
    simp only [encodeBasic]
    split <;> exact ⟨e.mode, rfl⟩
  | _ => exact ⟨e.mode, rfl⟩

theorem encode_refused (h : e.desc.capabilities.has op.requiredCapability = false) :
    (e.encode op).2 = e := by
  unfold encode
  rw [h]
  exact rfl

/-- An operation that the rig is capable of changes the mode at most, and the flag of a PTT set. -/
theorem encode_allowed (h : e.desc.capabilities.has op.requiredCapability = true) :
    ∃ mode, (e.encode op).2 = { e with mode := mode, awaitingPttAck := isSetPtt op } := by
  unfold encode
  rw [h]
  simp only [Bool.not_true, Bool.false_eq_true, if_false]
  split
  · exact ⟨e.mode, rfl⟩
  split
  next done hdone =>
    obtain ⟨-, hown⟩ := Option.ite_none_right_eq_some.mp hdone
    exact encodeF8101_mode hown
  · exact encodeBasic_mode

theorem encode_desc : (e.encode op).2.desc = e.desc := by
  cases h : e.desc.capabilities.has op.requiredCapability with
  | false => rw [encode_refused h]
  | true =>
    obtain ⟨mode, hmode⟩ := encode_allowed h
    rw [hmode]

/-- After an operation that the rig is capable of, the flag says whether it was a PTT set. -/
theorem encode_awaiting : (e.encode op).2.awaitingPttAck =
    if e.desc.capabilities.has op.requiredCapability then isSetPtt op else e.awaitingPttAck := by
  cases h : e.desc.capabilities.has op.requiredCapability with
  | false =>
    rw [encode_refused h]
    exact rfl
  | true =>
    obtain ⟨mode, hmode⟩ := encode_allowed h
    rw [hmode]
    exact rfl

/-! ### What a frame changes -/

theorem decodeMode_number {code : Byte} {data : Bool} {filter : Option Byte} :
    ∃ number, (e.decodeMode code data filter).2 = { e with filterNumber := number } := by
  unfold decodeMode
  split
  · exact ⟨e.filterNumber, rfl⟩
  · exact ⟨_, rfl⟩

/-- What a frame reports changes nothing but the filter number. -/
theorem decodeValue_number (e : CivEngine) (cmd : Byte) (data : List Byte) :
    ∃ number, (e.decodeValue cmd data).2 = { e with filterNumber := number } := by
  have hsame : ∃ number, e = { e with filterNumber := number } := ⟨e.filterNumber, rfl⟩
  unfold decodeValue
  split
  case h_4 | h_5 => exact decodeMode_number
  case h_6 =>
    split
    · exact decodeMode_number
    · exact hsame
  case h_13 =>
    split
    · exact decodeMode_number
    · exact hsame
  all_goals exact hsame

theorem decodeScope_scope (data : List Byte) :
    ∃ scope, (e.decodeScope data).2 = { e with scope := scope } := by
  have hsame : ∃ scope, e = { e with scope := scope } := ⟨e.scope, rfl⟩
  unfold decodeScope
  split
  · exact hsame
  split
  · split
    · exact hsame
    · exact ⟨_, rfl⟩
  · exact hsame

/-- What is not for us, or not of the rig, is ignored. -/
theorem decode_unheard (h : e.desc.civ.hears f = false) : e.decode f = (none, e) := by
  unfold decode
  split
  · exact rfl
  split
  · exact rfl
  next hfrom hto =>
    simp_all [CivParams.hears]

/-- What is heard is a scope frame or a reply. -/
theorem decode_heard (h : e.desc.civ.hears f = true) : e.decode f =
    if f.cmd = SCOPE_CMD then e.decodeScope f.data
    else
      let quiet := { e with awaitingPttAck := false }
      if e.awaitingPttAck && f.pttState.isSome then (some .ack, quiet)
      else if f.cmd = OK ∧ f.data = [] then (some .ack, quiet)
      else if f.cmd = NG ∧ f.data = [] then (some .nak, quiet)
      else match quiet.decodeValue f.cmd f.data with
        | (some value, e) => (some (.observation value), e)
        | (none, e) => (some (.unrecognised f.toBytes), e) := by
  simp only [CivParams.hears, Bool.and_eq_true, bne_iff_ne, Bool.or_eq_true, beq_iff_eq] at h
  obtain ⟨⟨hcontroller, hto⟩, haddress⟩ := h
  unfold decode
  rw [if_neg hcontroller, if_neg (by simp [hto, haddress])]

/-- A scope frame leaves the flag alone. -/
theorem decode_scopeFrame (h : e.desc.civ.hears f = true) (hscope : f.cmd = SCOPE_CMD) :
    ∃ scope, (e.decode f).2 = { e with scope := scope } := by
  rw [decode_heard h, if_pos hscope]
  exact decodeScope_scope f.data

/-- Any other frame takes the flag down. -/
theorem decode_reply (h : e.desc.civ.hears f = true) (hreply : f.cmd ≠ SCOPE_CMD) :
    ∃ number, (e.decode f).2 = { e with filterNumber := number, awaitingPttAck := false } := by
  rw [decode_heard h, if_neg hreply]
  dsimp only
  split
  · exact ⟨e.filterNumber, rfl⟩
  split
  · exact ⟨e.filterNumber, rfl⟩
  split
  · exact ⟨e.filterNumber, rfl⟩
  obtain ⟨number, hnumber⟩ := decodeValue_number { e with awaitingPttAck := false } f.cmd f.data
  refine ⟨number, ?_⟩
  split
  next value e' heq => exact (congrArg Prod.snd heq).symm.trans hnumber
  next e' heq => exact (congrArg Prod.snd heq).symm.trans hnumber

/-- A frame that is heard acknowledges when the flag is up, and reports the PTT when it is not. -/
theorem decode_ptt {state : Byte} (h : e.desc.civ.hears f = true)
    (hstate : f.pttState = some state) : (e.decode f).1 =
      if e.awaitingPttAck then some .ack else some (.observation (.ptt (state != 0))) := by
  obtain ⟨hcmd, hdata⟩ := Frame.pttState_eq_some hstate
  rw [decode_heard h, hstate, hcmd, hdata]
  cases e.awaitingPttAck <;> exact rfl

theorem decode_desc : (e.decode f).2.desc = e.desc := by
  cases h : e.desc.civ.hears f with
  | false => rw [decode_unheard h]
  | true =>
    by_cases hscope : f.cmd = SCOPE_CMD
    · obtain ⟨scope, heq⟩ := decode_scopeFrame h hscope
      rw [heq]
    · obtain ⟨number, heq⟩ := decode_reply h hscope
      rw [heq]

/-- A frame of the rig takes the flag down, unless it is a scope frame. -/
theorem decode_awaiting : (e.decode f).2.awaitingPttAck =
    (e.awaitingPttAck && !(e.desc.civ.hears f && f.cmd != SCOPE_CMD)) := by
  cases h : e.desc.civ.hears f with
  | false =>
    rw [decode_unheard h]
    simp
  | true =>
    by_cases hscope : f.cmd = SCOPE_CMD
    · obtain ⟨scope, heq⟩ := decode_scopeFrame h hscope
      rw [heq]
      simp [hscope]
    · obtain ⟨number, heq⟩ := decode_reply h hscope
      rw [heq]
      simp [hscope]

/-! ### What the engine keeps of a frame -/

theorem receive_fst : (e.receive f).1 = (e.decode f).1 := by
  unfold receive
  dsimp only
  split <;> exact rfl

theorem receive_mode : ∃ mode, (e.receive f).2 = { (e.decode f).2 with mode := mode } := by
  unfold receive
  dsimp only
  split
  · exact ⟨_, rfl⟩
  · exact ⟨_, rfl⟩

/-- What the rig is understood to say: all but what is handed on as bytes. -/
def recognised : Inbound → Bool
  | .unrecognised _ => false
  | _ => true

/-- Between the frames there is only junk: the engine is the same without it, and so is all it
understands. -/
theorem receiveAll_frames (items : List Parsed) :
    (e.receiveAll items).1.filter recognised =
      (e.receiveAll ((frames items).map .frame)).1.filter recognised ∧
    (e.receiveAll items).2 = (e.receiveAll ((frames items).map .frame)).2 := by
  induction items generalizing e with
  | nil => exact ⟨rfl, rfl⟩
  | cons item items ih =>
    obtain ⟨hout, hafter⟩ := ih (e := match item with
      | .junk _ => e
      | .frame f => (e.receive f).2)
    cases item with
    | junk junk =>
      rw [frames_junk]
      simp only [receiveAll, List.filter_cons, recognised]
      exact ⟨hout, hafter⟩
    | frame f =>
      rw [frames_frame, List.map_cons]
      simp only [receiveAll, List.filter_append]
      exact ⟨congrArg _ hout, hafter⟩

/-- Bytes received are the frames that the parser finds in them, received one after the other. -/
theorem feed_frames (bytes : List Byte) (now : Duration) :
    let (found, parser) := e.parser.feed bytes now
    let start := { e with parser := parser }
    (e.feed bytes now).1.filter recognised =
      (start.receiveAll ((frames found).map .frame)).1.filter recognised ∧
    (e.feed bytes now).2 = (start.receiveAll ((frames found).map .frame)).2 :=
  receiveAll_frames _

end CivEngine

end HamsOpen.Civ
