import Mathlib.Data.List.Range
import Mathlib.Logic.Function.Basic
import HamsOpen.Civ.Framing
import HamsOpen.Rig.Units

/-!
# CI-V scope sweeps

A rig sends each sweep of its scope in numbered waveform frames, the first of them with a header. An
assembler for each receiver puts the sweeps together, drops what comes out of order, and delivers a
sweep only with the model's number of samples.
-/

namespace HamsOpen.Civ

open Rig (Hz)

/-! ### Waveform frames -/

/-- The number of a byte with two decimal digits. -/
def fromBcdByte (byte : Byte) : Option ℕ :=
  let (high, low) := ((byte >>> 4).toNat, (byte &&& 15).toNat)
  if high ≤ 9 ∧ low ≤ 9 then some (high * 10 + low) else none

/-- Pairs of digits, the least significant first. -/
def fromBcdPairs : List Byte → Option ℕ
  | [] => some 0
  | byte :: bytes => do
    let pair ← fromBcdByte byte
    let rest ← fromBcdPairs bytes
    return pair + 100 * rest

/-- Decodes up to 6 bytes of a frequency. -/
def decodeBcdFreq (bytes : List Byte) : Option Hz :=
  if bytes = [] ∨ 6 < bytes.length then none else fromBcdPairs bytes

/-- How the scope's frequency axis is anchored. -/
inductive ScopeMode where
  | center
  | fixed
  | scrollCenter
  | scrollFixed
  deriving DecidableEq

/-- The mode for a wire code. -/
def ScopeMode.fromCode (code : Byte) : Option ScopeMode :=
  match code.toNat with
  | 0 => some center
  | 1 => some fixed
  | 2 => some scrollCenter
  | 3 => some scrollFixed
  | _ => none

/-- The first frame's description of the sweep. -/
structure ScopeHeader where
  mode : ScopeMode
  /-- Lower edge, or centre frequency in the centred modes. -/
  edgeA : Hz
  /-- Upper edge, or half-span in the centred modes. -/
  edgeB : Hz
  outOfRange : Bool
  deriving DecidableEq

/-- One waveform frame, decoded. -/
structure ScopeSegment where
  /-- 0 (Main) or 1 (Sub). -/
  receiver : Fin 2
  /-- Frame number, from 1. -/
  division : ℕ
  /-- Number of frames in the sweep. -/
  divisions : ℕ
  /-- Present in frame 1 only. -/
  header : Option ScopeHeader
  samples : List Byte
  deriving DecidableEq

/-- Decodes the data of a waveform frame: receiver, frame number, frame count, then the rest. -/
def parseSegment : List Byte → Option ScopeSegment
  | rx :: div :: max :: rest => do
    let division ← fromBcdByte div
    let divisions ← fromBcdByte max
    if h : rx.toNat < 2 ∧ division ≠ 0 ∧ division ≤ divisions then
      let segment : ScopeSegment := ⟨⟨rx.toNat, h.1⟩, division, divisions, none, rest⟩
      if division ≠ 1 then return segment
      match rest with
      | mode :: a₀ :: a₁ :: a₂ :: a₃ :: a₄ :: b₀ :: b₁ :: b₂ :: b₃ :: b₄ :: outOfRange :: samples =>
        let mode ← ScopeMode.fromCode mode
        let edgeA ← decodeBcdFreq [a₀, a₁, a₂, a₃, a₄]
        let edgeB ← decodeBcdFreq [b₀, b₁, b₂, b₃, b₄]
        let header : ScopeHeader := ⟨mode, edgeA, edgeB, outOfRange != 0⟩
        return { segment with header := some header, samples := samples }
      | _ => none
    else none
  | _ => none

/-! ### The assembler -/

/-- One complete sweep. -/
structure ScopeLine where
  receiver : Fin 2
  mode : ScopeMode
  /-- Lowest frequency on the axis. -/
  low : Hz
  /-- Highest frequency on the axis. -/
  high : Hz
  outOfRange : Bool
  samples : List Byte
  deriving DecidableEq

/-- A sweep in progress. -/
structure Sweeping where
  header : ScopeHeader
  nextDivision : ℕ
  samples : List Byte
  deriving DecidableEq

structure ScopeParams where
  /-- Independent scopes: 1, or 2 on a Main/Sub rig. -/
  receivers : ℕ
  /-- Amplitude samples in one complete sweep. -/
  lineLength : ℕ
  deriving DecidableEq

/-- Rebuilds sweeps from waveform frames, one receiver at a time. -/
structure ScopeAssembler where
  params : ScopeParams
  current : Fin 2 → Option Sweeping
  dropped : ℕ

def ScopeAssembler.new (params : ScopeParams) : ScopeAssembler := ⟨params, fun _ => none, 0⟩

/-- Counts a waveform frame that could not be decoded. -/
def ScopeAssembler.noteMalformed (a : ScopeAssembler) : ScopeAssembler :=
  { a with dropped := a.dropped + 1 }

def lineFrom (receiver : Fin 2) (p : Sweeping) : ScopeLine :=
  let header := p.header
  let (low, high) := match header.mode with
    | .center | .scrollCenter => (header.edgeA - header.edgeB, header.edgeA + header.edgeB)
    | .fixed | .scrollFixed => (header.edgeA, header.edgeB)
  ⟨receiver, header.mode, low, high, header.outOfRange, p.samples⟩

/-- What becomes of a sweep that a frame was added to: the line, the sweep that goes on and how much
was dropped. -/
def settleSlot (lineLength : ℕ) (segment : ScopeSegment) (p : Sweeping) :
    Option ScopeLine × Option Sweeping × ℕ :=
  if lineLength < p.samples.length then (none, none, 1)
  else if segment.division < segment.divisions then (none, some p, 0)
  else if p.samples.length ≠ lineLength then (none, none, 1)
  else (some (lineFrom segment.receiver p), none, 0)

/-- A frame for the receiver whose sweep in progress is `current`. -/
def pushSlot (lineLength : ℕ) (current : Option Sweeping) (segment : ScopeSegment) :
    Option ScopeLine × Option Sweeping × ℕ :=
  if segment.division = 1 then
    match segment.header with
    | none => (none, current, 0)
    | some header => settleSlot lineLength segment ⟨header, 2, segment.samples⟩
  else
    match current with
    | none => (none, none, 1)
    | some p =>
      if p.nextDivision = segment.division then
        settleSlot lineLength segment
          { p with nextDivision := p.nextDivision + 1, samples := p.samples ++ segment.samples }
      else (none, none, 1)

/-- Adds a frame; gives the sweep it completes, if any. -/
def ScopeAssembler.push (a : ScopeAssembler) (segment : ScopeSegment) :
    Option ScopeLine × ScopeAssembler :=
  if a.params.receivers ≤ segment.receiver then (none, { a with dropped := a.dropped + 1 })
  else
    let (line, slot, dropped) := pushSlot a.params.lineLength (a.current segment.receiver) segment
    (line, { a with
      current := Function.update a.current segment.receiver slot
      dropped := a.dropped + dropped })

/-- The data of a waveform frame as the engine hands it to the assembler. -/
def ScopeAssembler.feed (a : ScopeAssembler) (data : List Byte) :
    Option ScopeLine × ScopeAssembler :=
  match parseSegment data with
  | some segment => a.push segment
  | none => (none, a.noteMalformed)

/-- The assembler after a stream of frames. -/
def ScopeAssembler.after (a : ScopeAssembler) (stream : List (List Byte)) : ScopeAssembler :=
  stream.foldl (fun a data => (a.feed data).2) a

/-- The lines that a stream of frames delivers. -/
def lines (a : ScopeAssembler) : List (List Byte) → List ScopeLine
  | [] => []
  | data :: stream => (a.feed data).1.toList ++ lines (a.feed data).2 stream

/-! ### Receivers -/

section Receivers

variable {a b : ScopeAssembler} {segment : ScopeSegment} {data : List Byte} {line : ScopeLine}
  {rx : Fin 2}

theorem receiver_of_settleSlot {lineLength : ℕ} {p : Sweeping}
    (h : (settleSlot lineLength segment p).1 = some line) : line.receiver = segment.receiver := by
  unfold settleSlot at h
  split at h
  · cases h
  split at h
  · cases h
  split at h
  · cases h
  · obtain rfl := Option.some.inj h
    exact rfl

/-- A line is the line of the receiver whose frame completes it. -/
theorem receiver_of_push (h : (a.push segment).1 = some line) :
    line.receiver = segment.receiver := by
  unfold ScopeAssembler.push at h
  split at h
  · cases h
  dsimp only at h
  unfold pushSlot at h
  split at h
  · split at h
    · cases h
    · exact receiver_of_settleSlot h
  · split at h
    · cases h
    split at h
    · exact receiver_of_settleSlot h
    · cases h

/-- A frame leaves the sweeps of the other receiver alone. -/
theorem push_other (h : segment.receiver ≠ rx) : (a.push segment).2.current rx = a.current rx := by
  unfold ScopeAssembler.push
  split
  · exact rfl
  · exact Function.update_of_ne (Ne.symm h) _ _

/-- What a frame does for its receiver is a matter of its own sweep. -/
theorem push_own (hparams : a.params = b.params)
    (hcurrent : a.current segment.receiver = b.current segment.receiver) :
    (a.push segment).1 = (b.push segment).1 ∧
      (a.push segment).2.current segment.receiver = (b.push segment).2.current segment.receiver := by
  unfold ScopeAssembler.push
  rw [hparams, hcurrent]
  split
  · exact ⟨rfl, hcurrent⟩
  · refine ⟨rfl, ?_⟩
    simp only [Function.update_self]

@[simp] theorem params_push : (a.push segment).2.params = a.params := by
  unfold ScopeAssembler.push
  split <;> rfl

@[simp] theorem params_feed : (a.feed data).2.params = a.params := by
  unfold ScopeAssembler.feed
  split
  · exact params_push
  · exact rfl

/-- A frame of the receiver `rx`. -/
def isOf (rx : Fin 2) (data : List Byte) : Bool := (parseSegment data).any (·.receiver == rx)

/-- What is received of others delivers nothing for a receiver and leaves its sweep alone. -/
theorem feed_other (h : isOf rx data = false) :
    (∀ line, (a.feed data).1 = some line → line.receiver ≠ rx) ∧
      (a.feed data).2.current rx = a.current rx := by
  unfold isOf at h
  unfold ScopeAssembler.feed
  cases hparse : parseSegment data with
  | none => exact ⟨nofun, rfl⟩
  | some segment =>
    rw [hparse] at h
    have hne : segment.receiver ≠ rx := by simpa using h
    refine ⟨fun line hline => ?_, push_other hne⟩
    rw [receiver_of_push hline]
    exact hne

theorem feed_own (h : isOf rx data = true) (hparams : a.params = b.params)
    (hcurrent : a.current rx = b.current rx) :
    (a.feed data).1 = (b.feed data).1 ∧
      (∀ line, (a.feed data).1 = some line → line.receiver = rx) ∧
      (a.feed data).2.current rx = (b.feed data).2.current rx := by
  unfold isOf at h
  unfold ScopeAssembler.feed
  cases hparse : parseSegment data with
  | none =>
    rw [hparse] at h
    cases h
  | some segment =>
    rw [hparse] at h
    obtain rfl : segment.receiver = rx := by simpa using h
    obtain ⟨hline, hslot⟩ := push_own hparams hcurrent
    exact ⟨hline, fun line => receiver_of_push, hslot⟩

/-- The lines of a receiver are those that its own frames alone deliver. -/
theorem lines_own (stream : List (List Byte)) (hparams : a.params = b.params)
    (hcurrent : a.current rx = b.current rx) :
    (lines a stream).filter (·.receiver == rx) = lines b (stream.filter (isOf rx)) := by
  induction stream generalizing a b with
  | nil => exact rfl
  | cons data stream ih =>
    rw [lines, List.filter_append]
    cases hof : isOf rx data with
    | false =>
      obtain ⟨hline, hslot⟩ := feed_other (a := a) hof
      have hnone : (a.feed data).1.toList.filter (·.receiver == rx) = [] := by
        rw [List.filter_eq_nil_iff]
        intro line hmem
        simpa using hline line (Option.mem_toList.mp hmem)
      rw [hnone, List.nil_append, List.filter_cons_of_neg (by simp [hof])]
      exact ih (params_feed.trans hparams) (hslot.trans hcurrent)
    | true =>
      obtain ⟨hsame, hline, hslot⟩ := feed_own hof hparams hcurrent
      have hall : (a.feed data).1.toList.filter (·.receiver == rx) = (b.feed data).1.toList := by
        rw [List.filter_eq_self.mpr, hsame]
        intro line hmem
        simpa using hline line (Option.mem_toList.mp hmem)
      rw [hall, List.filter_cons_of_pos hof, lines]
      rw [ih (by simp [hparams]) hslot]

end Receivers

/-! ### Sweeps -/

/-- The frames `sweep` are the divisions of one header in order, and `samples` is what they carry. -/
structure IsSweep (sweep : List ScopeSegment) (header : ScopeHeader) (samples : List Byte) :
    Prop where
  divisions : sweep.map (·.division) = List.range' 1 sweep.length
  header : sweep.head?.bind (·.header) = some header
  samples : sweep.flatMap (·.samples) = samples

section Sweeps

variable {sweep own : List ScopeSegment} {segment : ScopeSegment} {header : ScopeHeader}
  {samples : List Byte} {p : Sweeping} {line : ScopeLine} {rx : Fin 2} {lineLength : ℕ}

theorem IsSweep.first (hdivision : segment.division = 1) (hheader : segment.header = some header) :
    IsSweep [segment] header segment.samples :=
  ⟨congrArg (fun n => [n]) hdivision, hheader, List.flatMap_singleton _ _⟩

theorem IsSweep.snoc (h : IsSweep sweep header samples)
    (hdivision : segment.division = sweep.length + 1) :
    IsSweep (sweep ++ [segment]) header (samples ++ segment.samples) where
  divisions := by
    rw [List.map_append, h.divisions, List.length_append, List.range'_append_1.symm]
    simp [hdivision, Nat.add_comm]
  header := by
    have hheader := h.header
    cases sweep with
    | nil => cases hheader
    | cons s sweep => exact hheader
  samples := by
    rw [List.flatMap_append, h.samples, List.flatMap_singleton]

/-- The sweep in progress is what the last frames of its receiver's stream `own` make up. -/
def InProgress (own : List ScopeSegment) (p : Sweeping) : Prop :=
  ∃ earlier sweep, own = earlier ++ sweep ∧ IsSweep sweep p.header p.samples ∧
    p.nextDivision = sweep.length + 1

/-- A line of `lineLength` samples is what the last frames of its receiver's stream `own` make up,
and the last of these is the last of its sweep. -/
def Swept (lineLength : ℕ) (own : List ScopeSegment) (line : ScopeLine) : Prop :=
  ∃ earlier sweep p last, own = earlier ++ sweep ∧ IsSweep sweep p.header p.samples ∧
    sweep.getLast? = some last ∧ last.divisions = sweep.length ∧
    line = lineFrom line.receiver p ∧ line.samples.length = lineLength

/-- The sweep that a frame was added to becomes a line, goes on, or is dropped. -/
theorem settleSlot_cases (hp : InProgress own p) (hlast : own.getLast? = some segment)
    (hdivision : segment.division + 1 = p.nextDivision)
    (hdivisions : segment.division ≤ segment.divisions) :
    (∀ line, (settleSlot lineLength segment p).1 = some line → Swept lineLength own line) ∧
      ∀ q, (settleSlot lineLength segment p).2.1 = some q → InProgress own q := by
  unfold settleSlot
  split
  · exact ⟨nofun, nofun⟩
  split
  · refine ⟨nofun, fun q hq => ?_⟩
    obtain rfl := Option.some.inj hq
    exact hp
  next hdone =>
    split
    · exact ⟨nofun, nofun⟩
    next hlength =>
      refine ⟨fun line hline => ?_, nofun⟩
      obtain rfl := Option.some.inj hline
      obtain ⟨earlier, sweep, rfl, hsweep, hnext⟩ := hp
      have hne : sweep ≠ [] := by
        rintro rfl
        cases hsweep.header
      rw [List.getLast?_append_of_ne_nil _ hne] at hlast
      exact ⟨earlier, sweep, p, segment, rfl, hsweep, hlast, by omega, rfl,
        Decidable.not_not.mp hlength⟩

/-- A frame added to what a receiver has so far. -/
theorem pushSlot_cases (lineLength : ℕ) {current : Option Sweeping}
    (hcurrent : ∀ p, current = some p → InProgress own p)
    (hdivisions : segment.division ≤ segment.divisions)
    (hheader : segment.division = 1 → segment.header.isSome) :
    (∀ line, (pushSlot lineLength current segment).1 = some line →
        Swept lineLength (own ++ [segment]) line) ∧
      ∀ q, (pushSlot lineLength current segment).2.1 = some q → InProgress (own ++ [segment]) q := by
  have hlast : (own ++ [segment]).getLast? = some segment := List.getLast?_concat
  unfold pushSlot
  by_cases hfirst : segment.division = 1
  · rw [if_pos hfirst]
    obtain ⟨header, hsome⟩ := Option.isSome_iff_exists.mp (hheader hfirst)
    simp only [hsome]
    apply settleSlot_cases _ hlast (by dsimp only; omega) hdivisions
    exact ⟨own, [segment], rfl, .first hfirst hsome, rfl⟩
  rw [if_neg hfirst]
  cases current with
  | none => exact ⟨nofun, nofun⟩
  | some p =>
    dsimp only
    split
    next hnext =>
      obtain ⟨earlier, sweep, rfl, hsweep, hlength⟩ := hcurrent p rfl
      apply settleSlot_cases _ hlast (by dsimp only; omega) hdivisions
      refine ⟨earlier, sweep ++ [segment], List.append_assoc _ _ _, hsweep.snoc (by omega), ?_⟩
      rw [List.length_append, List.length_singleton, hlength]
    · exact ⟨nofun, nofun⟩

/-- What a frame that is well formed says of itself. -/
theorem parseSegment_ok {data : List Byte} (h : parseSegment data = some segment) :
    segment.division ≤ segment.divisions ∧ (segment.division = 1 → segment.header.isSome) := by
  unfold parseSegment at h
  split at h
  next rx div max rest =>
    obtain ⟨division, -, h⟩ := Option.bind_eq_some_iff.mp h
    obtain ⟨divisions, -, h⟩ := Option.bind_eq_some_iff.mp h
    split at h
    next hfits =>
      dsimp only at h
      split at h
      next hlater =>
        obtain rfl := Option.some.inj h
        exact ⟨hfits.2.2, fun hfirst => absurd hfirst hlater⟩
      · split at h
        · obtain ⟨mode, -, h⟩ := Option.bind_eq_some_iff.mp h
          obtain ⟨edgeA, -, h⟩ := Option.bind_eq_some_iff.mp h
          obtain ⟨edgeB, -, h⟩ := Option.bind_eq_some_iff.mp h
          obtain rfl := Option.some.inj h
          exact ⟨hfits.2.2, fun _ => rfl⟩
        · cases h
    · cases h
  · cases h

/-- The frames of a receiver in a stream. -/
def framesOf (rx : Fin 2) (stream : List (List Byte)) : List ScopeSegment :=
  (stream.filterMap parseSegment).filter (·.receiver == rx)

/-- Every sweep in progress is one of the model's receivers, and what the last frames of this
receiver make up. -/
def Tracks (a : ScopeAssembler) (stream : List (List Byte)) : Prop :=
  ∀ rx p, a.current rx = some p → rx < a.params.receivers ∧ InProgress (framesOf rx stream) p

theorem framesOf_concat (rx : Fin 2) (stream : List (List Byte)) (data : List Byte) :
    framesOf rx (stream ++ [data]) =
      framesOf rx stream ++ (parseSegment data).toList.filter (·.receiver == rx) := by
  unfold framesOf
  rw [List.filterMap_append, List.filter_append]
  cases hparse : parseSegment data <;> simp [hparse]

/-- A frame delivers only a line that its receiver's last frames make up, and keeps track. -/
theorem Tracks.feed {a : ScopeAssembler} {stream : List (List Byte)} (h : Tracks a stream)
    (data : List Byte) :
    (∀ line, (a.feed data).1 = some line →
        Swept a.params.lineLength (framesOf line.receiver (stream ++ [data])) line) ∧
      Tracks (a.feed data).2 (stream ++ [data]) := by
  unfold ScopeAssembler.feed
  cases hparse : parseSegment data with
  | none =>
    refine ⟨nofun, fun rx p hp => ?_⟩
    rw [framesOf_concat, hparse]
    exact ⟨(h rx p hp).1, by simpa using (h rx p hp).2⟩
  | some segment =>
    have hframes : framesOf segment.receiver (stream ++ [data]) =
        framesOf segment.receiver stream ++ [segment] := by
      rw [framesOf_concat, hparse]
      simp
    have hothers {rx : Fin 2} (hne : segment.receiver ≠ rx) :
        framesOf rx (stream ++ [data]) = framesOf rx stream := by
      rw [framesOf_concat, hparse]
      simp [hne]
    obtain ⟨hdivisions, hheader⟩ := parseSegment_ok hparse
    obtain ⟨hline, hslot⟩ := pushSlot_cases a.params.lineLength
      (fun p hp => (h segment.receiver p hp).2) hdivisions hheader
    dsimp only
    constructor
    · intro line hpush
      have hreceiver := receiver_of_push hpush
      rw [hreceiver, hframes]
      unfold ScopeAssembler.push at hpush
      split at hpush
      · cases hpush
      · exact hline line hpush
    · intro rx p hp
      by_cases hrx : segment.receiver = rx
      · subst hrx
        unfold ScopeAssembler.push at hp
        split at hp
        next hnot => exact absurd (h _ p hp).1 (Nat.not_lt.mpr hnot)
        next hof =>
          dsimp only at hp
          rw [Function.update_self] at hp
          rw [hframes, params_push]
          exact ⟨Nat.lt_of_not_le hof, hslot p hp⟩
      · rw [push_other hrx] at hp
        rw [hothers hrx, params_push]
        exact h rx p hp

theorem Tracks.after {a : ScopeAssembler} {before : List (List Byte)} (h : Tracks a before)
    (stream : List (List Byte)) :
    Tracks (a.after stream) (before ++ stream) ∧ (a.after stream).params = a.params := by
  induction stream generalizing a before with
  | nil =>
    rw [List.append_nil]
    exact ⟨h, rfl⟩
  | cons data stream ih =>
    obtain ⟨htracks, hparams⟩ := ih (h.feed data).2
    rw [List.append_assoc] at htracks
    exact ⟨htracks, hparams.trans params_feed⟩

end Sweeps

/-- Each receiver's lines are those that its own frames alone deliver. A line is put together from
consecutive frames of its receiver that are the divisions 1 to `N` of one header, where `N` is the
total that the last of them announces, and has the model's number of samples. -/
theorem scope_lines (params : ScopeParams) :
    (∀ (stream : List (List Byte)) (rx : Fin 2),
      (lines (.new params) stream).filter (·.receiver == rx) =
        lines (.new params) (stream.filter (isOf rx))) ∧
    ∀ (stream : List (List Byte)) (data : List Byte) (line : ScopeLine),
      ((ScopeAssembler.new params).after stream |>.feed data).1 = some line →
      Swept params.lineLength (framesOf line.receiver (stream ++ [data])) line := by
  refine ⟨fun stream rx => lines_own stream rfl rfl, fun stream data line hline => ?_⟩
  have hstart : Tracks (.new params) [] := nofun
  obtain ⟨htracks, hparams⟩ := hstart.after stream
  have hswept := (htracks.feed data).1 line hline
  rw [hparams] at hswept
  exact hswept

/-- The first of five frames, then the second of two. -/
def unlike : List (List Byte) :=
  [[0, 0x01, 0x05, 0, 0, 0, 0, 0x14, 0, 0, 0, 0x50, 0, 0, 0], [0, 0x02, 0x02, 7, 8]]

theorem scope_lines_unlike :
    Swept 2 (framesOf 0 unlike) ⟨0, .center, 13500000, 14500000, false, [7, 8]⟩ :=
  (scope_lines ⟨1, 2⟩).2 [[0, 0x01, 0x05, 0, 0, 0, 0, 0x14, 0, 0, 0, 0x50, 0, 0, 0]]
    [0, 0x02, 0x02, 7, 8] ⟨0, .center, 13500000, 14500000, false, [7, 8]⟩ (by decide +kernel)

/-- The frames of a line need not announce the same total: what announces itself as the first of five
and the second of two is a line. -/
theorem totals_differ :
    (lines (.new ⟨1, 2⟩) unlike).length = 1 ∧
      (framesOf 0 unlike).map (·.divisions) = [5, 2] := by
  decide +kernel

end HamsOpen.Civ
