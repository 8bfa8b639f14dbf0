import Mathlib.Algebra.Order.Ring.Int
import Mathlib.Data.List.Basic

/-!
# The streaming frame analyzer

The analysis front end of the fixed-point encoder, `encoder.rs`: it buffers samples, keeps the error
tables of three frames, and drops the samples no later frame reads. An index out of the buffer, or a
subtraction below zero, is a panic and gives nothing. The signal arithmetic of one window is a
parameter; the initial-pitch decision is `pitch.rs`.
-/

namespace HamsOpen.Ambe.Stream

/-! ### The initial pitch -/

def candidates : ℕ := 203

/-- `E(P)` of the candidate pitches of one frame. -/
def ErrorTable : Type := Fin candidates → ℤ

def ErrorTable.atIndex (t : ErrorTable) (idx : ℕ) : ℤ :=
  t ⟨min idx (candidates - 1), by unfold candidates; omega⟩

def i32Max : ℤ := 2 ^ 31 - 1

def i64Max : ℤ := 2 ^ 63 - 1

def i128Max : ℤ := 2 ^ 127 - 1

def clampI32 (x : ℤ) : ℤ := max (-2 ^ 31) (min x i32Max)

def oneQ16 : ℤ := 65536

def q16Ratio (num den : ℤ) : ℤ := (num * oneQ16 * 2 + den) / (den * 2)

def p2Base : ℕ := 42

def p2OfIndex (idx : ℕ) : ℕ := p2Base + idx

/-- The candidates within a fifth of the pitch; they are consecutive. -/
def trackingRange (refIdx : ℕ) : List ℕ :=
  (List.range candidates).filter fun c =>
    4 * p2OfIndex refIdx ≤ 5 * p2OfIndex c ∧ 5 * p2OfIndex c ≤ 6 * p2OfIndex refIdx

/-- The first of the least among the entries, or the start if none is below it. -/
def firstLeast (value : ℕ → ℤ) (start : ℕ × ℤ) (cs : List ℕ) : ℕ × ℤ :=
  cs.foldl (fun best c => if value c < best.2 then (c, value c) else best) start

def lookBackPitchTracking (table : ErrorTable) (prev1 prev2 : ℕ × ℤ) : ℕ × ℤ :=
  let best := firstLeast table.atIndex (0, i32Max) (trackingRange prev1.1)
  (best.1, clampI32 (best.2 + prev1.2 + prev2.2))

def leastOr (values : List ℤ) : ℤ := values.min?.getD (i64Max / 4)

def lookAheadPitchTracking (t0 t1 t2 : ErrorTable) : ℕ × ℤ :=
  let bestE2 p1 := leastOr ((trackingRange p1).map t2.atIndex)
  let bestE12 p0 := leastOr ((trackingRange p0).map fun c => t1.atIndex c + bestE2 c)
  let ceFAt p0 := t0.atIndex p0 + bestE12 p0
  let pHat0 := (firstLeast ceFAt (0, i64Max) (List.range candidates)).1
  let ce0 := ceFAt pHat0
  let nTop := p2OfIndex pHat0 / p2Base
  let snapped n := min ((2 * p2OfIndex pHat0 + n) / (2 * n) - p2Base) (candidates - 1)
  let ratioOk ce limit : Bool := ce * oneQ16 ≤ limit * ce0
  let satisfies ce : Bool :=
    (ce ≤ q16Ratio 85 100 && ratioOk ce (q16Ratio 17 10)) ||
      (ce ≤ q16Ratio 4 10 && ratioOk ce (q16Ratio 35 10)) || ce ≤ q16Ratio 5 100
  -- the sub-multiples of the pitch, the smallest pitch first
  match (List.range' 2 (nTop - 1)).reverse.find? fun n => satisfies (ceFAt (snapped n)) with
  | some n => (snapped n, clampI32 (ceFAt (snapped n)))
  | none => (pHat0, clampI32 ce0)

def chooseInitialPitchEstimate (idxB : ℕ) (ceB : ℤ) (idxF : ℕ) (ceF : ℤ) : ℕ :=
  if ceB ≤ q16Ratio 48 100 ∨ ceB ≤ ceF then idxB else idxF

/-- The initial pitch of a frame and its error, from the tables of the frame and of the two after it
and the pitches of the two before it. -/
def initialPitch (t0 t1 t2 : ErrorTable) (prev1 prev2 : ℕ × ℤ) : ℕ × ℤ :=
  let back := lookBackPitchTracking t0 prev1 prev2
  let ahead := lookAheadPitchTracking t0 t1 t2
  let idx := chooseInitialPitchEstimate back.1 back.2 ahead.1 ahead.2
  (idx, t0.atIndex idx)

/-! ### The refined pitch -/

structure Pitch where
  n : ℤ
  d : ℤ
  omega0Q30 : ℤ
  deriving DecidableEq

def twoPiQ30 : ℕ := 6746518852

/-- The pitch of a period in eighths of a sample; a period of nothing divides by zero. -/
def Pitch.fromP8 (p8 : ℕ) : Option Pitch :=
  if p8 = 0 then none
  else some ⟨2048, p8, ((twoPiQ30 * 8 + p8 / 2) / p8 : ℕ)⟩

theorem Pitch.fromP8_isSome {p8 : ℕ} (h : p8 ≠ 0) : (Pitch.fromP8 p8).isSome := by
  unfold Pitch.fromP8
  rw [if_neg h]
  exact rfl

/-- The pitch of a period that is not zero. -/
def Pitch.ofPos (p8 : ℕ) (h : p8 ≠ 0) : Pitch := (Pitch.fromP8 p8).get (Pitch.fromP8_isSome h)

theorem Pitch.fromP8_eq {p8 : ℕ} (h : p8 ≠ 0) : Pitch.fromP8 p8 = some (Pitch.ofPos p8 h) :=
  (Option.some_get _).symm

/-- What is computed from the samples of one window: the error table of 321 of them and the
refinement spectrum of 221, the error of a spectrum at a pitch, and the code of a frame. -/
structure Arithmetic (Spectrum State Code : Type) where
  errorTable : List ℤ → ErrorTable
  refinement : List ℤ → Spectrum
  refinementError : Spectrum → Pitch → ℤ
  /-- The errors are sums that stay within their width. -/
  refinementError_lt : ∀ s p, refinementError s p < i128Max
  encodeFrame : Spectrum → Pitch → ℤ → State → Bool → Option (Code × State)
  initial : State
  /-- The frame sent when there is none to repeat. -/
  zeros : Code

section

variable {Spectrum State Code : Type} (A : Arithmetic Spectrum State Code)

def p8OfIndex (idx : ℕ) : ℕ := 4 * p2OfIndex idx

def refinementOffsets : List ℤ := [-9, -7, -5, -3, -1, 1, 3, 5, 7, 9]

/-- The periods tried, in eighths of a sample. -/
def refinements (idx : ℕ) : List ℕ :=
  refinementOffsets.map fun off => ((p8OfIndex idx : ℤ) + off).toNat

theorem refinements_pos {idx p8 : ℕ} (h : p8 ∈ refinements idx) : p8 ≠ 0 := by
  obtain ⟨off, hoff, rfl⟩ := List.mem_map.mp h
  have hall : ∀ off ∈ refinementOffsets, -9 ≤ off := by decide
  have hlow := hall off hoff
  unfold p8OfIndex p2OfIndex p2Base
  omega

/-- The error at a period. -/
def errorAt (spectrum : Spectrum) (p8 : ℕ) : ℤ :=
  match Pitch.fromP8 p8 with
  | some pitch => A.refinementError spectrum pitch
  | none => i128Max

def refinePitch (spectrum : Spectrum) (idx : ℕ) : ℕ :=
  (firstLeast (errorAt A spectrum) (0, i128Max) (refinements idx)).1

/-- What is found is the start or one of the entries. -/
theorem firstLeast_mem (value : ℕ → ℤ) (start : ℕ × ℤ) (cs : List ℕ) :
    firstLeast value start cs = start ∨ (firstLeast value start cs).1 ∈ cs := by
  induction cs generalizing start with
  | nil => exact Or.inl rfl
  | cons c cs ih =>
    have hfold : firstLeast value start (c :: cs) =
        firstLeast value (if value c < start.2 then (c, value c) else start) cs := rfl
    rw [hfold]
    rcases ih (if value c < start.2 then (c, value c) else start) with heq | hmem
    · rw [heq]
      split
      · exact Or.inr List.mem_cons_self
      · exact Or.inl rfl
    · exact Or.inr (List.mem_cons_of_mem c hmem)

theorem firstLeast_cons_of_lt {value : ℕ → ℤ} {start : ℕ × ℤ} {c : ℕ} {cs : List ℕ}
    (h : value c < start.2) : (firstLeast value start (c :: cs)).1 ∈ c :: cs := by
  have hfold : firstLeast value start (c :: cs) = firstLeast value (c, value c) cs := by
    change firstLeast value (if value c < start.2 then (c, value c) else start) cs = _
    rw [if_pos h]
  rw [hfold]
  rcases firstLeast_mem value (c, value c) cs with heq | hmem
  · rw [heq]
    exact List.mem_cons_self
  · exact List.mem_cons_of_mem c hmem

/-- The refined period is one of those tried, so it is never zero. -/
theorem refinePitch_pos (spectrum : Spectrum) (idx : ℕ) : refinePitch A spectrum idx ≠ 0 := by
  refine @refinements_pos idx _ ?_
  apply firstLeast_cons_of_lt
  have hpos : ((p8OfIndex idx : ℤ) + -9).toNat ≠ 0 := by
    unfold p8OfIndex p2OfIndex p2Base
    omega
  unfold errorAt
  rw [Pitch.fromP8_eq hpos]
  exact A.refinementError_lt _ _

end

/-! ### Windows -/

/-- `usize` subtraction. -/
def checkedSub (a b : ℕ) : Option ℕ := if b ≤ a then some (a - b) else none

theorem checkedSub_of_le {a b : ℕ} (h : b ≤ a) : checkedSub a b = some (a - b) := if_pos h

/-- The samples up to `margin` away from the centre. -/
def around (margin : ℕ) (raw : List ℤ) (center : ℕ) : List ℤ :=
  (raw.drop (center - margin)).take (2 * margin + 1)

/-- The same, of a buffer that must have them all, with the centre within `i32`. -/
def window (margin : ℕ) (raw : List ℤ) (center : ℕ) : Option (List ℤ) :=
  if margin ≤ center ∧ center + margin < raw.length ∧ center + margin < 2 ^ 31 then
    some (around margin raw center)
  else none

/-- `raw[start..start + len]`. -/
def slice (raw : List ℤ) (start len : ℕ) : Option (List ℤ) :=
  if start + len ≤ raw.length then some ((raw.drop start).take len) else none

section

variable {raw more : List ℤ} {trimmed center margin start len : ℕ}

/-- The samples around a centre inside the stream do not change when the stream grows. -/
theorem around_append (hlow : margin ≤ center) (hin : center + margin < raw.length) :
    around margin (raw ++ more) center = around margin raw center := by
  unfold around
  rw [List.drop_append_of_le_length (by omega), List.take_append_of_le_length]
  rw [List.length_drop]
  omega

/-- A window of the buffer is the window of the stream whose first samples are gone. -/
theorem window_drop (hlow : trimmed + margin ≤ center) (hin : center + margin < raw.length)
    (hfit : center + margin < trimmed + 2 ^ 31) :
    window margin (raw.drop trimmed) (center - trimmed) = some (around margin raw center) := by
  unfold window around
  rw [List.length_drop, if_pos (by omega), List.drop_drop]
  have hstart : trimmed + (center - trimmed - margin) = center - margin := by omega
  rw [hstart]

theorem slice_drop (hlow : trimmed ≤ start) (hin : start + len ≤ raw.length) :
    slice (raw.drop trimmed) (start - trimmed) len = some ((raw.drop start).take len) := by
  unfold slice
  rw [List.length_drop, if_pos (by omega), List.drop_drop]
  have hstart : trimmed + (start - trimmed) = start := by omega
  rw [hstart]

theorem take_drop_append (h : start + len ≤ raw.length) :
    ((raw ++ more).drop start).take len = (raw.drop start).take len := by
  rw [List.drop_append_of_le_length (by omega), List.take_append_of_le_length]
  rw [List.length_drop]
  omega

end

/-! ### The analyzer -/

def frameSamples : ℕ := 160

/-- Silence before the first sample. -/
def lead : ℕ := 200

/-- Samples read before and after a centre. -/
def analysisMargin : ℕ := 160

def refinementMargin : ℕ := 110

def defaultPitchIndex : ℕ := 158

/-- Silence after the last sample. -/
def tail : ℕ := 3 * frameSamples + 2 * analysisMargin

/-- Where frame `k` is centred. -/
def centerOf (offset : ℤ) (k : ℕ) : ℕ :=
  (max ((lead : ℤ) + (k * frameSamples : ℕ) + offset) analysisMargin).toNat

def clampOffset (samples : ℤ) : ℤ := max (-160) (min samples 160)

structure FrameAnalysis (Spectrum : Type) where
  p8 : ℕ
  pitch : Pitch
  initialPitchErrorQ16 : ℤ
  refinement : Spectrum
  slotSamples : List ℤ

structure FrameAnalyzer where
  raw : List ℤ
  trimmed : ℕ
  realSamples : ℕ
  nextFrame : ℕ
  centerOffset : ℤ
  prevFirst : ℕ × ℤ
  prevSecond : ℕ × ℤ
  tables : List (ℕ × ErrorTable)
  finished : Bool

namespace FrameAnalyzer

def new : FrameAnalyzer where
  raw := List.replicate lead 0
  trimmed := 0
  realSamples := 0
  nextFrame := 0
  centerOffset := 0
  prevFirst := (defaultPitchIndex, 0)
  prevSecond := (defaultPitchIndex, 0)
  tables := []
  finished := false

def setCenterOffset (s : FrameAnalyzer) (samples : ℤ) : FrameAnalyzer :=
  { s with centerOffset := clampOffset samples }

def center (s : FrameAnalyzer) (k : ℕ) : ℕ := centerOf s.centerOffset k

def pushSamplesWide (s : FrameAnalyzer) (samples : List ℤ) : FrameAnalyzer :=
  { s with raw := s.raw ++ samples, realSamples := s.realSamples + samples.length }

def padded (s : FrameAnalyzer) : FrameAnalyzer :=
  { s with raw := s.raw ++ List.replicate tail 0, finished := true }

def finishInput (s : FrameAnalyzer) : FrameAnalyzer := if s.finished then s else s.padded

theorem finishInput_of_open {s : FrameAnalyzer} (h : s.finished = false) :
    s.finishInput = s.padded := by
  unfold finishInput
  rw [h]
  rfl

def available (s : FrameAnalyzer) (k : ℕ) : Bool :=
  s.center (k + 2) + analysisMargin < s.trimmed + s.raw.length

def hasRealFrame (s : FrameAnalyzer) : Bool :=
  !s.finished || s.center s.nextFrame < lead + s.realSamples

end FrameAnalyzer

section

variable {Spectrum State Code : Type} (A : Arithmetic Spectrum State Code)

namespace FrameAnalyzer

def withTables (s : FrameAnalyzer) (tables : List (ℕ × ErrorTable)) : FrameAnalyzer :=
  { s with tables := tables }

@[simp] theorem withTables_nextFrame (s : FrameAnalyzer) (tables : List (ℕ × ErrorTable)) :
    (s.withTables tables).nextFrame = s.nextFrame := rfl

@[simp] theorem withTables_prevFirst (s : FrameAnalyzer) (tables : List (ℕ × ErrorTable)) :
    (s.withTables tables).prevFirst = s.prevFirst := rfl

@[simp] theorem withTables_prevSecond (s : FrameAnalyzer) (tables : List (ℕ × ErrorTable)) :
    (s.withTables tables).prevSecond = s.prevSecond := rfl

/-- Builds the table of frame `k` unless there is one. -/
def table (s : FrameAnalyzer) (k : ℕ) : Option FrameAnalyzer :=
  if s.tables.any fun e => e.1 = k then some s
  else do
    let center ← checkedSub (s.center k) s.trimmed
    let samples ← window analysisMargin s.raw center
    some (s.withTables (s.tables ++ [(k, A.errorTable samples)]))

def findTable (s : FrameAnalyzer) (k : ℕ) : Option ErrorTable :=
  (s.tables.find? fun e => e.1 = k).map Prod.snd

/-- The spectrum of frame `k`, its refined pitch and its own samples, from its initial pitch. -/
def refine (s : FrameAnalyzer) (k : ℕ) (initial : ℕ × ℤ) : Option (FrameAnalysis Spectrum) := do
  let center ← checkedSub (s.center k) s.trimmed
  let samples ← window refinementMargin s.raw center
  let refinement := A.refinement samples
  let p8 := refinePitch A refinement initial.1
  let slotStart ← checkedSub (lead + k * frameSamples) s.trimmed
  let slotSamples ← slice s.raw slotStart frameSamples
  let pitch ← Pitch.fromP8 p8
  some ⟨p8, pitch, initial.2, refinement, slotSamples⟩

/-- Goes on to the next frame, whose tables are kept. -/
def goOn (s : FrameAnalyzer) (k : ℕ) (initial : ℕ × ℤ) : FrameAnalyzer :=
  { s with
    prevSecond := s.prevFirst
    prevFirst := initial
    nextFrame := s.nextFrame + 1
    tables := s.tables.dropWhile fun e => e.1 < k + 1 }

/-- Drops the samples before `keepFrom`, once they are many. -/
def trim (s : FrameAnalyzer) (keepFrom : ℕ) : Option FrameAnalyzer :=
  if s.trimmed + 4096 < keepFrom then
    if keepFrom - s.trimmed ≤ s.raw.length then
      some { s with
        raw := s.raw.drop (keepFrom - s.trimmed)
        trimmed := s.trimmed + (keepFrom - s.trimmed) }
    else none
  else some s

def advance (s : FrameAnalyzer) (k : ℕ) (initial : ℕ × ℤ) : Option FrameAnalyzer :=
  (s.goOn k initial).trim (s.center (k + 1) - (analysisMargin + 10))

/-- The next frame's analysis, if there are samples enough for it. -/
def nextAnalysis (s : FrameAnalyzer) :
    Option (Option (FrameAnalysis Spectrum) × FrameAnalyzer) :=
  let k := s.nextFrame
  if !s.hasRealFrame || !s.available k then some (none, s)
  else do
    let s ← s.table A k
    let s ← s.table A (k + 1)
    let s ← s.table A (k + 2)
    let t0 ← s.findTable k
    let t1 ← s.findTable (k + 1)
    let t2 ← s.findTable (k + 2)
    let initial := initialPitch t0 t1 t2 s.prevFirst s.prevSecond
    let analysis ← s.refine A k initial
    let s ← s.advance k initial
    some (some analysis, s)

end FrameAnalyzer

/-! ### The whole stream -/

/-- The error table of frame `k` of the stream. -/
def tableOf (offset : ℤ) (stream : List ℤ) (k : ℕ) : ErrorTable :=
  A.errorTable (around analysisMargin stream (centerOf offset k))

/-- The initial pitch of frame `k` of the stream, after the two pitches before it. -/
def pitchOf (offset : ℤ) (stream : List ℤ) (k : ℕ) (prev1 prev2 : ℕ × ℤ) : ℕ × ℤ :=
  initialPitch (tableOf A offset stream k) (tableOf A offset stream (k + 1))
    (tableOf A offset stream (k + 2)) prev1 prev2

/-- The analysis of frame `k` of the stream, from its initial pitch. -/
def wholeAnalysis (offset : ℤ) (stream : List ℤ) (k : ℕ) (initial : ℕ × ℤ) :
    FrameAnalysis Spectrum :=
  let refinement := A.refinement (around refinementMargin stream (centerOf offset k))
  let p8 := refinePitch A refinement initial.1
  { p8 := p8
    pitch := Pitch.ofPos p8 (refinePitch_pos A refinement initial.1)
    initialPitchErrorQ16 := initial.2
    refinement := refinement
    slotSamples := (stream.drop (lead + k * frameSamples)).take frameSamples }

/-! ### The buffer and the stream -/

theorem centerOf_eq (offset : ℤ) (k : ℕ) :
    (centerOf offset k : ℤ) = max (200 + 160 * k + offset) 160 := by
  unfold centerOf lead frameSamples analysisMargin
  push_cast
  omega

namespace FrameAnalyzer

/-- How many samples there have been, the silence included. -/
def total (s : FrameAnalyzer) : ℕ := s.trimmed + s.raw.length

/-- The analyzer has been given the stream `fed`, which begins the whole stream: its buffer is what
follows the samples dropped, no later frame reads one of those, and its tables are the stream's. -/
structure Follows (offset : ℤ) (fed stream : List ℤ) (s : FrameAnalyzer) : Prop where
  begins : fed <+: stream
  offset_eq : s.centerOffset = offset
  low : -160 ≤ offset
  high : offset ≤ 160
  raw_eq : s.raw = fed.drop s.trimmed
  trimmed_le : s.trimmed ≤ fed.length
  reach : s.trimmed + analysisMargin ≤ centerOf offset s.nextFrame
  near : centerOf offset s.nextFrame ≤ s.trimmed + 4266
  slot : s.trimmed ≤ lead + s.nextFrame * frameSamples
  tables_eq : ∀ e ∈ s.tables, e.2 = tableOf A offset stream e.1

variable {A} {offset : ℤ} {fed stream : List ℤ} {s : FrameAnalyzer}

namespace Follows

theorem total_eq (h : Follows A offset fed stream s) : s.total = fed.length := by
  have hle := h.trimmed_le
  unfold total
  rw [h.raw_eq, List.length_drop]
  omega

/-- A window of the buffer is the stream's. -/
theorem window_eq (h : Follows A offset fed stream s) {margin c : ℕ} (hmargin : margin ≤ 160)
    (hlow : centerOf offset s.nextFrame ≤ c) (hnear : c ≤ centerOf offset s.nextFrame + 320)
    (hin : c + margin < fed.length) :
    window margin s.raw (c - s.trimmed) = some (around margin stream c) := by
  have hreach := h.reach
  have hclose := h.near
  unfold analysisMargin at hreach
  obtain ⟨rest, hrest⟩ := h.begins
  rw [h.raw_eq, window_drop (by omega) hin (by omega), ← hrest,
    around_append (by omega) hin]

/-- Building a table adds the stream's one. -/
theorem table_eq (h : Follows A offset fed stream s) {k : ℕ} (hlow : s.nextFrame ≤ k)
    (hnear : k ≤ s.nextFrame + 2) (hin : centerOf offset k + analysisMargin < fed.length) :
    ∃ tables, s.table A k = some (s.withTables tables) ∧
      (∀ e ∈ s.tables, e ∈ tables) ∧ (∃ e ∈ tables, e.1 = k) ∧
      ∀ e ∈ tables, e.2 = tableOf A offset stream e.1 := by
  unfold table
  by_cases hany : s.tables.any (fun e => e.1 = k)
  · rw [if_pos hany]
    refine ⟨s.tables, rfl, fun e he => he, ?_, h.tables_eq⟩
    obtain ⟨e, he, hk⟩ := List.any_eq_true.mp hany
    exact ⟨e, he, of_decide_eq_true hk⟩
  · rw [if_neg hany]
    have hfirst := centerOf_eq offset s.nextFrame
    have hcenter := centerOf_eq offset k
    have hreach := h.reach
    have hwin : window analysisMargin s.raw (centerOf offset k - s.trimmed) =
        some (around analysisMargin stream (centerOf offset k)) :=
      h.window_eq (Nat.le_refl _) (by omega) (by omega) hin
    have hsub : checkedSub (s.center k) s.trimmed = some (centerOf offset k - s.trimmed) := by
      unfold center
      rw [h.offset_eq]
      apply checkedSub_of_le
      omega
    refine ⟨s.tables ++ [(k, tableOf A offset stream k)], ?_, ?_, ?_, ?_⟩
    · rw [hsub]
      change (window _ _ _).bind _ = _
      rw [hwin]
      rfl
    · intro e he
      exact List.mem_append_left _ he
    · exact ⟨_, List.mem_append_right _ (List.mem_singleton_self _), rfl⟩
    · intro e he
      rcases List.mem_append.mp he with hold | hnew
      · exact h.tables_eq e hold
      · rw [List.mem_singleton.mp hnew]

/-- New tables that are the stream's change nothing. -/
theorem with_tables (h : Follows A offset fed stream s) {tables : List (ℕ × ErrorTable)}
    (htables : ∀ e ∈ tables, e.2 = tableOf A offset stream e.1) :
    Follows A offset fed stream (s.withTables tables) :=
  { h with tables_eq := htables }

/-- A table that was built is found. -/
theorem findTable_eq (h : Follows A offset fed stream s) {k : ℕ} (hk : ∃ e ∈ s.tables, e.1 = k) :
    s.findTable k = some (tableOf A offset stream k) := by
  unfold findTable
  obtain ⟨e, he, heq⟩ := hk
  have hsome : (s.tables.find? fun e => e.1 = k).isSome :=
    List.find?_isSome.mpr ⟨e, he, decide_eq_true heq⟩
  obtain ⟨found, hfound⟩ := Option.isSome_iff_exists.mp hsome
  have hdecide := List.find?_some hfound
  have hkey : found.1 = k := of_decide_eq_true hdecide
  have hright := h.tables_eq found (List.mem_of_find?_eq_some hfound)
  rw [hfound, Option.map_some, hright, hkey]

theorem available_iff (h : Follows A offset fed stream s) (k : ℕ) :
    s.available k = true ↔ centerOf offset (k + 2) + analysisMargin < fed.length := by
  have htotal := h.total_eq
  unfold total at htotal
  unfold available center
  rw [h.offset_eq, htotal, decide_eq_true_iff]

/-- What is worked out from the buffer is the whole stream's. -/
theorem refine_eq (h : Follows A offset fed stream s)
    (hin : centerOf offset (s.nextFrame + 2) + analysisMargin < fed.length) (initial : ℕ × ℤ) :
    s.refine A s.nextFrame initial =
      some (wholeAnalysis A offset stream s.nextFrame initial) := by
  have hfirst := centerOf_eq offset s.nextFrame
  have hthird := centerOf_eq offset (s.nextFrame + 2)
  have hreach := h.reach
  have hslot := h.slot
  have hlow := h.low
  unfold analysisMargin at hreach hin
  unfold lead frameSamples at hslot
  have hcenter : checkedSub (s.center s.nextFrame) s.trimmed =
      some (centerOf offset s.nextFrame - s.trimmed) := by
    unfold center
    rw [h.offset_eq]
    apply checkedSub_of_le
    omega
  have hwin : window refinementMargin s.raw (centerOf offset s.nextFrame - s.trimmed) = some _ :=
    h.window_eq (by decide) (Nat.le_refl _) (by omega)
      (show centerOf offset s.nextFrame + 110 < fed.length by omega)
  have hstart : checkedSub (lead + s.nextFrame * frameSamples) s.trimmed =
      some (lead + s.nextFrame * frameSamples - s.trimmed) :=
    checkedSub_of_le h.slot
  have hend : lead + s.nextFrame * frameSamples + frameSamples ≤ fed.length := by
    unfold lead frameSamples
    omega
  have hsamples : slice s.raw (lead + s.nextFrame * frameSamples - s.trimmed) frameSamples =
      some ((stream.drop (lead + s.nextFrame * frameSamples)).take frameSamples) := by
    obtain ⟨rest, hrest⟩ := h.begins
    rw [h.raw_eq, slice_drop h.slot hend, ← hrest, take_drop_append hend]
  unfold refine
  rw [hcenter]
  change (window _ _ _).bind _ = _
  rw [hwin]
  change (checkedSub _ _).bind _ = _
  rw [hstart]
  change (slice _ _ _).bind _ = _
  rw [hsamples]
  change (Pitch.fromP8 _).bind _ = _
  rw [Pitch.fromP8_eq (refinePitch_pos A _ _)]
  rfl

/-- Going on keeps to the stream: nothing a later frame reads is dropped. -/
theorem advance_eq (h : Follows A offset fed stream s)
    (hin : centerOf offset (s.nextFrame + 2) + analysisMargin < fed.length) (initial : ℕ × ℤ) :
    ∃ t, s.advance s.nextFrame initial = some t ∧ Follows A offset fed stream t ∧
      t.nextFrame = s.nextFrame + 1 ∧ t.prevFirst = initial ∧ t.prevSecond = s.prevFirst ∧
      t.realSamples = s.realSamples ∧ t.finished = s.finished := by
  have hfirst := centerOf_eq offset s.nextFrame
  have hsecond := centerOf_eq offset (s.nextFrame + 1)
  have hthird := centerOf_eq offset (s.nextFrame + 2)
  have hreach := h.reach
  have hslot := h.slot
  have hlow := h.low
  have hhigh := h.high
  have htotal := h.total_eq
  have hoffset := h.offset_eq
  unfold total at htotal
  unfold analysisMargin at hreach hin
  unfold lead frameSamples at hslot
  have htables : ∀ e ∈ s.tables.dropWhile (fun e => e.1 < s.nextFrame + 1),
      e.2 = tableOf A offset stream e.1 := by
    intro e he
    exact h.tables_eq e ((List.dropWhile_sublist _).mem he)
  unfold advance center
  rw [hoffset]
  by_cases htrim : s.trimmed + 4096 < centerOf offset (s.nextFrame + 1) - (160 + 10)
  · have hfits : centerOf offset (s.nextFrame + 1) - (160 + 10) - s.trimmed ≤ s.raw.length := by
      omega
    refine ⟨_, (if_pos htrim).trans (if_pos hfits), ?_, rfl, rfl, rfl, rfl, rfl⟩
    constructor
    case begins => exact h.begins
    case offset_eq => exact hoffset
    case low => exact hlow
    case high => exact hhigh
    case raw_eq =>
      change s.raw.drop _ = fed.drop _
      rw [h.raw_eq, List.drop_drop]
      rfl
    case trimmed_le =>
      change s.trimmed + (centerOf offset (s.nextFrame + 1) - (160 + 10) - s.trimmed) ≤ _
      omega
    case reach =>
      change s.trimmed + (centerOf offset (s.nextFrame + 1) - (160 + 10) - s.trimmed) + 160 ≤
        centerOf offset (s.nextFrame + 1)
      omega
    case near =>
      change centerOf offset (s.nextFrame + 1) ≤
        s.trimmed + (centerOf offset (s.nextFrame + 1) - (160 + 10) - s.trimmed) + 4266
      omega
    case slot =>
      change s.trimmed + (centerOf offset (s.nextFrame + 1) - (160 + 10) - s.trimmed) ≤
        200 + (s.nextFrame + 1) * 160
      omega
    case tables_eq => exact htables
  · refine ⟨_, if_neg htrim, ?_, rfl, rfl, rfl, rfl, rfl⟩
    constructor
    case begins => exact h.begins
    case offset_eq => exact hoffset
    case low => exact hlow
    case high => exact hhigh
    case raw_eq => exact h.raw_eq
    case trimmed_le => exact h.trimmed_le
    case reach =>
      change s.trimmed + 160 ≤ centerOf offset (s.nextFrame + 1)
      omega
    case near =>
      change centerOf offset (s.nextFrame + 1) ≤ s.trimmed + 4266
      omega
    case slot =>
      change s.trimmed ≤ 200 + (s.nextFrame + 1) * 160
      omega
    case tables_eq => exact htables

/-- The next analysis is the whole stream's, and the analyzer goes on to the frame after it. -/
theorem nextAnalysis_eq (h : Follows A offset fed stream s) (hreal : s.hasRealFrame = true)
    (havail : s.available s.nextFrame = true) :
    ∃ t, s.nextAnalysis A =
        some (some (wholeAnalysis A offset stream s.nextFrame
          (pitchOf A offset stream s.nextFrame s.prevFirst s.prevSecond)), t) ∧
      Follows A offset fed stream t ∧ t.nextFrame = s.nextFrame + 1 ∧
      t.prevFirst = pitchOf A offset stream s.nextFrame s.prevFirst s.prevSecond ∧
      t.prevSecond = s.prevFirst ∧ t.realSamples = s.realSamples ∧ t.finished = s.finished := by
  have hin := (h.available_iff s.nextFrame).mp havail
  have hfirst := centerOf_eq offset s.nextFrame
  have hsecond := centerOf_eq offset (s.nextFrame + 1)
  have hthird := centerOf_eq offset (s.nextFrame + 2)
  -- the three tables, each built on what the one before left
  obtain ⟨tables1, heq1, -, hhas1, hright1⟩ :=
    h.table_eq (Nat.le_refl _) (by omega) (by omega)
  have h1 := h.with_tables hright1
  obtain ⟨tables2, heq2, hkeep2, hhas2, hright2⟩ :=
    h1.table_eq (k := s.nextFrame + 1) (Nat.le_succ _) (Nat.le_succ _) (by omega)
  have h2 := h1.with_tables hright2
  obtain ⟨tables3, heq3, hkeep3, hhas3, hright3⟩ :=
    h2.table_eq (k := s.nextFrame + 2) (Nat.le_add_right _ _) (Nat.le_refl _) hin
  have h3 := h2.with_tables hright3
  have hfind1 := h3.findTable_eq (k := s.nextFrame) (by
    obtain ⟨e, he, heq⟩ := hhas1
    exact ⟨e, hkeep3 e (hkeep2 e he), heq⟩)
  have hfind2 := h3.findTable_eq (k := s.nextFrame + 1) (by
    obtain ⟨e, he, heq⟩ := hhas2
    exact ⟨e, hkeep3 e he, heq⟩)
  have hfind3 := h3.findTable_eq hhas3
  have hrefine := h3.refine_eq hin (pitchOf A offset stream s.nextFrame s.prevFirst s.prevSecond)
  obtain ⟨t, hadvance, hfollows, hnext⟩ :=
    h3.advance_eq hin (pitchOf A offset stream s.nextFrame s.prevFirst s.prevSecond)
  refine ⟨t, ?_, hfollows, hnext⟩
  simp only [withTables_nextFrame] at hrefine hadvance
  have hpitch : initialPitch (tableOf A offset stream s.nextFrame)
      (tableOf A offset stream (s.nextFrame + 1)) (tableOf A offset stream (s.nextFrame + 2))
      s.prevFirst s.prevSecond = pitchOf A offset stream s.nextFrame s.prevFirst s.prevSecond :=
    rfl
  unfold nextAnalysis
  simp only [hreal, havail, heq1, heq2, heq3, hfind1, hfind2, hfind3, hpitch, hrefine, hadvance,
    Bool.not_true, Bool.or_self, Bool.false_eq_true, if_false, Option.bind_eq_bind,
    Option.bind_some, withTables_prevFirst, withTables_prevSecond]

/-- With too few samples, or none that are real, nothing happens. -/
theorem nextAnalysis_none (h : (s.hasRealFrame && s.available s.nextFrame) = false) :
    s.nextAnalysis A = some (none, s) := by
  unfold nextAnalysis
  apply if_pos
  revert h
  cases s.hasRealFrame <;> cases s.available s.nextFrame <;> decide

theorem new (samples : ℤ) (h : List.replicate lead 0 <+: stream) :
    Follows A (clampOffset samples) (List.replicate lead 0) stream
      (FrameAnalyzer.new.setCenterOffset samples) := by
  have hcenter := centerOf_eq (clampOffset samples) 0
  have hhigh : clampOffset samples ≤ 160 := max_le (by decide) (min_le_right _ _)
  constructor
  case begins => exact h
  case offset_eq => exact rfl
  case low => exact le_max_left _ _
  case high => exact hhigh
  case raw_eq => exact rfl
  case trimmed_le => exact Nat.zero_le _
  case reach =>
    change 0 + 160 ≤ centerOf _ 0
    omega
  case near =>
    change centerOf _ 0 ≤ 0 + 4266
    omega
  case slot => exact Nat.zero_le _
  case tables_eq =>
    intro e he
    cases he

/-- More samples at the end of the buffer are more of the stream. -/
theorem append (h : Follows A offset fed stream s) {samples : List ℤ} {t : FrameAnalyzer}
    (hbegins : fed ++ samples <+: stream) (hraw : t.raw = s.raw ++ samples)
    (htrimmed : t.trimmed = s.trimmed) (hnext : t.nextFrame = s.nextFrame)
    (hoffset : t.centerOffset = s.centerOffset) (htables : t.tables = s.tables) :
    Follows A offset (fed ++ samples) stream t where
  begins := hbegins
  offset_eq := hoffset.trans h.offset_eq
  low := h.low
  high := h.high
  raw_eq := by
    rw [hraw, htrimmed, h.raw_eq, List.drop_append_of_le_length h.trimmed_le]
  trimmed_le := by
    have hle := h.trimmed_le
    rw [List.length_append]
    omega
  reach := by
    rw [htrimmed, hnext]
    exact h.reach
  near := by
    rw [htrimmed, hnext]
    exact h.near
  slot := by
    rw [htrimmed, hnext]
    exact h.slot
  tables_eq := by
    rw [htables]
    exact h.tables_eq

theorem pushSamplesWide (h : Follows A offset fed stream s) {samples : List ℤ}
    (hbegins : fed ++ samples <+: stream) :
    Follows A offset (fed ++ samples) stream (s.pushSamplesWide samples) :=
  h.append hbegins rfl rfl rfl rfl rfl

theorem finishInput (h : Follows A offset fed stream s) (hopen : s.finished = false)
    (hbegins : fed ++ List.replicate tail 0 <+: stream) :
    Follows A offset (fed ++ List.replicate tail 0) stream s.finishInput := by
  rw [finishInput_of_open hopen]
  exact h.append hbegins rfl rfl rfl rfl rfl

end Follows

/-! ### How far the analyzer can go -/

/-- What of the samples there have been is left after the next centre. -/
def room (s : FrameAnalyzer) : ℕ :=
  ((s.total : ℤ) - s.centerOffset - 160 * s.nextFrame).toNat

theorem table_withTables {k : ℕ} {t : FrameAnalyzer} (h : s.table A k = some t) :
    ∃ tables, t = s.withTables tables := by
  unfold table at h
  split at h
  · cases h
    exact ⟨s.tables, rfl⟩
  · obtain ⟨_, _, h⟩ := Option.bind_eq_some_iff.mp h
    obtain ⟨_, _, h⟩ := Option.bind_eq_some_iff.mp h
    cases h
    exact ⟨_, rfl⟩

theorem advance_room {k : ℕ} {initial : ℕ × ℤ} {t : FrameAnalyzer}
    (h : s.advance k initial = some t) :
    t.total = s.total ∧ t.centerOffset = s.centerOffset ∧ t.nextFrame = s.nextFrame + 1 := by
  unfold advance trim at h
  split at h
  · split at h
    · rename_i htrim hfits
      cases h
      refine ⟨?_, rfl, rfl⟩
      change s.trimmed + _ + (s.raw.drop _).length = s.trimmed + s.raw.length
      rw [List.length_drop]
      change _ ≤ s.raw.length at hfits
      omega
    · cases h
  · cases h
    exact ⟨rfl, rfl, rfl⟩

/-- Every analysis leaves less room. -/
theorem nextAnalysis_room {analysis : FrameAnalysis Spectrum} {t : FrameAnalyzer}
    (h : s.nextAnalysis A = some (some analysis, t)) : t.room < s.room := by
  unfold nextAnalysis at h
  dsimp only at h
  split at h
  · cases h
  · rename_i hgo
    have havail : s.available s.nextFrame = true := by
      revert hgo
      cases s.available s.nextFrame <;> simp
    have hreach : s.center (s.nextFrame + 2) + analysisMargin < s.total :=
      of_decide_eq_true havail
    have hcenter := centerOf_eq s.centerOffset (s.nextFrame + 2)
    unfold center at hreach
    obtain ⟨s1, h1, h⟩ := Option.bind_eq_some_iff.mp h
    obtain ⟨s2, h2, h⟩ := Option.bind_eq_some_iff.mp h
    obtain ⟨s3, h3, h⟩ := Option.bind_eq_some_iff.mp h
    obtain ⟨_, _, h⟩ := Option.bind_eq_some_iff.mp h
    obtain ⟨_, _, h⟩ := Option.bind_eq_some_iff.mp h
    obtain ⟨_, _, h⟩ := Option.bind_eq_some_iff.mp h
    obtain ⟨_, _, h⟩ := Option.bind_eq_some_iff.mp h
    obtain ⟨last, hlast, h⟩ := Option.bind_eq_some_iff.mp h
    cases h
    obtain ⟨tables1, rfl⟩ := table_withTables h1
    obtain ⟨tables2, rfl⟩ := table_withTables h2
    obtain ⟨tables3, rfl⟩ := table_withTables h3
    obtain ⟨htotal, hoffset, hnext⟩ := advance_room hlast
    change t.total = s.total at htotal
    change t.centerOffset = s.centerOffset at hoffset
    change t.nextFrame = s.nextFrame + 1 at hnext
    unfold room
    rw [htotal, hoffset, hnext]
    omega

end FrameAnalyzer

end

end HamsOpen.Ambe.Stream
