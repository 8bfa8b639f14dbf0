import HamsOpen.Ambe.FrameAnalyzer
import HamsOpen.Lib.Loop
import Mathlib.Tactic.Linarith

/-!
# The streaming encoder

`Encoder` of `encoder.rs`: samples go through the high-pass filter into the analyzer, frames come
out when they can, and at the end silence brings out the rest.
-/

namespace HamsOpen.Ambe.Stream

/-! ### The high-pass filter -/

structure HighPassFilter where
  prevInput : ℤ
  prevOutputQ16 : ℤ
  deriving DecidableEq

/-- `0.99` in Q30. -/
def highPassPoleQ30 : ℤ := (99 * 2 ^ 30 + 50) / 100

namespace HighPassFilter

def default : HighPassFilter := ⟨0, 0⟩

def feedback (f : HighPassFilter) : ℤ := (f.prevOutputQ16 * highPassPoleQ30 + 2 ^ 29) / 2 ^ 30

def outputQ16 (f : HighPassFilter) (x : ℤ) : ℤ := (x - f.prevInput) * 2 ^ 16 + f.feedback

def step (f : HighPassFilter) (x : ℤ) : ℤ × HighPassFilter :=
  ((f.outputQ16 x + 2 ^ 15) / 2 ^ 16, ⟨x, f.outputQ16 x⟩)

def steps (f : HighPassFilter) : List Int16 → List ℤ × HighPassFilter
  | [] => ([], f)
  | x :: xs =>
    let y := f.step x.toInt
    let ys := steps y.2 xs
    (y.1 :: ys.1, ys.2)

/-- Filtering in two pieces is filtering at once. -/
theorem steps_append (f : HighPassFilter) (xs ys : List Int16) :
    f.steps (xs ++ ys) = ((f.steps xs).1 ++ ((f.steps xs).2.steps ys).1,
      ((f.steps xs).2.steps ys).2) := by
  induction xs generalizing f with
  | nil => rfl
  | cons x xs ih =>
    change (_ :: ((f.step x.toInt).2.steps (xs ++ ys)).1,
      ((f.step x.toInt).2.steps (xs ++ ys)).2) = _
    rw [ih]
    rfl

theorem steps_length (f : HighPassFilter) (xs : List Int16) :
    (f.steps xs).1.length = xs.length := by
  induction xs generalizing f with
  | nil => rfl
  | cons x xs ih => exact congrArg (· + 1) (ih _)

/-- The output stays near the input, so that nothing overflows. -/
def Bounded (f : HighPassFilter) : Prop :=
  -2 ^ 15 ≤ f.prevInput ∧ f.prevInput < 2 ^ 15 ∧
    -(2 ^ 31 + 128) ≤ f.prevOutputQ16 - f.prevInput * 2 ^ 16 ∧
    f.prevOutputQ16 - f.prevInput * 2 ^ 16 ≤ 2 ^ 31 + 128

theorem default_bounded : default.Bounded := by
  unfold Bounded default
  decide

/-- On 16-bit samples the product of the feedback is within `i64` and the output within `i32`. -/
theorem step_fits {f : HighPassFilter} (h : f.Bounded) (x : Int16) :
    (-2 ^ 63 ≤ f.prevOutputQ16 * highPassPoleQ30 + 2 ^ 29 ∧
      f.prevOutputQ16 * highPassPoleQ30 + 2 ^ 29 < 2 ^ 63) ∧
    (-2 ^ 31 ≤ (f.step x.toInt).1 ∧ (f.step x.toInt).1 < 2 ^ 31) ∧
    (f.step x.toInt).2.Bounded := by
  have hlow := Int16.le_toInt x
  have hhigh := Int16.toInt_lt x
  obtain ⟨hin, hin', hout, hout'⟩ := h
  have hpole : highPassPoleQ30 = 1063004406 := by decide
  have hfeedback : f.feedback = (f.prevOutputQ16 * 1063004406 + 2 ^ 29) / 2 ^ 30 := by
    unfold feedback
    rw [hpole]
  unfold Bounded
  change _ ∧ (-2 ^ 31 ≤ (((x.toInt - f.prevInput) * 2 ^ 16 + f.feedback) + 2 ^ 15) / 2 ^ 16 ∧
    (((x.toInt - f.prevInput) * 2 ^ 16 + f.feedback) + 2 ^ 15) / 2 ^ 16 < 2 ^ 31) ∧
    -2 ^ 15 ≤ x.toInt ∧ x.toInt < 2 ^ 15 ∧
    -(2 ^ 31 + 128) ≤ ((x.toInt - f.prevInput) * 2 ^ 16 + f.feedback) - x.toInt * 2 ^ 16 ∧
    ((x.toInt - f.prevInput) * 2 ^ 16 + f.feedback) - x.toInt * 2 ^ 16 ≤ 2 ^ 31 + 128
  rw [hpole, hfeedback]
  omega

end HighPassFilter

/-! ### The encoder -/

structure Encoder (State Code : Type) where
  highPass : HighPassFilter
  analyzer : FrameAnalyzer
  state : State
  lastFrame : Option Code
  failedFrames : ℕ

section

variable {Spectrum State Code : Type} (A : Arithmetic Spectrum State Code)

namespace Encoder

def new : Encoder State Code where
  highPass := HighPassFilter.default
  analyzer := FrameAnalyzer.new
  state := A.initial
  lastFrame := none
  failedFrames := 0

def setCenterOffset (e : Encoder State Code) (samples : ℤ) : Encoder State Code :=
  { e with analyzer := e.analyzer.setCenterOffset samples }

def pushSamples (e : Encoder State Code) (samples : List Int16) : Encoder State Code :=
  let filtered := e.highPass.steps samples
  { e with highPass := filtered.2, analyzer := e.analyzer.pushSamplesWide filtered.1 }

/-- Encodes an analysed frame; if that fails the last frame is sent again. -/
def encode (e : Encoder State Code) (a : FrameAnalysis Spectrum) : Code × Encoder State Code :=
  match A.encodeFrame a.refinement a.pitch a.initialPitchErrorQ16 e.state false with
  | some (c, next) => (c, { e with state := next, lastFrame := some c })
  | none => (e.lastFrame.getD A.zeros, { e with failedFrames := e.failedFrames + 1 })

/-- The next frame, if there are samples enough for it. -/
def nextFrame (e : Encoder State Code) : Option (Option Code × Encoder State Code) :=
  match e.analyzer.nextAnalysis A with
  | none => none
  | some (none, s) => some (none, { e with analyzer := s })
  | some (some a, s) =>
    let coded := ({ e with analyzer := s }).encode A a
    some (some coded.1, coded.2)

/-- One round of the draining: another frame, or the end. -/
def drainBody (e : Encoder State Code × List Code) :
    (Encoder State Code × List Code) ⊕ Option (List Code × Encoder State Code) :=
  match e.1.nextFrame A with
  | none => .inr none
  | some (none, next) => .inr (some (e.2, next))
  | some (some f, next) => .inl (next, e.2 ++ [f])

theorem encode_analyzer (e : Encoder State Code) (a : FrameAnalysis Spectrum) :
    (e.encode A a).2.analyzer = e.analyzer := by
  unfold encode
  split <;> rfl

theorem nextFrame_room {e next : Encoder State Code} {f : Code}
    (h : e.nextFrame A = some (some f, next)) : next.analyzer.room < e.analyzer.room := by
  unfold nextFrame at h
  split at h
  · cases h
  · cases h
  · rename_i a s hanalysis
    cases h
    rw [encode_analyzer]
    exact FrameAnalyzer.nextAnalysis_room hanalysis

/-- The frames that are left. -/
def drain : Loop (Encoder State Code × List Code) (Option (List Code × Encoder State Code)) where
  body := drainBody A
  size e := e.1.analyzer.room
  shrinks {e next} h := by
    unfold drainBody at h
    split at h
    · cases h
    · cases h
    · rename_i hnext
      cases h
      exact nextFrame_room A hnext

/-- Pads with silence and gives the frames that are left. -/
def finish (e : Encoder State Code) : Option (List Code × Encoder State Code) :=
  (drain A).run ({ e with analyzer := e.analyzer.finishInput }, [])

/-- What is done with an encoder. -/
inductive Act where
  | push (samples : List Int16)
  | pull

def Act.samples : Act → List Int16
  | push samples => samples
  | pull => []

def pushed (acts : List Act) : List Int16 := acts.flatMap Act.samples

def act (e : Encoder State Code) : Act → Option (List Code × Encoder State Code)
  | .push samples => some ([], e.pushSamples samples)
  | .pull => (e.nextFrame A).map fun r => (r.1.toList, r.2)

/-- The frames of a run, and the encoder after it. -/
def run (e : Encoder State Code) : List Act → Option (List Code × Encoder State Code)
  | [] => some ([], e)
  | a :: acts => do
    let first ← e.act A a
    let rest ← run first.2 acts
    some (first.1 ++ rest.1, rest.2)

end Encoder

/-! ### The frames of the whole stream -/

/-- The samples between the silence before them and the silence after them. -/
def paddedStream (samples : List Int16) : List ℤ :=
  List.replicate lead 0 ++ (HighPassFilter.default.steps samples).1 ++ List.replicate tail 0

/-- What the frames before a frame leave for it. -/
structure Track (State Code : Type) where
  prevFirst : ℕ × ℤ
  prevSecond : ℕ × ℤ
  state : State
  lastFrame : Option Code
  failedFrames : ℕ

/-- Frame `k` of the stream, and what it leaves. -/
def Track.step (offset : ℤ) (stream : List ℤ) (k : ℕ) (t : Track State Code) :
    Code × Track State Code :=
  let pitch := pitchOf A offset stream k t.prevFirst t.prevSecond
  let a := wholeAnalysis A offset stream k pitch
  match A.encodeFrame a.refinement a.pitch a.initialPitchErrorQ16 t.state false with
  | some (c, next) => (c, ⟨pitch, t.prevFirst, next, some c, t.failedFrames⟩)
  | none => (t.lastFrame.getD A.zeros,
      ⟨pitch, t.prevFirst, t.state, t.lastFrame, t.failedFrames + 1⟩)

def track (offset : ℤ) (stream : List ℤ) : ℕ → Track State Code
  | 0 => ⟨(defaultPitchIndex, 0), (defaultPitchIndex, 0), A.initial, none, 0⟩
  | k + 1 => ((track offset stream k).step A offset stream k).2

/-- Frame `k` of the stream, encoded after those before it. -/
def frameAt (offset : ℤ) (stream : List ℤ) (k : ℕ) : Code :=
  ((track A offset stream k).step A offset stream k).1

/-- How many frames have their centre before the end of so many samples. -/
def frameCount (offset : ℤ) (n : ℕ) : ℕ := (((n : ℤ) - offset + 159) / 160).toNat

theorem lt_frameCount_iff (offset : ℤ) (n k : ℕ) :
    k < frameCount offset n ↔ centerOf offset k < lead + n := by
  have hcenter := centerOf_eq offset k
  unfold frameCount lead
  omega

/-- The frames of the samples, all at once. -/
def wholeFrames (offset : ℤ) (samples : List Int16) : List Code :=
  (List.range (frameCount offset samples.length)).map
    (frameAt A offset (paddedStream samples))

/-! ### The encoder and the stream -/

namespace Encoder

def track (e : Encoder State Code) : Track State Code :=
  ⟨e.analyzer.prevFirst, e.analyzer.prevSecond, e.state, e.lastFrame, e.failedFrames⟩

/-- The encoder has been given the stream `fed`, which begins the whole stream, and is where the
frames taken so far leave it. -/
structure Follows (offset : ℤ) (fed stream : List ℤ) (e : Encoder State Code) : Prop where
  analyzer : e.analyzer.Follows A offset fed stream
  track_eq : e.track = Stream.track A offset stream e.analyzer.nextFrame
  length_eq : fed.length =
    lead + e.analyzer.realSamples + if e.analyzer.finished then tail else 0
  taken : ∀ k < e.analyzer.nextFrame, centerOf offset k < lead + e.analyzer.realSamples

variable {A} {offset : ℤ} {fed stream : List ℤ} {e : Encoder State Code}

/-- Encoding the analysis of a frame of the stream is the stream's step. -/
theorem encode_eq {k : ℕ} {s : FrameAnalyzer}
    (hfirst : s.prevFirst = pitchOf A offset stream k e.analyzer.prevFirst e.analyzer.prevSecond)
    (hsecond : s.prevSecond = e.analyzer.prevFirst) :
    ∃ next, ({ e with analyzer := s }).encode A (wholeAnalysis A offset stream k
        (pitchOf A offset stream k e.analyzer.prevFirst e.analyzer.prevSecond)) =
        ((e.track.step A offset stream k).1, next) ∧
      next.track = (e.track.step A offset stream k).2 ∧ next.analyzer = s ∧
      next.highPass = e.highPass := by
  unfold encode Track.step track
  dsimp only
  cases A.encodeFrame _ _ _ e.state false with
  | none =>
    refine ⟨_, rfl, ?_, rfl, rfl⟩
    dsimp only
    rw [hfirst, hsecond]
  | some coded =>
    refine ⟨_, rfl, ?_, rfl, rfl⟩
    dsimp only
    rw [hfirst, hsecond]

namespace Follows

theorem hasRealFrame_iff (h : Follows A offset fed stream e) (hdone : e.analyzer.finished = true) :
    e.analyzer.hasRealFrame = true ↔
      centerOf offset e.analyzer.nextFrame < lead + e.analyzer.realSamples := by
  unfold FrameAnalyzer.hasRealFrame FrameAnalyzer.center
  rw [hdone, h.analyzer.offset_eq, Bool.not_true, Bool.false_or, decide_eq_true_iff]

/-- A frame that comes out has its centre among the samples. -/
theorem center_lt (h : Follows A offset fed stream e) (hreal : e.analyzer.hasRealFrame = true)
    (havail : e.analyzer.available e.analyzer.nextFrame = true) :
    centerOf offset e.analyzer.nextFrame < lead + e.analyzer.realSamples := by
  cases hdone : e.analyzer.finished with
  | true => exact (h.hasRealFrame_iff hdone).mp hreal
  | false =>
    have hin := (h.analyzer.available_iff _).mp havail
    have hlength := h.length_eq
    have hfirst := centerOf_eq offset e.analyzer.nextFrame
    have hthird := centerOf_eq offset (e.analyzer.nextFrame + 2)
    rw [hdone] at hlength
    change fed.length = lead + e.analyzer.realSamples + 0 at hlength
    omega

/-- With samples enough, the next frame of the stream comes out. -/
theorem nextFrame_eq (h : Follows A offset fed stream e)
    (hgo : (e.analyzer.hasRealFrame && e.analyzer.available e.analyzer.nextFrame) = true) :
    ∃ next, e.nextFrame A = some (some (frameAt A offset stream e.analyzer.nextFrame), next) ∧
      Follows A offset fed stream next ∧
      next.analyzer.nextFrame = e.analyzer.nextFrame + 1 ∧ next.highPass = e.highPass ∧
      next.analyzer.realSamples = e.analyzer.realSamples ∧
      next.analyzer.finished = e.analyzer.finished := by
  obtain ⟨hreal, havail⟩ := Bool.and_eq_true_iff.mp hgo
  obtain ⟨s, hanalysis, hfollows, hnext, hfirst, hsecond, hsamples, hfinished⟩ :=
    h.analyzer.nextAnalysis_eq hreal havail
  obtain ⟨next, hcoded, htrack, hanalyzer, hfilter⟩ := encode_eq hfirst hsecond
  refine ⟨next, ?_, ?_, ?_, hfilter, ?_, ?_⟩
  · unfold nextFrame
    rw [hanalysis]
    dsimp only
    rw [hcoded, h.track_eq]
    rfl
  · constructor
    case analyzer =>
      rw [hanalyzer]
      exact hfollows
    case track_eq =>
      rw [htrack, h.track_eq, hanalyzer, hnext]
      rfl
    case length_eq =>
      rw [hanalyzer, hsamples, hfinished]
      exact h.length_eq
    case taken =>
      -- the frame just taken has its centre among the samples too
      intro k hk
      rw [hanalyzer, hnext] at hk
      rw [hanalyzer, hsamples]
      rcases Nat.lt_succ_iff_lt_or_eq.mp hk with hold | rfl
      · exact h.taken k hold
      · exact h.center_lt hreal havail
  · rw [hanalyzer, hnext]
  · rw [hanalyzer, hsamples]
  · rw [hanalyzer, hfinished]

/-- Otherwise nothing happens. -/
theorem nextFrame_none
    (hstop : (e.analyzer.hasRealFrame && e.analyzer.available e.analyzer.nextFrame) = false) :
    e.nextFrame A = some (none, e) := by
  unfold nextFrame
  rw [FrameAnalyzer.Follows.nextAnalysis_none hstop]

theorem pushSamples (h : Follows A offset fed stream e) (hopen : e.analyzer.finished = false)
    {samples : List Int16} (hbegins : fed ++ (e.highPass.steps samples).1 <+: stream) :
    Follows A offset (fed ++ (e.highPass.steps samples).1) stream (e.pushSamples samples) := by
  have hlength := h.length_eq
  rw [hopen] at hlength
  constructor
  case analyzer => exact h.analyzer.pushSamplesWide hbegins
  case track_eq => exact h.track_eq
  case length_eq =>
    change _ = lead + (e.analyzer.realSamples + (e.highPass.steps samples).1.length) +
      if e.analyzer.finished then tail else 0
    rw [hopen, List.length_append, hlength]
    change lead + e.analyzer.realSamples + 0 + _ = lead + (e.analyzer.realSamples + _) + 0
    omega
  case taken =>
    intro k hk
    have hold := h.taken k hk
    change _ < lead + (e.analyzer.realSamples + _)
    omega

theorem finishInput (h : Follows A offset fed stream e) (hopen : e.analyzer.finished = false)
    (hbegins : fed ++ List.replicate tail 0 <+: stream) :
    Follows A offset (fed ++ List.replicate tail 0) stream
      { e with analyzer := e.analyzer.finishInput } := by
  have hlength := h.length_eq
  have hanalyzer := h.analyzer.finishInput hopen hbegins
  rw [hopen] at hlength
  rw [FrameAnalyzer.finishInput_of_open hopen] at hanalyzer ⊢
  constructor
  case analyzer => exact hanalyzer
  case track_eq => exact h.track_eq
  case length_eq =>
    rw [List.length_append, List.length_replicate, hlength]
    rfl
  case taken => exact h.taken

/-- After the end a frame whose centre is among the samples can be taken. -/
theorem go_iff (h : Follows A offset fed stream e) (hdone : e.analyzer.finished = true) :
    (e.analyzer.hasRealFrame && e.analyzer.available e.analyzer.nextFrame) = true ↔
      e.analyzer.nextFrame < frameCount offset e.analyzer.realSamples := by
  rw [Bool.and_eq_true_iff, h.hasRealFrame_iff hdone, h.analyzer.available_iff, lt_frameCount_iff]
  have hlength := h.length_eq
  have hfirst := centerOf_eq offset e.analyzer.nextFrame
  have hthird := centerOf_eq offset (e.analyzer.nextFrame + 2)
  rw [hdone] at hlength
  change fed.length = lead + e.analyzer.realSamples + 800 at hlength
  change _ ∧ _ + 160 < _ ↔ _
  omega

/-- Draining gives the frames that are left. -/
theorem drain_eq (h : Follows A offset fed stream e) (hdone : e.analyzer.finished = true)
    (out : List Code) :
    ∃ last, (drain A).run (e, out) = some (out ++ (List.range' e.analyzer.nextFrame
        (frameCount offset e.analyzer.realSamples - e.analyzer.nextFrame)).map
          (frameAt A offset stream), last) ∧
      last.nextFrame A = some (none, last) := by
  revert h hdone
  refine Loop.induct (L := drain A) (P := fun s r => Follows A offset fed stream s.1 →
    s.1.analyzer.finished = true → ∃ last, r = some (s.2 ++ (List.range' s.1.analyzer.nextFrame
      (frameCount offset s.1.analyzer.realSamples - s.1.analyzer.nextFrame)).map
        (frameAt A offset stream), last) ∧ last.nextFrame A = some (none, last))
    ?hbreak ?hnext (e, out)
  case hbreak =>
    rintro ⟨e, out⟩ r hbody h hdone
    change drainBody A (e, out) = .inr r at hbody
    replace h : Follows A offset fed stream e := h
    have hiff := h.go_iff hdone
    cases hgo : e.analyzer.hasRealFrame && e.analyzer.available e.analyzer.nextFrame with
    | true =>
      obtain ⟨next, hnext, -⟩ := h.nextFrame_eq hgo
      unfold drainBody at hbody
      rw [hnext] at hbody
      cases hbody
    | false =>
      have hnone := Follows.nextFrame_none (A := A) hgo
      unfold drainBody at hbody
      rw [hnone] at hbody
      cases hbody
      rw [hgo] at hiff
      have hover : frameCount offset e.analyzer.realSamples - e.analyzer.nextFrame = 0 := by
        have hnot : ¬ e.analyzer.nextFrame < frameCount offset e.analyzer.realSamples :=
          fun hlt => nomatch hiff.mpr hlt
        omega
      refine ⟨e, ?_, hnone⟩
      change _ = some (out ++ (List.range' _ (_ - _)).map _, e)
      rw [hover, List.range'_zero, List.map_nil, List.append_nil]
  case hnext =>
    rintro ⟨e, out⟩ ⟨next, more⟩ r hbody ih h hdone
    change drainBody A (e, out) = .inl (next, more) at hbody
    replace h : Follows A offset fed stream e := h
    have hiff := h.go_iff hdone
    cases hgo : e.analyzer.hasRealFrame && e.analyzer.available e.analyzer.nextFrame with
    | false =>
      have hnone := Follows.nextFrame_none (A := A) hgo
      unfold drainBody at hbody
      rw [hnone] at hbody
      cases hbody
    | true =>
      obtain ⟨t, ht, hfollows, hnumber, -, hsamples, hfinished⟩ := h.nextFrame_eq hgo
      unfold drainBody at hbody
      rw [ht] at hbody
      cases hbody
      obtain ⟨last, hr, hend⟩ := ih hfollows (hfinished.trans hdone)
      have hlt := hiff.mp hgo
      have hcount : frameCount offset e.analyzer.realSamples - e.analyzer.nextFrame =
          frameCount offset e.analyzer.realSamples - (e.analyzer.nextFrame + 1) + 1 := by
        omega
      refine ⟨last, ?_, hend⟩
      rw [hr]
      dsimp only
      rw [hnumber, hsamples, hcount, List.range'_succ, List.map_cons, List.append_assoc]
      rfl

/-- The end brings out the frames that are left. -/
theorem finish_eq (h : Follows A offset fed stream e) (hopen : e.analyzer.finished = false)
    (hbegins : fed ++ List.replicate tail 0 <+: stream) :
    ∃ last, e.finish A = some ((List.range' e.analyzer.nextFrame
        (frameCount offset e.analyzer.realSamples - e.analyzer.nextFrame)).map
          (frameAt A offset stream), last) ∧
      last.nextFrame A = some (none, last) := by
  have hpadded := h.finishInput hopen hbegins
  unfold finish
  rw [FrameAnalyzer.finishInput_of_open hopen] at hpadded ⊢
  exact hpadded.drain_eq rfl []

/-- No more frames are taken than there are. -/
theorem taken_le (h : Follows A offset fed stream e) :
    e.analyzer.nextFrame ≤ frameCount offset e.analyzer.realSamples := by
  by_contra hmore
  push Not at hmore
  have hcenter := h.taken _ hmore
  rw [← lt_frameCount_iff] at hcenter
  omega

/-- A run keeps to the stream: the frames it gives are the next ones, in order. -/
theorem run_eq (acts : List Act) {samples : List Int16}
    (h : Follows A offset (List.replicate lead 0 ++ (HighPassFilter.default.steps samples).1)
      stream e)
    (hopen : e.analyzer.finished = false)
    (hfilter : e.highPass = (HighPassFilter.default.steps samples).2)
    (hbegins : List.replicate lead 0 ++
      (HighPassFilter.default.steps (samples ++ pushed acts)).1 <+: stream) :
    ∃ n last, e.run A acts =
        some ((List.range' e.analyzer.nextFrame n).map (frameAt A offset stream), last) ∧
      last.analyzer.nextFrame = e.analyzer.nextFrame + n ∧
      last.analyzer.finished = false ∧
      Follows A offset (List.replicate lead 0 ++
        (HighPassFilter.default.steps (samples ++ pushed acts)).1) stream last := by
  induction acts generalizing e samples with
  | nil =>
    refine ⟨0, e, rfl, rfl, hopen, ?_⟩
    have hnil : samples ++ pushed [] = samples := List.append_nil samples
    rw [hnil]
    exact h
  | cons a acts ih =>
    cases a with
    | push xs =>
      have hpushed : samples ++ pushed (.push xs :: acts) = samples ++ xs ++ pushed acts := by
        rw [List.append_assoc]
        rfl
      rw [hpushed] at hbegins ⊢
      have hfed : List.replicate lead 0 ++ (HighPassFilter.default.steps samples).1 ++
          (e.highPass.steps xs).1 =
          List.replicate lead 0 ++ (HighPassFilter.default.steps (samples ++ xs)).1 := by
        rw [hfilter, HighPassFilter.steps_append, List.append_assoc]
      have hprefix : List.replicate lead 0 ++
          (HighPassFilter.default.steps (samples ++ xs)).1 <+: stream := by
        apply List.IsPrefix.trans _ hbegins
        rw [HighPassFilter.steps_append _ (samples ++ xs)]
        exact ⟨_, List.append_assoc _ _ _⟩
      have hpush := h.pushSamples hopen (by rw [hfed]; exact hprefix)
      rw [hfed] at hpush
      have hnewFilter : (e.pushSamples xs).highPass =
          (HighPassFilter.default.steps (samples ++ xs)).2 := by
        change (e.highPass.steps xs).2 = _
        rw [hfilter, HighPassFilter.steps_append]
      obtain ⟨n, last, hrun, hrest⟩ := ih hpush hopen hnewFilter hbegins
      refine ⟨n, last, ?_, hrest⟩
      change (Encoder.run A _ acts).bind _ = _
      rw [hrun]
      rfl
    | pull =>
      have hpushed : pushed (.pull :: acts) = pushed acts := rfl
      rw [hpushed] at hbegins ⊢
      cases hgo : e.analyzer.hasRealFrame && e.analyzer.available e.analyzer.nextFrame with
      | false =>
        have hnone := Follows.nextFrame_none (A := A) hgo
        obtain ⟨n, last, hrun, hrest⟩ := ih h hopen hfilter hbegins
        refine ⟨n, last, ?_, hrest⟩
        unfold run act
        rw [hnone]
        change (Encoder.run A _ acts).bind _ = _
        rw [hrun]
        rfl
      | true =>
        obtain ⟨next, hnext, hfollows, hnumber, hsame, -, hfinished⟩ := h.nextFrame_eq hgo
        obtain ⟨n, last, hrun, hlast, hrest⟩ :=
          ih hfollows (hfinished.trans hopen) (hsame.trans hfilter) hbegins
        refine ⟨n + 1, last, ?_, ?_, hrest⟩
        · unfold run act
          rw [hnext]
          change (Encoder.run A _ acts).bind _ = _
          rw [hrun, hnumber, List.range'_succ]
          rfl
        · rw [hlast, hnumber]
          omega

theorem new (samples : ℤ) (h : List.replicate lead 0 <+: stream) :
    Follows A (clampOffset samples) (List.replicate lead 0) stream
      ((Encoder.new A).setCenterOffset samples) where
  analyzer := FrameAnalyzer.Follows.new samples h
  track_eq := rfl
  length_eq := List.length_replicate
  taken := fun k hk => absurd hk (Nat.not_lt_zero k)

end Follows

variable (A)

/-- However the samples are pushed and the frames pulled, nothing is out of range, and the frames
are those of the whole stream, one for each centre before the end of the samples. -/
theorem frames_of_stream (offset : ℤ) (acts : List Act) :
    ∃ pulled e rest last,
      ((new A).setCenterOffset offset).run A acts = some (pulled, e) ∧
      e.finish A = some (rest, last) ∧
      pulled ++ rest = wholeFrames A (clampOffset offset) (pushed acts) ∧
      (∀ k, k < (pulled ++ rest).length ↔
        centerOf (clampOffset offset) k < lead + (pushed acts).length) ∧
      last.nextFrame A = some (none, last) := by
  have hstream : List.replicate lead (0 : ℤ) ++ (HighPassFilter.default.steps (pushed acts)).1 <+:
      paddedStream (pushed acts) := ⟨_, rfl⟩
  have hstart := Follows.new (A := A) offset
    ((List.prefix_append _ _).trans hstream)
  have hempty : List.replicate lead (0 : ℤ) ++ (HighPassFilter.default.steps []).1 =
      List.replicate lead 0 := List.append_nil _
  have hstart : Follows A (clampOffset offset)
      (List.replicate lead 0 ++ (HighPassFilter.default.steps []).1) _ _ := hempty.symm ▸ hstart
  obtain ⟨n, e, hrun, hnumber, hopen, hfollows⟩ := hstart.run_eq acts rfl rfl hstream
  obtain ⟨last, hfinish, hend⟩ := hfollows.finish_eq hopen (List.prefix_refl _)
  have hlength := hfollows.length_eq
  have hle := hfollows.taken_le
  rw [hopen, List.length_append, List.length_replicate, HighPassFilter.steps_length] at hlength
  change lead + (pushed acts).length = lead + e.analyzer.realSamples + 0 at hlength
  have hsamples : e.analyzer.realSamples = (pushed acts).length := by omega
  have hnext : e.analyzer.nextFrame = n := hnumber.trans (Nat.zero_add n)
  rw [hsamples, hnext] at hfinish hle
  change _ = some ((List.range' 0 n).map _, e) at hrun
  have hrange := List.range'_append_1 (s := 0) (m := n)
    (n := frameCount (clampOffset offset) (pushed acts).length - n)
  rw [Nat.zero_add, Nat.add_sub_cancel' hle] at hrange
  refine ⟨_, e, _, last, hrun, hfinish, ?_, ?_, hend⟩
  · unfold wholeFrames
    rw [← List.map_append, hrange, List.range_eq_range']
  · intro k
    rw [← List.map_append, hrange, List.length_map, List.length_range']
    exact lt_frameCount_iff _ _ _

/-- The arithmetic of silence: every pitch is as bad, and nothing is encoded. -/
def silentArithmetic : Arithmetic Unit Unit Unit where
  errorTable := fun _ _ => oneQ16
  refinement := fun _ => ()
  refinementError := fun _ _ => 0
  refinementError_lt := fun _ _ => by decide
  encodeFrame := fun _ _ _ _ _ => none
  initial := ()
  zeros := ()

/-- An encoder that is given nothing gives no frame, though the silence at the end goes on past the
first centre. -/
theorem no_frame_in_padding :
    (∃ last, (new silentArithmetic).finish silentArithmetic = some ([], last)) ∧
      centerOf 0 0 < (paddedStream []).length := by
  constructor
  · exact ⟨_, Loop.run_of_break rfl⟩
  · decide +kernel

end Encoder

end

end HamsOpen.Ambe.Stream
