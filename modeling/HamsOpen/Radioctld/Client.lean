import HamsOpen.Lib.Delimited
import HamsOpen.Lib.Machine
import HamsOpen.Lib.Utf8
import Mathlib.Data.List.TakeWhile

/-!
# The lines of a client

The task of a client reads what has arrived, cuts it into lines and answers them one after another
(`command.rs`, `server.rs`). A line that is too long ends the connection, and so does a silence: a
line in progress has to be complete within one time, and without one a client may be silent for
another. What the service makes of a line, how long that takes and whether the answer can be written
are not known here.
-/

namespace HamsOpen.Radioctld.Client

/-- A line from a client. -/
inductive Line
  | text (text : String)
  /-- Not text: invalid UTF-8 or a control character. -/
  | invalid
  deriving DecidableEq

/-- A control character of Unicode. -/
def isControl (c : Char) : Bool := c.toNat < 0x20 || 0x7f ≤ c.toNat && c.toNat < 0xa0

def intoLine (bytes : List UInt8) : Line :=
  match Utf8.ofBytes bytes with
  | some text =>
    if text.toList.all fun c => !isControl c || c = '\t' then .text text else .invalid
  | none => .invalid

/-- The bytes of a line without a carriage return at their end. -/
def stripReturn (bytes : List UInt8) : List UInt8 :=
  if bytes.getLast? = some 13 then bytes.dropLast else bytes

def isNewline (b : UInt8) : Bool := b = 10

/-- The start of a line, of no more bytes than a line may have. -/
structure LineBuffer (max : ℕ) where
  pending : List UInt8
  short : pending.length ≤ max
  clear : ∀ b ∈ pending, isNewline b = false

namespace LineBuffer

variable {max : ℕ}

def new (max : ℕ) : LineBuffer max := ⟨[], Nat.zero_le max, nofun⟩

def hasPartial (buffer : LineBuffer max) : Bool := !buffer.pending.isEmpty

/-- One byte that is no newline, if there is room for it. -/
def add (buffer : LineBuffer max) (b : UInt8) (hb : isNewline b = false) :
    Option (LineBuffer max) :=
  if h : buffer.pending.length < max then
    some ⟨buffer.pending ++ [b], by rw [List.length_append]; exact h, by
      intro c hc
      obtain hc | hc := List.mem_append.mp hc
      · exact buffer.clear c hc
      · rw [List.mem_singleton.mp hc, hb]⟩
  else none

/-- Adds received bytes, and gives the lines that they complete, or nothing when a line is too long.
-/
def push (buffer : LineBuffer max) : List UInt8 → Option (List Line × LineBuffer max)
  | [] => some ([], buffer)
  | b :: bytes =>
    if hb : isNewline b = true then
      ((new max).push bytes).map fun r => (intoLine (stripReturn buffer.pending) :: r.1, r.2)
    else (buffer.add b (Bool.eq_false_iff.mpr hb)).bind fun buffer => buffer.push bytes

end LineBuffer

/-! ### Lines and cuts -/

/-- The line that a piece of a stream is, its newline included. -/
def toLine (piece : List UInt8) : Line := intoLine (stripReturn piece.dropLast)

/-- A piece that is no longer than a line may be, with its newline. -/
def isShort (max : ℕ) (piece : List UInt8) : Bool := piece.length ≤ max + 1

/-- The complete lines before the first that is too long, of a stream that follows the start of a
line. -/
def linesFrom (max : ℕ) (start bytes : List UInt8) : List Line :=
  ((Delimited.pieces isNewline start bytes).1.takeWhile (isShort max)).map toLine

/-- The complete lines of a stream before the first that is too long. -/
def linesBefore (max : ℕ) (bytes : List UInt8) : List Line := linesFrom max [] bytes

section Lines

variable {max : ℕ} {buffer : LineBuffer max} {bytes more start : List UInt8}

/-- The buffer has the lines of the stream, as long as they are short enough. -/
theorem push_eq_some {lines : List Line} {buffer' : LineBuffer max}
    (h : buffer.push bytes = some (lines, buffer')) :
    (∀ piece ∈ (Delimited.pieces isNewline buffer.pending bytes).1, isShort max piece = true) ∧
      lines = (Delimited.pieces isNewline buffer.pending bytes).1.map toLine ∧
      buffer'.pending = (Delimited.pieces isNewline buffer.pending bytes).2 := by
  induction bytes generalizing buffer lines with
  | nil =>
    cases h
    exact ⟨nofun, rfl, rfl⟩
  | cons b bytes ih =>
    rw [LineBuffer.push] at h
    split at h
    next hb =>
      obtain ⟨⟨rest, last⟩, hrest, heq⟩ := Option.map_eq_some_iff.mp h
      cases heq
      obtain ⟨hshort, hlines, hpending⟩ := ih hrest
      rw [Delimited.pieces_stop hb]
      refine ⟨?_, ?_, hpending⟩
      · intro piece hpiece
        obtain rfl | hpiece := List.mem_cons.mp hpiece
        · rw [isShort, List.length_append, decide_eq_true_eq]
          exact Nat.succ_le_succ buffer.short
        · exact hshort piece hpiece
      · rw [List.map_cons, toLine, List.dropLast_concat]
        exact congrArg _ hlines
    next hb =>
      obtain ⟨longer, hmore, hrest⟩ := Option.bind_eq_some_iff.mp h
      rw [LineBuffer.add] at hmore
      split at hmore
      · cases hmore
        rw [Delimited.pieces_other (Bool.eq_false_iff.mpr hb)]
        exact ih hrest
      · cases hmore

/-- Nothing comes after a start that is too long itself. -/
theorem linesFrom_long (h : max < start.length) : linesFrom max start bytes = [] := by
  have hall : ((Delimited.pieces isNewline start bytes).1.takeWhile (isShort max)) = [] := by
    induction bytes generalizing start with
    | nil => rfl
    | cons b bytes ih =>
      cases hb : isNewline b with
      | true =>
        rw [Delimited.pieces_stop hb]
        apply List.takeWhile_cons_of_neg
        rw [isShort, List.length_append, decide_eq_true_eq, List.length_singleton]
        omega
      | false =>
        rw [Delimited.pieces_other hb]
        apply ih
        rw [List.length_append]
        omega
  rw [linesFrom, hall, List.map_nil]

/-- A line that is too long ends the lines, whatever follows it. -/
theorem linesFrom_of_push (h : buffer.push bytes = none) (more : List UInt8) :
    linesFrom max buffer.pending (bytes ++ more) = linesFrom max buffer.pending bytes := by
  induction bytes generalizing buffer with
  | nil => cases h
  | cons b bytes ih =>
    rw [LineBuffer.push] at h
    rw [List.cons_append]
    split at h
    next hb =>
      have hrest := ih (Option.map_eq_none_iff.mp h)
      have hshort : isShort max (buffer.pending ++ [b]) = true := by
        rw [isShort, List.length_append, decide_eq_true_eq]
        exact Nat.succ_le_succ buffer.short
      simp only [linesFrom, LineBuffer.new] at hrest
      simp only [linesFrom, Delimited.pieces_stop hb, List.takeWhile_cons_of_pos hshort,
        List.map_cons, hrest]
    next hb =>
      have hclear := Bool.eq_false_iff.mpr hb
      simp only [linesFrom, Delimited.pieces_other hclear]
      cases hadd : buffer.add b hclear with
      | some longer =>
        rw [hadd] at h
        rw [LineBuffer.add] at hadd
        split at hadd
        · cases hadd
          exact ih h
        · cases hadd
      | none =>
        -- the byte for which there is no room
        have hfull : max < (buffer.pending ++ [b]).length := by
          rw [LineBuffer.add] at hadd
          split at hadd
          · cases hadd
          · rw [List.length_append]
            exact Nat.lt_succ_of_le (not_lt.mp ‹_›)
        exact (linesFrom_long hfull).trans (linesFrom_long hfull).symm

/-- The lines of a stream that arrives in two parts. -/
theorem linesBefore_append
    (h : ∀ piece ∈ (Delimited.pieces isNewline [] bytes).1, isShort max piece = true) :
    linesBefore max (bytes ++ more) =
      linesBefore max bytes ++ linesFrom max (Delimited.pieces isNewline [] bytes).2 more := by
  have hall : (Delimited.pieces isNewline [] bytes).1.takeWhile (isShort max) =
      (Delimited.pieces isNewline [] bytes).1 := List.takeWhile_eq_self_iff.mpr h
  simp only [linesBefore, linesFrom, Delimited.pieces_append]
  rw [List.takeWhile_append_of_pos h, hall, List.map_append]

/-- More bytes leave the lines there are. -/
theorem linesBefore_prefix (max : ℕ) (bytes more : List UInt8) :
    linesBefore max bytes <+: linesBefore max (bytes ++ more) := by
  simp only [linesBefore, linesFrom, Delimited.pieces_append]
  apply List.IsPrefix.map
  rw [List.takeWhile_append]
  split
  next hlength =>
    have hall := (List.takeWhile_prefix (isShort max)).eq_of_length hlength
    rw [hall]
    exact List.prefix_append _ _
  · exact List.prefix_rfl

end Lines

/-! ### The task of a client -/

/-- The limits of the server; times are in milliseconds. -/
structure Limits where
  maxLineBytes : ℕ
  idleTimeout : ℕ
  lineTimeout : ℕ
  deriving DecidableEq

/-- The most bytes of a line. -/
def Limits.line (limits : Limits) : ℕ := max limits.maxLineBytes 1

/-- The most bytes of a read. -/
def READ_BUFFER : ℕ := 1024

/-- Why the task of a client has ended. -/
inductive Ending
  /-- The client has left or its connection failed. -/
  | left
  | shutdown
  /-- It was silent, or slow with a line. -/
  | timedOut
  | tooLong
  /-- It asked for the end. -/
  | quit
  /-- It could not be answered. -/
  | unwritable
  deriving DecidableEq

/-- Where the task of a client is. -/
inductive Phase
  /-- It waits for bytes until the deadline. -/
  | reading (deadline : ℕ)
  /-- It answers the lines of the last read. -/
  | answering (lines : List Line)
  | closed (ending : Ending)
  deriving DecidableEq

/-- The connection of a client. -/
structure State (limits : Limits) where
  now : ℕ
  /-- What the client has sent, each byte with the time of its arrival. -/
  sent : List (ℕ × UInt8)
  /-- How many of these the task has read. -/
  taken : ℕ
  buffer : LineBuffer limits.line
  lineStarted : Option ℕ
  phase : Phase
  answered : List Line

/-- What happens next. -/
inductive Act
  | arrive (b : UInt8)
  | tick (duration : ℕ)
  /-- The task has answered, and computes the deadline of the next read. -/
  | turn
  | read (n : ℕ)
  | expire
  /-- The end of the stream, or a read that fails. -/
  | leave
  | shutdown
  /-- The service answers a line; the answer ends the connection or not. -/
  | answer (ending : Option Ending)
  deriving DecidableEq

namespace State

variable {limits : Limits} (s : State limits)

/-- The next bytes that a read of `n` bytes takes. -/
def received (n : ℕ) : List UInt8 := ((s.sent.drop s.taken).take n).map Prod.snd

/-- A read that gives `n` bytes. -/
def read (n : ℕ) : State limits :=
  match s.buffer.push (s.received n) with
  | none => { s with taken := s.taken + n, phase := .closed .tooLong }
  | some (complete, buffer) =>
    { s with
      taken := s.taken + n
      buffer
      lineStarted := if buffer.hasPartial then s.lineStarted.or (some s.now) else none
      phase := .answering complete }

/-- Until when the next read waits. -/
def deadline : ℕ :=
  match s.lineStarted with
  | some started => started + limits.lineTimeout
  | none => s.now + limits.idleTimeout

/-- What follows an answer. -/
def after (lines : List Line) : Option Ending → Phase
  | none => .answering lines
  | some .quit => .closed .quit
  | some _ => .closed .unwritable

def step : Act → Option (State limits)
  | .arrive b => some { s with sent := s.sent ++ [(s.now, b)] }
  | .tick duration => some { s with now := s.now + duration }
  | .turn =>
    match s.phase with
    | .answering [] => some { s with phase := .reading s.deadline }
    | _ => none
  | .read n =>
    match s.phase with
    | .reading _ =>
      if 0 < n ∧ n ≤ READ_BUFFER ∧ s.taken + n ≤ s.sent.length then some (s.read n) else none
    | _ => none
  -- a read looks for bytes first, so it only times out when there are none
  | .expire =>
    match s.phase with
    | .reading deadline =>
      if deadline ≤ s.now ∧ s.taken = s.sent.length then
        some { s with phase := .closed .timedOut }
      else none
    | _ => none
  | .leave =>
    match s.phase with
    | .reading _ => some { s with phase := .closed .left }
    | _ => none
  | .shutdown =>
    match s.phase with
    | .reading _ => some { s with phase := .closed .shutdown }
    | _ => none
  | .answer ending =>
    match s.phase with
    | .answering (line :: lines) =>
      some { s with answered := s.answered ++ [line], phase := after lines ending }
    | _ => none

/-- The bytes that the client has sent. -/
def bytes : List UInt8 := s.sent.map Prod.snd

/-- The bytes that the task has read. -/
def taking : List UInt8 := s.bytes.take s.taken

end State

/-- A client, from its connection on. -/
def machine (limits : Limits) : Machine (State limits) Act where
  init s := s.now = 0 ∧ s.sent = [] ∧ s.taken = 0 ∧ s.buffer = .new limits.line ∧
    s.lineStarted = none ∧ s.phase = .answering [] ∧ s.answered = []
  step := State.step

/-! ### What is promised, and when it holds -/

section Promises

variable {limits : Limits}

/-- Every complete line before the first that is too long is answered, once and in order: those of
the bytes that were read before the next read, and all of them when a line was too long. -/
structure Answers (s : State limits) : Prop where
  once : s.answered <+: linesBefore limits.line s.bytes
  waiting : ∀ deadline, s.phase = .reading deadline →
    s.answered = linesBefore limits.line s.taking
  tooLong : s.phase = .closed .tooLong → s.answered = linesBefore limits.line s.bytes

/-- The bytes of the line that the client has begun and not ended. -/
def unfinished (sent : List (ℕ × UInt8)) : List (ℕ × UInt8) :=
  (Delimited.pieces (fun e => isNewline e.2) [] sent).2

/-- The client has not been silent for as long as it may, and its line, if it has begun one, is not
late. -/
def InTime (s : State limits) : Prop :=
  (∀ e ∈ s.sent.getLast?, s.now < e.1 + limits.idleTimeout) ∧
    (s.sent = [] → s.now < limits.idleTimeout) ∧
    ∀ e ∈ (unfinished s.sent).head?, s.now < e.1 + limits.lineTimeout

/-- A read that meets a line that is too long completes no line before it. -/
def Whole (s : State limits) : Act → Prop
  | .read n => s.buffer.push (s.received n) = none →
      linesFrom limits.line s.buffer.pending (s.received n) = []
  | _ => True

/-- A read that ends the line in progress begins no other one. -/
def Fresh (s : State limits) : Act → Prop
  | .read n => s.lineStarted.isSome = true → (s.received n).any isNewline = true →
      ∀ r ∈ s.buffer.push (s.received n), r.2.hasPartial = false
  | _ => True

end Promises

/-! ### What a step can do -/

section Steps

variable {limits : Limits} {s t : State limits} {a : Act}

theorem step_cases (h : s.step a = some t) :
    (∃ b, t = { s with sent := s.sent ++ [(s.now, b)] }) ∨
    (∃ duration, t = { s with now := s.now + duration }) ∨
    (s.phase = .answering [] ∧ t = { s with phase := .reading s.deadline }) ∨
    (∃ n deadline, a = .read n ∧ s.phase = .reading deadline ∧ 0 < n ∧
      s.taken + n ≤ s.sent.length ∧ t = s.read n) ∨
    (∃ deadline, s.phase = .reading deadline ∧ deadline ≤ s.now ∧ s.taken = s.sent.length ∧
      t = { s with phase := .closed .timedOut }) ∨
    (∃ deadline ending, s.phase = .reading deadline ∧ (ending = .left ∨ ending = .shutdown) ∧
      t = { s with phase := .closed ending }) ∨
    ∃ line lines ending, s.phase = .answering (line :: lines) ∧
      t = { s with answered := s.answered ++ [line], phase := State.after lines ending } := by
  cases a with
  | arrive b => exact .inl ⟨b, (Option.some.inj h).symm⟩
  | tick duration => exact .inr (.inl ⟨duration, (Option.some.inj h).symm⟩)
  | turn =>
    rw [State.step] at h
    split at h
    next hphase => exact .inr (.inr (.inl ⟨hphase, (Option.some.inj h).symm⟩))
    next => cases h
  | read n =>
    rw [State.step] at h
    split at h
    next deadline hphase =>
      obtain ⟨⟨hpos, -, hle⟩, heq⟩ := Option.ite_none_right_eq_some.mp h
      exact .inr (.inr (.inr (.inl ⟨n, deadline, rfl, hphase, hpos, hle,
        (Option.some.inj heq).symm⟩)))
    next => cases h
  | expire =>
    rw [State.step] at h
    split at h
    next deadline hphase =>
      obtain ⟨⟨hle, htaken⟩, heq⟩ := Option.ite_none_right_eq_some.mp h
      exact .inr (.inr (.inr (.inr (.inl ⟨deadline, hphase, hle, htaken,
        (Option.some.inj heq).symm⟩))))
    next => cases h
  | leave =>
    rw [State.step] at h
    split at h
    next deadline hphase =>
      exact .inr (.inr (.inr (.inr (.inr (.inl ⟨deadline, .left, hphase, .inl rfl,
        (Option.some.inj h).symm⟩)))))
    next => cases h
  | shutdown =>
    rw [State.step] at h
    split at h
    next deadline hphase =>
      exact .inr (.inr (.inr (.inr (.inr (.inl ⟨deadline, .shutdown, hphase, .inr rfl,
        (Option.some.inj h).symm⟩)))))
    next => cases h
  | answer ending =>
    rw [State.step] at h
    split at h
    next line lines hphase =>
      exact .inr (.inr (.inr (.inr (.inr (.inr ⟨line, lines, ending, hphase,
        (Option.some.inj h).symm⟩)))))
    next => cases h

/-- A read takes the next bytes. -/
theorem taking_read (n : ℕ) : (s.read n).taking = s.taking ++ s.received n := by
  have htaken : (s.read n).taken = s.taken + n ∧ (s.read n).bytes = s.bytes := by
    unfold State.read
    split <;> exact ⟨rfl, rfl⟩
  rw [State.taking, htaken.1, htaken.2, List.take_add]
  simp only [State.taking, State.received, State.bytes, List.map_take, List.map_drop]

/-- What has been read stays what it was when more arrives. -/
theorem taking_arrive (hle : s.taken ≤ s.sent.length) (b : UInt8) :
    State.taking { s with sent := s.sent ++ [(s.now, b)] } = s.taking := by
  simp only [State.taking, State.bytes, List.map_append]
  rw [List.take_append_of_le_length (by simpa using hle)]

end Steps

/-! ### The buffer and the bytes read -/

section Buffer

variable {limits : Limits} {s t : State limits} {a : Act}

/-- The task still reads. -/
def Live (s : State limits) : Prop := ∀ ending, s.phase ≠ .closed ending

/-- The buffer has what is left over of the bytes read, none of whose lines is too long. -/
structure Cut (s : State limits) : Prop where
  le : s.taken ≤ s.sent.length
  pending : Live s → s.buffer.pending = (Delimited.pieces isNewline [] s.taking).2
  short : Live s → ∀ piece ∈ (Delimited.pieces isNewline [] s.taking).1,
    isShort limits.line piece = true

theorem live_reading {deadline : ℕ} (h : s.phase = .reading deadline) : Live s := by
  intro ending hclosed
  rw [h] at hclosed
  cases hclosed

theorem live_answering {lines : List Line} (h : s.phase = .answering lines) : Live s := by
  intro ending hclosed
  rw [h] at hclosed
  cases hclosed

/-- Where the task reads, a read that is not too long gives the next lines. -/
theorem read_some (hcut : Cut s) (hlive : Live s) {n : ℕ} {lines : List Line}
    {buffer : LineBuffer limits.line} (h : s.buffer.push (s.received n) = some (lines, buffer)) :
    linesBefore limits.line (s.taking ++ s.received n) =
        linesBefore limits.line s.taking ++ lines ∧
      buffer.pending = (Delimited.pieces isNewline [] (s.taking ++ s.received n)).2 ∧
      ∀ piece ∈ (Delimited.pieces isNewline [] (s.taking ++ s.received n)).1,
        isShort limits.line piece = true := by
  obtain ⟨hshort, hlines, hpending⟩ := push_eq_some h
  rw [hcut.pending hlive] at hshort hlines hpending
  refine ⟨?_, ?_, ?_⟩
  · rw [linesBefore_append (hcut.short hlive), linesFrom,
      List.takeWhile_eq_self_iff.mpr hshort, hlines]
  · rw [Delimited.pieces_append]
    exact hpending
  · rw [Delimited.pieces_append]
    intro piece hpiece
    obtain hpiece | hpiece := List.mem_append.mp hpiece
    · exact hcut.short hlive piece hpiece
    · exact hshort piece hpiece

theorem read_phase (s : State limits) (n : ℕ) :
    (s.buffer.push (s.received n) = none ∧ s.read n =
      { s with taken := s.taken + n, phase := .closed .tooLong }) ∨
    ∃ lines buffer, s.buffer.push (s.received n) = some (lines, buffer) ∧ s.read n =
      { s with
        taken := s.taken + n, buffer
        lineStarted := if buffer.hasPartial then s.lineStarted.or (some s.now) else none
        phase := .answering lines } := by
  unfold State.read
  split
  next hnone => exact .inl ⟨hnone, rfl⟩
  next lines buffer hsome => exact .inr ⟨lines, buffer, hsome, rfl⟩

theorem cut_step (hcut : Cut s) (h : s.step a = some t) : Cut t := by
  obtain ⟨b, rfl⟩ | ⟨d, rfl⟩ | ⟨hphase, rfl⟩ | ⟨n, d, rfl, hphase, hpos, hle, rfl⟩ |
    ⟨d, hphase, -, -, rfl⟩ | ⟨d, e, hphase, -, rfl⟩ | ⟨line, lines, e, hphase, rfl⟩ :=
    step_cases h
  · refine ⟨?_, ?_, ?_⟩
    · rw [List.length_append]
      exact hcut.le.trans (Nat.le_add_right _ _)
    · rw [taking_arrive hcut.le]
      exact hcut.pending
    · rw [taking_arrive hcut.le]
      exact hcut.short
  · exact ⟨hcut.le, hcut.pending, hcut.short⟩
  · exact ⟨hcut.le, fun _ => hcut.pending (live_answering hphase),
      fun _ => hcut.short (live_answering hphase)⟩
  · have htaking := taking_read (s := s) n
    obtain ⟨-, heq⟩ | ⟨lines, buffer, hpush, heq⟩ := read_phase s n
    · rw [heq]
      exact ⟨hle, fun hlive => absurd rfl (hlive _), fun hlive => absurd rfl (hlive _)⟩
    · obtain ⟨-, hpending, hshort⟩ := read_some hcut (live_reading hphase) hpush
      rw [heq] at htaking ⊢
      refine ⟨hle, fun _ => ?_, fun _ => ?_⟩
      · rw [htaking]
        exact hpending
      · rw [htaking]
        exact hshort
  · exact ⟨hcut.le, fun hlive => absurd rfl (hlive _), fun hlive => absurd rfl (hlive _)⟩
  · exact ⟨hcut.le, fun hlive => absurd rfl (hlive _), fun hlive => absurd rfl (hlive _)⟩
  · exact ⟨hcut.le, fun _ => hcut.pending (live_answering hphase),
      fun _ => hcut.short (live_answering hphase)⟩

theorem reach_cut {ok : State limits → Act → Prop} (h : (machine limits).Reach ok s) : Cut s := by
  apply h.invariant
  · rintro s ⟨-, hsent, htaken, hbuffer, -⟩
    have htaking : s.taking = [] := by rw [State.taking, htaken, List.take_zero]
    refine ⟨htaken ▸ Nat.zero_le _, fun _ => ?_, fun _ => ?_⟩
    · rw [hbuffer, htaking]
      rfl
    · rw [htaking]
      exact nofun
  · intro s a t hcut _ hstep
    exact cut_step hcut hstep

end Buffer

/-! ### Every line is answered -/

section Answers

variable {limits : Limits} {s t : State limits} {a : Act}

/-- What has been answered, and what has still to be. -/
def Answered (s : State limits) : Prop :=
  match s.phase with
  | .reading _ => s.answered = linesBefore limits.line s.taking
  | .answering lines => s.answered ++ lines = linesBefore limits.line s.taking
  | .closed .tooLong => ∀ more, s.answered = linesBefore limits.line (s.taking ++ more)
  | .closed _ => s.answered <+: linesBefore limits.line s.taking

theorem answered_of_prefix {e : Ending} (hending : e ≠ .tooLong) (hphase : s.phase = .closed e)
    (h : s.answered <+: linesBefore limits.line s.taking) : Answered s := by
  unfold Answered
  rw [hphase]
  cases e <;> first | exact h | contradiction

theorem answered_step (hcut : Cut s) (hans : Answered s) (hwhole : Whole s a)
    (h : s.step a = some t) : Answered t := by
  obtain ⟨b, rfl⟩ | ⟨d, rfl⟩ | ⟨hphase, rfl⟩ | ⟨n, d, rfl, hphase, hpos, hle, rfl⟩ |
    ⟨d, hphase, -, -, rfl⟩ | ⟨d, e, hphase, hend, rfl⟩ | ⟨line, lines, e, hphase, rfl⟩ :=
    step_cases h
  · unfold Answered at hans ⊢
    rw [taking_arrive hcut.le]
    exact hans
  · exact hans
  · unfold Answered at hans
    rw [hphase] at hans
    exact (List.append_nil _).symm.trans hans
  · have hdone : s.answered = linesBefore limits.line s.taking := by
      unfold Answered at hans
      rwa [hphase] at hans
    have htaking := taking_read (s := s) n
    obtain ⟨hpush, heq⟩ | ⟨lines, buffer, hpush, heq⟩ := read_phase s n
    · rw [heq] at htaking ⊢
      have hnone := hwhole hpush
      intro more
      -- the line that is too long ends the lines, and the read completed none before it
      rw [htaking, List.append_assoc, linesBefore_append (hcut.short (live_reading hphase)),
        ← hcut.pending (live_reading hphase), linesFrom_of_push hpush, hnone, List.append_nil]
      exact hdone
    · obtain ⟨hlines, -⟩ := read_some hcut (live_reading hphase) hpush
      rw [heq] at htaking ⊢
      unfold Answered
      rw [htaking, hlines]
      exact congrArg (· ++ lines) hdone
  · apply answered_of_prefix (e := .timedOut) nofun rfl
    unfold Answered at hans
    rw [hphase] at hans
    exact hans ▸ List.prefix_rfl
  · unfold Answered at hans
    rw [hphase] at hans
    apply answered_of_prefix (e := e) ?_ rfl (hans ▸ List.prefix_rfl)
    obtain rfl | rfl := hend <;> nofun
  · unfold Answered at hans
    rw [hphase] at hans
    have hmore : (s.answered ++ [line]) ++ lines = linesBefore limits.line s.taking := by
      rw [List.append_assoc]
      exact hans
    have hprefix : s.answered ++ [line] <+: linesBefore limits.line s.taking := ⟨lines, hmore⟩
    cases e with
    | none => exact hmore
    | some e => cases e <;> exact hprefix

/-- Whatever the cuts, the lines are answered, when no read loses any. -/
theorem reach_answers (h : (machine limits).Reach Whole s) : Answers s := by
  have hcut := reach_cut h
  have hans : Answered s := by
    refine h.invariant_with (K := Cut) reach_cut ?_ ?_
    · rintro s ⟨-, -, htaken, -, -, hphase, hanswered⟩
      unfold Answered
      rw [hphase, hanswered, State.taking, htaken]
      rfl
    · intro s a t hcut hans hwhole hstep
      exact answered_step hcut hans hwhole hstep
  have hbytes : s.taking ++ s.bytes.drop s.taken = s.bytes := List.take_append_drop _ _
  have hprefix := linesBefore_prefix limits.line s.taking (s.bytes.drop s.taken)
  rw [hbytes] at hprefix
  unfold Answered at hans
  refine ⟨?_, ?_, ?_⟩
  · split at hans
    next => exact hans ▸ hprefix
    next lines _ => exact (List.prefix_append _ lines).trans (hans ▸ hprefix)
    next =>
      have hall := hans (s.bytes.drop s.taken)
      rw [hbytes] at hall
      exact hall ▸ List.prefix_rfl
    next => exact hans.trans hprefix
  · intro deadline hphase
    rwa [hphase] at hans
  · intro hphase
    rw [hphase] at hans
    have hall := hans (s.bytes.drop s.taken)
    rwa [hbytes] at hall

end Answers

/-! ### Nobody who is in time is cut off -/

section Times

variable {limits : Limits} {s t : State limits} {a : Act}

/-- The bytes read of the line in progress, with their times. -/
def begun (s : State limits) : List (ℕ × UInt8) := unfinished (s.sent.take s.taken)

/-- The task knows no time of a line that is earlier than its first byte. -/
structure Timed (s : State limits) : Prop where
  past : ∀ e ∈ s.sent, e.1 ≤ s.now
  idle : Live s → s.lineStarted = none → begun s = []
  started : Live s → ∀ started, s.lineStarted = some started → ∃ e ∈ (begun s).head?, e.1 ≤ started
  slow : ∀ deadline started, s.phase = .reading deadline → s.lineStarted = some started →
    deadline = started + limits.lineTimeout
  silent : ∀ deadline, s.phase = .reading deadline → s.lineStarted = none →
    ∃ since, deadline = since + limits.idleTimeout ∧ ∀ e ∈ s.sent.take s.taken, e.1 ≤ since
  awake : s.phase ≠ .closed .timedOut

theorem begun_bytes (s : State limits) :
    (begun s).map Prod.snd = (Delimited.pieces isNewline [] s.taking).2 := by
  have hmap : Delimited.pieces isNewline ([].map Prod.snd) ((s.sent.take s.taken).map Prod.snd) =
      (_, (Delimited.pieces (fun e => isNewline e.2) [] (s.sent.take s.taken)).2.map Prod.snd) :=
    Delimited.pieces_map Prod.snd [] (s.sent.take s.taken)
  rw [List.map_nil, List.map_take] at hmap
  exact (congrArg Prod.snd hmap).symm

theorem mem_of_begun {e : ℕ × UInt8} (h : e ∈ begun s) : e ∈ s.sent.take s.taken := by
  have hflat : (Delimited.pieces (fun e => isNewline e.2) [] (s.sent.take s.taken)).1.flatten ++
      begun s = [] ++ s.sent.take s.taken := Delimited.flatten_pieces
  rw [List.nil_append] at hflat
  rw [← hflat]
  exact List.mem_append_right _ h

theorem begun_arrive (hle : s.taken ≤ s.sent.length) (b : UInt8) :
    (s.sent ++ [(s.now, b)]).take s.taken = s.sent.take s.taken :=
  List.take_append_of_le_length hle

/-- A read goes on with the line in progress. -/
theorem begun_read (sent : List (ℕ × UInt8)) (taken n : ℕ) :
    unfinished (sent.take (taken + n)) =
      (Delimited.pieces (fun e => isNewline e.2) (unfinished (sent.take taken))
        ((sent.drop taken).take n)).2 := by
  rw [List.take_add, unfinished, Delimited.pieces_append]
  rfl

/-- A read without the end of a line goes on with it from its first byte. -/
theorem begun_read_clear {n : ℕ} (hclear : (s.received n).any isNewline = false) :
    unfinished (s.sent.take (s.taken + n)) = begun s ++ (s.sent.drop s.taken).take n := by
  have hnone : ∀ e ∈ (s.sent.drop s.taken).take n, isNewline e.2 = false := by
    intro e he
    have hall := List.any_eq_false.mp hclear e.2 (List.mem_map_of_mem he)
    exact Bool.eq_false_iff.mpr hall
  rw [begun_read, Delimited.pieces_of_none hnone]
  rfl

theorem timed_read (hcut : Cut s) (htimed : Timed s) {n deadline : ℕ} (hfresh : Fresh s (.read n))
    (hphase : s.phase = .reading deadline) : Timed (s.read n) := by
  have hlive := live_reading hphase
  obtain ⟨-, heq⟩ | ⟨lines, buffer, hpush, heq⟩ := read_phase s n
  · rw [heq]
    exact ⟨htimed.past, fun h => absurd rfl (h _), fun h => absurd rfl (h _), nofun, nofun, nofun⟩
  have hbytes := begun_bytes (s.read n)
  rw [taking_read, ← (read_some hcut hlive hpush).2.1] at hbytes
  have hsent : (s.read n).sent = s.sent := by rw [heq]
  have hpast : ∀ e ∈ begun (s.read n), e.1 ≤ s.now := by
    intro e he
    have hmem := List.mem_of_mem_take (mem_of_begun he)
    rw [hsent] at hmem
    exact htimed.past e hmem
  cases hunfinished : buffer.hasPartial with
  | false =>
    have hempty : begun (s.read n) = [] := by
      apply List.map_eq_nil_iff.mp
      rw [hbytes]
      simpa [LineBuffer.hasPartial] using hunfinished
    rw [heq, hunfinished] at hempty ⊢
    exact ⟨htimed.past, fun _ _ => hempty, fun _ _ => nofun, nofun, nofun, nofun⟩
  | true =>
    have hne : begun (s.read n) ≠ [] := by
      intro hnil
      rw [hnil, List.map_nil] at hbytes
      rw [LineBuffer.hasPartial, ← hbytes] at hunfinished
      cases hunfinished
    obtain ⟨e, rest, he⟩ := List.exists_cons_of_ne_nil hne
    rw [heq, hunfinished] at he hpast ⊢
    refine ⟨htimed.past, fun _ hnone => ?_, fun _ started hstarted => ?_, nofun, nofun, nofun⟩
    · rw [if_pos rfl] at hnone
      cases hline : s.lineStarted <;> rw [hline] at hnone <;> cases hnone
    · rw [if_pos rfl] at hstarted
      refine ⟨e, by rw [he]; rfl, ?_⟩
      cases hline : s.lineStarted with
      | none =>
        rw [hline] at hstarted
        obtain rfl := Option.some.inj hstarted
        exact hpast e (he ▸ List.mem_cons_self)
      | some old =>
        rw [hline] at hstarted
        obtain rfl := Option.some.inj hstarted
        -- the line in progress is the one that it was before the read
        have hclear : (s.received n).any isNewline = false := by
          by_contra hany
          have hnot := hfresh (by rw [hline]; rfl) (Bool.not_eq_false _ ▸ hany) _ hpush
          rw [hunfinished] at hnot
          cases hnot
        obtain ⟨first, hfirst, hold⟩ := htimed.started hlive _ hline
        have hhead : (begun s ++ (s.sent.drop s.taken).take n).head? = some first := by
          rw [List.head?_append, hfirst]
          rfl
        rw [← begun_read_clear hclear] at hhead
        have hsame := (congrArg List.head? he).symm.trans hhead
        obtain rfl := Option.some.inj hsame
        exact hold

theorem timed_step (hcut : Cut s) (htimed : Timed s) (htime : InTime s) (hfresh : Fresh s a)
    (h : s.step a = some t) : Timed t := by
  obtain ⟨b, rfl⟩ | ⟨d, rfl⟩ | ⟨hphase, rfl⟩ | ⟨n, d, rfl, hphase, hpos, hle, rfl⟩ |
    ⟨d, hphase, hle, htaken, rfl⟩ | ⟨d, e, hphase, hend, rfl⟩ | ⟨line, lines, e, hphase, rfl⟩ :=
    step_cases h
  · have hsame := begun_arrive hcut.le b
    refine ⟨?_, ?_, ?_, htimed.slow, ?_, htimed.awake⟩
    · intro e he
      obtain he | he := List.mem_append.mp he
      · exact htimed.past e he
      · rw [List.mem_singleton.mp he]
    · rw [begun, hsame]
      exact htimed.idle
    · rw [begun, hsame]
      exact htimed.started
    · rw [hsame]
      exact htimed.silent
  · exact ⟨fun e he => (htimed.past e he).trans (Nat.le_add_right _ _), htimed.idle,
      htimed.started, htimed.slow, htimed.silent, htimed.awake⟩
  · have hlive := live_answering hphase
    refine ⟨htimed.past, fun _ => htimed.idle hlive, fun _ => htimed.started hlive, ?_, ?_, nofun⟩
    · intro deadline started hdeadline hstarted
      cases hdeadline
      rw [State.deadline, hstarted]
    · intro deadline hdeadline hnone
      cases hdeadline
      refine ⟨s.now, ?_, fun e he => htimed.past e (List.mem_of_mem_take he)⟩
      rw [State.deadline, hnone]
  · exact timed_read hcut htimed hfresh hphase
  · -- nothing has arrived that the task has not read, so the client is not in time
    exfalso
    have hall : s.sent.take s.taken = s.sent := by rw [htaken, List.take_length]
    obtain ⟨hquiet, hsilent, hslow⟩ := htime
    cases hline : s.lineStarted with
    | some started =>
      obtain ⟨e, he, hbegun⟩ := htimed.started (live_reading hphase) _ hline
      rw [begun, hall] at he
      have hlate := hslow e he
      have hdeadline := htimed.slow _ _ hphase hline
      omega
    | none =>
      obtain ⟨since, hdeadline, hsince⟩ := htimed.silent _ hphase hline
      rw [hall] at hsince
      cases hlast : s.sent.getLast? with
      | none =>
        have hnow := hsilent (List.getLast?_eq_none_iff.mp hlast)
        omega
      | some e =>
        have hnow := hquiet e hlast
        have hearly := hsince e (List.mem_of_getLast? hlast)
        omega
  · refine ⟨htimed.past, fun hlive => absurd rfl (hlive _), fun hlive => absurd rfl (hlive _),
      nofun, nofun, ?_⟩
    obtain rfl | rfl := hend <;> nofun
  · have hlive := live_answering hphase
    refine ⟨htimed.past, fun _ => htimed.idle hlive, fun _ => htimed.started hlive, ?_, ?_, ?_⟩
    all_goals
      cases e with
      | none => nofun
      | some e => cases e <;> nofun

/-- A client that is in time is not cut off, when no read ends a line and begins another. -/
theorem reach_in_time (h : (machine limits).Reach (fun s a => InTime s ∧ Fresh s a) s) :
    s.phase ≠ .closed .timedOut := by
  have htimed : Timed s := by
    refine h.invariant_with (K := Cut) reach_cut ?_ ?_
    · rintro s ⟨-, hsent, htaken, -, hline, hphase, -⟩
      have hbegun : begun s = [] := by rw [begun, hsent, List.take_nil]; rfl
      refine ⟨by rw [hsent]; nofun, fun _ _ => hbegun, ?_, ?_, ?_, ?_⟩
      · rw [hline]
        exact fun _ _ => nofun
      all_goals
        rw [hphase]
        nofun
    · intro s a t hcut htimed hok hstep
      exact timed_step hcut htimed hok.1 hok.2 hstep
  exact htimed.awake

end Times

section Whole

variable {limits : Limits} (s : State limits) (a : Act)

instance : Decidable (Whole s a) := by
  cases a <;> unfold Whole <;> infer_instance

instance : Decidable (Fresh s a) := by
  cases a <;> unfold Fresh <;> infer_instance

instance : Decidable (InTime s) := by
  unfold InTime
  infer_instance

/-- The lines of a client are answered, however they are cut, and a client that is in time is not
cut off, in every run whose reads do not go wrong. -/
theorem client_served :
    ((machine limits).Reach Whole s → Answers s) ∧
      ((machine limits).Reach (fun s a => InTime s ∧ Fresh s a) s →
        s.phase ≠ .closed .timedOut) :=
  ⟨reach_answers, reach_in_time⟩

def someLimits : Limits := ⟨4, 100, 10⟩

def started : State someLimits := ⟨0, [], 0, .new _, none, .answering [], []⟩

theorem init_started : (machine someLimits).init started := ⟨rfl, rfl, rfl, rfl, rfl, rfl, rfl⟩

/-- A line that arrives in two parts, the second just in time. -/
theorem split_line_served : ∃ s : State someLimits, s.answered.length = 1 ∧ Answers s ∧
    s.phase ≠ .closed .timedOut := by
  have hstart : (machine someLimits).Reach (fun s a => Whole s a ∧ InTime s ∧ Fresh s a) started :=
    .init init_started
  obtain ⟨s, hs, hanswered⟩ := hstart.exists_of_runWhile (P := fun s => s.answered.length = 1)
    [.arrive 102, .turn, .read 1, .turn, .tick 9, .arrive 10, .read 1, .answer none, .turn]
    (by decide)
  have hserved := client_served s
  exact ⟨s, hanswered, hserved.1 (hs.mono fun _ _ h => h.1), hserved.2 (hs.mono fun _ _ h => h.2)⟩

/-- A line that one read completes is lost when the same read meets one that is too long. And a
line that begins in the read that ends another one has the time of the other. -/
theorem lines_lost_and_late :
    (∃ s, (machine someLimits).Reachable s ∧ ¬ Answers s) ∧
      ∃ s, (machine someLimits).Reach (fun s _ => InTime s) s ∧ s.phase = .closed .timedOut := by
  constructor
  · have hstart : (machine someLimits).Reachable started := .init init_started
    obtain ⟨s, hs, hphase, hanswered, hlines⟩ := hstart.exists_of_run
      (P := fun s => s.phase = .closed .tooLong ∧ s.answered = [] ∧
        (linesBefore someLimits.line s.bytes).length = 1)
      [.arrive 102, .arrive 10, .arrive 120, .arrive 120, .arrive 120, .arrive 120, .arrive 120,
        .turn, .read 7] (by decide)
    refine ⟨s, hs, fun h => ?_⟩
    have hall := h.tooLong hphase
    rw [← hall, hanswered] at hlines
    cases hlines
  · have hstart : (machine someLimits).Reach (fun s _ => InTime s) started := .init init_started
    exact hstart.exists_of_runWhile (P := fun s => s.phase = .closed .timedOut)
      [.arrive 102, .turn, .read 1, .turn, .tick 9, .arrive 10, .arrive 103, .read 2, .answer none,
        .turn, .tick 1, .expire] (by decide)

end Whole

end HamsOpen.Radioctld.Client
