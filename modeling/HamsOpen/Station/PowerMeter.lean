import HamsOpen.Flex.Text
import HamsOpen.Lib.Decimal
import HamsOpen.Lib.Find
import HamsOpen.Lib.Machine
import HamsOpen.Lib.Utf8

/-!
# External power meters

A meter is asked over a serial line, once or twice for each sample, and what it says goes into a
feed that forgets it after a while (`power_meter.rs`). An answer is known by its place in the line
only: it is taken for the answer to the request that was written last, whenever that one was
written.
-/

namespace HamsOpen.Station.PowerMeter

open Flex (Text stripPrefix splitOnce)

abbrev Instant := ℕ
abbrev Duration := ℕ

/-! ### Frames -/

/-- Which wattmeter protocol a meter speaks. -/
inductive MeterDriver
  /-- The Elecraft KPA500 amplifier's `^WS` read. -/
  | kpa500
  /-- The Elecraft KPA1500 amplifier's `^PWF` and `^PWR` reads. -/
  | kpa1500
  deriving DecidableEq

/-- A request, by what it asks for. -/
inductive Ask
  | power | forward | reflected
  deriving DecidableEq

/-- The requests of one poll, in order. Each is sent after the previous one's reply. -/
def MeterDriver.requests : MeterDriver → List Ask
  | .kpa500 => [.power]
  | .kpa1500 => [.forward, .reflected]

/-- The bytes of a request. -/
def Ask.bytes : Ask → List UInt8
  | .power => Utf8.bytes "^WS;"
  | .forward => Utf8.bytes "^PWF;"
  | .reflected => Utf8.bytes "^PWR;"

/-- What one poll learned, in watts. -/
structure Sample where
  forward : ℕ
  reflected : Option ℕ
  deriving DecidableEq

/-- The digits of a text as a whole number of 32 bits, nothing else allowed. -/
def digits (text : Text) : Option ℕ :=
  if text ≠ [] ∧ text.all Char.isDigit = true ∧ Decimal.value text < 2 ^ 32 then
    some (Decimal.value text)
  else none

def stripSuffix (last : Char) (text : Text) : Option Text :=
  if text.getLast? = some last then some text.dropLast else none

/-- Parses a KPA500 frame into the output watts. The SWR field is checked but not used. -/
def parseKpa500 (frame : Text) : Option Sample := do
  let body ← (stripPrefix "^WS".toList frame).bind (stripSuffix ';')
  let (watts, swr) ← splitOnce ' ' body
  let watts ← digits watts
  let _ ← digits swr
  return ⟨watts, none⟩

/-- Parses one KPA1500 frame, forward or reflected: the tag and the watts. -/
def parseKpa1500 (frame : Text) : Option (Char × ℕ) := do
  match ← (stripPrefix "^PW".toList frame).bind (stripSuffix ';') with
  | [] => none
  | tag :: text =>
    if tag = 'F' ∨ tag = 'R' then
      let watts ← digits text
      return (tag, watts)
    else none

/-- The sample of a poll after one more frame. -/
def record (driver : MeterDriver) (sample : Sample) (frame : List UInt8) : Option Sample := do
  let text := (← Utf8.ofBytes frame).toList
  match driver with
  | .kpa500 => parseKpa500 text
  | .kpa1500 =>
    let (tag, watts) ← parseKpa1500 text
    return if tag = 'F' then { sample with forward := watts }
      else { sample with reflected := some watts }

/-- The longest reply frame accepted. -/
def MAX_FRAME : ℕ := 32

/-- A meter, and how it is polled. What becomes of its watts is not known here. -/
structure Meter (π : Type) where
  driver : MeterDriver
  replyTimeout : Duration
  interval : Duration
  staleAfter : Duration
  /-- The power of a value in the unit of the meter, behind what is between it and the antenna. -/
  toPower : ℕ → Option π

/-! ### The poller, the meter and the line -/

/-- A request that was written, in which poll and when. -/
structure Request where
  poll : ℕ
  ask : Ask
  time : Instant
  deriving DecidableEq

/-- Where the poller stands. -/
inductive Phase
  | idle
  /-- The next request of the poll is to be written. -/
  | asking (todo : List Ask) (sample : Sample)
  /-- A frame is read. The time of the next byte counts from `since`. -/
  | reading (ask : Ask) (todo : List Ask) (sample : Sample) (frame : List UInt8) (since : Instant)
  /-- The poll is done, and its sample goes into the feed. -/
  | pushing (sample : Sample)
  deriving DecidableEq

/-- A sample in the feed, and the poll that it is of. -/
structure Entry where
  time : Instant
  sample : Sample
  poll : ℕ
  deriving DecidableEq

/-- The latest reading. -/
structure Reading (π : Type) where
  forward : π
  reflected : Option π
  validFor : Duration

/-- The poller, the feed, the meter and the line. The requests that were written, the answers of the
meter and what was read of the feed are only looked at. -/
structure State where
  now : Instant
  /-- When the next poll is due. -/
  due : Instant
  /-- How many polls were begun. -/
  polls : ℕ
  phase : Phase
  feed : Option Entry
  /-- Requests that the meter has not answered, in order. -/
  pending : List Request
  /-- Bytes on their way to the poller. -/
  line : List UInt8
  asked : List Request
  /-- The answers of the meter, each with the watts it told. -/
  answers : List (Request × ℕ)
  /-- When the feed was read, and the requests of the poll whose sample was given. -/
  reads : List (Instant × List Request)
  deriving DecidableEq

/-- What the meter says to a request; the second value stands for the SWR, where there is one. -/
def Ask.reply (watts swr : ℕ) : Ask → Text
  | .power => "^WS".toList ++ Decimal.padded 3 watts ++ ' ' :: Decimal.padded 3 swr ++ [';']
  | .forward => "^PWF".toList ++ Decimal.padded 4 watts ++ [';']
  | .reflected => "^PWR".toList ++ Decimal.padded 4 watts ++ [';']

/-- The values have room in what the meter says. -/
def Ask.Fits (watts swr : ℕ) : Ask → Prop
  | .power => watts < 10 ^ 3 ∧ swr < 10 ^ 3
  | .forward | .reflected => watts < 10 ^ 4

instance (watts swr : ℕ) (ask : Ask) : Decidable (ask.Fits watts swr) := by
  cases ask <;> (unfold Ask.Fits; infer_instance)

inductive Act
  | elapse (duration : Duration)
  /-- The interval has passed, and a poll begins. -/
  | poll
  | write
  /-- The poller reads a byte. -/
  | receive
  /-- No byte has come for too long. -/
  | expire
  /-- The port is closed, or a read fails, or a request cannot be written. -/
  | fail
  | push
  /-- Something reads the feed. -/
  | read
  /-- The meter answers the first request that it has not answered. -/
  | answer (watts swr : ℕ)
  /-- The meter leaves it without an answer. -/
  | skip
  | noise (bytes : List UInt8)
  deriving DecidableEq

namespace State

section Meter

variable {π : Type} (meter : Meter π) (s : State)

/-- The reading that the feed gives now, unless its sample is stale. -/
def reading : Option (Entry × Reading π) := do
  let entry ← s.feed
  let age := s.now - entry.time
  if meter.staleAfter < age then none
  else
    let forward ← meter.toPower entry.sample.forward
    let reflected := entry.sample.reflected.bind meter.toPower
    return (entry, ⟨forward, reflected, meter.staleAfter - age⟩)

/-- What a complete frame leads to. -/
def complete (todo : List Ask) (sample : Sample) (frame : List UInt8) : Phase :=
  match record meter.driver sample frame with
  | none => .idle
  | some sample => if todo = [] then .pushing sample else .asking todo sample

/-- What one more byte leads to. -/
def receive (ask : Ask) (todo : List Ask) (sample : Sample) (frame : List UInt8) (b : UInt8) :
    Phase :=
  if frame = [] ∧ b ≠ 94 then .reading ask todo sample [] s.now
  else if b = 59 then complete meter todo sample (frame ++ [b])
  else if MAX_FRAME < (frame ++ [b]).length then .idle
  else .reading ask todo sample (frame ++ [b]) s.now

/-- One step. -/
def step (s : State) : Act → Option State
  | .elapse duration => some { s with now := s.now + duration }
  | .poll =>
    if s.phase = .idle ∧ s.due ≤ s.now then
      some { s with
        due := s.now + meter.interval
        polls := s.polls + 1
        phase := .asking meter.driver.requests ⟨0, none⟩ }
    else none
  | .write =>
    match s.phase with
    | .asking (ask :: todo) sample =>
      let request : Request := ⟨s.polls, ask, s.now⟩
      some { s with
        phase := .reading ask todo sample [] s.now
        pending := s.pending ++ [request]
        asked := s.asked ++ [request] }
    | _ => none
  | .receive =>
    match s.phase, s.line with
    | .reading ask todo sample frame _, b :: line =>
      some { s with phase := s.receive meter ask todo sample frame b, line := line }
    | _, _ => none
  | .expire =>
    match s.phase with
    | .reading _ _ _ _ since =>
      -- a byte that is there is read before the time is looked at
      if since + meter.replyTimeout ≤ s.now ∧ s.line = [] then some { s with phase := .idle }
      else none
    | _ => none
  | .fail =>
    match s.phase with
    | .asking (_ :: _) _ | .reading _ _ _ _ _ => some { s with phase := .idle }
    | _ => none
  | .push =>
    match s.phase with
    | .pushing sample => some { s with phase := .idle, feed := some ⟨s.now, sample, s.polls⟩ }
    | _ => none
  | .read =>
    match s.reading meter with
    | some (entry, _) =>
      some { s with reads := s.reads ++ [(s.now, s.asked.filter (·.poll = entry.poll))] }
    | none => some s
  | .answer watts swr =>
    match s.pending with
    | request :: pending =>
      if request.ask.Fits watts swr then
        some { s with
          pending := pending
          line := s.line ++ Utf8.encode (request.ask.reply watts swr)
          answers := s.answers ++ [(request, watts)] }
      else none
    | [] => none
  | .skip => if s.pending = [] then none else some { s with pending := s.pending.tail }
  | .noise bytes => some { s with line := s.line ++ bytes }

end Meter

end State

/-- A meter and its poller, from the start of the poller on. -/
def machine {π : Type} (meter : Meter π) : Machine State Act where
  init s := s = ⟨0, 0, 0, .idle, none, [], [], [], [], []⟩
  step := State.step meter

/-! ### What is promised, and when it holds -/

/-- The meter answered this to a request of a poll. -/
def Answered (s : State) (poll : ℕ) (ask : Ask) (watts : ℕ) : Prop :=
  ∃ time, (⟨poll, ask, time⟩, watts) ∈ s.answers

/-- The sample has what the meter answered to the request. -/
def Has (s : State) (poll : ℕ) (sample : Sample) : Ask → Prop
  | .power => Answered s poll .power sample.forward ∧ sample.reflected = none
  | .forward => Answered s poll .forward sample.forward
  | .reflected => ∃ watts, sample.reflected = some watts ∧ Answered s poll .reflected watts

section Promises

variable {π : Type} (meter : Meter π)

/-- The sample in the feed has what the meter answered to each request of its poll, and a sample
that was read was asked for no longer ago than it is good for. -/
structure Right (s : State) : Prop where
  sample : ∀ entry ∈ s.feed, ∀ ask ∈ meter.driver.requests, Has s entry.poll entry.sample ask
  fresh : ∀ read ∈ s.reads, ∀ request ∈ read.2, read.1 ≤ request.time + meter.staleAfter

/-- A request is written when the meter has none to answer, and nothing on the line can begin a
frame; noise cannot either. The feed is not read in the time by which its sample is older than its
entry. -/
def Clear (s : State) : Act → Prop
  | .write => s.pending = [] ∧ 94 ∉ s.line
  | .noise bytes => 94 ∉ bytes
  | .read => ∀ entry ∈ s.feed, ∀ request ∈ s.asked, request.poll = entry.poll →
      request.time + meter.staleAfter < s.now → entry.time + meter.staleAfter < s.now
  | _ => True

end Promises

/-! ### Answers -/

section Answers

variable {a : Ask} {watts swr : ℕ}

theorem stripPrefix_append (start text : Text) : stripPrefix start (start ++ text) = some text := by
  rw [stripPrefix, if_pos (List.prefix_append start text), List.drop_left]

theorem stripSuffix_append (last : Char) (text : Text) :
    stripSuffix last (text ++ [last]) = some text := by
  rw [stripSuffix, List.getLast?_concat, if_pos rfl, List.dropLast_concat]

theorem splitOnce_digits {first : Text} (h : ∀ c ∈ first, c.isDigit = true) (second : Text) :
    splitOnce ' ' (first ++ ' ' :: second) = some (first, second) := by
  have hne : ∀ c ∈ first, decide (c ≠ ' ') = true := by
    intro c hc
    apply decide_eq_true
    rintro rfl
    exact absurd (h ' ' hc) (by decide)
  rw [splitOnce, if_pos (by simp), List.takeWhile_append_of_pos hne,
    List.dropWhile_append_of_pos hne, List.takeWhile_cons_of_neg (by decide),
    List.dropWhile_cons_of_neg (by decide), List.append_nil]
  rfl

theorem digits_padded {width n : ℕ} (h : n < 10 ^ 4) :
    digits (Decimal.padded width n) = some n := by
  have hdigit : (Decimal.padded width n).all Char.isDigit = true :=
    List.all_eq_true.mpr fun _ hc => Decimal.isDigit_of_padded hc
  rw [digits, Decimal.value_padded,
    if_pos ⟨Decimal.padded_ne_nil width n, hdigit, Nat.lt_trans h (by decide)⟩]

/-- The sample after an answer. -/
def Ask.apply (watts : ℕ) (sample : Sample) : Ask → Sample
  | .power => ⟨watts, none⟩
  | .forward => { sample with forward := watts }
  | .reflected => { sample with reflected := some watts }

/-- An answer is understood as what it answers. -/
theorem record_reply {driver : MeterDriver} (ha : a ∈ driver.requests) (hfits : a.Fits watts swr)
    (sample : Sample) :
    record driver sample (Utf8.encode (a.reply watts swr)) = some (a.apply watts sample) := by
  have htext : Utf8.ofBytes (Utf8.encode (a.reply watts swr)) =
      some (String.ofList (a.reply watts swr)) :=
    Utf8.ofBytes_eq_some.mpr (Utf8.bytes_ofList _)
  rw [record, htext]
  change (match driver with | .kpa500 => _ | .kpa1500 => _) = _
  rw [String.toList_ofList]
  cases driver with
  | kpa500 =>
    obtain rfl := List.mem_singleton.mp ha
    have hreply : Ask.power.reply watts swr =
        "^WS".toList ++ ((Decimal.padded 3 watts ++ ' ' :: Decimal.padded 3 swr) ++ [';']) := by
      simp [Ask.reply]
    have hwatts : watts < 10 ^ 4 := Nat.lt_trans hfits.1 (by decide)
    have hswr : swr < 10 ^ 4 := Nat.lt_trans hfits.2 (by decide)
    dsimp only
    rw [parseKpa500, hreply, stripPrefix_append, Option.bind_some, stripSuffix_append]
    change (splitOnce ' ' _).bind _ = _
    rw [splitOnce_digits fun _ hc => Decimal.isDigit_of_padded hc]
    change (digits _).bind _ = _
    rw [digits_padded hwatts]
    change (digits _).bind _ = _
    rw [digits_padded hswr]
    rfl
  | kpa1500 =>
    have hparse : ∀ tag : Char, tag = 'F' ∨ tag = 'R' → watts < 10 ^ 4 →
        parseKpa1500 ("^PW".toList ++ (tag :: Decimal.padded 4 watts ++ [';'])) =
          some (tag, watts) := by
      intro tag htag hwatts
      rw [parseKpa1500, stripPrefix_append, Option.bind_some, stripSuffix_append]
      change (if tag = 'F' ∨ tag = 'R' then (digits _).bind _ else none) = _
      rw [if_pos htag, digits_padded hwatts]
      rfl
    dsimp only
    obtain rfl | ha := List.mem_cons.mp ha
    · exact (congrArg (Option.bind · _) (hparse 'F' (.inl rfl) hfits)).trans rfl
    · obtain rfl := List.mem_singleton.mp ha
      exact (congrArg (Option.bind · _) (hparse 'R' (.inr rfl) hfits)).trans rfl

/-- A character that stands inside of an answer. -/
def Inner (c : Char) : Prop := c.isDigit = true ∨ c ∈ ['W', 'S', 'P', 'F', 'R', ' ']

theorem Inner.ascii {c : Char} (h : Inner c) : c.toNat < 0x80 ∧ c.toNat ≠ 94 ∧ c.toNat ≠ 59 := by
  obtain h | h := h
  · simp only [Char.isDigit, Bool.and_eq_true, decide_eq_true_eq, UInt32.le_iff_toNat_le] at h
    change 48 ≤ c.toNat ∧ c.toNat ≤ 57 at h
    omega
  · simp only [List.mem_cons, List.not_mem_nil, or_false] at h
    obtain rfl | rfl | rfl | rfl | rfl | rfl := h <;> decide

/-- An answer begins with a caret and ends with a semicolon, has neither inside of it, and is short.
-/
theorem encode_reply (hfits : a.Fits watts swr) : ∃ inner : List UInt8,
    Utf8.encode (a.reply watts swr) = 94 :: inner ++ [59] ∧ 94 ∉ inner ∧ 59 ∉ inner ∧
      inner.length ≤ 9 := by
  have hshape : ∃ inner : Text, a.reply watts swr = '^' :: inner ++ [';'] ∧
      (∀ c ∈ inner, Inner c) ∧ inner.length ≤ 9 := by
    have htagged : ∀ tag, Inner tag → watts < 10 ^ 4 →
        (∀ c ∈ 'P' :: 'W' :: tag :: Decimal.padded 4 watts, Inner c) ∧
          ('P' :: 'W' :: tag :: Decimal.padded 4 watts).length ≤ 9 := by
      intro tag htag hwatts
      have hdigits : ∀ c ∈ Decimal.padded 4 watts, Inner c :=
        fun c hc => .inl (Decimal.isDigit_of_padded hc)
      have hlength : (Decimal.padded 4 watts).length = 4 :=
        Decimal.length_padded (by decide) hwatts
      simp only [List.forall_mem_cons, List.length_cons]
      exact ⟨⟨.inr (by decide), .inr (by decide), htag, hdigits⟩, by omega⟩
    cases a with
    | power =>
      refine ⟨['W', 'S'] ++ (Decimal.padded 3 watts ++ ' ' :: Decimal.padded 3 swr), ?_, ?_, ?_⟩
      · simp [Ask.reply]
      · intro c hc
        simp only [List.mem_append, List.mem_cons, List.not_mem_nil, or_false] at hc
        obtain (rfl | rfl) | hc | rfl | hc := hc
        · exact .inr (by decide)
        · exact .inr (by decide)
        · exact .inl (Decimal.isDigit_of_padded hc)
        · exact .inr (by decide)
        · exact .inl (Decimal.isDigit_of_padded hc)
      · have hwatts : (Decimal.padded 3 watts).length = 3 :=
          Decimal.length_padded (by decide) hfits.1
        have hswr : (Decimal.padded 3 swr).length = 3 :=
          Decimal.length_padded (by decide) hfits.2
        simp only [List.length_append, List.length_cons, List.length_nil]
        omega
    | forward =>
      exact ⟨_, rfl, htagged 'F' (.inr (by decide)) hfits⟩
    | reflected =>
      exact ⟨_, rfl, htagged 'R' (.inr (by decide)) hfits⟩
  obtain ⟨inner, hreply, hinner, hlength⟩ := hshape
  have hascii : ∀ c ∈ '^' :: inner ++ [';'], c.toNat < 0x80 := by
    intro c hc
    simp only [List.cons_append, List.mem_cons, List.mem_append, List.not_mem_nil, or_false] at hc
    obtain rfl | hc | rfl := hc
    · decide
    · exact (hinner c hc).ascii.1
    · decide
  have hbyte : ∀ c ∈ inner, (UInt8.ofNat c.toNat).toNat = c.toNat := fun c hc =>
    Nat.mod_eq_of_lt (Nat.lt_trans (hinner c hc).ascii.1 (by decide))
  refine ⟨inner.map fun c => .ofNat c.toNat, ?_, ?_, ?_, ?_⟩
  · rw [hreply, Utf8.encode_ascii hascii, List.map_append, List.map_cons]
    rfl
  · intro hmem
    obtain ⟨c, hc, hcbyte⟩ := List.mem_map.mp hmem
    have hnat := congrArg UInt8.toNat hcbyte
    rw [hbyte c hc] at hnat
    exact (hinner c hc).ascii.2.1 hnat
  · intro hmem
    obtain ⟨c, hc, hcbyte⟩ := List.mem_map.mp hmem
    have hnat := congrArg UInt8.toNat hcbyte
    rw [hbyte c hc] at hnat
    exact (hinner c hc).ascii.2.2 hnat
  · rw [List.length_map]
    exact hlength

end Answers

/-! ### What is to come -/

/-- What the poller can still read, after a frame that it has begun. -/
inductive Coming (s : State) (a : Ask) : List UInt8 → Prop
  /-- The meter has not answered. -/
  | waiting (time : Instant) (hpending : s.pending = [⟨s.polls, a, time⟩]) (hline : 94 ∉ s.line) :
      Coming s a []
  /-- The meter will not answer. -/
  | silent (hpending : s.pending = []) (hline : 94 ∉ s.line) : Coming s a []
  /-- The answer is on the line, and none of it has been read. -/
  | answered {before after : List UInt8} {watts swr : ℕ} (hpending : s.pending = [])
      (hline : s.line = before ++ (Utf8.encode (a.reply watts swr) ++ after))
      (hbefore : 94 ∉ before) (hafter : 94 ∉ after) (hfits : a.Fits watts swr)
      (hanswered : Answered s s.polls a watts) : Coming s a []
  /-- Some of the answer has been read. -/
  | begun {frame rest after : List UInt8} {watts swr : ℕ} (hpending : s.pending = [])
      (hframe : frame ≠ []) (hrest : rest ≠ [])
      (hreply : frame ++ rest = Utf8.encode (a.reply watts swr)) (hline : s.line = rest ++ after)
      (hafter : 94 ∉ after) (hfits : a.Fits watts swr) (hanswered : Answered s s.polls a watts) :
      Coming s a frame

/-- The sample has what was answered to the first requests of a poll. -/
def HasAll (s : State) (sample : Sample) (done : List Ask) : Prop :=
  ∀ a ∈ done, Has s s.polls sample a

/-- What every clear run keeps. -/
structure Inv {π : Type} (meter : Meter π) (s : State) : Prop where
  right : Right meter s
  asking : ∀ todo sample, s.phase = .asking todo sample →
    ∃ done, done ++ todo = meter.driver.requests ∧ HasAll s sample done
  reading : ∀ a todo sample frame since, s.phase = .reading a todo sample frame since →
    ∃ done, done ++ a :: todo = meter.driver.requests ∧ HasAll s sample done ∧ Coming s a frame
  pushing : ∀ sample, s.phase = .pushing sample → HasAll s sample meter.driver.requests

section Step

variable {π : Type} {meter : Meter π} {s t : State} {a : Ask} {sample : Sample} {watts : ℕ}

theorem Has.mono {poll : ℕ} (hanswers : ∀ e ∈ s.answers, e ∈ t.answers) (h : Has s poll sample a) :
    Has t poll sample a := by
  cases a with
  | power =>
    obtain ⟨⟨time, hmem⟩, hnone⟩ := h
    exact ⟨⟨time, hanswers _ hmem⟩, hnone⟩
  | forward =>
    obtain ⟨time, hmem⟩ := h
    exact ⟨time, hanswers _ hmem⟩
  | reflected =>
    obtain ⟨watts, hwatts, time, hmem⟩ := h
    exact ⟨watts, hwatts, time, hanswers _ hmem⟩

/-- An answer adds itself to the sample and takes nothing away. -/
theorem hasAll_apply {driver : MeterDriver} {done todo : List Ask}
    (hrequests : done ++ a :: todo = driver.requests) (hdone : HasAll s sample done)
    (hanswered : Answered s s.polls a watts) : HasAll s (a.apply watts sample) (done ++ [a]) := by
  intro b hb
  obtain hb | hb := List.mem_append.mp hb
  · cases driver with
    | kpa500 =>
      cases done with
      | nil => cases hb
      | cons c done =>
        have hlength := congrArg List.length hrequests
        simp [MeterDriver.requests] at hlength
    | kpa1500 =>
      cases done with
      | nil => cases hb
      | cons c done =>
        obtain ⟨rfl, hrest⟩ := List.cons.inj hrequests
        cases done with
        | nil =>
          -- the forward power, when the reflected one is answered
          obtain rfl := List.mem_singleton.mp hb
          obtain rfl := (List.cons.inj hrest).1
          exact hdone .forward (.head _)
        | cons c done =>
          have hlength := congrArg List.length hrest
          simp at hlength
  · obtain rfl := List.mem_singleton.mp hb
    cases b with
    | power => exact ⟨hanswered, rfl⟩
    | forward => exact hanswered
    | reflected => exact ⟨watts, rfl, hanswered⟩

/-- What is to come is on the line, in the requests and in the answers. -/
theorem Coming.congr {frame : List UInt8} (hpolls : t.polls = s.polls)
    (hpending : t.pending = s.pending) (hline : t.line = s.line)
    (hanswers : ∀ e ∈ s.answers, e ∈ t.answers) (h : Coming s a frame) : Coming t a frame := by
  have hmono : ∀ watts, Answered s s.polls a watts → Answered t t.polls a watts := by
    intro watts ⟨time, hmem⟩
    exact ⟨time, hpolls ▸ hanswers _ hmem⟩
  cases h with
  | waiting time hp hl =>
    exact .waiting time (by rw [hpending, hp, hpolls]) (by rw [hline]; exact hl)
  | silent hp hl => exact .silent (by rw [hpending, hp]) (by rw [hline]; exact hl)
  | answered hp hl hb ha hf hanswered =>
    exact .answered (by rw [hpending, hp]) (by rw [hline, hl]) hb ha hf (hmono _ hanswered)
  | begun hp hne hrest hreply hl ha hf hanswered =>
    exact .begun (by rw [hpending, hp]) hne hrest hreply (by rw [hline, hl]) ha hf
      (hmono _ hanswered)

/-- One more byte of an answer that has been begun, or of what comes before it. -/
theorem receive_coming (meter : Meter π) (sample : Sample) (todo : List Ask)
    {frame line : List UInt8} {b : UInt8}
    (hcoming : Coming s a frame) (hline : s.line = b :: line) :
    (∃ frame', s.receive meter a todo sample frame b = .reading a todo sample frame' s.now ∧
      Coming { s with line := line } a frame') ∨
    ∃ watts swr, a.Fits watts swr ∧ Answered s s.polls a watts ∧
      s.receive meter a todo sample frame b =
        State.complete meter todo sample (Utf8.encode (a.reply watts swr)) := by
  have hskip : b ≠ 94 →
      s.receive meter a todo sample [] b = .reading a todo sample [] s.now :=
    fun hb => if_pos ⟨rfl, hb⟩
  cases hcoming with
  | waiting time hpending hclear =>
    rw [hline, List.mem_cons, not_or] at hclear
    exact .inl ⟨[], hskip (Ne.symm hclear.1), .waiting time hpending hclear.2⟩
  | silent hpending hclear =>
    rw [hline, List.mem_cons, not_or] at hclear
    exact .inl ⟨[], hskip (Ne.symm hclear.1), .silent hpending hclear.2⟩
  | @answered before after watts swr hpending hwhole hbefore hafter hfits hanswered =>
    rw [hline] at hwhole
    cases before with
    | cons c before =>
      obtain ⟨rfl, hrest⟩ := List.cons.inj hwhole
      rw [List.mem_cons, not_or] at hbefore
      exact .inl ⟨[], hskip (Ne.symm hbefore.1),
        .answered hpending hrest hbefore.2 hafter hfits hanswered⟩
    | nil =>
      obtain ⟨inner, hreply, -⟩ := encode_reply hfits
      rw [List.nil_append, hreply] at hwhole
      obtain ⟨rfl, hrest⟩ := List.cons.inj hwhole
      refine .inl ⟨[94], rfl, ?_⟩
      exact .begun hpending (by decide) (by simp) hreply.symm hrest hafter hfits hanswered
  | @begun _ rest after watts swr hpending hframe hrest hreply hwhole hafter hfits hanswered =>
    obtain ⟨c, rest, rfl⟩ := List.exists_cons_of_ne_nil hrest
    rw [hline] at hwhole
    obtain ⟨rfl, hline'⟩ := List.cons.inj hwhole
    obtain ⟨inner, hshape, hcaret, hsemicolon, hlength⟩ := encode_reply hfits
    have hreceive : s.receive meter a todo sample frame b =
        if b = 59 then State.complete meter todo sample (frame ++ [b])
        else if MAX_FRAME < (frame ++ [b]).length then .idle
        else .reading a todo sample (frame ++ [b]) s.now := if_neg fun h => hframe h.1
    cases rest with
    | nil =>
      -- the last byte of the answer
      have hb : b = 59 := by
        rw [hshape] at hreply
        exact (List.append_inj' hreply rfl).2 |> List.head_eq_of_cons_eq
      refine .inr ⟨watts, swr, hfits, hanswered, ?_⟩
      rw [hreceive, if_pos hb, hreply]
    | cons d rest =>
      have hrest' : d :: rest ≠ [] := List.cons_ne_nil d rest
      have hwhole := hreply.trans hshape
      have hinner : b ∈ 94 :: inner := by
        have hsplit : frame ++ b :: (d :: rest).dropLast ++ [(d :: rest).getLast hrest'] =
            94 :: inner ++ [59] := by
          rw [List.append_assoc, List.cons_append, List.dropLast_append_getLast, hwhole]
        rw [← List.append_inj_left' hsplit rfl]
        exact List.mem_append_right _ (.head _)
      have hshort : (frame ++ [b]).length ≤ MAX_FRAME := by
        have hlengths := congrArg List.length hwhole
        simp only [List.length_append, List.length_cons, List.length_nil] at hlengths ⊢
        change _ ≤ 32
        omega
      refine .inl ⟨frame ++ [b], ?_, ?_⟩
      · rw [hreceive, if_neg, if_neg (Nat.not_lt.mpr hshort)]
        rintro rfl
        exact absurd hinner (by simp [hsemicolon])
      · refine .begun hpending (by simp) (List.cons_ne_nil d rest) ?_ hline' hafter hfits hanswered
        rw [List.append_assoc]
        exact hreply

/-- What is read of the feed is in it, and not stale. -/
theorem feed_of_reading {entry : Entry} {reading : Reading π}
    (h : s.reading meter = some (entry, reading)) :
    s.feed = some entry ∧ s.now - entry.time ≤ meter.staleAfter := by
  obtain ⟨entry', hfeed, hentry⟩ := Option.bind_eq_some_iff.mp h
  dsimp only at hentry
  split_ifs at hentry with hage
  obtain ⟨forward, -, hreading⟩ := Option.bind_eq_some_iff.mp hentry
  obtain ⟨rfl, -⟩ := Prod.mk.inj (Option.some.inj hreading)
  exact ⟨hfeed, Nat.le_of_not_lt hage⟩

/-- What is in the feed, or goes into it, is right after a step of a clear run. -/
theorem inv_step {act : Act} (hinv : Inv meter s) (hclear : Clear meter s act)
    (h : (machine meter).step s act = some t) : Inv meter t := by
  obtain ⟨⟨hsample, hfresh⟩, hasking, hreading, hpushing⟩ := hinv
  change State.step meter s act = _ at h
  cases act with
  | elapse duration =>
    cases h
    refine ⟨⟨hsample, hfresh⟩, hasking, fun a todo sample frame since hphase => ?_, hpushing⟩
    obtain ⟨done, hdone, hall, hcoming⟩ := hreading a todo sample frame since hphase
    exact ⟨done, hdone, hall, .congr (s := s) rfl rfl rfl (fun _ => id) hcoming⟩
  | poll =>
    unfold State.step at h
    dsimp only at h
    split_ifs at h with hdue
    cases h
    refine ⟨⟨hsample, hfresh⟩, fun todo sample hphase => ?_, nofun, nofun⟩
    cases hphase
    exact ⟨[], rfl, nofun⟩
  | write =>
    unfold State.step at h
    dsimp only at h
    split at h
    next a todo sample hphase =>
      cases h
      obtain ⟨hpending, hline⟩ := hclear
      refine ⟨⟨hsample, hfresh⟩, nofun, fun a' todo' sample' frame since hphase' => ?_, nofun⟩
      cases hphase'
      obtain ⟨done, hdone, hall⟩ := hasking _ _ hphase
      refine ⟨done, hdone, hall, ?_⟩
      exact .waiting s.now (by rw [hpending]; rfl) hline
    · cases h
  | receive =>
    unfold State.step at h
    dsimp only at h
    split at h
    next a todo sample frame since b line hphase hline =>
      cases h
      obtain ⟨done, hdone, hall, hcoming⟩ := hreading _ _ _ _ _ hphase
      obtain ⟨frame', hnext, hcoming'⟩ | ⟨watts, swr, hfits, hanswered, hnext⟩ :=
        receive_coming meter sample todo hcoming hline
      · refine ⟨⟨hsample, hfresh⟩, ?_, ?_, ?_⟩
        · intro todo' sample' hphase'
          cases hnext.symm.trans hphase'
        · intro a' todo' sample' frame'' since' hphase'
          cases hnext.symm.trans hphase'
          exact ⟨done, hdone, hall,
            .congr (s := { s with line := line }) rfl rfl rfl (fun _ => id) hcoming'⟩
        · intro sample' hphase'
          cases hnext.symm.trans hphase'
      · have ha : a ∈ meter.driver.requests := by
          rw [← hdone]
          exact List.mem_append_right _ (.head _)
        have hall' := hasAll_apply hdone hall hanswered
        rw [State.complete, record_reply ha hfits] at hnext
        dsimp only at hnext
        by_cases htodo : todo = []
        · rw [if_pos htodo] at hnext
          refine ⟨⟨hsample, hfresh⟩, ?_, ?_, ?_⟩
          · intro todo' sample' hphase'
            cases hnext.symm.trans hphase'
          · intro a' todo' sample' frame'' since' hphase'
            cases hnext.symm.trans hphase'
          · intro sample' hphase'
            cases hnext.symm.trans hphase'
            rw [htodo] at hdone
            rw [← hdone]
            exact hall'
        · rw [if_neg htodo] at hnext
          refine ⟨⟨hsample, hfresh⟩, ?_, ?_, ?_⟩
          · intro todo' sample' hphase'
            cases hnext.symm.trans hphase'
            refine ⟨done ++ [a], ?_, hall'⟩
            rw [List.append_assoc]
            exact hdone
          · intro a' todo' sample' frame'' since' hphase'
            cases hnext.symm.trans hphase'
          · intro sample' hphase'
            cases hnext.symm.trans hphase'
    · cases h
  | expire =>
    unfold State.step at h
    dsimp only at h
    split at h
    · split_ifs at h with hlate
      cases h
      exact ⟨⟨hsample, hfresh⟩, nofun, nofun, nofun⟩
    · cases h
  | fail =>
    unfold State.step at h
    dsimp only at h
    split at h
    · cases h
      exact ⟨⟨hsample, hfresh⟩, nofun, nofun, nofun⟩
    · cases h
      exact ⟨⟨hsample, hfresh⟩, nofun, nofun, nofun⟩
    · cases h
  | push =>
    unfold State.step at h
    dsimp only at h
    split at h
    next sample hphase =>
      cases h
      refine ⟨⟨fun entry hentry => ?_, hfresh⟩, nofun, nofun, nofun⟩
      obtain rfl := Option.some.inj hentry
      exact hpushing sample hphase
    · cases h
  | read =>
    unfold State.step at h
    dsimp only at h
    have hsame : ∀ reads, Right meter { s with reads := reads } →
        Inv meter { s with reads := reads } := by
      refine fun reads hright => ⟨hright, hasking, fun a todo sample frame since hphase => ?_,
        hpushing⟩
      obtain ⟨done, hdone, hall, hcoming⟩ := hreading a todo sample frame since hphase
      exact ⟨done, hdone, hall, .congr (s := s) rfl rfl rfl (fun _ => id) hcoming⟩
    split at h
    next entry reading hentry =>
      cases h
      refine hsame _ ⟨hsample, fun read hread => ?_⟩
      obtain hread | hread := List.mem_append.mp hread
      · exact hfresh read hread
      · obtain rfl := List.mem_singleton.mp hread
        intro request hrequest
        obtain ⟨hmem, hpoll⟩ := List.mem_filter.mp hrequest
        obtain ⟨hfeed, hage⟩ := feed_of_reading hentry
        by_contra hstale
        have hlate := hclear entry hfeed request hmem (of_decide_eq_true hpoll)
          (Nat.lt_of_not_le hstale)
        exact absurd (Nat.sub_le_iff_le_add'.mp hage) (Nat.not_le.mpr hlate)
    · cases h
      exact hsame s.reads ⟨hsample, hfresh⟩
  | answer watts swr =>
    unfold State.step at h
    dsimp only at h
    split at h
    next request pending hpending =>
      split_ifs at h with hfits
      cases h
      have hmono : ∀ e ∈ s.answers, e ∈ s.answers ++ [(request, watts)] :=
        fun e he => List.mem_append_left _ he
      refine ⟨⟨fun entry hentry a ha => (hsample entry hentry a ha).mono hmono, hfresh⟩,
        fun todo sample hphase => ?_, fun a todo sample frame since hphase => ?_,
        fun sample hphase a ha => (hpushing sample hphase a ha).mono hmono⟩
      · obtain ⟨done, hdone, hall⟩ := hasking todo sample hphase
        exact ⟨done, hdone, fun a ha => (hall a ha).mono hmono⟩
      · obtain ⟨done, hdone, hall, hcoming⟩ := hreading a todo sample frame since hphase
        refine ⟨done, hdone, fun a ha => (hall a ha).mono hmono, ?_⟩
        cases hcoming with
        | waiting time hp hline =>
          rw [hp] at hpending
          obtain ⟨rfl, rfl⟩ := List.cons.inj hpending
          exact .answered rfl (congrArg (s.line ++ ·) (List.append_nil _).symm) hline nofun hfits
            ⟨_, List.mem_append_right _ (.head _)⟩
        | silent hp hline =>
          rw [hp] at hpending
          cases hpending
        | answered hp hline hbefore hafter hf hanswered =>
          rw [hp] at hpending
          cases hpending
        | begun hp hne hrest hreply hline hafter hf hanswered =>
          rw [hp] at hpending
          cases hpending
    · cases h
  | skip =>
    unfold State.step at h
    dsimp only at h
    split_ifs at h with hnone
    cases h
    refine ⟨⟨hsample, hfresh⟩, hasking, fun a todo sample frame since hphase => ?_, hpushing⟩
    obtain ⟨done, hdone, hall, hcoming⟩ := hreading a todo sample frame since hphase
    refine ⟨done, hdone, hall, ?_⟩
    cases hcoming with
    | waiting time hp hline => exact .silent (by rw [hp]; rfl) hline
    | silent hp hline => exact absurd hp hnone
    | answered hp hline hbefore hafter hf hanswered => exact absurd hp hnone
    | begun hp hne hrest hreply hline hafter hf hanswered => exact absurd hp hnone
  | noise bytes =>
    cases h
    have hclear : 94 ∉ bytes := hclear
    have hboth : ∀ {l : List UInt8}, 94 ∉ l → 94 ∉ l ++ bytes := by
      intro l hl
      rw [List.mem_append, not_or]
      exact ⟨hl, hclear⟩
    refine ⟨⟨hsample, hfresh⟩, hasking, fun a todo sample frame since hphase => ?_, hpushing⟩
    obtain ⟨done, hdone, hall, hcoming⟩ := hreading a todo sample frame since hphase
    refine ⟨done, hdone, hall, ?_⟩
    cases hcoming with
    | waiting time hp hline => exact .waiting time hp (hboth hline)
    | silent hp hline => exact .silent hp (hboth hline)
    | answered hp hline hbefore hafter hf hanswered =>
      refine .answered hp ?_ hbefore (hboth hafter) hf hanswered
      rw [hline]
      simp only [List.append_assoc]
    | begun hp hne hrest hreply hline hafter hf hanswered =>
      refine .begun hp hne hrest hreply ?_ (hboth hafter) hf hanswered
      rw [hline, List.append_assoc]

theorem inv_init {s : State} (h : (machine meter).init s) : Inv meter s := by
  cases h
  exact ⟨⟨nofun, nofun⟩, nofun, nofun, nofun⟩

instance (s : State) (act : Act) : Decidable (Clear meter s act) := by
  cases act <;> (unfold Clear; infer_instance)

/-- A meter that is asked once for each sample. -/
def oneAsk : Meter ℕ := ⟨.kpa500, 2, 10, 5, some⟩

def started : State := ⟨0, 0, 0, .idle, none, [], [], [], [], []⟩

/-- **The feed has what the meter answered to the requests of its poll, and what is read of it is
not stale**, in every run that is clear. -/
theorem reach_right (h : (machine meter).Reach (Clear meter) s) : Right meter s :=
  (h.invariant (fun _ => inv_init) fun _ _ _ => inv_step).right

/-- A poll that is answered at once. -/
theorem answered_right : ∃ s, s.feed = some ⟨1, ⟨100, none⟩, 1⟩ ∧ s.reads.length = 1 ∧
    Right oneAsk s := by
  have hstart : (machine oneAsk).Reach (Clear oneAsk) started := .init rfl
  obtain ⟨s, hs, hfeed, hreads⟩ := hstart.exists_of_runWhile
    (P := fun s => s.feed = some ⟨1, ⟨100, none⟩, 1⟩ ∧ s.reads.length = 1)
    ([.poll, .noise [59], .write, .elapse 1, .answer 100 10] ++ List.replicate 12 .receive ++
      [.push, .elapse 3, .read]) (by decide +kernel)
  exact ⟨s, hfeed, hreads, reach_right hs⟩

/-- The answer to a request that was given up is taken for the answer to the next one. -/
theorem late_answer_wrong : ∃ s, (machine oneAsk).Reachable s ∧ ¬ Right oneAsk s := by
  have hstart : (machine oneAsk).Reachable started := .init rfl
  obtain ⟨s, hs, hfeed, hanswers⟩ := hstart.exists_of_run
    (P := fun s => s.feed = some ⟨10, ⟨100, none⟩, 2⟩ ∧
      s.answers = [(⟨1, .power, 0⟩, 100)])
    ([.poll, .write, .elapse 2, .expire, .elapse 8, .poll, .write, .answer 100 10] ++
      List.replicate 11 .receive ++ [.push]) (by decide +kernel)
  refine ⟨s, hs, fun h => ?_⟩
  obtain ⟨⟨time, hmem⟩, -⟩ := h.sample _ hfeed .power (.head _)
  rw [hanswers] at hmem
  cases List.mem_singleton.mp hmem

end Step

end HamsOpen.Station.PowerMeter
