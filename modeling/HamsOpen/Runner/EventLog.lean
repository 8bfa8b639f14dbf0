import HamsOpen.Lib.JsonCompact
import HamsOpen.Lib.Paging
import HamsOpen.Station.RecordStore
import Mathlib

/-!
# The event log of a run

The events file of `store.rs`: each event is a line of JSON with its number, and a reader asks for
the events after a number, as many as fit a page. Once the next event would fill the file to its
cap, a marker takes its place, and when the file is full nothing more is stored.

That the file cannot be written or read is left out. The numbers of events do not come near the
largest one of 64 bits.
-/

namespace HamsOpen.Runner

open Json (str num obj)
open Station (F64 JsonValue NESTING Number Serde)

abbrev Text := List Char

/-- The largest events file: 8 MiB. -/
def EVENTS_CAP : ℕ := 8388608

/-- An event to be logged, with the seconds since the start of the run. -/
structure Event where
  t : F64
  kind : String
  data : JsonValue

/-- The members that the data of an event brings. -/
def Event.members : JsonValue → List (String × JsonValue)
  | obj m => m
  | other => [("data", other)]

/-- What is stored of an event under a number. -/
def Event.value (n : ℕ) (e : Event) : JsonValue :=
  Json.object ([("seq", num (.int n)), ("t", Station.ofF64 e.t), ("kind", str e.kind)] ++
    Event.members e.data)

/-- What is stored in the place of the first event that does not fit. -/
def truncated (n : ℕ) : JsonValue :=
  Json.object [("seq", num (.int n)), ("kind", str "truncated"),
    ("msg", str "the event list is full; later events are counted, not stored")]

structure EventLog where
  file : Text
  seq : ℕ
  bytes : ℕ
  dropped : ℕ

section Log

variable (serde : Serde)

/-- The line of a value. -/
def toLine (v : JsonValue) : Text := Json.compact (Number.text serde) v

namespace EventLog

def «open» : EventLog := ⟨[], 0, 0, 0⟩

/-- Writes a line under the next number. -/
def write (line : Text) (l : EventLog) : EventLog :=
  { l with
    file := l.file ++ (line ++ ['\n'])
    seq := l.seq + 1
    bytes := l.bytes + (Json.size line + 1) }

/-- Appends an event, and tells its number, or that it was dropped. -/
def append (e : Event) (l : EventLog) : ℕ × EventLog :=
  if EVENTS_CAP ≤ l.bytes then (0, { l with dropped := l.dropped + 1 })
  else
    let line := toLine serde (e.value (l.seq + 1))
    let line :=
      if EVENTS_CAP ≤ l.bytes + Json.size line then toLine serde (truncated (l.seq + 1)) else line
    (l.seq + 1, l.write line)

/-- The log after some events. -/
def after (events : List Event) : EventLog := events.foldl (fun l e => (append serde e l).2) «open»

end EventLog

/-! ### Reading -/

/-- A line without its line break. -/
def chomp (line : Text) : Text := if line.getLast? = some '\r' then line.dropLast else line

/-- The lines of a text, of which the first has begun. -/
def linesFrom : Text → Text → List Text
  | line, [] => if line = [] then [] else [line]
  | line, c :: cs => if c = '\n' then chomp line :: linesFrom [] cs else linesFrom (line ++ [c]) cs

def lines (cs : Text) : List Text := linesFrom [] cs

/-- The value of a line, if it has one. -/
def fromStr (line : Text) : Option JsonValue :=
  (Json.parse NESTING line).bind (Json.order (Number.ofText serde))

/-- The number of an event. -/
def seqOf : JsonValue → ℕ
  | obj m => (((m.lookup "seq").bind Station.asU64).map UInt64.toNat).getD 0
  | _ => 0

/-- Collects the events after a cursor from lines: the events, the number of the last, and whether
more are left. -/
def collect (cursor maxBytes : ℕ) : ℕ → ℕ → List JsonValue → List Text → List JsonValue × ℕ × Bool
  | _, last, out, [] => (out, last, false)
  | used, last, out, line :: ls =>
    match fromStr serde line with
    | none => collect cursor maxBytes used last out ls
    | some v =>
      if seqOf v ≤ cursor then collect cursor maxBytes used last out ls
      else if maxBytes < used + Json.size line ∧ out ≠ [] then (out, last, true)
      else collect cursor maxBytes (used + Json.size line) (seqOf v) (out ++ [v]) ls

/-- The events of a file after a cursor, as many as fit in so many bytes. -/
def readEvents (file : Text) (cursor maxBytes : ℕ) : List JsonValue × ℕ × Bool :=
  collect serde cursor maxBytes 0 cursor [] (lines file)

/-- What is read from a cursor on, and then from each cursor that is returned, to the end. -/
inductive ReadOn (file : Text) (maxBytes : ℕ) : ℕ → List JsonValue → Prop
  | last {cursor next : ℕ} {out : List JsonValue} :
      readEvents serde file cursor maxBytes = (out, next, false) → ReadOn file maxBytes cursor out
  | more {cursor next : ℕ} {out rest : List JsonValue} :
      readEvents serde file cursor maxBytes = (out, next, true) →
      ReadOn file maxBytes next rest → ReadOn file maxBytes cursor (out ++ rest)

/-! ### What the log is for -/

/-- The line of an event under a number. -/
def Event.line (n : ℕ) (e : Event) : Text := toLine serde (e.value n)

/-- The line of the marker. -/
def marker (n : ℕ) : Text := toLine serde (truncated n)

namespace Event

/-- What is stored of events, numbered after `n`, if that is a beginning of them, and the marker if
any was not stored. -/
def StoredAs (n : ℕ) (events : List Event) (stored : List Text) : Prop :=
  ∃ k ≤ events.length, stored = ((events.take k).mapIdx fun i e => e.line serde (n + i + 1)) ++
    if k < events.length then [marker serde (n + k + 1)] else []

/-- A beginning of the events is stored, with the marker if any was not, each stored event is read
once and in order with pages of every size, and the file is within its cap but for the marker. -/
structure Logged (events : List Event) : Prop where
  stored : StoredAs serde 0 events (lines (EventLog.after serde events).file)
  read : ∀ maxBytes, 0 < maxBytes → ∃ vs,
    ReadOn serde (EventLog.after serde events).file maxBytes 0 vs ∧
      (lines (EventLog.after serde events).file).map (fromStr serde) = vs.map some
  capped : Json.size (EventLog.after serde events).file ≤ EVENTS_CAP ∨
    ∃ n, (lines (EventLog.after serde events).file).getLast? = some (marker serde n) ∧
      Json.size (EventLog.after serde events).file ≤ EVENTS_CAP + (Json.size (marker serde n) + 1)

end Event

/-! ### The file as lines -/

variable {serde}

theorem chomp_append_newline {line acc : Text} (h : '\n' ∉ line) (rest : Text) :
    linesFrom acc (line ++ ('\n' :: rest)) = chomp (acc ++ line) :: linesFrom [] rest := by
  induction line generalizing acc with
  | nil => rw [List.nil_append, linesFrom, if_pos rfl, List.append_nil]
  | cons c line ih =>
    have hc : c ≠ '\n' := fun heq => h (heq ▸ List.mem_cons_self)
    rw [List.cons_append, linesFrom, if_neg hc, ih fun hmem => h (List.mem_cons_of_mem c hmem),
      List.append_assoc, List.singleton_append]

/-- A text that is a line of a file: it has no line break, and does not end in half of one. -/
def IsLine (line : Text) : Prop := '\n' ∉ line ∧ line.getLast? ≠ some '\r'

/-- The lines of a file are those that were written. -/
theorem lines_flatMap {ls : List Text} (h : ∀ line ∈ ls, IsLine line) :
    lines (ls.flatMap (· ++ ['\n'])) = ls := by
  induction ls with
  | nil => rfl
  | cons line ls ih =>
    obtain ⟨hnewline, hlast⟩ := h line List.mem_cons_self
    rw [List.flatMap_cons, List.append_assoc, List.singleton_append, lines,
      chomp_append_newline hnewline, List.nil_append, chomp, if_neg hlast]
    exact congrArg (line :: ·) (ih fun l hl => h l (List.mem_cons_of_mem line hl))

theorem isLine_object (members : List (String × JsonValue)) :
    IsLine (toLine serde (Json.object members)) := by
  refine ⟨Json.newline_not_mem_compact (Number.isNumber_text serde) _, ?_⟩
  have hlast (es : List Text) : (Json.joined '}' es).getLast? = some '}' := by
    cases es with
    | nil => rfl
    | cons e es => rw [Json.joined, ← List.append_assoc, List.getLast?_append]; rfl
  have hcons {c : Char} {cs : Text} (h : cs.getLast? = some '}') :
      (c :: cs).getLast? = some '}' := by
    rw [List.getLast?_cons, h]
    rfl
  rw [toLine, Json.object, Json.compact_obj, hcons (hlast _)]
  decide

/-- An object is no empty text. -/
theorem size_object_pos (members : List (String × JsonValue)) :
    0 < Json.size (toLine serde (Json.object members)) := by
  rw [toLine, Json.object, Json.compact_obj, Json.size_cons]
  exact Nat.add_pos_left (by decide) _

/-! ### What is stored -/

variable (serde) in
/-- The lines that are stored of events after `n` of them in so many bytes. -/
def stored (n bytes : ℕ) : List Event → List Text
  | [] => []
  | e :: es =>
    if EVENTS_CAP ≤ bytes then stored n bytes es
    else if EVENTS_CAP ≤ bytes + Json.size (e.line serde (n + 1)) then
      marker serde (n + 1) :: stored (n + 1) (bytes + (Json.size (marker serde (n + 1)) + 1)) es
    else e.line serde (n + 1) ::
      stored (n + 1) (bytes + (Json.size (e.line serde (n + 1)) + 1)) es

theorem stored_full {n bytes : ℕ} (h : EVENTS_CAP ≤ bytes) (events : List Event) :
    stored serde n bytes events = [] := by
  induction events with
  | nil => rfl
  | cons e es ih => rw [stored, if_pos h, ih]

theorem append_full {e : Event} {l : EventLog} (h : EVENTS_CAP ≤ l.bytes) :
    (EventLog.append serde e l).2 = { l with dropped := l.dropped + 1 } := by
  rw [EventLog.append, if_pos h]

theorem append_marker {e : Event} {l : EventLog} (h : ¬ EVENTS_CAP ≤ l.bytes)
    (hline : EVENTS_CAP ≤ l.bytes + Json.size (e.line serde (l.seq + 1))) :
    (EventLog.append serde e l).2 = l.write (marker serde (l.seq + 1)) := by
  rw [EventLog.append, if_neg h]
  exact congrArg l.write (if_pos hline)

theorem append_line {e : Event} {l : EventLog} (h : ¬ EVENTS_CAP ≤ l.bytes)
    (hline : ¬ EVENTS_CAP ≤ l.bytes + Json.size (e.line serde (l.seq + 1))) :
    (EventLog.append serde e l).2 = l.write (e.line serde (l.seq + 1)) := by
  rw [EventLog.append, if_neg h]
  exact congrArg l.write (if_neg hline)

theorem foldl_file (events : List Event) (l : EventLog) :
    (events.foldl (fun l e => (EventLog.append serde e l).2) l).file =
      l.file ++ (stored serde l.seq l.bytes events).flatMap (· ++ ['\n']) := by
  induction events generalizing l with
  | nil => exact (List.append_nil _).symm
  | cons e es ih =>
    rw [List.foldl_cons, ih, stored]
    by_cases hfull : EVENTS_CAP ≤ l.bytes
    · rw [append_full hfull, if_pos hfull]
    rw [if_neg hfull]
    by_cases hline : EVENTS_CAP ≤ l.bytes + Json.size (e.line serde (l.seq + 1))
    · rw [append_marker hfull hline, if_pos hline, List.flatMap_cons, ← List.append_assoc]
      rfl
    · rw [append_line hfull hline, if_neg hline, List.flatMap_cons, ← List.append_assoc]
      rfl

theorem isLine_stored (n bytes : ℕ) (events : List Event) :
    ∀ line ∈ stored serde n bytes events, IsLine line ∧ 0 < Json.size line := by
  induction events generalizing n bytes with
  | nil => exact nofun
  | cons e es ih =>
    rw [stored]
    split
    · exact ih n bytes
    split
    · exact List.forall_mem_cons.mpr ⟨⟨isLine_object _, size_object_pos _⟩, ih _ _⟩
    · exact List.forall_mem_cons.mpr ⟨⟨isLine_object _, size_object_pos _⟩, ih _ _⟩

/-- The lines of the file are those that were stored. -/
theorem lines_after (events : List Event) :
    lines (EventLog.after serde events).file = stored serde 0 0 events := by
  rw [EventLog.after, foldl_file]
  exact lines_flatMap fun line hline => (isLine_stored 0 0 events line hline).1

/-! ### A beginning of the events -/

/-- No event is stored as the marker: its time is stored with it. -/
theorem line_ne_marker (e : Event) (n m : ℕ) : e.line serde n ≠ marker serde m := by
  intro heq
  have hmap := Json.map_eq_of_compact_eq (Number.isNumber_text serde) heq
  rw [Event.value, truncated, Json.object, Json.object, Json.map_obj, Json.map_obj] at hmap
  injection hmap with hmembers
  have hkeys := congrArg (List.map (·.1)) hmembers
  rw [List.map_map, List.map_map] at hkeys
  -- the keys are the same, and one is "t"
  have hmem : "t" ∈ (OrderedMap.ofList ([("seq", num (.int n)), ("t", Station.ofF64 e.t),
      ("kind", str e.kind)] ++ Event.members e.data)).map (·.1) :=
    OrderedMap.mem_keys_ofList.mpr (by simp)
  have hnot : "t" ∉ (OrderedMap.ofList [("seq", num (.int m)), ("kind", str "truncated"),
      ("msg", (str "the event list is full; later events are counted, not stored" :
        JsonValue))]).map (·.1) := by
    rw [OrderedMap.mem_keys_ofList]
    simp
  have hsame {l : List (String × JsonValue)} :
      l.map ((·.1) ∘ fun m => (m.1, Json.map (Number.text serde) m.2)) = l.map (·.1) := rfl
  rw [hsame, hsame] at hkeys
  exact hnot (hkeys ▸ hmem)

theorem storedAs_nil {n : ℕ} {ls : List Text} : Event.StoredAs serde n [] ls ↔ ls = [] := by
  constructor
  · rintro ⟨k, hk, rfl⟩
    obtain rfl := Nat.le_zero.mp hk
    rfl
  · rintro rfl
    exact ⟨0, Nat.le_refl 0, rfl⟩

theorem storedAs_cons {n : ℕ} {e : Event} {es : List Event} {ls : List Text} :
    Event.StoredAs serde n (e :: es) ls ↔
      ls = [marker serde (n + 1)] ∨
        ∃ ls', ls = e.line serde (n + 1) :: ls' ∧ Event.StoredAs serde (n + 1) es ls' := by
  have hnumber (k : ℕ) : n + 1 + k + 1 = n + (k + 1) + 1 := by omega
  have hlines (k : ℕ) : ((e :: es).take (k + 1)).mapIdx (fun i e => e.line serde (n + i + 1)) =
      e.line serde (n + 1) :: (es.take k).mapIdx fun i e => e.line serde (n + 1 + i + 1) := by
    rw [List.take_succ_cons, List.mapIdx_cons]
    simp only [hnumber, Nat.add_zero]
  constructor
  · rintro ⟨k, hk, rfl⟩
    cases k with
    | zero => exact .inl rfl
    | succ k =>
      rw [hlines, List.length_cons, ← hnumber, List.cons_append]
      refine .inr ⟨_, rfl, k, Nat.le_of_succ_le_succ hk, ?_⟩
      simp only [Nat.add_lt_add_iff_right]
  · rintro (rfl | ⟨ls', rfl, k, hk, rfl⟩)
    · exact ⟨0, Nat.zero_le _, rfl⟩
    · refine ⟨k + 1, Nat.succ_le_succ hk, ?_⟩
      rw [hlines, List.length_cons, ← hnumber]
      simp only [Nat.add_lt_add_iff_right, List.cons_append]

variable (serde) in
/-- The sizes do no harm. -/
def Event.Fits (n bytes : ℕ) : List Event → Prop
  | [] => True
  | e :: es =>
    if bytes + Json.size (e.line serde (n + 1)) < EVENTS_CAP then
      Event.Fits (n + 1) (bytes + (Json.size (e.line serde (n + 1)) + 1)) es
    else bytes < EVENTS_CAP ∧
      (es = [] ∨ EVENTS_CAP ≤ bytes + (Json.size (marker serde (n + 1)) + 1))

/-- Nothing is stored of no events, or when the file is full. -/
theorem stored_eq_nil {n bytes : ℕ} {events : List Event} :
    stored serde n bytes events = [] ↔ events = [] ∨ EVENTS_CAP ≤ bytes := by
  constructor
  · intro h
    cases events with
    | nil => exact .inl rfl
    | cons e es =>
      rw [stored] at h
      split at h
      · exact .inr ‹_›
      split at h
      · cases h
      · cases h
  · rintro (rfl | hfull)
    · rfl
    · exact stored_full hfull events

theorem storedAs_iff {n bytes : ℕ} {events : List Event} :
    Event.StoredAs serde n events (stored serde n bytes events) ↔
      Event.Fits serde n bytes events := by
  induction events generalizing n bytes with
  | nil => exact storedAs_nil.trans (iff_of_true rfl trivial)
  | cons e es ih =>
    rw [storedAs_cons, stored, Event.Fits]
    by_cases hfull : EVENTS_CAP ≤ bytes
    · -- it is dropped without a marker
      rw [if_pos hfull, stored_full hfull, if_neg (by omega)]
      refine iff_of_false ?_ fun h => absurd h.1 (Nat.not_lt.mpr hfull)
      rintro (h | ⟨ls', h, -⟩)
      · cases h
      · cases h
    rw [if_neg hfull]
    by_cases hline : EVENTS_CAP ≤ bytes + Json.size (e.line serde (n + 1))
    · rw [if_pos hline, if_neg (Nat.not_lt.mpr hline)]
      constructor
      · rintro (h | ⟨ls', h, -⟩)
        · exact ⟨Nat.lt_of_not_le hfull, stored_eq_nil.mp (List.cons.inj h).2⟩
        · exact absurd (List.cons.inj h).1.symm (line_ne_marker e _ _)
      · intro h
        exact .inl (congrArg _ (stored_eq_nil.mpr h.2))
    · rw [if_neg hline, if_pos (Nat.lt_of_not_le hline)]
      constructor
      · rintro (h | ⟨ls', h, hrest⟩)
        · exact absurd (List.cons.inj h).1 (line_ne_marker e _ _)
        · obtain rfl := (List.cons.inj h).2
          exact ih.mp hrest
      · intro h
        exact .inr ⟨_, rfl, ih.mpr h⟩

/-! ### The cap -/

/-- The number of bytes of lines with their line breaks. -/
def linesSize (ls : List Text) : ℕ := (ls.map fun line => Json.size line + 1).sum

theorem size_file (ls : List Text) : Json.size (ls.flatMap (· ++ ['\n'])) = linesSize ls := by
  rw [Json.size_flatMap, linesSize]
  refine congrArg List.sum (List.map_congr_left ?_)
  intro line _
  rw [Json.size_append]
  rfl

theorem linesSize_cons (line : Text) (ls : List Text) :
    linesSize (line :: ls) = Json.size line + 1 + linesSize ls := List.sum_cons

/-- Only the marker exceeds the cap. -/
theorem linesSize_stored {n bytes : ℕ} (events : List Event) (h : bytes ≤ EVENTS_CAP) :
    bytes + linesSize (stored serde n bytes events) ≤ EVENTS_CAP ∨
      ∃ m, (stored serde n bytes events).getLast? = some (marker serde m) ∧
        bytes + linesSize (stored serde n bytes events) ≤
          EVENTS_CAP + (Json.size (marker serde m) + 1) := by
  have hlast {line last : Text} {ls : List Text} (hls : ls.getLast? = some last) :
      (line :: ls).getLast? = some last := by
    rw [List.getLast?_cons, hls]
    rfl
  induction events generalizing n bytes with
  | nil => exact .inl h
  | cons e es ih =>
    -- what is stored after a line that leaves the file within its cap
    have hrest (line : Text) (hline : bytes + (Json.size line + 1) ≤ EVENTS_CAP) :=
      ih (n := n + 1) hline
    rw [stored]
    split
    · exact ih h
    next hfull =>
      split
      · rw [linesSize_cons, ← Nat.add_assoc]
        by_cases hmarker : bytes + (Json.size (marker serde (n + 1)) + 1) < EVENTS_CAP
        · rcases hrest _ (Nat.le_of_lt hmarker) with hle | ⟨m, hm, hle⟩
          · exact .inl hle
          · exact .inr ⟨m, hlast hm, hle⟩
        · rw [stored_full (Nat.le_of_not_lt hmarker)]
          refine .inr ⟨n + 1, rfl, ?_⟩
          have hnil : linesSize [] = 0 := rfl
          omega
      next hline =>
        rw [linesSize_cons, ← Nat.add_assoc]
        rcases hrest (e.line serde (n + 1)) (by omega) with hle | ⟨m, hm, hle⟩
        · exact .inl hle
        · exact .inr ⟨m, hlast hm, hle⟩

end Log

end HamsOpen.Runner
