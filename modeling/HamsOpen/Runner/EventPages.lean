import HamsOpen.Runner.EventLog
import HamsOpen.Station.RecordStore

/-!
# Reading the event log page by page

Which events a reader gets who asks for one page after the other: all of them, once and in order, as
long as the number that each line tells is larger than those before. The data of an event may bring
a number of its own, and then this need not be so.
-/

namespace HamsOpen.Runner

open Json (str num obj)
open Station (F64 JsonValue NESTING Number Serde)

section Log

variable {serde : Serde}

/-! ### Page by page -/

variable (serde) in
/-- The lines that have values, with these. -/
def valued (ls : List Text) : List (Text × JsonValue) :=
  ls.filterMap fun line => (fromStr serde line).map (line, ·)

/-- Collecting events from lines is filling a page with their values. -/
theorem collect_eq (cursor maxBytes used last : ℕ) (out : List (Text × JsonValue))
    (ls : List Text) : collect serde cursor maxBytes used last (out.map (·.2)) ls =
      let p := Paging.fill (fun e => seqOf e.2) (fun e => Json.size e.1) maxBytes cursor used last
        out (valued serde ls)
      (p.entries.map (·.2), p.cursor, p.more) := by
  induction ls generalizing used last out with
  | nil => rfl
  | cons line ls ih =>
    rw [collect, valued, List.filterMap_cons]
    cases hline : fromStr serde line with
    | none => exact ih used last out
    | some v =>
      simp only [Option.map_some, Paging.fill]
      by_cases hold : seqOf v ≤ cursor
      · rw [if_pos hold, if_pos hold]
        exact ih used last out
      rw [if_neg hold, if_neg hold]
      have hne : out.map (·.2) ≠ [] ↔ out ≠ [] := by simp
      by_cases hfull : maxBytes < used + Json.size line ∧ out ≠ []
      · rw [if_pos (hfull.imp_right hne.mpr), if_pos hfull]
      · rw [if_neg fun h => hfull (h.imp_right hne.mp), if_neg hfull]
        have hout : out.map (·.2) ++ [v] = (out ++ [(line, v)]).map (·.2) := by simp
        rw [hout]
        exact ih _ _ _

/-- The values of a page. -/
theorem readEvents_eq (file : Text) (cursor maxBytes : ℕ) :
    readEvents serde file cursor maxBytes =
      let p := Paging.page (fun e => seqOf e.2) (fun e => Json.size e.1) maxBytes
        (valued serde (lines file)) cursor
      (p.entries.map (·.2), p.cursor, p.more) :=
  collect_eq cursor maxBytes 0 cursor [] (lines file)

theorem ReadOn.of_reads {file : Text} {maxBytes cursor : ℕ} {out : List (Text × JsonValue)}
    (h : Paging.Reads (fun e => seqOf e.2) (fun e => Json.size e.1) maxBytes
      (valued serde (lines file)) cursor out) :
    ReadOn serde file maxBytes cursor (out.map (·.2)) := by
  induction h with
  | @last cursor hmore =>
    have hread : readEvents serde file cursor maxBytes = _ := readEvents_eq file cursor maxBytes
    simp only [hmore] at hread
    exact .last hread
  | @more cursor rest hmore _ ih =>
    have hread : readEvents serde file cursor maxBytes = _ := readEvents_eq file cursor maxBytes
    simp only [hmore] at hread
    rw [List.map_append]
    exact .more hread ih

theorem ReadOn.reads {file : Text} {maxBytes cursor : ℕ} {vs : List JsonValue}
    (h : ReadOn serde file maxBytes cursor vs) : ∃ out, out.map (·.2) = vs ∧
      Paging.Reads (fun e => seqOf e.2) (fun e => Json.size e.1) maxBytes
        (valued serde (lines file)) cursor out := by
  induction h with
  | last hread =>
    rw [readEvents_eq] at hread
    obtain ⟨hout, hrest⟩ := Prod.mk.inj hread
    obtain ⟨-, hmore⟩ := Prod.mk.inj hrest
    exact ⟨_, hout, .last hmore⟩
  | more hread _ ih =>
    rw [readEvents_eq] at hread
    obtain ⟨hout, hrest⟩ := Prod.mk.inj hread
    obtain ⟨hcursor, hmore⟩ := Prod.mk.inj hrest
    obtain ⟨rest, hvalues, hreads⟩ := ih
    rw [← hcursor] at hreads
    refine ⟨_, ?_, .more hmore hreads⟩
    rw [List.map_append, hout, hvalues]

variable (serde) in
/-- Each line can be read, and tells a larger number than the lines before. -/
def Growing (told : ℕ) : List Text → Prop
  | [] => True
  | line :: ls => ∃ v, fromStr serde line = some v ∧ told < seqOf v ∧ Growing (seqOf v) ls

theorem growing_iff {told : ℕ} {ls : List Text} : Growing serde told ls ↔
    ∃ vs : List JsonValue, ls.map (fromStr serde) = vs.map some ∧ (∀ v ∈ vs, told < seqOf v) ∧
      vs.Pairwise fun v w => seqOf v < seqOf w := by
  induction ls generalizing told with
  | nil => exact iff_of_true trivial ⟨[], rfl, nofun, .nil⟩
  | cons line ls ih =>
    constructor
    · rintro ⟨v, hv, htold, hrest⟩
      obtain ⟨vs, hvs, hlarger, hsorted⟩ := ih.mp hrest
      refine ⟨v :: vs, by rw [List.map_cons, hv, hvs]; rfl, ?_, .cons hlarger hsorted⟩
      intro w hw
      rcases List.mem_cons.mp hw with rfl | hw
      · exact htold
      · exact Nat.lt_trans htold (hlarger w hw)
    · rintro ⟨vs, hvs, htold, hsorted⟩
      cases vs with
      | nil => cases hvs
      | cons v vs =>
        obtain ⟨hv, hrest⟩ := List.cons.inj hvs
        obtain ⟨hlarger, hsorted⟩ := List.pairwise_cons.mp hsorted
        exact ⟨v, hv, htold v List.mem_cons_self, ih.mpr ⟨vs, hrest, hlarger, hsorted⟩⟩

theorem valued_of_map {ls : List Text} {vs : List JsonValue}
    (h : ls.map (fromStr serde) = vs.map some) : (valued serde ls).map (·.2) = vs := by
  induction ls generalizing vs with
  | nil =>
    obtain rfl := List.map_eq_nil_iff.mp h.symm
    rfl
  | cons line ls ih =>
    cases vs with
    | nil => cases h
    | cons v vs =>
      obtain ⟨hv, hrest⟩ := List.cons.inj h
      rw [valued, List.filterMap_cons, hv]
      exact congrArg (v :: ·) (ih hrest)

/-- All events are read once and in order with pages of every size, if and only if their numbers
grow. -/
theorem read_iff {file : Text} (hsize : ∀ line ∈ lines file, 0 < Json.size line) :
    (∀ maxBytes, 0 < maxBytes → ∃ vs, ReadOn serde file maxBytes 0 vs ∧
      (lines file).map (fromStr serde) = vs.map some) ↔ Growing serde 0 (lines file) := by
  have hvalued : ∀ e ∈ valued serde (lines file), 0 < Json.size e.1 := by
    intro e he
    obtain ⟨line, hline, hmap⟩ := List.mem_filterMap.mp he
    obtain ⟨v, -, rfl⟩ := Option.map_eq_some_iff.mp hmap
    exact hsize line hline
  constructor
  · intro h
    obtain ⟨vs, hread, hvs⟩ := h 1 Nat.one_pos
    obtain ⟨out, hout, hreads⟩ := hread.reads
    obtain ⟨hlarger, hsorted⟩ := Paging.sorted_of_reads hvalued hreads
    refine growing_iff.mpr ⟨vs, hvs, ?_, ?_⟩
    · rw [← hout]
      exact List.forall_mem_map.mpr hlarger
    · rw [← hout]
      exact List.pairwise_map.mpr hsorted
  · intro h maxBytes _
    obtain ⟨vs, hvs, hlarger, hsorted⟩ := growing_iff.mp h
    have hmap := valued_of_map hvs
    rw [← hmap] at hlarger hsorted
    have hafter : ∀ e ∈ valued serde (lines file), 0 < seqOf e.2 :=
      fun e he => hlarger e.2 (List.mem_map_of_mem he)
    have hgrow : (valued serde (lines file)).Pairwise fun e e' => seqOf e.2 < seqOf e'.2 :=
      (List.pairwise_map (f := fun e : Text × JsonValue => e.2)).mp hsorted
    refine ⟨vs, ?_, hvs⟩
    rw [← hmap]
    exact .of_reads (Paging.reads_of_sorted rfl (List.forall_mem_nil _) hafter hgrow)

/-! ### When all is as it should be -/

theorem map_id_value (v : JsonValue) : v.map id = v := by
  induction v using Json.induct with
  | null => rfl
  | bool b => rfl
  | num n => rfl
  | str s => rfl
  | arr items ih =>
    rw [Json.map_arr]
    exact congrArg Json.arr ((List.map_congr_left ih).trans (List.map_id items))
  | obj members ih =>
    rw [Json.map_obj]
    refine congrArg Json.obj ((List.map_congr_left ?_).trans (List.map_id members))
    intro m hm
    exact congrArg (m.1, ·) (ih m hm)

/-- A value in order whose numbers are read as they are printed is read back. -/
theorem fromStr_toLine {v : JsonValue} (hdepth : v.depth ≤ NESTING) (hordered : v.Ordered)
    (hread : v.All fun n => Number.ofText serde (n.text serde) = some n) :
    fromStr serde (toLine serde v) = some v := by
  rw [fromStr, toLine, Json.parse_compact (Number.isNumber_text serde) hdepth, Option.bind_some,
    Json.order_map (f := id) hordered hread, map_id_value]

/-- The number that a member "seq" tells. -/
theorem seqOf_num {members : List (String × JsonValue)} {n : ℕ} (hn : n < 2 ^ 64)
    (h : members.lookup "seq" = some (num (.int n))) : seqOf (obj members) = n := by
  rw [seqOf, h, Option.bind_some]
  have hasU64 : Station.asU64 (num (.int n)) = some (.ofNat n) := if_pos hn
  rw [hasU64, Option.map_some, Option.getD_some, UInt64.toNat_ofNat_of_lt' hn]

/-- The marker is read back, with its number. -/
theorem fromStr_marker {n : ℕ} (hn : n < 2 ^ 64) :
    fromStr serde (marker serde n) = some (truncated n) ∧ seqOf (truncated n) = n := by
  have hnodup : ([("seq", num (.int n)), ("kind", str "truncated"),
      ("msg", str "the event list is full; later events are counted, not stored")].map
        (fun m : String × JsonValue => m.1)).Nodup := by simp
  constructor
  · have hdepth : (truncated n).depth ≤ 1 := Json.depth_object_le (by simp)
    refine fromStr_toLine (Nat.le_trans hdepth (by decide)) (Json.ordered_object (by simp))
      ((Json.all_object _ rfl hnodup).mpr ?_)
    simp [Number.ofText_nat serde hn]
  · rw [truncated, Json.object]
    refine seqOf_num hn ?_
    rw [OrderedMap.lookup_ofList hnodup]
    rfl

variable (serde) in
/-- The events do no harm, after so many of them in so many bytes, with the largest number told so
far: the line of each that fits can be read and tells a larger number, and the first that does not
fit finds the file below its cap, and is the last or has its marker fill the file. -/
def Event.Orderly (n bytes told : ℕ) : List Event → Prop
  | [] => True
  | e :: es =>
    if bytes + Json.size (e.line serde (n + 1)) < EVENTS_CAP then
      ∃ v, fromStr serde (e.line serde (n + 1)) = some v ∧ told < seqOf v ∧
        Event.Orderly (n + 1) (bytes + (Json.size (e.line serde (n + 1)) + 1)) (seqOf v) es
    else bytes < EVENTS_CAP ∧ told < n + 1 ∧
      (es = [] ∨ EVENTS_CAP ≤ bytes + (Json.size (marker serde (n + 1)) + 1))

theorem orderly_iff {n bytes told : ℕ} {events : List Event} (hn : n ≤ bytes) :
    Event.Orderly serde n bytes told events ↔
      Event.Fits serde n bytes events ∧ Growing serde told (stored serde n bytes events) := by
  induction events generalizing n bytes told with
  | nil => exact iff_of_true trivial ⟨trivial, trivial⟩
  | cons e es ih =>
    rw [Event.Orderly, Event.Fits, stored]
    by_cases hfits : bytes + Json.size (e.line serde (n + 1)) < EVENTS_CAP
    · rw [if_pos hfits, if_pos hfits, if_neg (by omega), if_neg (Nat.not_le.mpr hfits)]
      constructor
      · rintro ⟨v, hv, htold, hrest⟩
        obtain ⟨hrestFits, hgrowing⟩ := (ih (by omega)).mp hrest
        exact ⟨hrestFits, v, hv, htold, hgrowing⟩
      · rintro ⟨hrestFits, v, hv, htold, hgrowing⟩
        exact ⟨v, hv, htold, (ih (by omega)).mpr ⟨hrestFits, hgrowing⟩⟩
    · rw [if_neg hfits, if_neg hfits]
      by_cases hbytes : bytes < EVENTS_CAP
      · rw [if_neg (Nat.not_le.mpr hbytes), if_pos (Nat.le_of_not_lt hfits)]
        have hcap : EVENTS_CAP < 2 ^ 64 := by decide
        obtain ⟨hmarker, hseq⟩ : fromStr serde (marker serde (n + 1)) = some (truncated (n + 1)) ∧
          seqOf (truncated (n + 1)) = n + 1 := fromStr_marker (by omega)
        constructor
        · rintro ⟨-, htold, hrest⟩
          have hnil : stored serde (n + 1)
              (bytes + (Json.size (marker serde (n + 1)) + 1)) es = [] := stored_eq_nil.mpr hrest
          refine ⟨⟨hbytes, hrest⟩, truncated (n + 1), hmarker, by rw [hseq]; exact htold, ?_⟩
          rw [hnil]
          trivial
        · rintro ⟨⟨-, hrest⟩, v, hv, htold, -⟩
          rw [hmarker] at hv
          obtain rfl := Option.some.inj hv
          rw [hseq] at htold
          exact ⟨hbytes, htold, hrest⟩
      · exact iff_of_false (fun h => hbytes h.1) fun h => hbytes h.1.1

/-! ### Events that tell their own numbers -/

variable (serde) in
/-- An event whose data brings no number of an event, and whose line can be read: it is not nested
too deep, and its numbers are read as they are printed. -/
structure Event.Plain (e : Event) : Prop where
  seq : ∀ m ∈ Event.members e.data, m.1 ≠ "seq"
  depth : ∀ m ∈ Event.members e.data, m.2.depth < NESTING
  ordered : ∀ m ∈ Event.members e.data, m.2.Ordered
  numbers : ∀ m ∈ Event.members e.data,
    m.2.All fun n => Number.ofText serde (n.text serde) = some n
  time : (Station.ofF64 e.t).All fun n => Number.ofText serde (n.text serde) = some n

/-- A time is no array and no object. -/
theorem ofF64_flat (x : F64) : (Station.ofF64 x).depth = 0 ∧ (Station.ofF64 x).Ordered := by
  unfold Station.ofF64
  split
  · exact ⟨rfl, trivial⟩
  · exact ⟨rfl, trivial⟩

/-- Such an event is read back, with its number. -/
theorem Event.Plain.fromStr {e : Event} (h : e.Plain serde) {n : ℕ} (hn : n < 2 ^ 64) :
    fromStr serde (e.line serde n) = some (e.value n) ∧ seqOf (e.value n) = n := by
  have hmember {P : String × JsonValue → Prop} (hseq : P ("seq", num (.int n)))
      (ht : P ("t", Station.ofF64 e.t)) (hkind : P ("kind", str e.kind))
      (hdata : ∀ m ∈ Event.members e.data, P m) :
      ∀ m ∈ [("seq", num (.int n)), ("t", Station.ofF64 e.t), ("kind", str e.kind)] ++
        Event.members e.data, P m := by
    intro m hm
    rcases List.mem_append.mp hm with hm | hm
    · simp only [List.mem_cons, List.not_mem_nil, or_false] at hm
      rcases hm with rfl | rfl | rfl
      · exact hseq
      · exact ht
      · exact hkind
    · exact hdata m hm
  constructor
  · have hdepth : (e.value n).depth ≤ NESTING - 1 + 1 := by
      refine Json.depth_object_le (hmember ?_ ?_ ?_ fun m hm => Nat.le_sub_one_of_lt (h.depth m hm))
      · exact Nat.zero_le _
      · rw [(ofF64_flat e.t).1]
        exact Nat.zero_le _
      · exact Nat.zero_le _
    have hordered : (e.value n).Ordered :=
      Json.ordered_object (hmember trivial (ofF64_flat e.t).2 trivial h.ordered)
    refine fromStr_toLine hdepth hordered ((Json.all_obj _).mpr ?_)
    intro m hm
    exact hmember (P := fun m => m.2.All fun k => Number.ofText serde (k.text serde) = some k)
      (Number.ofText_nat serde hn) h.time trivial h.numbers m (OrderedMap.mem_ofList hm)
  · rw [Event.value, Json.object]
    refine seqOf_num hn ?_
    have hnone : (Event.members e.data).reverse.lookup "seq" = none := by
      rw [List.lookup_eq_none_iff]
      intro m hm
      simpa using (h.seq m (List.mem_reverse.mp hm)).symm
    rw [OrderedMap.lookup_ofList_reverse, List.reverse_append, List.lookup_append, hnone]
    rfl

/-- Of such events only the sizes can do harm. -/
theorem orderly_iff_fits {n bytes told : ℕ} {events : List Event}
    (h : ∀ e ∈ events, e.Plain serde) (hn : n ≤ bytes) (htold : told ≤ n) :
    Event.Orderly serde n bytes told events ↔ Event.Fits serde n bytes events := by
  induction events generalizing n bytes told with
  | nil => exact Iff.rfl
  | cons e es ih =>
    rw [Event.Orderly, Event.Fits]
    by_cases hfits : bytes + Json.size (e.line serde (n + 1)) < EVENTS_CAP
    · have hcap : EVENTS_CAP < 2 ^ 64 := by decide
      obtain ⟨hread, hseq⟩ := (h e List.mem_cons_self).fromStr (n := n + 1) (by omega)
      have hrest (told : ℕ) (hle : told ≤ n + 1) :
          Event.Orderly serde (n + 1) (bytes + (Json.size (e.line serde (n + 1)) + 1)) told es ↔
            Event.Fits serde (n + 1) (bytes + (Json.size (e.line serde (n + 1)) + 1)) es :=
        ih (fun e he => h e (List.mem_cons_of_mem _ he)) (by omega) hle
      rw [if_pos hfits, if_pos hfits]
      constructor
      · rintro ⟨v, hv, -, horderly⟩
        rw [hread] at hv
        obtain rfl := Option.some.inj hv
        exact (hrest _ (Nat.le_of_eq hseq)).mp horderly
      · intro hfits
        exact ⟨_, hread, by omega, (hrest _ (Nat.le_of_eq hseq)).mpr hfits⟩
    · rw [if_neg hfits, if_neg hfits]
      have hlt : told < n + 1 := Nat.lt_succ_of_le htold
      simp only [hlt, true_and]

/-! ### When all is as it should be, both ways -/

variable (serde) in
/-- All is stored and read as it should be if and only if the sizes and the numbers of the events do
no harm. -/
theorem logged_iff (events : List Event) :
    Event.Logged serde events ↔ Event.Orderly serde 0 0 0 events := by
  have hlines : lines (EventLog.after serde events).file = stored serde 0 0 events :=
    lines_after events
  have hsize : ∀ line ∈ lines (EventLog.after serde events).file, 0 < Json.size line := by
    rw [hlines]
    exact fun line hline => (isLine_stored 0 0 events line hline).2
  have hfile : Json.size (EventLog.after serde events).file =
      linesSize (stored serde 0 0 events) := by
    rw [EventLog.after, foldl_file, ← size_file]
    rfl
  rw [orderly_iff (Nat.le_refl 0), ← storedAs_iff, ← hlines]
  constructor
  · intro h
    exact ⟨h.stored, (read_iff hsize).mp h.read⟩
  · rintro ⟨hstored, hgrowing⟩
    refine ⟨hstored, (read_iff hsize).mpr hgrowing, ?_⟩
    have hcap : 0 + linesSize (stored serde 0 0 events) ≤ EVENTS_CAP ∨ _ :=
      linesSize_stored events (Nat.zero_le EVENTS_CAP)
    rw [hlines, hfile]
    rwa [Nat.zero_add] at hcap

end Log

/-! ### An event after the marker -/

/-- A message of a program. -/
def logEvent (text : Text) : Event :=
  ⟨⟨0⟩, "log", Json.object [("msg", str (String.ofList text))]⟩

/-- An event that fills the file by itself, and one that does not. -/
def longEvent : Event := logEvent (List.replicate EVENTS_CAP 'a')
def shortEvent : Event := logEvent []

theorem size_le_joined {c : Char} {es : List Text} {e : Text} (h : e ∈ es) :
    Json.size e ≤ Json.size (Json.joined c es) := by
  have hrest (es : List Text) (h : e ∈ es) : Json.size e ≤ Json.size (es.flatMap (',' :: ·)) := by
    induction es with
    | nil => cases h
    | cons d es ih =>
      rw [List.flatMap_cons, Json.size_append, Json.size_cons]
      rcases List.mem_cons.mp h with rfl | h
      · omega
      · exact Nat.le_trans (ih h) (Nat.le_add_left _ _)
  cases es with
  | nil => cases h
  | cons d es =>
    rw [Json.joined, Json.size_append, Json.size_append]
    rcases List.mem_cons.mp h with rfl | h
    · exact Nat.le_add_right _ _
    · have hle := hrest es h
      omega

/-- The members of a message, in no order. -/
def logMembers (text : Text) (n : ℕ) : List (String × JsonValue) :=
  [("seq", num (.int n)), ("t", Station.ofF64 ⟨0⟩), ("kind", str "log")] ++
    [("msg", str (String.ofList text))]

/-- The text of a member. -/
def memberText (m : String × JsonValue) : Text :=
  Json.quote m.1 ++ ':' :: toLine Serde.binary m.2

theorem line_logEvent (text : Text) (n : ℕ) : (logEvent text).line Serde.binary n =
    '{' :: Json.joined '}' ((OrderedMap.ofList (logMembers text n)).map memberText) :=
  Json.compact_obj _ _

theorem length_le_size (cs : Text) : cs.length ≤ Json.size cs := by
  induction cs with
  | nil => exact Nat.le_refl 0
  | cons c cs ih =>
    have hc := c.utf8Size_pos
    rw [Json.size_cons, List.length_cons]
    omega

/-- The text of a message is part of the line of its event. -/
theorem length_le_size_line {text : Text} (hplain : ∀ c ∈ text, Json.escape c = [c]) (n : ℕ) :
    text.length ≤ Json.size ((logEvent text).line Serde.binary n) := by
  have hmember : ("msg", str (String.ofList text)) ∈ OrderedMap.ofList (logMembers text n) := by
    rw [logMembers, OrderedMap.ofList_concat]
    exact OrderedMap.mem_insert_self
  have hflat : text.flatMap Json.escape = text := by
    have hsingle := List.flatMap_congr (f := Json.escape) (g := fun c => [c]) hplain
    rw [hsingle, List.flatMap_singleton']
  have hquote : text.length ≤ Json.size (Json.quote (String.ofList text)) := by
    have htext := length_le_size text
    rw [Json.quote, String.toList_ofList, hflat, Json.size_cons, Json.size_append]
    omega
  have hvalue : memberText ("msg", str (String.ofList text)) =
      Json.quote "msg" ++ ':' :: Json.quote (String.ofList text) := rfl
  have hjoined := size_le_joined (c := '}') (List.mem_map_of_mem (f := memberText) hmember)
  rw [hvalue, Json.size_append, Json.size_cons] at hjoined
  rw [line_logEvent, Json.size_cons]
  omega

/-- An event is stored after the marker. -/
theorem event_after_marker :
    lines (EventLog.after Serde.binary [longEvent, shortEvent]).file =
      [marker Serde.binary 1, shortEvent.line Serde.binary 2] ∧
    ¬ Event.Logged Serde.binary [longEvent, shortEvent] := by
  have hlong : EVENTS_CAP ≤ 0 + Json.size (longEvent.line Serde.binary (0 + 1)) := by
    rw [Nat.zero_add]
    have hlength : (List.replicate EVENTS_CAP 'a').length = EVENTS_CAP := List.length_replicate
    refine Nat.le_trans (Nat.le_of_eq hlength.symm) (length_le_size_line ?_ _)
    intro c hc
    rw [List.eq_of_mem_replicate hc]
    rfl
  have hmarker : 0 + (Json.size (marker Serde.binary (0 + 1)) + 1) < 200 := by
    decide +kernel
  have hshort : Json.size (shortEvent.line Serde.binary (0 + 1 + 1)) < 100 := by
    decide +kernel
  have hcap : EVENTS_CAP = 8388608 := rfl
  constructor
  · rw [lines_after, stored, if_neg (by decide), if_pos hlong, stored, if_neg (by omega),
      if_neg (by omega)]
    rfl
  · intro h
    have hfits := h.stored
    rw [lines_after, storedAs_iff, Event.Fits, if_neg (Nat.not_lt.mpr hlong)] at hfits
    rcases hfits.2 with hnil | hfull
    · cases hnil
    · omega

end HamsOpen.Runner
