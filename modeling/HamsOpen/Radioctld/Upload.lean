import HamsOpen.Lib.Decimal
import HamsOpen.Lib.JsonCompact
import HamsOpen.Lib.JsonObject
import HamsOpen.Lib.Loop
import HamsOpen.Lib.Utf8
import Mathlib.Algebra.Order.BigOperators.Group.List

/-!
# The report that is uploaded

The document of the self-test (`upload.rs`), which is made smaller until it fits: raw bytes are
dropped from the last check backwards, then summaries are emptied, in a loop whose stage says which
check is next. Objects of the JSON library are ordered by their keys, so members stand in that order
here. Of a check, only what is sent is kept.
-/

namespace HamsOpen.Radioctld.Upload

abbrev Text := List Char

/-! ### What is reported -/

/-- How one check ended, with what it says. -/
inductive Verdict
  | pass (text : String)
  | notApplicable (text : String)
  | fail (text : String)
  deriving DecidableEq

structure CheckResult where
  name : String
  verdict : Verdict
  /-- The wire log of the check; empty when there is none. -/
  wire : String
  deriving DecidableEq

structure Contact where
  name : Option String
  email : Option String
  deriving DecidableEq

/-- Everything the payload is built from. -/
structure PayloadInput where
  reportId : String
  /-- Unix time of the upload. -/
  sentAt : ℕ
  descriptionId : String
  rigName : String
  transport : String
  baud : ℕ
  usbVidPid : Option String
  /-- The rates the baud probe opened, the winner last. -/
  probeTried : Option (List ℕ)
  results : List CheckResult
  contact : Contact
  deriving DecidableEq

/-- What the program was built for. -/
structure Host where
  os : String
  arch : String
  deriving DecidableEq

/-- The largest request body sent, in bytes. -/
def MAX_BODY : ℕ := 256 * 1024

/-- The most raw hexadecimal characters sent for one check. -/
def MAX_RAW_HEX : ℕ := 2048

/-- The first `max` characters of a text. -/
def cap (text : String) (max : ℕ) : String := .ofList (text.toList.take max)

/-- `YYYY-MM-DDTHH:MM:SSZ` for a Unix time. -/
def rfc3339 (unixSeconds : ℕ) : String :=
  let rest := unixSeconds % 86400
  -- days since the first of March of the year 0
  let z := unixSeconds / 86400 + 719468
  let era := z / 146097
  let dayOfEra := z % 146097
  let yearOfEra := (dayOfEra - dayOfEra / 1460 + dayOfEra / 36524 - dayOfEra / 146096) / 365
  let dayOfYear := dayOfEra - (365 * yearOfEra + yearOfEra / 4 - yearOfEra / 100)
  let shiftedMonth := (5 * dayOfYear + 2) / 153
  let day := dayOfYear - (153 * shiftedMonth + 2) / 5 + 1
  let month := if shiftedMonth < 10 then shiftedMonth + 3 else shiftedMonth - 9
  let year := yearOfEra + era * 400 + if month ≤ 2 then 1 else 0
  let digits (width n : ℕ) : String := .ofList (Decimal.padded width n)
  digits 4 year ++ "-" ++ digits 2 month ++ "-" ++ digits 2 day ++ "T" ++ digits 2 (rest / 3600) ++
    ":" ++ digits 2 (rest % 3600 / 60) ++ ":" ++ digits 2 (rest % 60) ++ "Z"

/-! ### The document -/

/-- The entry of a check. -/
structure Check where
  name : String
  ok : Bool
  summary : String
  rawHex : Option String
  deriving DecidableEq

namespace Check

def ofResult (r : CheckResult) : Check :=
  let (ok, summary) := match r.verdict with
    | .pass s => (true, s)
    | .notApplicable s | .fail s => (false, s)
  ⟨cap r.name 80, ok, cap summary 300, if r.wire = "" then none else some (cap r.wire MAX_RAW_HEX)⟩

def value (c : Check) : Json ℕ :=
  .obj ([("name", .str c.name), ("ok", .bool c.ok)] ++
    (match c.rawHex with
      | some raw => [("raw_hex", .str raw)]
      | none => []) ++ [("summary", .str c.summary)])

def withoutRaw (c : Check) : Check := { c with rawHex := none }

def withoutSummary (c : Check) : Check := { c with summary := "" }

end Check

/-- A string, if there is one. -/
def member (key : String) : Option String → List (String × Json ℕ)
  | some s => [(key, .str s)]
  | none => []

/-- The maker and the model in the name of a rig. -/
def makerAndModel (rigName : String) : String × String :=
  match rigName.toList.span (· ≠ ' ') with
  | (_, []) => ("", rigName)
  | (maker, _ :: model) => (.ofList maker, .ofList model)

/-- What the check of the firmware has read. -/
def firmware (results : List CheckResult) : Json ℕ :=
  match results.find? (·.name = "identify: firmware") with
  | some ⟨_, .pass text, _⟩ => .str (cap text 80)
  | _ => .null

section Document

variable (host : Host) (input : PayloadInput)

/-- The members that stand before the checks. -/
def before : List (String × Json ℕ) :=
  match input.probeTried with
  | some tried => [("baud_probe", .obj [("chosen", (tried.getLast?.map Json.num).getD .null),
      ("tried", .arr (tried.map .num))])]
  | none => []

/-- The members that stand after the checks. -/
def after : List (String × Json ℕ) :=
  [("contact", .obj (member "email" (input.contact.email.map (cap · 254)) ++
      member "name" (input.contact.name.map (cap · 120)))),
    ("description_id", .str input.descriptionId),
    ("host", .obj [("arch", .str host.arch), ("os", .str host.os)]),
    ("link", .obj ([("baud", .num input.baud), ("transport", .str input.transport)] ++
      member "usb_vid_pid" input.usbVidPid)),
    ("radioctl_version", .str "0.1.0"),
    ("report_id", .str input.reportId),
    ("rig", .obj [("firmware_or_version", firmware input.results),
      ("manufacturer", .str (makerAndModel input.rigName).1),
      ("model", .str (makerAndModel input.rigName).2)]),
    ("schema_version", .num 1),
    ("sent_at", .str (rfc3339 input.sentAt))]

/-- The document with these entries. -/
def doc (checks : List Check) : Json ℕ :=
  .obj (before input ++ ("checks", .arr (checks.map Check.value)) :: after host input)

/-- The text of the document. -/
def text (checks : List Check) : Text := Json.compact (Nat.toDigits 10) (doc host input checks)

/-- One round: the text is done when it fits or when the last stage is over. Otherwise the stage
says which check has its raw bytes dropped, or its summary emptied. Without checks this is a
division by zero, and the program panics. -/
def round : ℕ × List Check → (ℕ × List Check) ⊕ Option Text
  | (stage, checks) =>
    if Json.size (text host input checks) ≤ MAX_BODY ∨ checks.length * 2 < stage then
      .inr (some (text host input checks))
    else if checks.length = 0 then .inr none
    else
      let index := checks.length - 1 - stage % checks.length
      .inl (stage + 1, checks.modify index
        (if checks.length ≤ stage then Check.withoutSummary else Check.withoutRaw))

theorem round_next {stage : ℕ} {checks : List Check} {next : ℕ × List Check}
    (h : round host input (stage, checks) = .inl next) : stage ≤ checks.length * 2 ∧
      checks.length ≠ 0 ∧ next = (stage + 1, checks.modify
        (checks.length - 1 - stage % checks.length)
        (if checks.length ≤ stage then Check.withoutSummary else Check.withoutRaw)) := by
  by_cases hdone : Json.size (text host input checks) ≤ MAX_BODY ∨ checks.length * 2 < stage
  · rw [round, if_pos hdone] at h
    cases h
  · rw [round, if_neg hdone] at h
    rw [not_or] at hdone
    by_cases hne : checks.length = 0
    · rw [if_pos hne] at h
      cases h
    · rw [if_neg hne] at h
      exact ⟨Nat.le_of_not_lt hdone.2, hne, (Sum.inl.inj h).symm⟩

/-- The rounds that make the document smaller. -/
def shrinking : Loop (ℕ × List Check) (Option Text) where
  body := round host input
  size s := s.2.length * 2 + 1 - s.1
  shrinks := by
    rintro ⟨stage, checks⟩ next h
    obtain ⟨hstage, -, rfl⟩ := round_next host input h
    dsimp only
    rw [List.length_modify]
    omega

/-- The upload document; `none` when the program panics. -/
def buildPayload : Option Text :=
  (shrinking host input).run (0, input.results.map Check.ofResult)

end Document

/-! ### What is left out -/

section OnLast

variable {α : Type} {f : α → α} {l : List α} {k : ℕ}

/-- The list with `f` on its last `k` entries. -/
def onLast (k : ℕ) (f : α → α) (l : List α) : List α :=
  l.mapIdx fun i a => if l.length ≤ i + k then f a else a

@[simp]
theorem length_onLast : (onLast k f l).length = l.length := List.length_mapIdx

theorem onLast_zero : onLast 0 f l = l := by
  apply List.ext_getElem?
  intro i
  rw [onLast, List.getElem?_mapIdx]
  cases hget : l[i]? with
  | none => rfl
  | some a =>
    have hlt := (List.getElem?_eq_some_iff.mp hget).1
    rw [Option.map_some, if_neg (by omega)]

theorem onLast_of_le (h : l.length ≤ k) : onLast k f l = l.map f := by
  apply List.ext_getElem?
  intro i
  have hall : l.length ≤ i + k := by omega
  simp only [onLast, List.getElem?_mapIdx, List.getElem?_map, hall, if_true]

/-- One entry more, from the end. -/
theorem onLast_modify (h : k < l.length) :
    (onLast k f l).modify (l.length - 1 - k) f = onLast (k + 1) f l := by
  apply List.ext_getElem?
  intro i
  rw [List.getElem?_modify, onLast, onLast, List.getElem?_mapIdx, List.getElem?_mapIdx]
  cases hget : l[i]? with
  | none => rfl
  | some a =>
    have hlt := (List.getElem?_eq_some_iff.mp hget).1
    rw [Option.map_some, Option.map_some, Option.map_eq_map, Option.map_some]
    -- the entry is the next one, one of those behind it, or one before it
    by_cases hi : l.length - 1 - k = i
    · rw [if_pos hi, if_neg (by omega), if_pos (by omega)]
    · rw [if_neg hi]
      by_cases hlast : l.length ≤ i + k
      · rw [if_pos hlast, if_pos (by omega)]
      · rw [if_neg hlast, if_neg (by omega)]

/-- Once more changes nothing where all is done. -/
theorem map_modify (hf : ∀ a, f (f a) = f a) (i : ℕ) : (l.map f).modify i f = l.map f := by
  apply List.ext_getElem?
  intro j
  rw [List.getElem?_modify, List.getElem?_map]
  cases l[j]? with
  | none => rfl
  | some a =>
    rw [Option.map_some, Option.map_eq_map, Option.map_some]
    split
    · rw [hf]
    · rfl

end OnLast

/-- The entries when the loop has come to a stage. -/
def atStage (stage : ℕ) (full : List Check) : List Check :=
  onLast (stage - full.length) Check.withoutSummary (onLast stage Check.withoutRaw full)

/-- Raw bytes are dropped from the end only, and summaries are emptied only when no raw bytes are
left. -/
def Trimmed (full kept : List Check) : Prop :=
  (∃ k, kept = onLast k Check.withoutRaw full) ∨
    ∃ k, kept = onLast k Check.withoutSummary (full.map Check.withoutRaw)

/-- The document is there, it fits, it is the text of one with an entry for each check, in order, of
which only so much was left out, and it is read back. -/
def Delivers (host : Host) (input : PayloadInput) : Prop :=
  ∃ body kept, buildPayload host input = some body ∧ (Utf8.encode body).length ≤ MAX_BODY ∧
    Trimmed (input.results.map Check.ofResult) kept ∧ kept.length = input.results.length ∧
    body = text host input kept ∧
    Json.parse 128 body = some ((doc host input kept).map (Nat.toDigits 10))

/-! ### Sizes -/

/-- The number of bytes of a value. -/
def valueSize (v : Json ℕ) : ℕ := Json.compactSize (fun n => Json.size (Nat.toDigits 10 n)) v

/-- The number of bytes of a member, with a comma. -/
def memberSize (m : String × Json ℕ) : ℕ := Json.quoteSize m.1 + 1 + valueSize m.2 + 1

/-- The number of bytes around the entries: the other members, and the brackets. -/
def around (host : Host) (input : PayloadInput) : ℕ :=
  ((before input ++ after host input).map memberSize).sum + Json.quoteSize "checks" + 4

/-- The number of bytes of an entry without raw bytes and summary: its name, its verdict, and what
is written around them. -/
def leastEntry (r : CheckResult) : ℕ :=
  valueSize (.obj [("name", .str (cap r.name 80)), ("ok", .bool (Check.ofResult r).ok),
    ("summary", .str "")])

/-- The number of bytes of the document without raw bytes and summaries. -/
def leastSize (host : Host) (input : PayloadInput) : ℕ :=
  around host input + Json.joinedSize (input.results.map leastEntry)

section Sizes

variable {host : Host} {input : PayloadInput} {checks full kept : List Check} {c : Check}

theorem valueSize_obj (members : List (String × Json ℕ)) (h : members ≠ []) :
    valueSize (.obj members) = (members.map memberSize).sum + 1 := by
  have hne : members.map (fun m => Json.quoteSize m.1 + 1 + valueSize m.2) ≠ [] := by
    rwa [Ne, List.map_eq_nil_iff]
  have hcommas (l : List (String × Json ℕ)) :
      (l.map memberSize).sum =
        (l.map fun m => Json.quoteSize m.1 + 1 + valueSize m.2).sum + l.length := by
    induction l with
    | nil => rfl
    | cons m l ih =>
      rw [List.map_cons, List.sum_cons, ih, List.map_cons, List.sum_cons, List.length_cons,
        memberSize]
      omega
  have hobj : valueSize (.obj members) =
      Json.joinedSize (members.map fun m => Json.quoteSize m.1 + 1 + valueSize m.2) + 1 :=
    Json.compactSize_obj _ members
  rw [hobj, Json.joinedSize_of_ne_nil hne, hcommas, List.length_map]

/-- The bytes of the text are those of the entries and those around them. -/
theorem size_text : Json.size (text host input checks) =
    around host input + Json.joinedSize (checks.map fun c => valueSize c.value) := by
  have harr : valueSize (.arr (checks.map Check.value)) =
      Json.joinedSize (checks.map fun c => valueSize c.value) + 1 := by
    refine (Json.compactSize_arr _ _).trans ?_
    rw [List.map_map]
    rfl
  have hdoc : Json.size (text host input checks) = valueSize (doc host input checks) :=
    Json.size_compact _ _
  rw [hdoc, doc, valueSize_obj _ (by simp), around, List.map_append, List.map_cons,
    List.sum_append_nat, List.sum_cons, List.map_append, List.sum_append_nat, memberSize, harr]
  dsimp only
  omega

theorem valueSize_value : valueSize c.value = memberSize ("name", .str c.name) +
    memberSize ("ok", .bool c.ok) + ((c.rawHex.map fun raw =>
      memberSize ("raw_hex", .str raw)).getD 0 + memberSize ("summary", .str c.summary)) + 1 := by
  rw [Check.value, valueSize_obj _ (by simp)]
  cases c.rawHex with
  | none => simp only [List.cons_append, List.nil_append, List.map_cons, List.sum_cons,
      List.map_nil, List.sum_nil, Option.map_none, Option.getD_none]; omega
  | some raw => simp only [List.cons_append, List.nil_append, List.map_cons, List.sum_cons,
      List.map_nil, List.sum_nil, Option.map_some, Option.getD_some]; omega

/-- An empty summary is the shortest one. -/
theorem memberSize_empty (key s : String) :
    memberSize (key, .str "") ≤ memberSize (key, .str s) := by
  have hquote : Json.quoteSize "" ≤ Json.quoteSize s := by
    rw [Json.quoteSize, Json.quoteSize]
    exact Nat.add_le_add_right (Nat.zero_le _) 2
  exact Nat.add_le_add_right (Nat.add_le_add_left hquote _) 1

theorem valueSize_withoutSummary : valueSize c.withoutSummary.value ≤ valueSize c.value := by
  have hempty := memberSize_empty "summary" c.summary
  rw [valueSize_value, valueSize_value]
  dsimp only [Check.withoutSummary]
  omega

/-- An entry without raw bytes and summary. -/
theorem valueSize_least (r : CheckResult) :
    valueSize (Check.ofResult r).withoutRaw.withoutSummary.value = leastEntry r := by
  have hname : (Check.ofResult r).name = cap r.name 80 := rfl
  rw [valueSize_value, leastEntry, valueSize_obj _ (by simp)]
  simp only [Check.withoutRaw, Check.withoutSummary, Option.map_none, Option.getD_none,
    List.map_cons, List.sum_cons, List.map_nil, List.sum_nil, hname]
  omega

/-- Fewer bytes in each entry, fewer bytes in the text. -/
theorem size_text_mono
    (h : List.Forall₂ (fun c c' : Check => valueSize c.value ≤ valueSize c'.value) kept full) :
    Json.size (text host input kept) ≤ Json.size (text host input full) := by
  have hsum : (kept.map fun c => valueSize c.value).sum ≤
      (full.map fun c => valueSize c.value).sum := by
    induction h with
    | nil => exact le_rfl
    | cons hle _ ih => exact Nat.add_le_add hle ih
  have hlength := h.length_eq
  rw [size_text, size_text]
  apply Nat.add_le_add_left
  cases full with
  | nil =>
    obtain rfl := List.length_eq_zero_iff.mp hlength
    exact le_rfl
  | cons c' full =>
    obtain ⟨c, kept, rfl⟩ := List.exists_cons_of_length_eq_add_one hlength
    rw [Json.joinedSize_of_ne_nil (by simp), Json.joinedSize_of_ne_nil (by simp),
      List.length_map, List.length_map, hlength]
    exact Nat.add_le_add_right hsum _

end Sizes

/-! ### The rounds -/

section Rounds

variable {host : Host} {input : PayloadInput} {full : List Check} {stage : ℕ}

@[simp]
theorem length_atStage : (atStage stage full).length = full.length := by
  rw [atStage, length_onLast, length_onLast]

theorem atStage_zero : atStage 0 full = full := by
  rw [atStage, Nat.zero_sub, onLast_zero, onLast_zero]

/-- At the end neither raw bytes nor summaries are left. -/
theorem atStage_last (h : full.length * 2 ≤ stage) :
    atStage stage full = full.map fun c => c.withoutRaw.withoutSummary := by
  have hraw : onLast stage Check.withoutRaw full = full.map Check.withoutRaw :=
    onLast_of_le (by omega)
  rw [atStage, hraw, onLast_of_le (by rw [List.length_map]; omega), List.map_map]
  rfl

/-- The next check of a stage. -/
theorem atStage_modify (h : stage ≤ full.length * 2) :
    (atStage stage full).modify (full.length - 1 - stage % full.length)
      (if full.length ≤ stage then Check.withoutSummary else Check.withoutRaw) =
    atStage (stage + 1) full := by
  by_cases hraw : stage < full.length
  · -- the raw bytes come first
    have hnone (k : ℕ) (hk : k ≤ full.length) :
        atStage k full = onLast k Check.withoutRaw full := by
      rw [atStage, Nat.sub_eq_zero_of_le hk, onLast_zero]
    rw [if_neg (Nat.not_le.mpr hraw), Nat.mod_eq_of_lt hraw, hnone stage hraw.le,
      hnone (stage + 1) hraw, onLast_modify hraw]
  · have hdone (k : ℕ) (hk : full.length ≤ k) : atStage k full =
        onLast (k - full.length) Check.withoutSummary (full.map Check.withoutRaw) := by
      rw [atStage, onLast_of_le hk]
    have hlength : (full.map Check.withoutRaw).length = full.length := List.length_map _
    rw [if_pos (Nat.le_of_not_lt hraw), hdone stage (by omega), hdone (stage + 1) (by omega)]
    by_cases hlast : stage = full.length * 2
    · -- one stage more than there are entries left
      have hempty (c : Check) : c.withoutSummary.withoutSummary = c.withoutSummary := rfl
      rw [onLast_of_le (by omega), onLast_of_le (by omega), map_modify hempty]
    · have hmod : stage % full.length = stage - full.length := by
        rw [Nat.mod_eq_sub_mod (by omega), Nat.mod_eq_of_lt (by omega)]
      have hnext : stage + 1 - full.length = stage - full.length + 1 := by omega
      have hmodify := onLast_modify (f := Check.withoutSummary)
        (hlength ▸ (by omega : stage - full.length < full.length))
      rw [hlength] at hmodify
      rw [hmod, hnext, hmodify]

theorem trimmed_atStage : Trimmed full (atStage stage full) := by
  rcases Nat.lt_or_ge full.length stage with h | h
  · exact .inr ⟨_, by rw [atStage, onLast_of_le h.le]⟩
  · exact .inl ⟨_, by rw [atStage, Nat.sub_eq_zero_of_le h, onLast_zero]⟩

/-- The loop ends with the text of a stage, which fits or is the last one, or it panics, when there
is no check and the document does not fit. -/
theorem run_atStage (host : Host) (input : PayloadInput) (full : List Check) (stage : ℕ) :
    (shrinking host input).run (stage, atStage stage full) = none ∧
      full = [] ∧ MAX_BODY < Json.size (text host input []) ∨
    ∃ last, (shrinking host input).run (stage, atStage stage full) =
      some (text host input (atStage last full)) ∧
        (Json.size (text host input (atStage last full)) ≤ MAX_BODY ∨ full.length * 2 < last) := by
  let P (s : ℕ × List Check) (r : Option Text) : Prop := s.2 = atStage s.1 full →
    r = none ∧ full = [] ∧ MAX_BODY < Json.size (text host input []) ∨
    ∃ last, r = some (text host input (atStage last full)) ∧
      (Json.size (text host input (atStage last full)) ≤ MAX_BODY ∨ full.length * 2 < last)
  have hP : P (stage, atStage stage full)
      ((shrinking host input).run (stage, atStage stage full)) := by
    apply Loop.induct
    · rintro ⟨k, checks⟩ r hround hat
      obtain rfl : checks = atStage k full := hat
      have hround : round host input (k, atStage k full) = .inr r := hround
      by_cases hdone : Json.size (text host input (atStage k full)) ≤ MAX_BODY ∨
          (atStage k full).length * 2 < k
      · rw [round, if_pos hdone] at hround
        rw [length_atStage] at hdone
        exact .inr ⟨k, (Sum.inr.inj hround).symm, hdone⟩
      · rw [round, if_neg hdone] at hround
        by_cases hne : (atStage k full).length = 0
        · rw [if_pos hne] at hround
          rw [not_or] at hdone
          have hnil := List.length_eq_zero_iff.mp hne
          rw [length_atStage] at hne
          rw [hnil] at hdone
          exact .inl ⟨(Sum.inr.inj hround).symm, List.length_eq_zero_iff.mp hne,
            Nat.lt_of_not_le hdone.1⟩
        · rw [if_neg hne] at hround
          cases hround
    · rintro ⟨k, checks⟩ next r hround hnext hat
      obtain rfl : checks = atStage k full := hat
      obtain ⟨hk, -, rfl⟩ := round_next host input hround
      rw [length_atStage] at hk
      apply hnext
      dsimp only
      rw [length_atStage, atStage_modify hk]
  exact hP rfl

end Rounds

/-! ### The document -/

section Payload

variable {host : Host} {input : PayloadInput}

theorem leastSize_eq : leastSize host input = Json.size (text host input
    ((input.results.map Check.ofResult).map fun c => c.withoutRaw.withoutSummary)) := by
  have hentries : input.results.map leastEntry = ((input.results.map Check.ofResult).map fun c =>
      c.withoutRaw.withoutSummary).map fun c => valueSize c.value := by
    rw [List.map_map, List.map_map]
    exact List.map_congr_left fun r _ => (valueSize_least r).symm
  rw [size_text, leastSize, hentries]

/-- No stage has fewer bytes than the last one. -/
theorem leastSize_le (stage : ℕ) : leastSize host input ≤
    Json.size (text host input (atStage stage (input.results.map Check.ofResult))) := by
  rw [leastSize_eq]
  apply size_text_mono
  generalize input.results.map Check.ofResult = full
  rw [List.forall₂_iff_get]
  refine ⟨by rw [List.length_map, length_atStage], fun i h₁ h₂ => ?_⟩
  simp only [List.get_eq_getElem, List.getElem_map, atStage, onLast, List.getElem_mapIdx]
  have hraw {c : Check} : valueSize c.withoutRaw.withoutSummary.value ≤
      valueSize c.withoutSummary.value := by
    rw [valueSize_value, valueSize_value]
    dsimp only [Check.withoutRaw, Check.withoutSummary, Option.map_none, Option.getD_none]
    omega
  split <;> split
  · exact le_rfl
  · exact hraw
  · exact valueSize_withoutSummary
  · exact hraw.trans valueSize_withoutSummary

/-- What the program comes to. -/
theorem buildPayload_cases (host : Host) (input : PayloadInput) :
    buildPayload host input = none ∧ input.results = [] ∧
      MAX_BODY < leastSize host input ∨
    ∃ kept, buildPayload host input = some (text host input kept) ∧
      Trimmed (input.results.map Check.ofResult) kept ∧ kept.length = input.results.length ∧
      leastSize host input ≤ Json.size (text host input kept) ∧
      (Json.size (text host input kept) ≤ MAX_BODY ∨
        Json.size (text host input kept) = leastSize host input) := by
  have hrun := run_atStage host input (input.results.map Check.ofResult) 0
  rw [atStage_zero] at hrun
  rcases hrun with ⟨hnone, hnil, hlarge⟩ | ⟨last, hsome, hend⟩
  · refine .inl ⟨hnone, List.map_eq_nil_iff.mp hnil, ?_⟩
    rwa [leastSize_eq, hnil]
  · refine .inr ⟨_, hsome, trimmed_atStage, ?_, leastSize_le last, hend.imp_right fun hlast => ?_⟩
    · rw [length_atStage, List.length_map]
    · rw [atStage_last hlast.le, leastSize_eq]

/-- There is no entry that can be made smaller. -/
theorem buildPayload_nil (hnil : input.results = []) (hlarge : MAX_BODY < leastSize host input) :
    buildPayload host input = none := by
  rw [leastSize_eq, hnil] at hlarge
  rw [buildPayload, hnil]
  apply Loop.run_of_break
  have hround : round host input (0, []) = .inr none := by
    rw [round, if_neg, if_pos List.length_nil]
    rintro (hfits | hlast)
    · exact Nat.not_le.mpr hlarge hfits
    · exact Nat.not_lt_zero _ hlast
  exact hround

theorem depth_member {key : String} {s : Option String} :
    ∀ m ∈ member key s, m.2.depth ≤ 0 := by
  intro m hm
  cases s with
  | none => cases hm
  | some s =>
    rw [List.mem_singleton.mp hm]
    exact le_rfl

theorem depth_value (c : Check) : c.value.depth ≤ 1 := by
  apply Json.depth_obj_le
  cases c.rawHex with
  | none => simp
  | some raw => simp

theorem depth_firmware (results : List CheckResult) : (firmware results).depth ≤ 0 := by
  unfold firmware
  split <;> exact le_rfl

/-- Objects in an array in an object. -/
theorem depth_doc (checks : List Check) : (doc host input checks).depth ≤ 3 := by
  have hafter : ∀ m ∈ after host input, m.2.depth ≤ 1 := by
    simp only [after, List.forall_mem_cons, Json.depth_str, Json.depth_num, Nat.zero_le, true_and]
    refine ⟨Json.depth_obj_le ?_, Json.depth_obj_le (by simp), Json.depth_obj_le ?_,
      Json.depth_obj_le ?_, nofun⟩
    · exact List.forall_mem_append.mpr ⟨depth_member, depth_member⟩
    · exact List.forall_mem_append.mpr ⟨by simp, depth_member⟩
    · simp [Nat.le_zero.mp (depth_firmware input.results)]
  have hbefore : ∀ m ∈ before input, m.2.depth ≤ 2 := by
    unfold before
    cases input.probeTried with
    | none => exact nofun
    | some tried =>
      rw [List.forall_mem_singleton]
      refine Json.depth_obj_le (List.forall_mem_cons.mpr ⟨?_, List.forall_mem_singleton.mpr ?_⟩)
      · cases tried.getLast? <;> exact Nat.zero_le 1
      · exact Json.depth_arr_le (List.forall_mem_map.mpr fun n _ => le_rfl)
  apply Json.depth_obj_le
  refine List.forall_mem_append.mpr ⟨hbefore, List.forall_mem_cons.mpr ⟨?_, fun m hm => ?_⟩⟩
  · exact Json.depth_arr_le (List.forall_mem_map.mpr fun c _ => depth_value c)
  · exact (hafter m hm).trans (by decide)

/-- A document that fits has at least its least size. -/
theorem Delivers.fits (h : Delivers host input) : leastSize host input ≤ MAX_BODY := by
  obtain ⟨body, kept, hbody, hsize, -⟩ := h
  rcases buildPayload_cases host input with ⟨hnone, -⟩ | ⟨kept', hsome, -, -, hleast, -⟩
  · rw [hnone] at hbody
    cases hbody
  · obtain rfl := Option.some.inj (hsome.symm.trans hbody)
    rw [Utf8.length_encode] at hsize
    exact hleast.trans hsize

/-- Letters are printed as they are. -/
theorem quoteSize_replicate (n : ℕ) :
    Json.quoteSize (.ofList (List.replicate n 'x')) = n + 2 := by
  have hx : Json.size (Json.escape 'x') = 1 := by decide
  rw [Json.quoteSize, String.toList_ofList, List.map_replicate, hx, List.sum_replicate_nat,
    Nat.mul_one]

/-- The name of the description is in the document. -/
theorem quoteSize_le_leastSize : Json.quoteSize input.descriptionId ≤ leastSize host input := by
  have hmem : ("description_id", Json.str input.descriptionId) ∈ before input ++ after host input :=
    List.mem_append_right _ (List.mem_cons_of_mem _ List.mem_cons_self)
  have hsum := List.single_le_sum (fun _ _ => Nat.zero_le _) _
    (List.mem_map_of_mem (f := memberSize) hmem)
  have hmember : memberSize ("description_id", .str input.descriptionId) =
      Json.quoteSize "description_id" + 1 + Json.quoteSize input.descriptionId + 1 := rfl
  rw [leastSize, around]
  omega

/-- A description with a name that is longer than the document may be. -/
def longName : PayloadInput :=
  ⟨"", 0, .ofList (List.replicate MAX_BODY 'x'), "", "virtual", 0, none, none, [], ⟨none, none⟩⟩

/-- The document is what it has to be exactly when it fits without raw bytes and summaries. -/
theorem delivers_iff (host : Host) (input : PayloadInput) :
    Delivers host input ↔ leastSize host input ≤ MAX_BODY := by
  constructor
  · exact Delivers.fits
  · intro hfits
    rcases buildPayload_cases host input with
      ⟨-, -, hlarge⟩ | ⟨kept, hsome, htrimmed, hlength, -, hsize⟩
    · exact absurd hfits (Nat.not_le.mpr hlarge)
    · refine ⟨_, kept, hsome, ?_, htrimmed, hlength, rfl, ?_⟩
      · rw [Utf8.length_encode]
        exact hsize.elim id fun heq => heq.trans_le hfits
      · exact Json.parse_compact Json.isNumber_toDigits
          ((depth_doc kept).trans (by decide))

/-- Without checks nothing can be left out, and the program panics. -/
theorem panics_without_checks : buildPayload ⟨"linux", "x86_64"⟩ longName = none ∧
    ¬ ∀ host input, Delivers host input := by
  have hname : Json.quoteSize longName.descriptionId = MAX_BODY + 2 := quoteSize_replicate MAX_BODY
  have hlarge : MAX_BODY < leastSize ⟨"linux", "x86_64"⟩ longName := by
    have hle : Json.quoteSize longName.descriptionId ≤ leastSize ⟨"linux", "x86_64"⟩ longName :=
      quoteSize_le_leastSize
    omega
  constructor
  · apply buildPayload_nil
    · rfl
    · exact hlarge
  · intro hall
    exact Nat.not_le.mpr hlarge (hall _ longName).fits

end Payload

end HamsOpen.Radioctld.Upload
