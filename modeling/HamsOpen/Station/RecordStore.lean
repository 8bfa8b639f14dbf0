import HamsOpen.Lib.Utf8
import HamsOpen.Station.Record
import Mathlib.Logic.Function.Basic

/-!
# The file of the records

The store of `record.rs`. Saving writes all records to a temporary file and puts it in the place of
the record file; loading reads it back, sets a file aside that it does not understand, and drops a
record that it does not trust. Loading refuses what saving does not look at: a large file, and a
record under another key than its id.
-/

namespace HamsOpen.Station

open Json (num arr obj str)

/-- A file, with its permissions. -/
structure File where
  bytes : List UInt8
  mode : Nat

/-- The files, by path. -/
abbrev Disk := String → Option File

/-- What goes wrong with the disk, with what is said of it. -/
structure Faults where
  /-- The temporary file cannot be written. -/
  writing : Option String
  /-- It cannot replace the record file. -/
  replacing : Option String
  opening : Option String
  tightening : Option String
  reading : Option String
  /-- A bad file cannot be set aside. -/
  moving : Option String

def Faults.none : Faults := ⟨.none, .none, .none, .none, .none, .none⟩

/-- Version of the file layout. -/
def RECORD_SCHEMA : UInt32 := 1

/-- Largest record file that is read. -/
def MAX_RECORD_FILE_BYTES : Nat := 4 * 1024 * 1024

/-- How deep a text may be nested. -/
def NESTING : Nat := 127

/-- What a record file says. -/
structure FileImage where
  schema : UInt32
  radios : OrderedMap String JsonValue

/-- The value of a record file. -/
def FileImage.toValue (i : FileImage) : JsonValue :=
  obj [("schema", ofU32 i.schema), ("radios", obj i.radios.entries)]

/-- The fields of a record file, none of which may come twice. -/
def FileImage.fields (names : List String) : Json (List Char) →
    Option (String → Option (Json (List Char)))
  | obj members =>
    if names.all fun k => (members.map (·.1)).count k ≤ 1 then some fun k => members.lookup k
    else none
  | v => v.fields names

/-- Reads a record file. -/
def FileImage.ofText (serde : Serde) (v : Json (List Char)) : Option FileImage := do
  let field ← fields ["schema", "radios"] v
  return {
    schema := ← Json.required (fun v => (v.order (Number.ofText serde)).bind asU32) (field "schema")
    radios := ← Json.required (Json.asMap (Json.order (Number.ofText serde))) (field "radios") }

/-- The image of the bytes of a file. -/
def FileImage.ofBytes (serde : Serde) (bytes : List UInt8) : Option FileImage := do
  let text ← Utf8.ofBytes bytes
  let v ← Json.parse NESTING text.toList
  FileImage.ofText serde v

/-! ### Saving -/

/-- Rejects the records when one of them cannot be trusted. -/
def validateAll : List (DeviceId × RadioRecord) → Except StationError Unit
  | [] => .ok ()
  | e :: es =>
    match e.2.validate with
    | .error err => .error err
    | .ok () => validateAll es

/-- The image of the records. -/
def FileImage.ofRecords (records : OrderedMap DeviceId RadioRecord) : FileImage where
  schema := RECORD_SCHEMA
  radios := records.map RadioRecord.toValue

/-- Writes every record to a temporary file and replaces the record file with it. A failure leaves
the old file. -/
def save (serde : Serde) (path : String) (pid : Nat) (faults : Faults)
    (records : OrderedMap DeviceId RadioRecord) (disk : Disk) : Except StationError Unit × Disk :=
  match validateAll records.entries with
  | .error e => (.error e, disk)
  | .ok () =>
    let bytes := Utf8.encode ((FileImage.ofRecords records).toValue.pretty (Number.text serde) 0)
    let tmp := s!"{path}.tmp-{pid}"
    let removed := Function.update disk tmp none
    match faults.writing, faults.replacing with
    | some e, _ => (.error ⟨.store, s!"write record file: {e}"⟩, removed)
    | none, some e => (.error ⟨.store, s!"replace record file: {e}"⟩, removed)
    | none, none =>
      -- a temporary file that was left behind keeps its permissions
      let mode := ((disk tmp).map File.mode).getD 0o600
      (.ok (), Function.update removed path (some ⟨bytes, mode⟩))

/-! ### Loading -/

/-- What a load found. -/
structure Loaded where
  /-- The trusted records by id. -/
  records : OrderedMap DeviceId RadioRecord
  /-- What the loader had to do or drop. -/
  problems : List String

/-- Renames a bad file, so it is kept but not read again. -/
def setAside (path why : String) (faults : Faults) (disk : Disk) : List String × Disk :=
  match (List.range 1000).find? fun n => (disk s!"{path}.bad-{n}").isNone with
  | none => ([s!"{why}: too many set-aside files"], disk)
  | some n =>
    let target := s!"{path}.bad-{n}"
    match faults.moving with
    | some e => ([s!"{why}: could not set aside: {e}"], disk)
    | none => ([s!"{why}: set aside as {target}"],
        Function.update (Function.update disk path none) target (disk path))

/-- Removes the permissions of others from the record file. -/
def tighten (file : File) (faults : Faults) : List String × File :=
  if file.mode &&& 0o077 = 0 then ([], file)
  else
    let mode := String.ofList (Nat.toDigits 8 (file.mode &&& 0o777))
    match faults.tightening with
    | none => ([s!"record file mode {mode} tightened to 600"], { file with mode := 0o600 })
    | some e => ([s!"record file mode {mode} could not be tightened: {e}"], file)

/-- Takes a record up that parses, validates and matches its key. -/
def Loaded.take (serde : Serde) (out : Loaded) (e : String × JsonValue) : Loaded :=
  match RadioRecord.ofValue serde e.2 with
  | some r =>
    if r.id = e.1 then
      match r.validate with
      | .ok () => { out with records := out.records.put r.id r }
      | .error err => { out with problems := out.problems ++ [s!"dropped: {err.detail}"] }
    else { out with problems := out.problems ++ [s!"dropped record {e.1}: id mismatch"] }
  | none =>
    { out with problems := out.problems ++ [s!"dropped record {e.1}: {serde.mismatch e.2}"] }

/-- What is loaded of the bytes of a file, or why it is not understood. -/
def Loaded.ofBytes (serde : Serde) (bytes : List UInt8) : Except (List String × String) Loaded :=
  if MAX_RECORD_FILE_BYTES < bytes.length then .error ([], "too large")
  else match FileImage.ofBytes serde bytes with
    | none => .error ([s!"record file is corrupt: {serde.corrupt bytes}"], "corrupt")
    | some image =>
      if image.schema ≠ RECORD_SCHEMA then
        .error ([s!"record file schema {image.schema} is not understood"], "schema")
      else .ok (image.radios.entries.foldl (Loaded.take serde) ⟨.make [], []⟩)

/-- Reads the record file. One that is not understood is set aside. -/
def load (serde : Serde) (path : String) (faults : Faults) (disk : Disk) : Loaded × Disk :=
  match disk path with
  | none => (⟨.make [], []⟩, disk)
  | some file =>
    match faults.opening with
    | some e => (⟨.make [], [s!"cannot open record file: {e}"]⟩, disk)
    | none =>
      let (problems, file) := tighten file faults
      let disk := Function.update disk path (some file)
      match faults.reading with
      | some e => (⟨.make [], problems ++ [s!"cannot read record file: {e}"]⟩, disk)
      | none =>
        match Loaded.ofBytes serde file.bytes with
        | .ok out => ({ out with problems := problems ++ out.problems }, disk)
        | .error (found, why) =>
          let (moved, disk) := setAside path why faults disk
          (⟨.make [], problems ++ found ++ moved⟩, disk)

/-! ### Reading back -/

section Reading

variable {serde : Serde} {records : OrderedMap DeviceId RadioRecord}

/-- The number of bytes of the file of the records. -/
def fileSize (serde : Serde) (records : OrderedMap DeviceId RadioRecord) : Nat :=
  (FileImage.ofRecords records).toValue.span (fun n => Json.size (n.text serde)) 0

/-- The bytes of the file of the records. -/
def fileBytes (serde : Serde) (records : OrderedMap DeviceId RadioRecord) : List UInt8 :=
  Utf8.encode ((FileImage.ofRecords records).toValue.pretty (Number.text serde) 0)

theorem length_fileBytes : (fileBytes serde records).length = fileSize serde records := by
  rw [fileBytes, Utf8.length_encode, fileSize, ← Json.size_pretty]
  rfl

theorem FileImage.depth_toValue (records : OrderedMap DeviceId RadioRecord) :
    (FileImage.ofRecords records).toValue.depth ≤ NESTING := by
  have hradios : (obj (FileImage.ofRecords records).radios.entries).depth ≤ 4 :=
    Json.depth_obj_le (List.forall_mem_map.mpr fun e _ => e.2.depth_toValue)
  have hdepth : (FileImage.ofRecords records).toValue.depth ≤ 5 := by
    refine Json.depth_obj_le ?_
    simp [hradios, depth_ofU32]
  exact hdepth.trans (by decide)

/-- What is read of the bytes of the records is the value of what they print. -/
theorem FileImage.ofBytes_fileBytes : FileImage.ofBytes serde (fileBytes serde records) =
    FileImage.ofText serde ((FileImage.ofRecords records).toValue.map (Number.text serde)) := by
  have htext : Utf8.ofBytes (fileBytes serde records) =
      some (String.ofList ((FileImage.ofRecords records).toValue.pretty (Number.text serde) 0)) :=
    Utf8.ofBytes_eq_some.mpr (Utf8.bytes_ofList _)
  rw [FileImage.ofBytes, htext]
  simp only [Option.bind_eq_bind, Option.bind_some, String.toList_ofList]
  rw [Json.parse_pretty (Number.isNumber_text serde) (FileImage.depth_toValue records)]
  rfl

/-- A record file is read when the values of its records are. -/
theorem FileImage.ofText_map : FileImage.ofText serde
      ((FileImage.ofRecords records).toValue.map (Number.text serde)) =
    (Json.everyMember (records.entries.map fun e =>
      (e.1, (e.2.toValue.map (Number.text serde)).order (Number.ofText serde)))).map fun radios =>
        ⟨RECORD_SCHEMA, .make radios⟩ := by
  have hschema : ((ofU32 RECORD_SCHEMA).map (Number.text serde)).order (Number.ofText serde) =
      some (ofU32 RECORD_SCHEMA) :=
    congrArg (Option.map num) (Number.ofText_nat serde (n := 1) (by decide))
  have hu32 : asU32 (ofU32 RECORD_SCHEMA) = some RECORD_SCHEMA := asU32_ofU32 RECORD_SCHEMA
  have hcount : (["schema", "radios"].all fun k => ["schema", "radios"].count k ≤ 1) = true := by
    decide
  simp only [ofText, toValue, ofRecords, OrderedMap.map, Json.map_obj, List.map_cons, List.map_nil,
    fields, List.map_map, hcount, if_true]
  simp only [List.lookup_cons, Json.required, hschema, hu32, Json.asMap, Function.comp_def,
    Option.bind_eq_bind, Option.bind_some, List.map_map, beq_self_eq_true,
    show ("radios" == "schema") = false from by decide]
  cases Json.everyMember _ with
  | none => rfl
  | some radios => rfl

end Reading

/-! ### Saving and loading -/

/-- What is read of a float that was printed. -/
def reread (serde : Serde) (x : FiniteF64) : FiniteF64 := (serde.read (serde.print x)).getD x

/-- The levels of a record can be read where they were printed. -/
def Readable (serde : Serde) (r : RadioRecord) : Prop :=
  ∀ k, r.lastState = some k → ∀ l ∈ k.levels.entries, ∀ h : l.2.isFinite = true,
    ∃ y, serde.read (serde.print ⟨l.2, h⟩) = some y

/-- The levels of a record are read as they were printed. -/
def Reads (serde : Serde) (r : RadioRecord) : Prop :=
  ∀ k, r.lastState = some k → ∀ l ∈ k.levels.entries, ∀ h : l.2.isFinite = true,
    serde.read (serde.print ⟨l.2, h⟩) = some ⟨l.2, h⟩

/-- The records that stand under their ids, with what is read of their levels. -/
def kept (serde : Serde) (l : List (DeviceId × RadioRecord)) : List (DeviceId × RadioRecord) :=
  (l.filter fun e => e.2.id = e.1).map fun e => (e.1, e.2.through (reread serde))

section SaveLoad

variable {serde : Serde} {records : OrderedMap DeviceId RadioRecord} {r : RadioRecord}
  {l : List (DeviceId × RadioRecord)}

theorem validateAll_eq_ok : validateAll l = .ok () ↔ ∀ e ∈ l, e.2.validate = .ok () := by
  induction l with
  | nil => exact iff_of_true rfl (List.forall_mem_nil _)
  | cons e l ih =>
    unfold validateAll
    cases he : e.2.validate with
    | error err =>
      refine iff_of_false (fun h => by cases h) fun h => ?_
      have hok := h e (.head _)
      rw [he] at hok
      cases hok
    | ok u =>
      rw [List.forall_mem_cons, and_iff_right he]
      exact ih

/-- What saving leaves when it does not fail. -/
theorem save_eq_ok {path : String} {pid : Nat} {faults : Faults} {disk disk' : Disk}
    (h : save serde path pid faults records disk = (.ok (), disk')) :
    (∀ e ∈ records.entries, e.2.validate = .ok ()) ∧
      ∃ mode, disk' path = some ⟨fileBytes serde records, mode⟩ := by
  unfold save at h
  cases hvalid : validateAll records.entries with
  | error e =>
    rw [hvalid] at h
    cases h
  | ok u =>
    rw [hvalid] at h
    cases hwriting : faults.writing with
    | some e => simp [hwriting] at h
    | none =>
      cases hreplacing : faults.replacing with
      | some e => simp [hwriting, hreplacing] at h
      | none =>
        simp only [hwriting, hreplacing, Prod.mk.injEq, true_and] at h
        exact ⟨validateAll_eq_ok.mp hvalid, _, h ▸ Function.update_self ..⟩

/-- The value of a record that can be read is found in what it prints. -/
theorem RadioRecord.order_toValue (h : Readable serde r) :
    (r.toValue.map (Number.text serde)).order (Number.ofText serde) =
      some (r.through (reread serde)).toValue := by
  have hnumbers : r.toValue.All fun n =>
      Number.ofText serde (n.text serde) = some (n.through (reread serde)) := by
    refine (all_toValue (fun n hn => Number.ofText_nat serde hn) r).mpr fun k hk l hl => ?_
    unfold ofF64
    split
    next hfinite =>
      obtain ⟨y, hy⟩ := h k hk l hl hfinite
      have hreread : reread serde ⟨l.2, hfinite⟩ = y := by
        rw [reread, hy]
        rfl
      rw [Json.all_num, Number.ofText_float, Number.through, hreread, hy]
      rfl
    · trivial
  rw [Json.order_map r.ordered_toValue hnumbers, map_toValue]

/-- What prints a text with a value is a record that can be read. -/
theorem RadioRecord.readable_of_order {v : JsonValue}
    (h : (r.toValue.map (Number.text serde)).order (Number.ofText serde) = some v) :
    Readable serde r := by
  intro k hk l hl hfinite
  have hlevel := (all_toValue (fun n hn => ⟨_, Number.ofText_nat serde hn⟩) r).mp
    (Json.all_of_order h) k hk l hl
  obtain ⟨n, hn⟩ := (all_ofF64 hfinite).mp hlevel
  rw [Number.ofText_float] at hn
  obtain ⟨y, hy, -⟩ := Option.map_eq_some_iff.mp hn
  exact ⟨y, hy⟩

theorem kept_concat (l : List (DeviceId × RadioRecord)) (e : DeviceId × RadioRecord) :
    kept serde (l ++ [e]) =
      kept serde l ++ if e.2.id = e.1 then [(e.1, e.2.through (reread serde))] else [] := by
  unfold kept
  rw [List.filter_append, List.map_append]
  congr 1
  by_cases hid : e.2.id = e.1
  · rw [if_pos hid, List.filter_cons_of_pos (by simp [hid])]
    rfl
  · rw [if_neg hid, List.filter_cons_of_neg (by simp [hid])]
    rfl

/-- A record is taken up under its own id. -/
theorem Loaded.take_toValue {f : FiniteF64 → FiniteF64} (h : r.validate = .ok ())
    (out : Loaded) (k : DeviceId) : Loaded.take serde out (k, (r.through f).toValue) =
      if r.id = k then { out with records := out.records.put r.id (r.through f) }
      else { out with problems := out.problems ++ [s!"dropped record {k}: id mismatch"] } := by
  have hvalid : (r.through f).validate = .ok () := (RadioRecord.validate_through f r).trans h
  have hvalue := RadioRecord.ofValue_toValue serde (RadioRecord.finite_of_validate hvalid)
  simp only [take, hvalue, hvalid]
  rfl

/-- The records that are taken up stand in the order of the file. -/
theorem Loaded.foldl_take (hsorted : l.Pairwise fun e e' => e.1 < e'.1)
    (hvalid : ∀ e ∈ l, e.2.validate = .ok ()) :
    ((l.map fun e => (e.1, (e.2.through (reread serde)).toValue)).foldl (Loaded.take serde)
      ⟨.make [], []⟩).records.entries = kept serde l := by
  induction l using List.reverseRecOn with
  | nil => rfl
  | append_singleton l e ih =>
    obtain ⟨hl, -, hbefore⟩ := List.pairwise_append.mp hsorted
    have hinit := ih hl fun e he => hvalid e (List.mem_append_left _ he)
    have he : e.2.validate = .ok () := hvalid e (List.mem_append_right _ (.head _))
    rw [List.map_append, List.foldl_append, List.map_singleton, List.foldl_cons, List.foldl_nil,
      Loaded.take_toValue he, kept_concat]
    by_cases hid : e.2.id = e.1
    · rw [if_pos hid, if_pos hid]
      -- the key of the record comes after those that are there
      have hgt : ∀ d ∈ kept serde l, d.1 < e.1 := by
        intro d hd
        obtain ⟨d', hd', rfl⟩ := List.mem_map.mp hd
        exact hbefore d' (List.mem_of_mem_filter hd') e (.head _)
      dsimp only [OrderedMap.put]
      rw [hinit, hid, OrderedMap.insert_of_gt hgt]
    · rw [if_neg hid, if_neg hid, List.append_nil]
      exact hinit

/-- Nothing is said of records that stand under their ids. -/
theorem Loaded.problems_foldl_take (hvalid : ∀ e ∈ l, e.2.validate = .ok ())
    (hid : ∀ e ∈ l, e.2.id = e.1) :
    ((l.map fun e => (e.1, (e.2.through (reread serde)).toValue)).foldl (Loaded.take serde)
      ⟨.make [], []⟩).problems = [] := by
  induction l using List.reverseRecOn with
  | nil => rfl
  | append_singleton l e ih =>
    have hinit := ih (fun e he => hvalid e (List.mem_append_left _ he))
      fun e he => hid e (List.mem_append_left _ he)
    have hlast : e ∈ l ++ [e] := List.mem_append_right _ (.head _)
    rw [List.map_append, List.foldl_append, List.map_singleton, List.foldl_cons, List.foldl_nil,
      Loaded.take_toValue (hvalid e hlast), if_pos (hid e hlast)]
    exact hinit

end SaveLoad

/-! ### What is loaded of what was saved -/

/-- What was saved is loaded, nothing is said of it but its permissions, and its file stays. -/
structure LoadsBack (serde : Serde) (path : String) (faults : Faults) (disk : Disk)
    (records : OrderedMap DeviceId RadioRecord) : Prop where
  loaded : (load serde path faults disk).1.records = records
  accepted : ∀ file, disk path = some file →
    (load serde path faults disk).1.problems = (tighten file faults).1
  stays : ((load serde path faults disk).2 path).map File.bytes = (disk path).map File.bytes

/-- What is saved is loaded again, whenever the file can be opened and read. -/
def RoundTrips (serde : Serde) : Prop :=
  ∀ (path : String) (pid : Nat) (saving loading : Faults) (disk disk' : Disk)
    (records : OrderedMap DeviceId RadioRecord),
    save serde path pid saving records disk = (.ok (), disk') → loading.opening = none →
    loading.reading = none → LoadsBack serde path loading disk' records

section Load

variable {serde : Serde} {path : String} {pid : Nat} {saving loading : Faults} {disk disk' : Disk}
  {records : OrderedMap DeviceId RadioRecord} {file : File}

theorem tighten_bytes (file : File) (faults : Faults) :
    (tighten file faults).2.bytes = file.bytes := by
  unfold tighten
  split
  · rfl
  · split
    · rfl
    · rfl

theorem load_of_ok (hfile : disk path = some file) (hopening : loading.opening = none)
    (hreading : loading.reading = none) {out : Loaded}
    (h : Loaded.ofBytes serde file.bytes = .ok out) : load serde path loading disk =
      ({ out with problems := (tighten file loading).1 ++ out.problems },
        Function.update disk path (some (tighten file loading).2)) := by
  unfold load
  simp only [hfile, hopening, hreading, tighten_bytes, h]

/-- A file that is not understood has no records. -/
theorem load_of_error (hfile : disk path = some file) (hopening : loading.opening = none)
    (hreading : loading.reading = none) {e : List String × String}
    (h : Loaded.ofBytes serde file.bytes = .error e) :
    (load serde path loading disk).1.records = .make [] := by
  unfold load
  simp only [hfile, hopening, hreading, tighten_bytes, h]

/-- A large file is not understood. -/
theorem load_too_large (h : save serde path pid saving records disk = (.ok (), disk'))
    (hopening : loading.opening = none) (hreading : loading.reading = none)
    (hsize : MAX_RECORD_FILE_BYTES < fileSize serde records) :
    (load serde path loading disk').1.records = .make [] := by
  obtain ⟨-, mode, hfile⟩ := save_eq_ok h
  have hlarge : Loaded.ofBytes serde (fileBytes serde records) = .error ([], "too large") := by
    rw [Loaded.ofBytes, length_fileBytes, if_pos hsize]
  exact load_of_error hfile hopening hreading hlarge

/-- A file that is not too large is understood when its floats can be read. -/
theorem Loaded.ofBytes_of_readable (hsize : fileSize serde records ≤ MAX_RECORD_FILE_BYTES)
    (hread : ∀ e ∈ records.entries, Readable serde e.2) :
    Loaded.ofBytes serde (fileBytes serde records) =
      .ok ((records.entries.map fun e => (e.1, (e.2.through (reread serde)).toValue)).foldl
        (Loaded.take serde) ⟨.make [], []⟩) := by
  have hradios := Json.everyMember_map
    (g := fun r : RadioRecord => (r.toValue.map (Number.text serde)).order (Number.ofText serde))
    (f := fun r => (r.through (reread serde)).toValue)
    fun e he => RadioRecord.order_toValue (hread e he)
  have hmake : OrderedMap.make
      (records.entries.map fun e => (e.1, (e.2.through (reread serde)).toValue)) =
      records.map fun r => (r.through (reread serde)).toValue :=
    OrderedMap.make_entries (records.map fun r : RadioRecord => (r.through (reread serde)).toValue)
  rw [ofBytes, length_fileBytes, if_neg hsize.not_gt, FileImage.ofBytes_fileBytes,
    FileImage.ofText_map, hradios, Option.map_some, hmake]
  rfl

/-- What is understood has floats that can be read. -/
theorem Loaded.readable_of_ofBytes {out : Loaded}
    (h : Loaded.ofBytes serde (fileBytes serde records) = .ok out) :
    ∀ e ∈ records.entries, Readable serde e.2 := by
  unfold ofBytes at h
  split at h
  · cases h
  rw [FileImage.ofBytes_fileBytes, FileImage.ofText_map] at h
  cases hradios : Json.everyMember (records.entries.map fun e =>
      (e.1, (e.2.toValue.map (Number.text serde)).order (Number.ofText serde))) with
  | none =>
    rw [hradios] at h
    cases h
  | some radios =>
    intro e he
    obtain ⟨v, hv⟩ := Json.of_everyMember
      (g := fun r : RadioRecord => (r.toValue.map (Number.text serde)).order (Number.ofText serde))
      hradios e he
    exact RadioRecord.readable_of_order hv

theorem F64.through_eq_self {f : FiniteF64 → FiniteF64} {x : F64} :
    x.through f = x ↔ ∀ h : x.isFinite = true, f ⟨x, h⟩ = ⟨x, h⟩ := by
  unfold through
  split
  next h => exact ⟨fun heq _ => Subtype.ext heq, fun heq => congrArg Subtype.val (heq h)⟩
  next h => exact iff_of_true rfl fun h' => absurd h' h

theorem KnownState.through_eq_self {f : FiniteF64 → FiniteF64} {k : KnownState} :
    k.through f = k ↔ ∀ l ∈ k.levels.entries, l.2.through f = l.2 := by
  have hlevels : k.through f = k ↔
      (k.levels.entries.map fun l => (l.1, l.2.through f)) = k.levels.entries := by
    constructor
    · exact fun h => congrArg (fun k : KnownState => k.levels.entries) h
    · intro h
      have hmap : k.levels.map (F64.through f) = k.levels := OrderedMap.ext h
      rw [through, hmap]
  have hself := List.map_inj_left (l := k.levels.entries)
    (f := fun l => (l.1, l.2.through f)) (g := id)
  rw [List.map_id] at hself
  rw [hlevels, hself]
  exact forall₂_congr fun l _ => by simp [Prod.ext_iff]

theorem RadioRecord.through_eq_self {f : FiniteF64 → FiniteF64} {r : RadioRecord} :
    r.through f = r ↔ ∀ k, r.lastState = some k → k.through f = k := by
  constructor
  · intro h k hk
    have hlast : r.lastState.map (KnownState.through f) = r.lastState :=
      congrArg RadioRecord.lastState h
    rw [hk] at hlast
    exact Option.some.inj hlast
  · intro h
    have hlast : r.lastState.map (KnownState.through f) = r.lastState := by
      cases hk : r.lastState with
      | none => rfl
      | some k => exact congrArg some (h k hk)
    rw [through, hlast]

/-- Reading changes nothing in a record exactly when its levels are read as they were printed. -/
theorem RadioRecord.through_reread {r : RadioRecord} (hread : Readable serde r) :
    r.through (reread serde) = r ↔ Reads serde r := by
  rw [through_eq_self]
  refine forall₂_congr fun k hk => KnownState.through_eq_self.trans ?_
  refine forall₂_congr fun l hl => F64.through_eq_self.trans ?_
  refine forall_congr' fun hfinite => ?_
  obtain ⟨y, hy⟩ := hread k hk l hl hfinite
  rw [reread, hy, Option.getD_some, Option.some_inj]

/-- All records are kept when they stand under their ids and are read as they were printed. -/
theorem kept_eq_self {l : List (DeviceId × RadioRecord)} (hread : ∀ e ∈ l, Readable serde e.2) :
    kept serde l = l ↔ (∀ e ∈ l, e.2.id = e.1) ∧ ∀ e ∈ l, Reads serde e.2 := by
  have hmap : (l.map fun e => (e.1, e.2.through (reread serde))) = l ↔
      ∀ e ∈ l, Reads serde e.2 := by
    have hself := List.map_inj_left (l := l)
      (f := fun e => (e.1, e.2.through (reread serde))) (g := id)
    rw [List.map_id] at hself
    rw [hself]
    refine forall₂_congr fun e he => ?_
    rw [← RadioRecord.through_reread (hread e he)]
    simp [Prod.ext_iff]
  have hfilter : (l.filter fun e => e.2.id = e.1) = l ↔ ∀ e ∈ l, e.2.id = e.1 := by
    simp [List.filter_eq_self]
  constructor
  · intro h
    -- a record that is left out would be missing
    have hlength : (l.filter fun e => e.2.id = e.1).length = l.length := by
      have hkept := congrArg List.length h
      rwa [kept, List.length_map] at hkept
    have hids := hfilter.mp (List.filter_sublist.eq_of_length hlength)
    rw [kept, hfilter.mpr hids] at h
    exact ⟨hids, hmap.mp h⟩
  · rintro ⟨hids, hreads⟩
    rw [kept, hfilter.mpr hids]
    exact hmap.mpr hreads

theorem fileSize_nil : fileSize serde (.make []) = 33 := by
  rw [fileSize, FileImage.toValue, Json.span_obj]
  rfl

/-- What is loaded of what was saved: nothing when the file is too large or holds a float that
cannot be read, or else the records that stand under their ids. -/
theorem load_saved (h : save serde path pid saving records disk = (.ok (), disk'))
    (hopening : loading.opening = none) (hreading : loading.reading = none) :
    (load serde path loading disk').1.records = .make [] ∨
      fileSize serde records ≤ MAX_RECORD_FILE_BYTES ∧ (∀ e ∈ records.entries, Readable serde e.2) ∧
        (load serde path loading disk').1.records.entries = kept serde records.entries := by
  obtain ⟨hvalid, mode, hfile⟩ := save_eq_ok h
  by_cases hsize : fileSize serde records ≤ MAX_RECORD_FILE_BYTES
  swap
  · exact .inl (load_too_large h hopening hreading (not_le.mp hsize))
  cases hbytes : Loaded.ofBytes serde (fileBytes serde records) with
  | error e => exact .inl (load_of_error hfile hopening hreading hbytes)
  | ok out =>
    have hread := Loaded.readable_of_ofBytes hbytes
    rw [Loaded.ofBytes_of_readable hsize hread] at hbytes
    cases hbytes
    refine .inr ⟨hsize, hread, ?_⟩
    rw [load_of_ok hfile hopening hreading (Loaded.ofBytes_of_readable hsize hread)]
    exact Loaded.foldl_take records.sorted hvalid

/-- What was saved is loaded exactly when every record stands under its id, the file is not too
large, and the floats are read as they were printed. -/
theorem load_save_iff (h : save serde path pid saving records disk = (.ok (), disk'))
    (hopening : loading.opening = none) (hreading : loading.reading = none) :
    LoadsBack serde path loading disk' records ↔ (∀ e ∈ records.entries, e.2.id = e.1) ∧
      fileSize serde records ≤ MAX_RECORD_FILE_BYTES ∧ ∀ e ∈ records.entries, Reads serde e.2 := by
  obtain ⟨hvalid, mode, hfile⟩ := save_eq_ok h
  constructor
  · intro hback
    rcases load_saved h hopening hreading with hempty | ⟨hsize, hread, hkept⟩
    · -- no records are lost when there are none, and then the file is small
      obtain rfl := hback.loaded.symm.trans hempty
      have hsize : fileSize serde (.make []) ≤ MAX_RECORD_FILE_BYTES :=
        fileSize_nil.trans_le (by decide)
      exact ⟨List.forall_mem_nil _, hsize, List.forall_mem_nil _⟩
    · rw [hback.loaded] at hkept
      obtain ⟨hids, hreads⟩ := (kept_eq_self hread).mp hkept.symm
      exact ⟨hids, hsize, hreads⟩
  · rintro ⟨hids, hsize, hreads⟩
    have hread : ∀ e ∈ records.entries, Readable serde e.2 := fun e he k hk l hl hfinite =>
      ⟨_, hreads e he k hk l hl hfinite⟩
    have hload := load_of_ok hfile hopening hreading (Loaded.ofBytes_of_readable hsize hread)
    refine ⟨OrderedMap.ext ?_, fun file hfile' => ?_, ?_⟩
    · rw [hload]
      exact (Loaded.foldl_take records.sorted hvalid).trans
        ((kept_eq_self hread).mpr ⟨hids, hreads⟩)
    · obtain rfl := Option.some.inj (hfile.symm.trans hfile')
      rw [hload]
      dsimp only
      rw [Loaded.problems_foldl_take hvalid hids, List.append_nil]
    · rw [hload, hfile]
      dsimp only
      rw [Function.update_self, Option.map_some, tighten_bytes]
      rfl

end Load

/-! ### A store that does not read what it wrote -/

/-- A library that knows two floats. -/
def Serde.binary : Serde where
  print x := if x.1.bits = 0 then ['0', '.', '0'] else ['1', '.', '0']
  read t := if t = ['0', '.', '0'] then some ⟨⟨0⟩, rfl⟩ else some ⟨⟨0x3FF0000000000000⟩, rfl⟩
  ofInt n := if n = 0 then ⟨0⟩ else ⟨0x3FF0000000000000⟩
  corrupt _ := "expected value"
  mismatch _ := "invalid type"
  isNumber_print x := by
    split
    · rfl
    · rfl
  not_digits x := by
    split
    · rfl
    · rfl

/-- A record with one level. -/
def loud : RadioRecord :=
  { RadioRecord.new "ic7300" "Icom" "IC-7300" ⟨.ping, ""⟩ with
    lastState := some ⟨none, none, none, .make [("af", ⟨0x3FF0000000000000⟩)], none, 0⟩ }

theorem save_of_valid {serde : Serde} {path : String} {pid : Nat} {disk : Disk}
    {records : OrderedMap DeviceId RadioRecord} (h : ∀ e ∈ records.entries, e.2.validate = .ok ()) :
    ∃ disk', save serde path pid .none records disk = (.ok (), disk') := by
  unfold save
  rw [validateAll_eq_ok.mpr h]
  exact ⟨_, rfl⟩

theorem load_save_loud : ∃ disk',
    save .binary "records.json" 1 .none (.make [("ic7300", loud)]) (fun _ => none) =
      (.ok (), disk') ∧
    (LoadsBack .binary "records.json" .none disk' (.make [("ic7300", loud)]) ↔
      (∀ e ∈ (OrderedMap.make [("ic7300", loud)]).entries, e.2.id = e.1) ∧
        fileSize .binary (.make [("ic7300", loud)]) ≤ MAX_RECORD_FILE_BYTES ∧
        ∀ e ∈ (OrderedMap.make [("ic7300", loud)]).entries, Reads .binary e.2) := by
  have hvalid : ∀ e ∈ (OrderedMap.make [("ic7300", loud)]).entries, e.2.validate = .ok () := by
    intro e he
    obtain rfl := List.mem_singleton.mp he
    rfl
  obtain ⟨disk', h⟩ := save_of_valid hvalid
  exact ⟨disk', h, load_save_iff h rfl rfl⟩

/-- A text of a length. -/
def letters (n : Nat) : String := String.ofList (List.replicate n 'a')

/-- A record of some capabilities that all read the same. -/
def crowded (n : Nat) (s : String) : RadioRecord :=
  { RadioRecord.new "ic7300" "Icom" "IC-7300" ⟨.ping, ""⟩ with
    capabilities := List.replicate n s }

theorem utf8ByteSize_letters (n : Nat) : (letters n).utf8ByteSize = n := by
  refine (congrArg List.length (Utf8.bytes_ofList _)).trans ?_
  rw [Utf8.length_encode, List.map_replicate, List.sum_replicate_nat]
  exact Nat.mul_one n

theorem crowded_validate {n : Nat} {s : String} (hn : n ≤ 1024) (hs : long s = false) :
    (crowded n s).validate = .ok () := by
  have hcapabilities : ¬(1024 < (crowded n s).capabilities.length ∨
      (crowded n s).capabilities.any long = true) := by
    simp [crowded, hs, hn]
  rw [RadioRecord.validate, if_neg hcapabilities]
  rfl

theorem quoteSize_letters (n : Nat) : Json.quoteSize (letters n) = n + 2 := by
  rw [Json.quoteSize, letters, String.toList_ofList, List.map_replicate, List.sum_replicate_nat]
  exact congrArg (· + 2) (Nat.mul_one n)

/-- The file of a record holds all its capabilities. -/
theorem lt_fileSize_crowded (serde : Serde) (k : DeviceId) (n m : Nat) :
    n * m < fileSize serde (.make [(k, crowded n (letters m))]) := by
  have hitems : n * m ≤ Json.span (fun n => Json.size (Number.text serde n))
      (arr ((crowded n (letters m)).capabilities.map str)) 3 := by
    have hsum := Json.sum_lt_blockSize 3 (List.replicate n (m + 2))
    rw [List.sum_replicate_nat, Nat.mul_add] at hsum
    rw [Json.span_arr, crowded, List.map_replicate, List.map_replicate]
    change _ ≤ Json.blockSize 3 (List.replicate n (Json.quoteSize (letters m)))
    rw [quoteSize_letters]
    omega
  have hrecord : n * m < Json.span (fun n => Json.size (Number.text serde n))
      (crowded n (letters m)).toValue 2 := by
    refine hitems.trans_lt (Json.span_lt_object _ (m := ("capabilities", _)) ["id", "make", "model",
      "identity", "description", "capabilities", "last_state", "lifecycle", "lifecycle_unix",
      "power", "boot_time_ms", "connect", "health"] ?_ rfl ?_ 2)
    · exact .tail _ (.tail _ (.tail _ (.tail _ (.tail _ (.head _)))))
    · decide
  have hradio : (k, (crowded n (letters m)).toValue) ∈ [(k, (crowded n (letters m)).toValue)] :=
    .head _
  have hradios := Json.span_lt_obj (fun n => Json.size (Number.text serde n)) (i := 1) hradio
  have hmember : ("radios", obj [(k, (crowded n (letters m)).toValue)]) ∈
      [("schema", ofU32 RECORD_SCHEMA), ("radios", obj [(k, (crowded n (letters m)).toValue)])] :=
    .tail _ (.head _)
  have hfile := Json.span_lt_obj (fun n => Json.size (Number.text serde n)) (i := 0) hmember
  exact hrecord.trans (hradios.trans hfile)

/-- A store does not read what it wrote when that is too large. -/
theorem save_unread : ¬RoundTrips .binary := by
  intro hround
  have hvalid : ∀ e ∈ (OrderedMap.make [("ic7300", crowded 1024 (letters 4096))]).entries,
      e.2.validate = .ok () := by
    intro e he
    obtain rfl := List.mem_singleton.mp he
    refine crowded_validate (Nat.le_refl _) ?_
    rw [long, utf8ByteSize_letters]
    rfl
  obtain ⟨disk', h⟩ := @save_of_valid .binary "records.json" 1 (fun _ => none) _ hvalid
  have hsize : MAX_RECORD_FILE_BYTES <
      fileSize .binary (.make [("ic7300", crowded 1024 (letters 4096))]) :=
    lt_fileSize_crowded .binary "ic7300" 1024 4096
  have hback := (hround "records.json" 1 .none .none _ disk' _ h rfl rfl).loaded
  rw [load_too_large h rfl rfl hsize] at hback
  have hentries := congrArg OrderedMap.entries hback
  exact List.cons_ne_nil _ _ hentries.symm

end HamsOpen.Station
