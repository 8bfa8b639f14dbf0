import HamsOpen.Lib.JsonObject
import HamsOpen.Station.Lifecycle

/-!
# The record of a radio

The data of `record.rs`, what a record has to be, and the JSON value that it is written as and read
from. Reading leaves out unknown members and fills in those that have a default. Floats are printed
and read by the JSON library, which need not read back what it printed.
-/

namespace HamsOpen.Station

/-- A 64-bit float, by its bits. -/
structure F64 where
  bits : BitVec 64
  deriving DecidableEq

/-- It is neither infinite nor no number. -/
def F64.isFinite (x : F64) : Bool := x.bits.extractLsb' 52 11 != 0x7FF#11

abbrev FiniteF64 := { x : F64 // x.isFinite = true }

/-- How to find the radio. -/
structure Identity where
  usbSerial : Option String
  networkAddress : Option String
  deriving DecidableEq

/-- How the relay connects after the radio is powered. -/
inductive ConnectMethod
  | hotplug | ping | bootTime
  deriving DecidableEq

structure ConnectProcedure where
  method : ConnectMethod
  notes : String
  deriving DecidableEq

/-- The state last read from the radio, with when. -/
structure KnownState where
  frequencyHz : Option UInt64
  mode : Option String
  filter : Option String
  /-- Levels by name. -/
  levels : OrderedMap String F64
  antenna : Option String
  seenUnix : UInt64
  deriving DecidableEq

structure Health where
  lastSeenUnix : Option UInt64
  failures : UInt32
  consecutiveFailures : UInt32
  deriving DecidableEq

/-- Everything durable about one radio. -/
structure RadioRecord where
  id : DeviceId
  make : String
  model : String
  identity : Identity
  description : String
  capabilities : List String
  lastState : Option KnownState
  lifecycle : RadioState
  lifecycleUnix : UInt64
  /-- How it is powered, if it has a power button. -/
  power : Option PowerSource
  bootTimeMs : UInt64
  connect : ConnectProcedure
  health : Health
  deriving DecidableEq

def MAX_BOOT_MS : UInt64 := 3600000

/-- Text that is far too long. -/
def long (s : String) : Bool := 4096 < s.utf8ByteSize

namespace RadioRecord

/-- A bare record: unknown state, unreachable, no history. -/
def new (id : DeviceId) (make model : String) (connect : ConnectProcedure) : RadioRecord where
  id := id
  make := make
  model := model
  identity := ⟨none, none⟩
  description := ""
  capabilities := []
  lastState := none
  lifecycle := .unreachable
  lifecycleUnix := 0
  power := none
  bootTimeMs := 0
  connect := connect
  health := ⟨none, 0, 0⟩

/-- Rejects a record that cannot be trusted. -/
def validate (r : RadioRecord) : Except StationError Unit :=
  let bad (m : String) : Except StationError Unit := .error ⟨.store, s!"record {r.id}: {m}"⟩
  if r.id = "" ∨ 128 < r.id.utf8ByteSize then bad "bad id"
  else if MAX_BOOT_MS < r.bootTimeMs then bad "boot time over one hour"
  else if long r.make ∨ long r.model ∨ long r.description ∨ long r.connect.notes then
    bad "text too long"
  else if 1024 < r.capabilities.length ∨ r.capabilities.any long then bad "too many capabilities"
  else if r.lastState.any fun k =>
      256 < k.levels.entries.length || k.levels.entries.any fun l => !l.2.isFinite then
    bad "bad levels"
  else .ok ()

end RadioRecord

/-! ### Values -/

/-- A number of the JSON library: an integer of 64 bits or a float, which is finite. -/
inductive Number
  | int (n : Int)
  | float (x : FiniteF64)

abbrev JsonValue := Json Number

/-- What is relied on of the JSON library where it prints and reads floats, and what it says of a
text or a value that it cannot read. A float is printed as a number with a fraction or an
exponent. -/
structure Serde where
  print : FiniteF64 → List Char
  /-- The float of a number, unless it is out of range. -/
  read : List Char → Option FiniteF64
  ofInt : Int → F64
  corrupt : List UInt8 → String
  mismatch : JsonValue → String
  isNumber_print : ∀ x, Json.isNumber (print x) = true
  not_digits : ∀ x, (Json.unsigned (print x)).all Char.isDigit = false

namespace Number

variable (serde : Serde)

/-- The text of a number. -/
def text : Number → List Char
  | int (.ofNat n) => Nat.toDigits 10 n
  | int (.negSucc n) => '-' :: Nat.toDigits 10 (n + 1)
  | float x => serde.print x

/-- The number of a text. What is too large for an integer of 64 bits is a float. -/
def ofText (t : List Char) : Option Number :=
  let digits := Json.unsigned t
  let n := Nat.ofDigitChars 10 digits 0
  if digits.all Char.isDigit = false then (serde.read t).map float
  else if t = digits then
    if n < 2 ^ 64 then some (int n) else (serde.read t).map float
  else if 0 < n ∧ n ≤ 2 ^ 63 then some (int (-n))
  else (serde.read t).map float

theorem isNumber_text (n : Number) : Json.isNumber (n.text serde) = true := by
  rcases n with (n | n) | x
  · exact Json.isNumber_toDigits n
  · exact Json.isNumber_minus (n + 1)
  · exact serde.isNumber_print x

theorem ofText_nat {n : Nat} (h : n < 2 ^ 64) :
    ofText serde ((int n).text serde) = some (int n) := by
  have hdigits : (Nat.toDigits 10 n).all Char.isDigit = true :=
    List.all_eq_true.mpr (Json.digits_of_toDigits n)
  change ofText serde (Nat.toDigits 10 n) = _
  rw [ofText, Json.unsigned_toDigits]
  simp only [hdigits, Nat.ofDigitChars_ten_toDigits, if_pos h, reduceCtorEq, if_false, if_true]

theorem ofText_float (x : FiniteF64) :
    ofText serde ((float x).text serde) = (serde.read (serde.print x)).map float := by
  change ofText serde (serde.print x) = _
  rw [ofText]
  exact if_pos (serde.not_digits x)

end Number

/-! ### Encoding -/

open Json

def ofU64 (n : UInt64) : JsonValue := num (.int n.toNat)

def ofU32 (n : UInt32) : JsonValue := num (.int n.toNat)

/-- A float, which is null when it is not finite. -/
def ofF64 (x : F64) : JsonValue := if h : x.isFinite = true then num (.float ⟨x, h⟩) else null

def Identity.toValue (i : Identity) : JsonValue :=
  object [("usb_serial", ofOption str i.usbSerial),
    ("network_address", ofOption str i.networkAddress)]

/-- The names of the connect methods. -/
def ConnectMethod.table : List (String × ConnectMethod) :=
  [("hotplug", .hotplug), ("ping", .ping), ("boot_time", .bootTime)]

def ConnectMethod.name : ConnectMethod → String
  | .hotplug => "hotplug"
  | .ping => "ping"
  | .bootTime => "boot_time"

def ConnectProcedure.toValue (c : ConnectProcedure) : JsonValue :=
  object [("method", str c.method.name), ("notes", str c.notes)]

def KnownState.toValue (k : KnownState) : JsonValue :=
  object [("frequency_hz", ofOption ofU64 k.frequencyHz), ("mode", ofOption str k.mode),
    ("filter", ofOption str k.filter),
    ("levels", obj (k.levels.entries.map fun l => (l.1, ofF64 l.2))),
    ("antenna", ofOption str k.antenna), ("seen_unix", ofU64 k.seenUnix)]

def Health.toValue (h : Health) : JsonValue :=
  object [("last_seen_unix", ofOption ofU64 h.lastSeenUnix), ("failures", ofU32 h.failures),
    ("consecutive_failures", ofU32 h.consecutiveFailures)]

/-- The names of the lifecycle states. -/
def RadioState.table : List (String × RadioState) :=
  [("off", .off), ("powering_on", .poweringOn), ("booting", .booting), ("ready", .ready),
    ("degraded", .degraded), ("unreachable", .unreachable)]

def RadioState.name : RadioState → String
  | .off => "off"
  | .poweringOn => "powering_on"
  | .booting => "booting"
  | .ready => "ready"
  | .degraded => "degraded"
  | .unreachable => "unreachable"

/-- A power source, with its kind among its members. -/
def PowerSource.toValue : PowerSource → JsonValue
  | .alwaysOn => object [("source", str "always_on")]
  | .channel c => object [("source", str "channel"), ("channel", str c)]
  | .momentary on off =>
    object [("source", str "momentary"), ("on", str on), ("off", ofOption str off)]

def RadioRecord.toValue (r : RadioRecord) : JsonValue :=
  object [("id", str r.id), ("make", str r.make), ("model", str r.model),
    ("identity", r.identity.toValue), ("description", str r.description),
    ("capabilities", arr (r.capabilities.map str)),
    ("last_state", ofOption KnownState.toValue r.lastState), ("lifecycle", str r.lifecycle.name),
    ("lifecycle_unix", ofU64 r.lifecycleUnix), ("power", ofOption PowerSource.toValue r.power),
    ("boot_time_ms", ofU64 r.bootTimeMs), ("connect", r.connect.toValue),
    ("health", r.health.toValue)]

/-! ### Decoding -/

def asU64 : JsonValue → Option UInt64
  | num (.int (.ofNat n)) => if n < 2 ^ 64 then some (.ofNat n) else none
  | _ => none

def asU32 : JsonValue → Option UInt32
  | num (.int (.ofNat n)) => if n < 2 ^ 32 then some (.ofNat n) else none
  | _ => none

def asF64 (serde : Serde) : JsonValue → Option F64
  | num (.int n) => some (serde.ofInt n)
  | num (.float x) => some x
  | _ => none

def Identity.ofValue (v : JsonValue) : Option Identity := do
  let field ← v.fields ["usb_serial", "network_address"]
  return {
    usbSerial := ← defaulted none (asOption asString) (field "usb_serial")
    networkAddress := ← defaulted none (asOption asString) (field "network_address") }

def ConnectProcedure.ofValue (v : JsonValue) : Option ConnectProcedure := do
  let field ← v.fields ["method", "notes"]
  return {
    method := ← required (asVariant ConnectMethod.table) (field "method")
    notes := ← defaulted "" asString (field "notes") }

def KnownState.ofValue (serde : Serde) (v : JsonValue) : Option KnownState := do
  let field ← v.fields ["frequency_hz", "mode", "filter", "levels", "antenna", "seen_unix"]
  return {
    frequencyHz := ← defaulted none (asOption asU64) (field "frequency_hz")
    mode := ← defaulted none (asOption asString) (field "mode")
    filter := ← defaulted none (asOption asString) (field "filter")
    levels := ← defaulted (.make []) (asMap (asF64 serde)) (field "levels")
    antenna := ← defaulted none (asOption asString) (field "antenna")
    seenUnix := ← required asU64 (field "seen_unix") }

def Health.ofValue (v : JsonValue) : Option Health := do
  let field ← v.fields ["last_seen_unix", "failures", "consecutive_failures"]
  return {
    lastSeenUnix := ← defaulted none (asOption asU64) (field "last_seen_unix")
    failures := ← defaulted 0 asU32 (field "failures")
    consecutiveFailures := ← defaulted 0 asU32 (field "consecutive_failures") }

/-- A power source of a kind, with what stands beside its kind. -/
def PowerSource.ofContent (source : String) (content : JsonValue) : Option PowerSource :=
  if source = "always_on" then
    some .alwaysOn
  else if source = "channel" then do
    let field ← content.fields ["channel"]
    return .channel (← required asString (field "channel"))
  else if source = "momentary" then do
    let field ← content.fields ["on", "off"]
    return .momentary (← required asString (field "on"))
      (← defaulted none (asOption asString) (field "off"))
  else none

def PowerSource.ofValue : JsonValue → Option PowerSource
  | obj members => do
    let source ← required asString (members.lookup "source")
    PowerSource.ofContent source (obj (members.filter (·.1 != "source")))
  | arr (str source :: items) => PowerSource.ofContent source (arr items)
  | _ => none

def RadioRecord.ofValue (serde : Serde) (v : JsonValue) : Option RadioRecord := do
  let field ← v.fields ["id", "make", "model", "identity", "description", "capabilities",
    "last_state", "lifecycle", "lifecycle_unix", "power", "boot_time_ms", "connect", "health"]
  return {
    id := ← required asString (field "id")
    make := ← required asString (field "make")
    model := ← required asString (field "model")
    identity := ← defaulted ⟨none, none⟩ Identity.ofValue (field "identity")
    description := ← defaulted "" asString (field "description")
    capabilities := ← defaulted [] (asList asString) (field "capabilities")
    lastState := ← defaulted none (asOption (KnownState.ofValue serde)) (field "last_state")
    lifecycle := ← required (asVariant RadioState.table) (field "lifecycle")
    lifecycleUnix := ← defaulted 0 asU64 (field "lifecycle_unix")
    power := ← defaulted none (asOption PowerSource.ofValue) (field "power")
    bootTimeMs := ← defaulted 0 asU64 (field "boot_time_ms")
    connect := ← required ConnectProcedure.ofValue (field "connect")
    health := ← defaulted ⟨none, 0, 0⟩ Health.ofValue (field "health") }

/-! ### A record in its value -/

theorem asU64_ofU64 (n : UInt64) : asU64 (ofU64 n) = some n :=
  (if_pos n.toNat_lt).trans (congrArg some UInt64.ofNat_toNat)

theorem asU32_ofU32 (n : UInt32) : asU32 (ofU32 n) = some n :=
  (if_pos n.toNat_lt).trans (congrArg some UInt32.ofNat_toNat)

theorem asF64_ofF64 (serde : Serde) {x : F64} (h : x.isFinite = true) :
    asF64 serde (ofF64 x) = some x := by
  rw [ofF64, dif_pos h]
  rfl

theorem asOption_str (o : Option String) :
    (ofOption str o : JsonValue).asOption asString = some o :=
  asOption_ofOption o asString_str nofun

theorem asOption_u64 (o : Option UInt64) : (ofOption ofU64 o).asOption asU64 = some o :=
  asOption_ofOption o asU64_ofU64 nofun

theorem Identity.ofValue_toValue (i : Identity) : ofValue i.toValue = some i := by
  rw [ofValue, toValue, fields_object]
  · simp only [List.lookup_cons, List.lookup_nil, defaulted, Option.pure_def,
      Option.bind_eq_bind, Option.bind_some, BEq.rfl, asOption_str, String.reduceBEq]
  · rfl
  · simp

theorem ConnectProcedure.ofValue_toValue (c : ConnectProcedure) : ofValue c.toValue = some c := by
  have hmethod (m : ConnectMethod) :
      (str m.name : JsonValue).asVariant ConnectMethod.table = some m := by
    cases m <;> decide
  rw [ofValue, toValue, fields_object]
  · simp only [List.lookup_cons, List.lookup_nil, required, defaulted, Option.pure_def,
      Option.bind_eq_bind, Option.bind_some, BEq.rfl, hmethod, String.reduceBEq, asString_str]
  · rfl
  · simp

theorem Health.ofValue_toValue (h : Health) : ofValue h.toValue = some h := by
  rw [ofValue, toValue, fields_object]
  · simp only [List.lookup_cons, List.lookup_nil, Option.bind_eq_bind, Option.bind_some,
      BEq.rfl, String.reduceBEq]
    simp only [defaulted]
    simp only [asOption_u64, asU32_ofU32, Option.bind_some]
    rfl
  · rfl
  · simp

theorem KnownState.ofValue_toValue (serde : Serde) {k : KnownState}
    (h : ∀ l ∈ k.levels.entries, l.2.isFinite = true) : ofValue serde k.toValue = some k := by
  have hlevels : (obj (k.levels.entries.map fun l => (l.1, ofF64 l.2))).asMap (asF64 serde) =
      some k.levels := asMap_obj k.levels fun l hl => asF64_ofF64 serde (h l hl)
  rw [ofValue, toValue, fields_object]
  · simp only [List.lookup_cons, List.lookup_nil, Option.bind_eq_bind, Option.bind_some,
      BEq.rfl, String.reduceBEq]
    simp only [required, defaulted, Option.bind_some]
    simp only [asOption_str, asOption_u64, asU64_ofU64, hlevels, Option.bind_some]
    rfl
  · rfl
  · simp

/-- The kind of a power source is looked up among its members, the rest in what stands beside it. -/
theorem PowerSource.ofValue_object {l : List (String × JsonValue)} {n : List String}
    {source : String} (hnames : l.map (·.1) = n) (h : n.Nodup) (hsource : l.lookup "source" = some (str source)) :
    ∃ content, ofValue (object l) = ofContent source (obj content) ∧
      ∀ k, k ≠ "source" → content.lookup k = l.lookup k := by
  have hnodup : (l.map (·.1)).Nodup := hnames ▸ h
  refine ⟨(OrderedMap.ofList l).filter (·.1 != "source"), ?_, fun k hk => ?_⟩
  · have hlookup := OrderedMap.lookup_ofList hnodup "source"
    simp [object, ofValue, hlookup, hsource, required]
  · rw [OrderedMap.lookup_filter_ne hk, OrderedMap.lookup_ofList hnodup]

theorem PowerSource.ofValue_toValue (p : PowerSource) : ofValue p.toValue = some p := by
  cases p with
  | alwaysOn =>
    obtain ⟨content, heq, -⟩ := ofValue_object (l := [("source", str "always_on")])
      (n := ["source"]) rfl (by simp) rfl
    exact heq
  | channel c =>
    obtain ⟨content, heq, hlookup⟩ := ofValue_object
      (l := [("source", str "channel"), ("channel", str c)]) (n := ["source", "channel"]) rfl
      (by simp) rfl
    rw [toValue, heq]
    simp [ofContent, fields, hlookup, List.lookup_cons, required]
  | momentary on off =>
    obtain ⟨content, heq, hlookup⟩ := ofValue_object
      (l := [("source", str "momentary"), ("on", str on), ("off", ofOption str off)])
      (n := ["source", "on", "off"]) rfl (by simp) rfl
    rw [toValue, heq]
    simp [ofContent, fields, hlookup, List.lookup_cons, required, defaulted, asOption_str]

theorem bind_of_eq_some {α β : Type} {x : Option α} {f : α → Option β} {a : α} {b : β}
    (hx : x = some a) (hf : f a = some b) : (x >>= f) = some b := by
  rw [hx]
  exact hf

/-- A record whose levels are finite is found again in its value. -/
theorem RadioRecord.ofValue_toValue (serde : Serde) {r : RadioRecord}
    (h : ∀ k, r.lastState = some k → ∀ l ∈ k.levels.entries, l.2.isFinite = true) :
    ofValue serde r.toValue = some r := by
  have hlifecycle (x : RadioState) :
      (str x.name : JsonValue).asVariant RadioState.table = some x := by
    cases x <;> decide
  have hstate : (ofOption KnownState.toValue r.lastState).asOption (KnownState.ofValue serde) =
      some r.lastState := by
    cases hlast : r.lastState with
    | none => rfl
    | some k =>
      have hk := KnownState.ofValue_toValue serde (h k hlast)
      exact congrArg (Option.map some) hk
  have hpower (o : Option PowerSource) :
      (ofOption PowerSource.toValue o).asOption PowerSource.ofValue = some o :=
    asOption_ofOption o PowerSource.ofValue_toValue fun p => by cases p <;> nofun
  have hcapabilities : (arr (r.capabilities.map str) : JsonValue).asList asString =
      some r.capabilities := asList_arr r.capabilities asString_str
  rw [ofValue, toValue, fields_object]
  · rw [Option.bind_eq_bind, Option.bind_some]
    -- the fields are read one after another
    refine bind_of_eq_some (a := r.id) ?_ <| bind_of_eq_some (a := r.make) ?_ <|
      bind_of_eq_some (a := r.model) ?_ <| bind_of_eq_some (a := r.identity) ?_ <|
      bind_of_eq_some (a := r.description) ?_ <| bind_of_eq_some (a := r.capabilities) ?_ <|
      bind_of_eq_some (a := r.lastState) ?_ <| bind_of_eq_some (a := r.lifecycle) ?_ <|
      bind_of_eq_some (a := r.lifecycleUnix) ?_ <| bind_of_eq_some (a := r.power) ?_ <|
      bind_of_eq_some (a := r.bootTimeMs) ?_ <| bind_of_eq_some (a := r.connect) ?_ <|
      bind_of_eq_some (a := r.health) ?_ <| rfl
    all_goals simp only [List.lookup_cons, BEq.rfl, String.reduceBEq, required, defaulted,
      Option.bind_some, asString_str, Identity.ofValue_toValue, hcapabilities, hstate, hlifecycle,
      asU64_ofU64, hpower, ConnectProcedure.ofValue_toValue, Health.ofValue_toValue]
  · rfl
  · simp

/-! ### Floats that are read otherwise -/

/-- A finite float, read otherwise. -/
def F64.through (f : FiniteF64 → FiniteF64) (x : F64) : F64 :=
  if h : x.isFinite = true then f ⟨x, h⟩ else x

def Number.through (f : FiniteF64 → FiniteF64) : Number → Number
  | .int n => .int n
  | .float x => .float (f x)

/-- A state, with its levels read otherwise. -/
def KnownState.through (f : FiniteF64 → FiniteF64) (k : KnownState) : KnownState :=
  { k with levels := k.levels.map (F64.through f) }

/-- A record, with the levels of its state read otherwise. -/
def RadioRecord.through (f : FiniteF64 → FiniteF64) (r : RadioRecord) : RadioRecord :=
  { r with lastState := r.lastState.map (KnownState.through f) }

section Through

variable (f : FiniteF64 → FiniteF64)

theorem ofF64_through (x : F64) : (ofF64 x).map (Number.through f) = ofF64 (x.through f) := by
  unfold ofF64 F64.through
  split
  next h =>
    rw [dif_pos (f ⟨x, h⟩).2]
    rfl
  · rfl

theorem map_ofOption {α : Type} {encode : α → JsonValue} {encode' : α → JsonValue} (o : Option α)
    (h : ∀ a, (encode a).map (Number.through f) = encode' a) :
    (ofOption encode o).map (Number.through f) = ofOption encode' o := by
  cases o with
  | none => rfl
  | some a => exact h a

theorem map_ofOption_str (o : Option String) :
    (ofOption str o).map (Number.through f) = ofOption str o := map_ofOption f o fun _ => rfl

theorem map_ofU64 (n : UInt64) : (ofU64 n).map (Number.through f) = ofU64 n := rfl

theorem map_ofU32 (n : UInt32) : (ofU32 n).map (Number.through f) = ofU32 n := rfl

theorem Identity.map_toValue (i : Identity) : i.toValue.map (Number.through f) = i.toValue := by
  simp [toValue, map_ofOption_str]

theorem ConnectProcedure.map_toValue (c : ConnectProcedure) :
    c.toValue.map (Number.through f) = c.toValue := by
  simp [toValue]

theorem Health.map_toValue (h : Health) : h.toValue.map (Number.through f) = h.toValue := by
  simp [toValue, map_ofOption f h.lastSeenUnix (map_ofU64 f), map_ofU32]

theorem PowerSource.map_toValue (p : PowerSource) :
    p.toValue.map (Number.through f) = p.toValue := by
  cases p with
  | alwaysOn => simp [toValue]
  | channel c => simp [toValue]
  | momentary on off => simp [toValue, map_ofOption_str]

theorem KnownState.map_toValue (k : KnownState) :
    k.toValue.map (Number.through f) = (k.through f).toValue := by
  simp [toValue, through, OrderedMap.map, map_ofOption_str, map_ofU64,
    map_ofOption f k.frequencyHz (map_ofU64 f), Function.comp_def, ofF64_through]

/-- What becomes of the value of a record when its floats are read otherwise. -/
theorem RadioRecord.map_toValue (r : RadioRecord) :
    r.toValue.map (Number.through f) = (r.through f).toValue := by
  have hstate : (ofOption KnownState.toValue r.lastState).map (Number.through f) =
      ofOption KnownState.toValue (r.lastState.map (KnownState.through f)) := by
    cases r.lastState with
    | none => rfl
    | some k => exact KnownState.map_toValue f k
  simp [toValue, through, hstate, map_ofU64, map_ofOption f r.power (PowerSource.map_toValue f),
    Function.comp_def, Identity.map_toValue, ConnectProcedure.map_toValue, Health.map_toValue]

end Through

/-! ### The shape of a value -/

section Shape

theorem ordered_ofOption {α : Type} {encode : α → JsonValue} (o : Option α)
    (h : ∀ a, (encode a).Ordered) : (ofOption encode o).Ordered := by
  cases o with
  | none => trivial
  | some a => exact h a

theorem ordered_ofF64 (x : F64) : (ofF64 x).Ordered := by
  unfold ofF64
  split
  · trivial
  · trivial

theorem ordered_ofU64 (n : UInt64) : (ofU64 n).Ordered := trivial

theorem ordered_ofU32 (n : UInt32) : (ofU32 n).Ordered := trivial

theorem KnownState.ordered_toValue (k : KnownState) : k.toValue.Ordered := by
  have hlevels : (obj (k.levels.entries.map fun l => (l.1, ofF64 l.2))).Ordered :=
    (ordered_obj _).mpr ⟨List.pairwise_map.mpr k.levels.sorted,
      List.forall_mem_map.mpr fun l _ => ordered_ofF64 l.2⟩
  refine ordered_object ?_
  simp [hlevels, ordered_ofOption, ordered_ofU64]

theorem PowerSource.ordered_toValue (p : PowerSource) : p.toValue.Ordered := by
  cases p with
  | alwaysOn => exact ordered_object (by simp)
  | channel c => exact ordered_object (by simp)
  | momentary on off => exact ordered_object (by simp [ordered_ofOption])

theorem RadioRecord.ordered_toValue (r : RadioRecord) : r.toValue.Ordered := by
  refine ordered_object ?_
  have hidentity : r.identity.toValue.Ordered := ordered_object (by simp [ordered_ofOption])
  have hconnect : r.connect.toValue.Ordered := ordered_object (by simp)
  have hhealth : r.health.toValue.Ordered :=
    ordered_object (by simp [ordered_ofOption, ordered_ofU64, ordered_ofU32])
  simp [hidentity, hconnect, hhealth, ordered_ofOption, KnownState.ordered_toValue,
    PowerSource.ordered_toValue, ordered_ofU64]

theorem all_ofOption {α : Type} {p : Number → Prop} {encode : α → JsonValue} (o : Option α) :
    (ofOption encode o).All p ↔ ∀ a, o = some a → (encode a).All p := by
  cases o with
  | none => exact iff_of_true trivial nofun
  | some a =>
    constructor
    · rintro h a ⟨⟩
      exact h
    · exact fun h => h a rfl

theorem all_ofF64 {p : Number → Prop} {x : F64} (h : x.isFinite = true) :
    (ofF64 x).All p ↔ p (.float ⟨x, h⟩) := by
  rw [ofF64, dif_pos h]
  rfl

section All

variable {p : Number → Prop} (hint : ∀ n : Nat, n < 2 ^ 64 → p (.int n))

include hint

theorem all_ofU64 (n : UInt64) : (ofU64 n).All p := hint n.toNat n.toNat_lt

theorem all_ofU32 (n : UInt32) : (ofU32 n).All p :=
  hint n.toNat (n.toNat_lt.trans (by decide))

theorem KnownState.all_toValue (k : KnownState) :
    k.toValue.All p ↔ ∀ l ∈ k.levels.entries, (ofF64 l.2).All p := by
  have hlevels : (obj (k.levels.entries.map fun l => (l.1, ofF64 l.2))).All p ↔
      ∀ l ∈ k.levels.entries, (ofF64 l.2).All p :=
    (all_obj _).trans List.forall_mem_map
  rw [toValue, all_object ["frequency_hz", "mode", "filter", "levels", "antenna", "seen_unix"]]
  · simp only [List.forall_mem_cons, all_ofOption, hlevels]
    simp [all_ofU64 hint]
  · rfl
  · simp

omit hint in
theorem PowerSource.all_toValue (s : PowerSource) : s.toValue.All p := by
  cases s with
  | alwaysOn => exact (all_object ["source"] rfl (by simp)).mpr (by simp)
  | channel c => exact (all_object ["source", "channel"] rfl (by simp)).mpr (by simp)
  | momentary on off =>
    exact (all_object ["source", "on", "off"] rfl (by simp)).mpr (by simp [all_ofOption])

/-- The numbers of a record are integers of 64 bits, and its levels. -/
theorem RadioRecord.all_toValue (r : RadioRecord) : r.toValue.All p ↔
    ∀ k, r.lastState = some k → ∀ l ∈ k.levels.entries, (ofF64 l.2).All p := by
  have hidentity : r.identity.toValue.All p :=
    (all_object ["usb_serial", "network_address"] rfl (by simp)).mpr
      (by simp [all_ofOption])
  have hconnect : r.connect.toValue.All p :=
    (all_object ["method", "notes"] rfl (by simp)).mpr (by simp)
  have hhealth : r.health.toValue.All p :=
    (all_object ["last_seen_unix", "failures", "consecutive_failures"] rfl (by simp)).mpr
      (by simp [all_ofOption, all_ofU64 hint, all_ofU32 hint])
  rw [toValue, all_object ["id", "make", "model", "identity", "description", "capabilities",
    "last_state", "lifecycle", "lifecycle_unix", "power", "boot_time_ms", "connect", "health"]]
  · simp only [List.forall_mem_cons, all_ofOption, KnownState.all_toValue hint]
    simp [hidentity, hconnect, hhealth, PowerSource.all_toValue, all_ofU64 hint]
  · rfl
  · simp

end All

theorem depth_ofOption_le {α : Type} {encode : α → JsonValue} (o : Option α) {d : Nat}
    (h : ∀ a, (encode a).depth ≤ d) : (ofOption encode o).depth ≤ d := by
  cases o with
  | none => exact Nat.zero_le d
  | some a => exact h a

theorem depth_ofU64 (n : UInt64) : (ofU64 n).depth = 0 := rfl

theorem depth_ofU32 (n : UInt32) : (ofU32 n).depth = 0 := rfl

theorem depth_ofOption_str (o : Option String) : (ofOption str o : JsonValue).depth = 0 := by
  cases o <;> rfl

theorem depth_ofOption_u64 (o : Option UInt64) : (ofOption ofU64 o).depth = 0 := by
  cases o <;> rfl

theorem KnownState.depth_toValue (k : KnownState) : k.toValue.depth ≤ 2 := by
  have hlevels : (obj (k.levels.entries.map fun l => (l.1, ofF64 l.2))).depth ≤ 1 := by
    refine depth_obj_le (List.forall_mem_map.mpr fun l _ => ?_)
    unfold ofF64
    split
    · exact Nat.le_refl 0
    · exact Nat.le_refl 0
  refine depth_object_le ?_
  simp [hlevels, depth_ofOption_str, depth_ofOption_u64, depth_ofU64]

theorem PowerSource.depth_toValue (s : PowerSource) : s.toValue.depth ≤ 2 := by
  refine Nat.le_succ_of_le ?_
  cases s with
  | alwaysOn => exact depth_object_le (by simp)
  | channel c => exact depth_object_le (by simp)
  | momentary on off => exact depth_object_le (by simp [depth_ofOption_str])

theorem RadioRecord.depth_toValue (r : RadioRecord) : r.toValue.depth ≤ 3 := by
  have hidentity : r.identity.toValue.depth ≤ 2 :=
    Nat.le_succ_of_le (depth_object_le (by simp [depth_ofOption_str]))
  have hconnect : r.connect.toValue.depth ≤ 2 :=
    Nat.le_succ_of_le (depth_object_le (by simp))
  have hhealth : r.health.toValue.depth ≤ 2 :=
    Nat.le_succ_of_le (depth_object_le (by simp [depth_ofOption_u64, depth_ofU32]))
  have hcapabilities : (arr (r.capabilities.map str) : JsonValue).depth ≤ 2 :=
    Nat.le_succ_of_le (depth_arr_le (List.forall_mem_map.mpr fun _ _ => Nat.le_refl 0))
  have hstate := depth_ofOption_le r.lastState KnownState.depth_toValue
  have hpower := depth_ofOption_le r.power PowerSource.depth_toValue
  refine depth_object_le ?_
  simp [hidentity, hconnect, hhealth, hcapabilities, hstate, hpower, depth_ofU64]

end Shape

/-! ### Records that are trusted -/

section Trusted

variable {r : RadioRecord}

/-- The levels of a record that is trusted are finite. -/
theorem RadioRecord.finite_of_validate (h : r.validate = .ok ()) :
    ∀ k, r.lastState = some k → ∀ l ∈ k.levels.entries, l.2.isFinite = true := by
  intro k hk l hl
  by_contra hinfinite
  have hbad : (r.lastState.any fun k =>
      256 < k.levels.entries.length || k.levels.entries.any fun l => !l.2.isFinite) = true := by
    have hany : (k.levels.entries.any fun l => !l.2.isFinite) = true :=
      List.any_eq_true.mpr ⟨l, hl, by simp [hinfinite]⟩
    simp [hk, hany]
  rw [validate, if_pos hbad] at h
  split at h
  · cases h
  split at h
  · cases h
  split at h
  · cases h
  split at h
  · cases h
  · cases h

theorem F64.isFinite_through (f : FiniteF64 → FiniteF64) (x : F64) :
    (x.through f).isFinite = x.isFinite := by
  unfold through
  split
  next h => rw [(f ⟨x, h⟩).2, h]
  · rfl

/-- A record is trusted whatever its floats are read as. -/
theorem RadioRecord.validate_through (f : FiniteF64 → FiniteF64) (r : RadioRecord) :
    (r.through f).validate = r.validate := by
  have hlevels : ((r.through f).lastState.any fun k =>
      256 < k.levels.entries.length || k.levels.entries.any fun l => !l.2.isFinite) =
      r.lastState.any fun k =>
        256 < k.levels.entries.length || k.levels.entries.any fun l => !l.2.isFinite := by
    unfold through
    cases r.lastState with
    | none => rfl
    | some k =>
      simp [KnownState.through, OrderedMap.map, Function.comp_def, F64.isFinite_through]
  unfold validate
  rw [hlevels]
  rfl

end Trusted

end HamsOpen.Station
