import HamsOpen.Flex.Text
import HamsOpen.Lib.Find
import HamsOpen.Lib.JsonCompact
import HamsOpen.Lib.Utf8
import HamsOpen.Station.RecordStore
import Mathlib.Data.List.DropRight

/-!
# Relays of a network

The read-back of Shelly and Tasmota relays (`http_relay.rs`). The device is asked for one relay, and
whatever bytes it answers are read as the answer of a web server, of which no more than the first
16 KiB are taken, and then as JSON.
-/

namespace HamsOpen.Station.Http

open Flex (Text isSpace)

/-- The most bytes that are read of an answer. -/
def MAX_REPLY : ℕ := 16 * 1024

/-- The device family. -/
inductive Family
  | shelly | tasmota
  deriving DecidableEq

/-- A bank of relays on one device; line n is relay n, counted from 0. -/
structure HttpRelay where
  family : Family
  relays : ℕ
  inBank : 1 ≤ relays ∧ relays ≤ 32

def driverErr (m : String) : StationError := ⟨.driver, m⟩

/-! ### Answers -/

def trim (text : Text) : Text := (text.dropWhile isSpace).rdropWhile isSpace

/-- The first line, without the end of a line. -/
def firstLine (text : Text) : Text :=
  match Find.split ['\n'] text with
  | some (line, _) => if line.getLast? = some '\r' then line.dropLast else line
  | none => text

/-- The head and the body of the bytes of an answer. -/
def answer (bytes : List UInt8) : Option (Text × Text) :=
  Find.split "\r\n\r\n".toList (Utf8.lossy (bytes.take MAX_REPLY)).toList

/-- The body of a 200 reply, from the bytes that the device sends until it ends the connection, or
from what went wrong before. -/
def get (sent : Except StationError (List UInt8)) : Except StationError Text := do
  match answer (← sent) with
  | none => .error (driverErr "the relay sent no HTTP answer")
  | some (head, body) =>
    let status := firstLine head
    if Find.contains " 200".toList status then .ok body
    else .error (driverErr ("the relay answered \"" ++ String.ofList (trim status) ++
      "\" (a device with a password is not supported)"))

/-! ### JSON -/

/-- The member of an object under a key. -/
def field (key : String) : JsonValue → Option JsonValue
  | .obj members => members.lookup key
  | _ => none

def asBool : JsonValue → Option Bool
  | .bool b => some b
  | _ => none

def eqIgnoreAsciiCase (a b : String) : Bool := a.toList.map Char.toLower = b.toList.map Char.toLower

section Read

variable (serde : Serde)

/-- The value of a text. -/
def fromStr (text : Text) : Option JsonValue :=
  (Json.parse NESTING text).bind (Json.order (Number.ofText serde))

/-- The member that has the state of a relay of a Tasmota device. -/
def power (line : ℕ) (v : JsonValue) : Option JsonValue :=
  (field ("POWER" ++ toString (line + 1)) v).or (field "POWER" v)

/-- What is read from the value that a device answers. -/
def state (line : ℕ) (v : JsonValue) : Family → Except StationError Bool
  | .shelly =>
    match (field "output" v).bind asBool with
    | some on => .ok on
    | none => .error (driverErr "the relay's status had no output")
  | .tasmota =>
    match (power line v).bind Json.asString with
    | some word => .ok (eqIgnoreAsciiCase word "ON")
    | none => .error (driverErr "the relay's status had no power state")

namespace HttpRelay

/-- Refuses a relay number past the bank. -/
def check (relay : HttpRelay) (line : ℕ) : Except StationError Unit :=
  if relay.relays ≤ line then
    .error ⟨.config, "this relay bank has relays 0 to " ++ toString (relay.relays - 1)⟩
  else .ok ()

/-- What is asked for to read one relay. -/
def path (relay : HttpRelay) (line : ℕ) : String :=
  match relay.family with
  | .shelly => "/rpc/Switch.GetStatus?id=" ++ toString line
  | .tasmota => "/cm?cmnd=Power" ++ toString (line + 1)

/-- Reads one relay's state from the device, which is known by what it sends for a path. -/
def readLine (relay : HttpRelay) (line : ℕ) (device : String → Except StationError (List UInt8)) :
    Except StationError Bool := do
  relay.check line
  let body ← get (device (relay.path line))
  match fromStr serde body with
  | some v => state line v relay.family
  | none => .error (driverErr "the relay's status was not JSON")

end HttpRelay

end Read

/-! ### What an answer states -/

/-- The status line is one of a 200 answer: a version, the code, and a reason if there is one. -/
def Is200 (status : Text) : Prop :=
  ∃ version rest, status = "HTTP/".toList ++ version ++ " 200".toList ++ rest ∧ ' ' ∉ version ∧
    ∀ c ∈ rest.head?, c = ' '

/-- The word of a state. -/
def word (on : Bool) : String := if on then "ON" else "OFF"

/-- The value states that the relay itself is on, or that it is off. A Shelly device does so in its
`output`, where an `id` is the one of the relay. A Tasmota device has a member for each relay, and
the first relay may go by the name of none. -/
def Names (line : ℕ) (v : JsonValue) (on : Bool) : Family → Prop
  | .shelly => field "output" v = some (.bool on) ∧
      ∀ id, field "id" v = some id → id = .num (.int line)
  | .tasmota => ∃ name said, field name v = some (.str said) ∧
      eqIgnoreAsciiCase said (word on) = true ∧ (name = "POWER" ++ toString (line + 1) ∨
        line = 0 ∧ field "POWER1" v = none ∧ name = "POWER")

/-- The bytes are a 200 answer whose value states this of the relay. -/
def States (serde : Serde) (relay : HttpRelay) (line : ℕ) (bytes : List UInt8) (on : Bool) : Prop :=
  ∃ head body v, answer bytes = some (head, body) ∧ Is200 (firstLine head) ∧
    fromStr serde body = some v ∧ Names line v on relay.family

/-- A value in which a state is found leaves no doubt of it: it is of no other relay, and a word of
it is one of the two. -/
def Plain (line : ℕ) (v : JsonValue) : Family → Prop
  | .shelly => ∀ on, (field "output" v).bind asBool = some on →
      ∀ id, field "id" v = some id → id = .num (.int line)
  | .tasmota => ∀ said, (power line v).bind Json.asString = some said →
      (line = 0 ∨ (field ("POWER" ++ toString (line + 1)) v).isSome) ∧
        (eqIgnoreAsciiCase said "ON" ∨ eqIgnoreAsciiCase said "OFF")

/-- A value in which a state is found. -/
def Found (line : ℕ) (v : JsonValue) (family : Family) : Prop := ∃ on, state line v family = .ok on

/-- An answer in which a state is found has the status of a 200 answer, when the code occurs in its
status line, and its value is in no doubt. -/
def Clear (serde : Serde) (relay : HttpRelay) (line : ℕ) (bytes : List UInt8) : Prop :=
  ∀ head body v, answer bytes = some (head, body) →
    Find.contains " 200".toList (firstLine head) = true → fromStr serde body = some v →
    Found line v relay.family → Is200 (firstLine head) ∧ Plain line v relay.family

section Theorems

variable {serde : Serde} {relay : HttpRelay} {line : ℕ} {bytes : List UInt8} {v : JsonValue}
  {on : Bool}

theorem get_eq_ok {body : Text} : get (.ok bytes) = .ok body ↔
    ∃ head, answer bytes = some (head, body) ∧
      Find.contains " 200".toList (firstLine head) = true := by
  change (match answer bytes with | none => _ | some (head, body) => _) = _ ↔ _
  cases hanswer : answer bytes with
  | none => simp
  | some r =>
    obtain ⟨head, body'⟩ := r
    dsimp only
    split
    next hok =>
      constructor
      · intro h
        cases h
        exact ⟨head, rfl, hok⟩
      · rintro ⟨head', hhead, -⟩
        cases hhead
        rfl
    next hno =>
      constructor
      · exact nofun
      · rintro ⟨head', hhead, hok⟩
        cases hhead
        exact absurd hok hno

/-- Which answers give a state. -/
theorem readLine_eq_ok : relay.readLine serde line (fun _ => .ok bytes) = .ok on ↔
    line < relay.relays ∧ ∃ head body v, answer bytes = some (head, body) ∧
      Find.contains " 200".toList (firstLine head) = true ∧ fromStr serde body = some v ∧
      state line v relay.family = .ok on := by
  unfold HttpRelay.readLine HttpRelay.check
  by_cases hline : relay.relays ≤ line
  · rw [if_pos hline]
    exact ⟨nofun, fun h => absurd h.1 (Nat.not_lt.mpr hline)⟩
  rw [if_neg hline]
  change (get (.ok bytes)).bind _ = _ ↔ _
  cases hget : get (.ok bytes) with
  | error e =>
    constructor
    · exact nofun
    · rintro ⟨-, head, body, v, hanswer, hok, -⟩
      rw [get_eq_ok.mpr ⟨head, hanswer, hok⟩] at hget
      cases hget
  | ok body =>
    obtain ⟨head, hanswer, hok⟩ := get_eq_ok.mp hget
    change (match fromStr serde body with | some v => _ | none => _) = _ ↔ _
    cases hv : fromStr serde body with
    | none =>
      constructor
      · exact nofun
      · rintro ⟨-, head', body', v, hanswer', -, hv', -⟩
        rw [hanswer] at hanswer'
        cases hanswer'
        rw [hv] at hv'
        cases hv'
    | some v =>
      constructor
      · intro h
        exact ⟨Nat.lt_of_not_le hline, head, body, v, hanswer, hok, hv, h⟩
      · rintro ⟨-, head', body', v', hanswer', -, hv', h⟩
        rw [hanswer] at hanswer'
        cases hanswer'
        rw [hv] at hv'
        cases hv'
        exact h

theorem state_shelly : state line v .shelly = .ok on ↔ field "output" v = some (.bool on) := by
  have hbool : ∀ w : JsonValue, asBool w = some on ↔ w = .bool on := by
    intro w
    cases w <;> simp [asBool]
  constructor
  · intro h
    rw [state] at h
    cases hon : (field "output" v).bind asBool with
    | none =>
      rw [hon] at h
      cases h
    | some on' =>
      rw [hon] at h
      cases h
      obtain ⟨w, hw, hwon⟩ := Option.bind_eq_some_iff.mp hon
      rw [hw, (hbool w).mp hwon]
  · intro h
    unfold state
    rw [h]
    rfl

/-- The word that is read of a Tasmota device. -/
def said (line : ℕ) (v : JsonValue) : Option String := (power line v).bind Json.asString

theorem state_tasmota : state line v .tasmota = .ok on ↔
    ∃ text, said line v = some text ∧ eqIgnoreAsciiCase text "ON" = on := by
  constructor
  · intro h
    rw [state] at h
    cases htext : (power line v).bind Json.asString with
    | none =>
      rw [htext] at h
      cases h
    | some text =>
      rw [htext] at h
      cases h
      exact ⟨text, htext, rfl⟩
  · rintro ⟨text, htext, rfl⟩
    unfold state
    rw [show (power line v).bind Json.asString = some text from htext]

theorem eq_str_of_asString {w : JsonValue} {text : String} (h : w.asString = some text) :
    w = .str text := by
  cases w with
  | str s =>
    cases h
    rfl
  | null | bool _ | num _ | arr _ | obj _ => cases h

/-- A state that was found is stated of the relay when it is in no doubt. -/
theorem names_of_plain {family : Family} (hplain : Plain line v family)
    (h : state line v family = .ok on) : Names line v on family := by
  cases family with
  | shelly =>
    have hfield := state_shelly.mp h
    refine ⟨hfield, hplain on ?_⟩
    rw [hfield]
    rfl
  | tasmota =>
    obtain ⟨text, htext, hon⟩ := state_tasmota.mp h
    obtain ⟨hname, hword⟩ := hplain text htext
    obtain ⟨w, hw, hwtext⟩ := Option.bind_eq_some_iff.mp htext
    obtain rfl := eq_str_of_asString hwtext
    have hsame : eqIgnoreAsciiCase text (word on) = true := by
      cases on with
      | true => exact hon
      | false =>
        refine hword.resolve_left ?_
        rw [hon]
        decide
    unfold power at hw
    cases hown : field ("POWER" ++ toString (line + 1)) v with
    | some w =>
      rw [hown, Option.some_or] at hw
      cases hw
      exact ⟨_, text, hown, hsame, .inl rfl⟩
    | none =>
      -- the member without a number speaks of the first relay only
      rw [hown, Option.none_or] at hw
      have hline : line = 0 := hname.resolve_right (by rw [hown]; decide)
      subst hline
      exact ⟨"POWER", text, hw, hsame, .inr ⟨rfl, hown, rfl⟩⟩

/-- What is stated of the relay as it was found is in no doubt. -/
theorem plain_of_names {family : Family} (hnames : Names line v on family)
    (h : state line v family = .ok on) : Plain line v family := by
  cases family with
  | shelly => exact fun _ _ => hnames.2
  | tasmota =>
    intro text htext
    obtain ⟨text', htext', hon⟩ := state_tasmota.mp h
    obtain rfl := Option.some.inj (htext'.symm.trans htext)
    obtain ⟨name, text, hfield, hword, hname⟩ := hnames
    have hpower : power line v = some (.str text) ∧
        (line = 0 ∨ (field ("POWER" ++ toString (line + 1)) v).isSome) := by
      obtain rfl | ⟨rfl, hnone, rfl⟩ := hname
      · refine ⟨?_, .inr ?_⟩
        · rw [power, hfield, Option.some_or]
        · rw [hfield]
          rfl
      · refine ⟨?_, .inl rfl⟩
        rw [power, show "POWER" ++ toString (0 + 1) = "POWER1" from rfl, hnone, Option.none_or,
          hfield]
    have hsaid : said line v = some text := by
      rw [said, hpower.1]
      rfl
    obtain rfl := Option.some.inj (hsaid.symm.trans htext)
    refine ⟨hpower.2, ?_⟩
    cases on with
    | true => exact .inl hword
    | false => exact .inr hword

/-- Two relays of a Tasmota device. -/
def pairOfRelays : HttpRelay := ⟨.tasmota, 2, by decide⟩

/-- The value of a device that tells of its first relay. -/
def powerOff : JsonValue := .obj [("POWER", .str "OFF")]

/-- An answer with that value. -/
def firstOff : List UInt8 := Utf8.encode ("HTTP/1.0 200 OK\r\n\r\n" ++ "\x7b\"POWER\":\"OFF\"\x7d").toList

theorem answer_firstOff :
    answer firstOff = some ("HTTP/1.0 200 OK".toList, "\x7b\"POWER\":\"OFF\"\x7d".toList) := by
  have hshort : firstOff.length ≤ MAX_REPLY := by decide
  have htext : (Utf8.lossy firstOff).toList =
      "HTTP/1.0 200 OK".toList ++ "\r\n\r\n".toList ++ "\x7b\"POWER\":\"OFF\"\x7d".toList := by
    rw [Utf8.lossy, String.toList_ofList, firstOff,
      Utf8.lossyAfter_encode (Utf8.lt_of_isAscii (by decide))]
    decide
  rw [answer, List.take_of_length_le hshort, htext]
  exact Find.split_first (by decide) (Find.split_eq_none.mp (by decide))

theorem fromStr_powerOff :
    fromStr .binary "\x7b\"POWER\":\"OFF\"\x7d".toList = some powerOff := by
  have htext : "\x7b\"POWER\":\"OFF\"\x7d".toList =
      Json.compact (Nat.toDigits 10) (.obj [("POWER", .str "OFF")]) := by decide
  rw [fromStr, htext, Json.parse_compact Json.isNumber_toDigits (by decide)]
  rfl

/-- **What is read of a relay was stated of it by the device.** It is so exactly when an answer in
which a state is found is clear. -/
theorem readLine_states (serde : Serde) (relay : HttpRelay) (line : ℕ) (bytes : List UInt8) :
    (∀ on, relay.readLine serde line (fun _ => .ok bytes) = .ok on →
      States serde relay line bytes on) ↔ (line < relay.relays → Clear serde relay line bytes) := by
  constructor
  · intro h hline head body v hanswer hok hv ⟨on, hstate⟩
    obtain ⟨head', body', v', hanswer', h200, hv', hnames⟩ :=
      h on (readLine_eq_ok.mpr ⟨hline, head, body, v, hanswer, hok, hv, hstate⟩)
    rw [hanswer] at hanswer'
    cases hanswer'
    rw [hv] at hv'
    cases hv'
    exact ⟨h200, plain_of_names hnames hstate⟩
  · intro h on hread
    obtain ⟨hline, head, body, v, hanswer, hok, hv, hstate⟩ := readLine_eq_ok.mp hread
    obtain ⟨h200, hplain⟩ := h hline head body v hanswer hok hv ⟨on, hstate⟩
    exact ⟨head, body, v, hanswer, h200, hv, names_of_plain hplain hstate⟩

/-- The second relay is taken to be off where the device told of the first. -/
theorem other_relay_off :
    pairOfRelays.readLine .binary 1 (fun _ => .ok firstOff) = .ok false ∧
      ¬ States .binary pairOfRelays 1 firstOff false := by
  constructor
  · apply readLine_eq_ok.mpr
    exact ⟨by decide, _, _, powerOff, answer_firstOff, by decide, fromStr_powerOff, rfl⟩
  · rintro ⟨head, body, v, hanswer, -, hv, name, text, hfield, -, hname⟩
    rw [answer_firstOff] at hanswer
    cases hanswer
    rw [fromStr_powerOff] at hv
    cases hv
    obtain rfl | ⟨hline, -⟩ := hname
    · cases hfield
    · cases hline

end Theorems

end HamsOpen.Station.Http
