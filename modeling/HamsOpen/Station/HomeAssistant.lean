import HamsOpen.Lib.Machine
import HamsOpen.Station.HttpRelay
import Mathlib.Data.List.AList

/-!
# Lines that are entities of Home Assistant

The Home Assistant driver (`homeassistant.rs`). A session follows the states of entities by events
and one snapshot; lines are switched by service calls, and read from the states that the session
has recorded. Any number of callers write and read lines at any time.

With every state goes the moment when Home Assistant took it, which is in none of its messages that
the code reads. What a message says of a session besides states is not recorded here, and Home
Assistant may send any message at any time.
-/

namespace HamsOpen.Station.Ha

open Flex (Text)

/-! ### Entities and their states -/

/-- Domains whose entities can be switched. -/
def WRITABLE : List String := ["switch", "input_boolean", "light", "fan"]

/-- Domains that can only be read. -/
def READ_ONLY : List String := ["binary_sensor"]

def MAX_ENTITIES : ℕ := 64

def MAX_CATALOG : ℕ := 20000

def MAX_REPLY : ℕ := 64 * 1024

def driverErr (m : String) : StationError := ⟨.driver, m⟩

/-- The domain of an entity, and its name there. -/
def splitOnce (entity : String) : Option (String × String) :=
  (Find.split ['.'] entity.toList).map fun (domain, object) =>
    (String.ofList domain, String.ofList object)

def plain (s : String) : Bool :=
  s ≠ "" && s.toList.all fun c => c.isLower || c.isDigit || c = '_'

/-- Whether an entity may be written; an error if it can be no line. -/
def checkEntity (entity : String) : Except StationError Bool :=
  let bad (why : String) : Except StationError Bool :=
    .error ⟨.config, "entity \"" ++ entity ++ "\": " ++ why⟩
  match splitOnce entity with
  | none => bad "expected domain.object_id"
  | some (domain, object) =>
    if !plain domain || !plain object then
      bad "only lower-case letters, digits and underscores"
    else if domain ∈ WRITABLE then .ok true
    else if domain ∈ READ_ONLY then .ok false
    else bad ("this domain cannot be a channel " ++
      "(switch, input_boolean, light, fan, binary_sensor)")

/-- The entities that are lines. -/
structure HaConfig where
  entities : List String
  few : 1 ≤ entities.length ∧ entities.length ≤ MAX_ENTITIES
  checked : entities.all (fun e => (checkEntity e).isOk) = true

/-- The entity of a line. -/
def HaConfig.entity (c : HaConfig) (line : ℕ) : Except StationError String :=
  match c.entities[line]? with
  | some entity => .ok entity
  | none => .error ⟨.config, "line " ++ toString line ++ " is past the " ++
      toString c.entities.length ++ " entities"⟩

/-- A state of an entity, and the moment when it was taken. -/
structure Report where
  entity : String
  state : String
  name : Option String
  taken : ℕ
  deriving DecidableEq

/-- What is kept of a report. -/
structure Known where
  state : String
  name : Option String
  taken : ℕ
  deriving DecidableEq

structure Cache where
  synced : Bool
  states : AList fun _ : String => Known

/-- The state of an entity that is switched on or off. -/
def word (on : Bool) : String := if on then "on" else "off"

/-- The state of an entity, or why it is unknown. -/
def Cache.stateOf (cache : Cache) (entity : String) : Except StationError Bool :=
  if !cache.synced then
    .error (driverErr "Home Assistant is not connected: the state of every entity is unknown")
  else match cache.states.lookup entity with
    | some known =>
      if known.state = "on" then .ok true
      else if known.state = "off" then .ok false
      else .error (driverErr (entity ++ " reports \"" ++ known.state ++ "\": its state is unknown"))
    | none =>
      .error (driverErr ("Home Assistant has not reported " ++ entity ++ ": its state is unknown"))

/-- An entity of a domain that is followed. -/
def followed (entity : String) : Bool :=
  match splitOnce entity with
  | some (domain, _) => domain ∈ WRITABLE ∨ domain ∈ READ_ONLY
  | none => false

/-- Records the state of one entity. -/
def Cache.applyState (cache : Cache) (r : Report) : Cache :=
  if !followed r.entity then cache
  else if MAX_CATALOG ≤ cache.states.entries.length ∧ r.entity ∉ cache.states then cache
  else
    let keep := (cache.states.lookup r.entity).bind Known.name
    { cache with states := cache.states.insert r.entity ⟨r.state, r.name.or keep, r.taken⟩ }

/-- What the answer to a service call says, or why there is none. -/
def post (sent : Except StationError (List UInt8)) : Except StationError Unit := do
  let text := (Utf8.lossy ((← sent).take MAX_REPLY)).toList
  let status := Http.trim (Http.firstLine text)
  if Find.contains " 200".toList status || Find.contains " 201".toList status then .ok ()
  else if Find.contains " 401".toList status || Find.contains " 403".toList status then
    .error (driverErr "Home Assistant rejected the access token (401 or 403)")
  else .error (driverErr ("Home Assistant answered \"" ++ String.ofList status ++
    "\" to the service call"))

/-! ### The driver, its callers and its session -/

/-- A service call that was answered with success. -/
structure Switched where
  entity : String
  on : Bool
  /-- The moment when it was issued. -/
  since : ℕ
  deriving DecidableEq

/-- What a caller saw in its last look: what the session had recorded, and the calls that had
succeeded. -/
structure Seen where
  synced : Bool
  reports : List Report
  switched : List Switched
  deriving DecidableEq

/-- Where a caller is. -/
inductive Call
  | idle
  /-- It waits for the answer to a service call. -/
  | posting (entity : String) (on : Bool) (since : ℕ)
  /-- It reads: it looks, asks for the state that is expected, and waits or gives its answer. -/
  | reading (entity : String)
  | looked (entity : String) (known : Except StationError Bool) (seen : Seen)
  | waiting (entity : String)
  | giving (entity : String) (known : Except StationError Bool) (seen : Seen)

/-- What a caller has read. -/
structure Returned where
  entity : String
  value : Except StationError Bool
  seen : Seen

/-- What the session has to do next for the message that it is at. -/
inductive Update
  | state (r : Report)
  | synced
  | lost
  deriving DecidableEq

/-- A message of Home Assistant, and the moment when its states were taken. -/
inductive Message
  /-- A `state_changed` event, with the new state if it has one. -/
  | event (entity : String) (new : Option (String × Option String)) (taken : ℕ)
  | result (id : ℕ) (success : Bool) (states : List (String × String × Option String))
    (taken : ℕ)
  | authInvalid
  | other
  deriving DecidableEq

namespace Message

def taken : Message → ℕ
  | event _ _ taken | result _ _ _ taken => taken
  | authInvalid | other => 0

/-- What the session does for a message. -/
def updates : Message → List Update
  | event entity new taken =>
    match new with
    | some (state, name) => [.state ⟨entity, state, name, taken⟩]
    | none => [.state ⟨entity, "unknown", none, taken⟩]
  | result id success states taken =>
    if id = 2 then
      if success then states.map (fun (e, st, name) => .state ⟨e, st, name, taken⟩) ++ [.synced]
      else [.lost]
    else if id = 1 ∧ !success then [.lost]
    else []
  | authInvalid => [.lost]
  | other => []

end Message

/-- The driver, with its callers and its session. -/
structure Relay where
  cache : Cache
  /-- The states that are expected of entities. -/
  expect : AList fun _ : String => Bool
  /-- There is a session. -/
  up : Bool
  updates : List Update
  calls : ℕ → Call
  /-- The moment that it is. -/
  clock : ℕ
  /-- The states of the session that is up, the newest first. -/
  reports : List Report
  switched : List Switched
  returned : List Returned

inductive Act
  | tick
  /-- The session begins, hears a message, does the next thing for it, or is lost. -/
  | connect
  | hear (m : Message)
  | apply
  | lose
  /-- A caller writes a line, and its service call is answered. -/
  | write (k line : ℕ) (on : Bool)
  | posted (k : ℕ) (answer : Except StationError (List UInt8))
  /-- A caller reads a line: it looks at the state, then at what is expected, and gives its answer,
  or waits until something has changed or its time is up. -/
  | read (k line : ℕ)
  | look (k : ℕ)
  | want (k : ℕ) (late : Bool)
  | wake (k : ℕ)
  | give (k : ℕ)

namespace Relay

variable (c : HaConfig) (s : Relay)

/-- A caller has come to a place. -/
def moved (k : ℕ) (call : Call) : Relay := { s with calls := Function.update s.calls k call }

/-- The session is over. -/
def lost : Relay :=
  { s with cache := ⟨false, ∅⟩, up := false, updates := [], reports := [] }

/-- What the callers can see now. -/
def seen : Seen := ⟨s.cache.synced, s.reports, s.switched⟩

def hear (m : Message) : Option Relay :=
  if s.up ∧ s.updates = [] ∧ m.taken ≤ s.clock then some { s with updates := m.updates } else none

def apply : Option Relay :=
  match s.updates with
  | .state r :: updates =>
    some { s with updates, cache := s.cache.applyState r, reports := r :: s.reports }
  | .synced :: updates => some { s with updates, cache := { s.cache with synced := true } }
  | .lost :: _ => some s.lost
  | [] => none

/-- A line is written: the state is expected, and the service call is sent. -/
def write (k line : ℕ) (on : Bool) : Option Relay :=
  match s.calls k with
  | .idle =>
    match c.entity line with
    | .ok entity =>
      match checkEntity entity with
      | .ok true =>
        some { s.moved k (.posting entity on (s.clock + 1)) with
          expect := s.expect.insert entity on
          clock := s.clock + 1 }
      | _ => some s
    | .error _ => some s
  | _ => none

def posted (k : ℕ) (answer : Except StationError (List UInt8)) : Option Relay :=
  match s.calls k with
  | .posting entity on since =>
    match post answer with
    | .ok () => some { s.moved k .idle with switched := ⟨entity, on, since⟩ :: s.switched }
    | .error _ => some { s.moved k .idle with expect := s.expect.erase entity }
  | _ => none

def read (k line : ℕ) : Option Relay :=
  match s.calls k with
  | .idle =>
    match c.entity line with
    | .ok entity => some (s.moved k (.reading entity))
    | .error _ => some s
  | _ => none

def look (k : ℕ) : Option Relay :=
  match s.calls k with
  | .reading entity => some (s.moved k (.looked entity (s.cache.stateOf entity) s.seen))
  | _ => none

/-- What is expected is compared with what was seen. -/
def want (k : ℕ) (late : Bool) : Option Relay :=
  match s.calls k with
  | .looked entity known seen =>
    match s.expect.lookup entity with
    | some on =>
      if known.toOption = some on ∨ late then some (s.moved k (.giving entity known seen))
      else some (s.moved k (.waiting entity))
    | none => some (s.moved k (.giving entity known seen))
  | _ => none

def wake (k : ℕ) : Option Relay :=
  match s.calls k with
  | .waiting entity => some (s.moved k (.reading entity))
  | _ => none

/-- The expected state is forgotten, and the call is over. -/
def give (k : ℕ) : Option Relay :=
  match s.calls k with
  | .giving entity known seen =>
    some { s.moved k .idle with
      expect := s.expect.erase entity
      returned := ⟨entity, known, seen⟩ :: s.returned }
  | _ => none

def step : Act → Option Relay
  | .tick => some { s with clock := s.clock + 1 }
  | .connect => if s.up then none else some { s with up := true }
  | .hear m => s.hear m
  | .apply => s.apply
  | .lose => if s.up ∧ s.updates = [] then some s.lost else none
  | .write k line on => s.write c k line on
  | .posted k answer => s.posted k answer
  | .read k line => s.read c k line
  | .look k => s.look k
  | .want k late => s.want k late
  | .wake k => s.wake k
  | .give k => s.give k

end Relay

/-- The driver as it starts. -/
def initial : Relay where
  cache := ⟨false, ∅⟩
  expect := ∅
  up := false
  updates := []
  calls _ := .idle
  clock := 0
  reports := []
  switched := []
  returned := []

def machine (c : HaConfig) : Machine Relay Act where
  init s := s = initial
  step := Relay.step c

/-! ### What has to hold -/

/-- What a value has to rest on: the session was synchronised, and its newest state of the entity,
which is also the one that was taken last, has the value. No service call for this value that had
succeeded was issued after it was taken. -/
def Confirmed (entity : String) (v : Bool) (seen : Seen) : Prop :=
  seen.synced = true ∧ ∃ r, seen.reports.find? (·.entity = entity) = some r ∧ r.state = word v ∧
    (∀ q ∈ seen.reports, q.entity = entity → q.taken ≤ r.taken) ∧
    ∀ w ∈ seen.switched, w.entity = entity → w.on = v → w.since ≤ r.taken

/-- Every value that was read rests on what it has to. -/
def Trusted (s : Relay) : Prop :=
  ∀ x ∈ s.returned, ∀ v, x.value = .ok v → Confirmed x.entity v x.seen

/-- The state that is recorded next. -/
def Update.report : Update → Option Report
  | .state r => some r
  | _ => none

/-- What a caller asks for by a service call. -/
def Call.asks : Call → Option Switched
  | .posting entity on since => some ⟨entity, on, since⟩
  | _ => none

/-- No old state can confirm a write after the step: states of an entity come in the order in which
they were taken, none that a call has asked for comes from before that call, and none is recorded
from before a call that succeeds. -/
def Fresh (s : Relay) : Act → Prop
  | .apply => ∀ r ∈ s.updates.head?.bind Update.report,
      (∀ q ∈ s.reports, q.entity = r.entity → q.taken ≤ r.taken) ∧
        ∀ w ∈ s.switched, w.entity = r.entity → r.state = word w.on → w.since ≤ r.taken
  | .posted k answer => (post answer).isOk = true → ∀ w ∈ (s.calls k).asks,
      ∀ known ∈ s.cache.states.lookup w.entity, known.state = word w.on → w.since ≤ known.taken
  | _ => True

/-! ### One step -/

section Cache

variable {cache : Cache} {r : Report} {entity : String} {v : Bool} {known : Known}

theorem stateOf_eq_ok : cache.stateOf entity = .ok v ↔
    cache.synced = true ∧ ∃ known, cache.states.lookup entity = some known ∧
      known.state = word v := by
  unfold Cache.stateOf
  cases hsynced : cache.synced with
  | false => simp
  | true =>
    cases hlookup : cache.states.lookup entity with
    | none => simp
    | some known =>
      by_cases hon : known.state = "on"
      · cases v <;> simp [hon, word]
      · by_cases hoff : known.state = "off"
        · cases v <;> simp [hoff, word]
        · cases v <;> simp [hon, hoff, word]

/-- What is known after a report is the report, or was known before and is of another entity. -/
theorem lookup_applyState (h : (cache.applyState r).states.lookup entity = some known) :
    r.entity = entity ∧ followed entity = true ∧ known.state = r.state ∧ known.taken = r.taken ∨
      (r.entity = entity → followed entity = false) ∧ cache.states.lookup entity = some known := by
  unfold Cache.applyState at h
  split at h
  next hother => exact .inr ⟨fun heq => by simpa [heq] using hother, h⟩
  next hfollowed =>
    have hentity : followed r.entity = true := by simpa using hfollowed
    split at h
    next hfull =>
      right
      refine ⟨fun heq => absurd ?_ hfull.2, h⟩
      rw [heq]
      exact AList.lookup_isSome.mp (by rw [h]; rfl)
    next hroom =>
      by_cases heq : r.entity = entity
      · subst heq
        rw [AList.lookup_insert] at h
        cases h
        exact .inl ⟨rfl, hentity, rfl, rfl⟩
      · rw [AList.lookup_insert_ne (Ne.symm heq)] at h
        exact .inr ⟨fun h => absurd h heq, h⟩

@[simp] theorem applyState_synced : (cache.applyState r).synced = cache.synced := by
  unfold Cache.applyState
  split
  · rfl
  · split <;> rfl

end Cache

/-- What a caller has seen rests on what it has to. -/
def Call.Right : Call → Prop
  | .looked entity known seen | .giving entity known seen =>
    ∀ v, known = .ok v → Confirmed entity v seen
  | _ => True

/-- What is known of an entity is its newest state, taken last, and nothing that a call has asked
for is known from before that call. -/
structure Inv (s : Relay) : Prop where
  newest : ∀ entity known, s.cache.states.lookup entity = some known → followed entity = true ∧
    ∃ r, s.reports.find? (·.entity = entity) = some r ∧ r.state = known.state ∧
      r.taken = known.taken ∧ ∀ q ∈ s.reports, q.entity = entity → q.taken ≤ r.taken
  after : ∀ w ∈ s.switched, ∀ known, s.cache.states.lookup w.entity = some known →
    known.state = word w.on → w.since ≤ known.taken
  calls : ∀ k, (s.calls k).Right
  returned : Trusted s

section Steps

variable {c : HaConfig} {s t : Relay}

/-- A look at the state of an entity rests on what it has to. -/
theorem Inv.confirmed (h : Inv s) {entity : String} {v : Bool}
    (hlook : s.cache.stateOf entity = .ok v) : Confirmed entity v s.seen := by
  obtain ⟨hsynced, known, hlookup, hstate⟩ := stateOf_eq_ok.mp hlook
  obtain ⟨-, r, hfind, hr, htaken, hlast⟩ := h.newest entity known hlookup
  refine ⟨hsynced, r, hfind, hr.trans hstate, hlast, fun w hw hwentity hwon => ?_⟩
  subst hwentity hwon
  rw [htaken]
  exact h.after w hw known hlookup hstate

/-- A caller moves, and nothing is known anew. -/
theorem Inv.moved (h : Inv s) {k : ℕ} {call : Call} (hcall : call.Right) (j : ℕ) :
    ((s.moved k call).calls j).Right := by
  unfold Relay.moved
  by_cases heq : j = k
  · subst heq
    simpa using hcall
  · simpa [Function.update_of_ne heq] using h.calls j

/-- A state is recorded, the newest of its entity. -/
theorem Inv.record (h : Inv s) {r : Report} {updates : List Update}
    (hlast : ∀ q ∈ s.reports, q.entity = r.entity → q.taken ≤ r.taken)
    (hafter : ∀ w ∈ s.switched, w.entity = r.entity → r.state = word w.on → w.since ≤ r.taken) :
    Inv { s with updates, cache := s.cache.applyState r, reports := r :: s.reports } := by
  refine ⟨fun entity known hlookup => ?_, fun w hw known hlookup hstate => ?_, h.calls, h.returned⟩
  · rcases lookup_applyState hlookup with ⟨rfl, hfollowed, hstate, htaken⟩ | ⟨hother, hbefore⟩
    · refine ⟨hfollowed, r, by simp, hstate.symm, htaken.symm, fun q hq hqentity => ?_⟩
      rcases List.mem_cons.mp hq with rfl | hq
      · exact le_rfl
      · exact hlast q hq hqentity
    · obtain ⟨hfollowed, q, hfind, hq, htaken, hmax⟩ := h.newest entity known hbefore
      -- the report is of another entity, for this one is followed
      have hne : r.entity ≠ entity := by
        intro heq
        rw [hother heq] at hfollowed
        cases hfollowed
      refine ⟨hfollowed, q, ?_, hq, htaken, fun p hp hpentity => ?_⟩
      · rw [List.find?_cons_of_neg (by simpa using hne)]
        exact hfind
      · rcases List.mem_cons.mp hp with rfl | hp
        · exact absurd hpentity hne
        · exact hmax p hp hpentity
  · rcases lookup_applyState hlookup with ⟨heq, -, hr, htaken⟩ | ⟨-, hbefore⟩
    · rw [htaken]
      exact hafter w hw heq.symm (hr.symm.trans hstate)
    · exact h.after w hw known hbefore hstate

/-- The session is over, and nothing is known. -/
theorem Inv.lost (h : Inv s) : Inv s.lost := by
  have hnone (entity : String) : (∅ : AList fun _ : String => Known).lookup entity = none :=
    AList.lookup_empty entity
  refine ⟨fun entity known hlookup => ?_, fun w _ known hlookup => ?_, h.calls, h.returned⟩
  · cases (hnone entity).symm.trans hlookup
  · cases (hnone w.entity).symm.trans hlookup

/-- A service call has succeeded, and no state from before it is known. -/
theorem Inv.switch (h : Inv s) {k : ℕ} {w : Switched}
    (hafter : ∀ known, s.cache.states.lookup w.entity = some known → known.state = word w.on →
      w.since ≤ known.taken) :
    Inv { s.moved k .idle with switched := w :: s.switched } := by
  refine ⟨h.newest, fun x hx known hlookup hstate => ?_, h.moved trivial, h.returned⟩
  rcases List.mem_cons.mp hx with rfl | hx
  · exact hafter known hlookup hstate
  · exact h.after x hx known hlookup hstate

theorem Inv.step (h : Inv s) {a : Act} (hfresh : Fresh s a) (hstep : s.step c a = some t) :
    Inv t := by
  obtain ⟨hnewest, hafter, hcalls, hreturned⟩ := id h
  cases a with
  | tick =>
    cases hstep
    exact ⟨hnewest, hafter, hcalls, hreturned⟩
  | connect =>
    simp only [Relay.step] at hstep
    split at hstep
    · cases hstep
    · cases hstep
      exact ⟨hnewest, hafter, hcalls, hreturned⟩
  | hear m =>
    simp only [Relay.step, Relay.hear] at hstep
    split at hstep
    · cases hstep
      exact ⟨hnewest, hafter, hcalls, hreturned⟩
    · cases hstep
  | apply =>
    simp only [Relay.step, Relay.apply] at hstep
    split at hstep
    next r updates hupdates =>
      cases hstep
      obtain ⟨hlast, hasked⟩ := hfresh r (by rw [hupdates]; rfl)
      exact h.record hlast hasked
    · cases hstep
      exact ⟨hnewest, hafter, hcalls, hreturned⟩
    · cases hstep
      exact h.lost
    · cases hstep
  | lose =>
    simp only [Relay.step] at hstep
    split at hstep
    · cases hstep
      exact h.lost
    · cases hstep
  | write k line on =>
    simp only [Relay.step, Relay.write] at hstep
    split at hstep
    · split at hstep
      · split at hstep
        · cases hstep
          exact ⟨hnewest, hafter, h.moved trivial, hreturned⟩
        · cases hstep
          exact h
      · cases hstep
        exact h
    · cases hstep
  | posted k answer =>
    simp only [Relay.step, Relay.posted] at hstep
    split at hstep
    next entity on since hcall =>
      split at hstep
      next hok =>
        cases hstep
        exact h.switch (hfresh (by rw [hok]; rfl) ⟨entity, on, since⟩ (by rw [hcall]; rfl))
      · cases hstep
        exact ⟨hnewest, hafter, h.moved trivial, hreturned⟩
    · cases hstep
  | read k line =>
    simp only [Relay.step, Relay.read] at hstep
    split at hstep
    · split at hstep
      · cases hstep
        exact ⟨hnewest, hafter, h.moved trivial, hreturned⟩
      · cases hstep
        exact h
    · cases hstep
  | look k =>
    simp only [Relay.step, Relay.look] at hstep
    split at hstep
    next entity hcall =>
      cases hstep
      exact ⟨hnewest, hafter, h.moved fun v hv => h.confirmed hv, hreturned⟩
    · cases hstep
  | want k late =>
    simp only [Relay.step, Relay.want] at hstep
    split at hstep
    next entity known seen hcall =>
      have hright : (Call.giving entity known seen).Right := by
        have hk := hcalls k
        rw [hcall] at hk
        exact hk
      split at hstep
      · split at hstep
        · cases hstep
          exact ⟨hnewest, hafter, h.moved hright, hreturned⟩
        · cases hstep
          exact ⟨hnewest, hafter, h.moved trivial, hreturned⟩
      · cases hstep
        exact ⟨hnewest, hafter, h.moved hright, hreturned⟩
    · cases hstep
  | wake k =>
    simp only [Relay.step, Relay.wake] at hstep
    split at hstep
    · cases hstep
      exact ⟨hnewest, hafter, h.moved trivial, hreturned⟩
    · cases hstep
  | give k =>
    simp only [Relay.step, Relay.give] at hstep
    split at hstep
    next entity known seen hcall =>
      cases hstep
      refine ⟨hnewest, hafter, h.moved trivial, fun x hx => ?_⟩
      rcases List.mem_cons.mp hx with rfl | hx
      · have hk := hcalls k
        rw [hcall] at hk
        exact hk
      · exact hreturned x hx
    · cases hstep

end Steps

/-! ### Every run -/

section Runs

variable {c : HaConfig} {s : Relay}

instance (s : Relay) : DecidablePred (Fresh s) := fun a => by
  cases a <;> unfold Fresh <;> infer_instance

theorem inv_initial : Inv initial := by
  refine ⟨fun entity known hlookup => ?_, nofun, fun _ => trivial, nofun⟩
  cases (AList.lookup_empty entity).symm.trans hlookup

/-- One line, a switch. -/
def single : HaConfig := ⟨["switch.radio"], by decide, by decide⟩

/-- A session has begun, and its snapshot says of the switch what it is. -/
def synchronised (state : String) : List Act :=
  [.connect, .hear (.result 2 true [("switch.radio", state, none)] 0), .apply, .apply]

/-- The bytes of the answer to a service call that is accepted. -/
def accepted : List UInt8 := Utf8.encode "HTTP/1.0 200 OK\r\n\r\n[]".toList

/-- The switch is turned on, and the service call is accepted. -/
def turnedOn : List Act := [.write 0 0 true, .posted 0 (.ok accepted)]

/-- A caller reads the switch, and its first look is enough. -/
def readOnce : List Act := [.read 0 0, .look 0, .want 0 false, .give 0]

/-- As long as no old state can confirm a write, every value that is read is the newest state of its
entity in the session, and a service call that succeeded is confirmed by a state from after it was
issued. -/
theorem reads_confirmed (h : (machine c).Reach Fresh s) : Trusted s := by
  have hinv : Inv s := by
    apply h.invariant
    · rintro _ rfl
      exact inv_initial
    · intro s a t hinv hfresh hstep
      exact hinv.step hfresh hstep
  exact hinv.returned

theorem reads_confirmed_event : ∃ s, (machine single).Reach Fresh s ∧
    (∃ x ∈ s.returned, x.value.toOption = some true ∧ x.seen.switched ≠ []) ∧ Trusted s := by
  have hstart : (machine single).Reach Fresh initial := .init rfl
  obtain ⟨s, hreach, hread⟩ := hstart.exists_of_runWhile
    (P := fun s => ∃ x ∈ s.returned, x.value.toOption = some true ∧ x.seen.switched ≠ [])
    (synchronised "off" ++ turnedOn ++
      [.hear (.event "switch.radio" (some ("on", none)) 1), .apply] ++ readOnce)
    (by decide +kernel)
  exact ⟨s, hreach, hread, reads_confirmed hreach⟩

/-- The state from before the write is taken for its confirmation. -/
theorem confirmed_by_cache : ∃ s, (machine single).Reachable s ∧ ¬ Trusted s := by
  have hstart : (machine single).Reachable initial := .init rfl
  obtain ⟨s, hreach, x, hx, hvalue, hswitched, hold⟩ := hstart.exists_of_run
    (P := fun s => ∃ x ∈ s.returned, x.value.toOption = some true ∧
      x.seen.switched = [⟨x.entity, true, 1⟩] ∧ ∀ r ∈ x.seen.reports, r.taken = 0)
    (synchronised "on" ++ turnedOn ++ readOnce)
    (by decide +kernel)
  refine ⟨s, hreach, fun htrusted => ?_⟩
  have hok : x.value = .ok true := by
    cases hread : x.value with
    | error e => simp [hread, Except.toOption] at hvalue
    | ok v => simpa [hread, Except.toOption] using hvalue
  obtain ⟨-, r, hfind, -, -, hafter⟩ := htrusted x hx true hok
  have hmem : ⟨x.entity, true, 1⟩ ∈ x.seen.switched := by
    rw [hswitched]
    exact List.mem_singleton_self _
  have hlate := hafter ⟨x.entity, true, 1⟩ hmem rfl rfl
  have hearly := hold r (List.mem_of_find?_eq_some hfind)
  simp only at hlate
  omega

end Runs

end HamsOpen.Station.Ha
