import Mathlib
import HamsOpen.Lib.Executor
import HamsOpen.Rig.Actor
import HamsOpen.Station.Model

/-!
# The links of the rigs

The radio manager asks for a connection; `ActorLinks` spawns a rig actor when there is none that
works, unkeys the radio and puts the actor in the radio's slot. Its methods are programs whose
actions are the points at which another task can run. Around them the links of the actors are lost
and come back, and an actor learns so when it looks.

An actor keeps beside it in which session of its transport the unkey pass on it was carried out, and
the links keep a history. No branch looks at these.
-/

namespace HamsOpen.Links

open Rig (Hz LinkStatus)
open Station (DeviceId StationError)

/-! ### Actors -/

/-- A rig actor and the status of its transport, when the transport has one. -/
structure Actor where
  /-- The radio it was spawned for. -/
  radio : DeviceId
  /-- The radio can be keyed. -/
  canKey : Bool
  watch : Option LinkStatus
  linkUp : Bool
  /-- The opening of the transport that the actor saw last. -/
  seen : ℕ
  /-- The session of the transport: how often it was opened. -/
  session : ℕ
  /-- The session in which the unkey pass was carried out. -/
  unkeyed : Option ℕ
  deriving DecidableEq

namespace Actor

/-- An actor just spawned. -/
def new (radio : DeviceId) (canKey : Bool) (watch : Option LinkStatus) : Actor where
  radio := radio
  canKey := canKey
  watch := watch
  linkUp := true
  seen := 0
  session := match watch with
    | some (.connected generation) => generation
    | _ => 0
  unkeyed := none

variable (x : Actor)

/-- The transport's status, when there is one, says that the link is usable. -/
def transportUp : Bool :=
  match x.watch with
  | none | some (.connected _) => true
  | _ => false

/-- The actor carries out an unkey, which it does when its link is up. -/
def unkey : Option Actor := if x.linkUp then some { x with unkeyed := some x.session } else none

/-- The port is gone; the transport is trying to open it again. -/
def lose : Option Actor :=
  match x.watch with
  | some (.connected _) => some { x with watch := some .reconnecting }
  | _ => none

/-- The transport has opened the port again. -/
def reopen : Option Actor :=
  match x.watch with
  | some .reconnecting =>
    some { x with watch := some (.connected (x.session + 1)), session := x.session + 1 }
  | _ => none

/-- The transport has stopped. -/
def close : Option Actor := if x.watch.isSome then some { x with watch := some .closed } else none

/-- The actor finds its link down. -/
def fail : Actor := { x with linkUp := false }

/-- The actor looks at the status of its transport: a new opening brings its link up. -/
def look : Actor :=
  match x.watch with
  | none => x
  | some (.connected generation) =>
    if generation = x.seen then x else { x with linkUp := true, seen := generation }
  | some _ => { x with linkUp := false }

end Actor

/-! ### The methods -/

/-- What a radio's slot says. -/
inductive SlotState where
  | absent
  | up
  | retrying
  | dead
  deriving DecidableEq

/-- The state that the radio reports. -/
structure KnownState where
  frequencyHz : Option Hz
  mode : Option String
  deriving DecidableEq

/-- What the methods do. An actor is known by its number. -/
inductive Action where
  /-- Waits for the lock that serialises the attempts to connect. -/
  | lock
  | unlock
  /-- The actor in a radio's slot. -/
  | slot (radio : DeviceId)
  | transportUp (actor : ℕ)
  | reconnecting (actor : ℕ)
  | handleUp (actor : ℕ)
  /-- Keeps in the history what an attempt found in a slot. -/
  | found (radio : DeviceId) (state : SlotState)
  | spawn (radio : DeviceId)
  | count (radio : DeviceId)
  | note (line : String)
  | canKey (actor : ℕ)
  | unkey (actor : ℕ)
  | frequency (actor : ℕ)
  | mode (actor : ℕ)
  | insert (radio : DeviceId) (actor : ℕ)
  deriving DecidableEq

/-- What an action is answered with. -/
def Action.Answer : Action → Type
  | .slot _ => Option ℕ
  | .transportUp _ | .reconnecting _ | .handleUp _ | .canKey _ => Bool
  | .spawn _ => Except StationError ℕ
  | .unkey _ => Except String Unit
  | .frequency _ => Option Hz
  | .mode _ => Option String
  | .lock | .unlock | .found _ _ | .count _ | .note _ | .insert _ _ => Unit

abbrev Task := Prog Action Action.Answer

def perform (i : Action) : Task i.Answer := Prog.perform i

/-- What the slot of a radio says: up, retrying on its own, dead, or absent. -/
def slotState (radio : DeviceId) : Task SlotState := do
  match ← perform (.slot radio) with
  | none => return .absent
  | some actor =>
    let usable : Bool ← perform (.transportUp actor)
    if !usable then
      let retrying : Bool ← perform (.reconnecting actor)
      return if retrying then .retrying else .dead
    else
      let up : Bool ← perform (.handleUp actor)
      return if up then .up else .dead

/-- The unkey pass on a new actor, then a read of what the radio is set to. A radio that cannot key
is not unkeyed. -/
def unkeyPass (radio : DeviceId) (actor : ℕ) : Task (Except StationError KnownState) := do
  let read : Task (Except StationError KnownState) := do
    let frequencyHz ← perform (.frequency actor)
    let mode ← perform (.mode actor)
    return .ok ⟨frequencyHz, mode⟩
  let canKey : Bool ← perform (.canKey actor)
  if canKey then
    match ← perform (.unkey actor) with
    | .error detail => return .error ⟨.driver, s!"unkey pass on {radio} failed: {detail}"⟩
    | .ok () =>
      perform (.note s!"{radio}: unkey pass done")
      read
  else
    perform (.note s!"{radio}: cannot transmit, unkey pass skipped")
    read

/-- A new actor, the unkey pass, and then the actor in the slot. -/
def respawn (radio : DeviceId) : Task (Except StationError (Option KnownState)) := do
  match ← perform (.spawn radio) with
  | .error e => return .error e
  | .ok actor =>
    perform (.count radio)
    perform (.note s!"{radio}: actor spawned")
    match ← unkeyPass radio actor with
    | .ok known =>
      perform (.insert radio actor)
      return .ok (some known)
    | .error e =>
      let detail := e.detail
      perform (.note s!"{radio}: {detail}")
      return .error e

/-- One attempt to connect: nothing to do when the link is up, an error while the transport is
retrying on its own, otherwise a new actor. Attempts are serialised. -/
def connect (radio : DeviceId) : Task (Except StationError (Option KnownState)) := do
  perform .lock
  let state ← slotState radio
  perform (.found radio state)
  let result ← match state with
    | .up => pure (.ok none)
    | .retrying => do
      perform (.note s!"{radio}: transport is reconnecting by itself, not respawning")
      pure (.error ⟨.driver, "the transport is still reconnecting"⟩)
    | .absent | .dead => respawn radio
  perform .unlock
  return result

/-- The calls of the radio manager. -/
inductive Call where
  | connect (radio : DeviceId)
  | linkUp (radio : DeviceId)
  deriving DecidableEq

inductive Result where
  | connected (result : Except StationError (Option KnownState))
  | linkUp (up : Bool)
  deriving DecidableEq

/-- What the manager calls. -/
def run : Call → Task Result
  | .connect radio => do return .connected (← connect radio)
  | .linkUp radio => do return .linkUp ((← slotState radio) == .up)

/-! ### The state they share -/

/-- What the attempts did. -/
inductive Event where
  | found (radio : DeviceId) (state : SlotState)
  | spawned (radio : DeviceId) (actor : ℕ)
  | adopted (radio : DeviceId) (actor : ℕ)
  deriving DecidableEq

structure ActorLinks where
  /-- The attempt that holds the lock. -/
  holder : Option ℕ
  /-- All actors ever spawned, in that order. -/
  actors : List Actor
  /-- The actor of each radio. -/
  slots : List (DeviceId × ℕ)
  /-- How many actors were spawned for a radio. -/
  spawns : DeviceId → ℕ
  journal : List String
  /-- What happened, the latest first. -/
  log : List Event

/-- Lines of the journal that are kept. -/
def JOURNAL_LINES : ℕ := 500

namespace ActorLinks

variable (s : ActorLinks)

def slotOf (radio : DeviceId) : Option ℕ := (s.slots.find? (·.1 == radio)).map Prod.snd

/-- Puts an actor in the slot of a radio, in place of the one that was there. -/
def adopt (radio : DeviceId) (actor : ℕ) : ActorLinks :=
  { s with
    slots := s.slots.filter (·.1 != radio) ++ [(radio, actor)]
    log := .adopted radio actor :: s.log }

def noteLine (line : String) : ActorLinks :=
  let journal := s.journal ++ [line]
  { s with journal := journal.drop (journal.length - JOURNAL_LINES) }

@[simp] theorem noteLine_holder (line : String) : (s.noteLine line).holder = s.holder := by
  simp only [noteLine]

@[simp] theorem noteLine_actors (line : String) : (s.noteLine line).actors = s.actors := by
  simp only [noteLine]

@[simp] theorem noteLine_slots (line : String) : (s.noteLine line).slots = s.slots := by
  simp only [noteLine]

@[simp] theorem noteLine_log (line : String) : (s.noteLine line).log = s.log := by
  simp only [noteLine]

/-- A step of an actor, when it is possible. -/
def moved (actor : ℕ) (f : Actor → Option Actor) : Option ActorLinks :=
  (s.actors[actor]?.bind f).map fun x => { s with actors := s.actors.set actor x }

def hire (radio : DeviceId) (canKey : Bool) (watch : Option LinkStatus) : ActorLinks :=
  { s with
    actors := s.actors ++ [.new radio canKey watch]
    log := .spawned radio s.actors.length :: s.log }

end ActorLinks

/-- What the spawner and the rigs do with an action. -/
inductive Choice where
  | go
  | spawns (able : Bool) (watch : Option LinkStatus)
  | fails (e : StationError)
  | reads (hz : Option Hz) (name : Option String)
  deriving DecidableEq

/-- What an action of call `k` does to the links, when it can be performed. -/
def Action.perform (k : ℕ) (choice : Choice) : (a : Action) → ActorLinks →
    Option (a.Answer × ActorLinks)
  | .lock, s => if s.holder = none then some ((), { s with holder := some k }) else none
  | .unlock, s => some ((), { s with holder := none })
  | .slot radio, s => some (s.slotOf radio, s)
  | .transportUp actor, s => (s.actors[actor]?).map fun x => (x.transportUp, s)
  | .reconnecting actor, s => (s.actors[actor]?).map fun x => (x.watch == some .reconnecting, s)
  | .handleUp actor, s => (s.actors[actor]?).map fun x => (x.linkUp, s)
  | .found radio state, s => some ((), { s with log := .found radio state :: s.log })
  | .spawn radio, s =>
    match choice with
    | .spawns able watch => some (.ok s.actors.length, s.hire radio able watch)
    | .fails e => some (.error e, s)
    | _ => none
  | .count radio, s =>
    some ((), { s with spawns := Function.update s.spawns radio (s.spawns radio + 1) })
  | .note line, s => some ((), s.noteLine line)
  | .canKey actor, s => (s.actors[actor]?).map fun x => (x.canKey, s)
  | .unkey actor, s =>
    match choice with
    | .go => (s.moved actor Actor.unkey).map fun t => (.ok (), t)
    | .fails e => some (.error e.detail, s)
    | _ => none
  | .frequency _, s =>
    match choice with
    | .reads hz _ => some (hz, s)
    | _ => none
  | .mode _, s =>
    match choice with
    | .reads _ name => some (name, s)
    | _ => none
  | .insert radio actor, s => some ((), s.adopt radio actor)

/-- The actions at which a method waits. -/
def Action.suspends : Action → Bool
  | .lock | .spawn _ | .unkey _ | .frequency _ | .mode _ => true
  | _ => false

/-- What happens to the links of the actors. -/
inductive Outside where
  | loses (actor : ℕ)
  | reopens (actor : ℕ)
  | closes (actor : ℕ)
  | fails (actor : ℕ)
  | looks (actor : ℕ)
  deriving DecidableEq

/-- What it makes of an actor. -/
def Outside.step : Outside → ℕ × (Actor → Option Actor)
  | .loses actor => (actor, Actor.lose)
  | .reopens actor => (actor, Actor.reopen)
  | .closes actor => (actor, Actor.close)
  | .fails actor => (actor, fun x => some x.fail)
  | .looks actor => (actor, fun x => some x.look)

/-- The calls of the links. -/
def executor : Executor Action Action.Answer ActorLinks Call Choice Outside Result where
  init s := s.holder = none ∧ s.actors = [] ∧ s.slots = [] ∧ s.log = []
  exec := Action.perform
  suspends := Action.suspends
  clock _ := 0
  release k s := if s.holder = some k then { s with holder := none } else s
  body := run
  env e s := s.moved e.step.1 e.step.2

abbrev State := World Action Action.Answer ActorLinks Call Result

/-- The links, with their calls run in any order, and dropped wherever they wait. -/
def machine : Machine State (Turn Call Choice Outside) := executor.machine

/-- Links that have never connected. -/
def start : State := ⟨⟨none, [], [], fun _ => 0, [], []⟩, []⟩

theorem start_reachable : machine.Reachable start := .init ⟨⟨rfl, rfl, rfl, rfl⟩, rfl⟩

/-- A call takes its next turns, `n` of them. -/
def turns (k n : ℕ) (choice : Choice) : List (Turn Call Choice Outside) :=
  List.replicate n (.turn k choice)

end HamsOpen.Links
