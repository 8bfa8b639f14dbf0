import HamsOpen.Lib.Machine
import HamsOpen.Runner.Bench
import Mathlib

/-!
# Procedure runs

The runs of `run.rs` and the reservations of `locks.rs`: a supervisor for each run, which reads the
messages of the program until it ends, and a worker thread for each call and each reserve and release
of the program, which nobody waits for. A thread of any run takes its next step at any time. The
replies to the program and the reports of a run are left out, but for its final state.

A reservation is a lock on a file, which one holder at a time has. The reservations of a run are
behind a lock of their own, which a worker has for as long as it waits for lock files.
-/

namespace HamsOpen.Runner

/-- Calls that a run may make beyond its budget once it is to stop. -/
def CLEANUP_CALLS : Nat := 25

/-- The state of a run, as it is recorded. -/
inductive RunState
  | starting | running | waiting_operator | cancelling
  | succeeded | failed | cancelled | timed_out
  deriving DecidableEq

/-- The run has not ended. -/
def RunState.isActive : RunState → Bool
  | starting | running | waiting_operator | cancelling => true
  | _ => false

/-- A call of the program. -/
abbrev ToolCall := String × Args

/-- How far a worker thread is. -/
inductive Worker
  /-- It has a call to make. -/
  | asked (call : ToolCall)
  /-- It has read how many calls the run may make. -/
  | limited (call : ToolCall) (limit : Nat)
  | counted (call : ToolCall)
  | allowed (call : ToolCall) (tier : Tier)
  /-- It wants reservations, for a call or because the program asked for them. -/
  | wanting (names : List String) (call : Option ToolCall)
  | taking
  /-- It goes on to make a call, on an instrument that it wanted for it. -/
  | granted (call : ToolCall) (inst : Option String)
  | calling (call : ToolCall) (inst : Option String)
  | releasing (names : List String)
  | gone
  deriving DecidableEq

/-- A worker that has the reservations of its run: those it still wants, and those it got. -/
structure Hold where
  worker : Nat
  todo : List String
  got : List String
  call : Option ToolCall
  deriving DecidableEq

/-- What the run has to undo: a safe-state call, and whether a call that makes it necessary went ahead,
and its instrument was not released since. -/
structure Entry where
  action : Action
  granted : Bool
  deriving DecidableEq

/-- How far the supervisor is. -/
inductive Sup
  | starting
  /-- It reads messages: whether it told the program to stop, and the program's final message. -/
  | loop (cancelSent : Bool) (ended : Option String)
  | ending (ended : Option String) (killed : Bool)
  /-- It makes safe-state calls: those to come, the attempts at the first, and whether one is on. -/
  | safing (state : RunState) (todo : List Action) (tries : Nat) (busy : Bool)
  /-- The result is written. -/
  | written (state : RunState)
  /-- The reservations are given up. -/
  | freed (state : RunState)
  | gone
  deriving DecidableEq

structure Run where
  root : String
  cap : Tier
  maxCalls : Nat
  safeStatePsuOff : Bool
  cancel : Option String
  /-- An operator prompt is pending. -/
  ask : Bool
  calls : Nat
  callErrors : Nat
  touched : List Entry
  held : List String
  /-- The worker that has the reservations. -/
  hold : Option Hold
  workers : List Worker
  sup : Sup
  /-- The states recorded, the latest first, and the states of the results written. -/
  states : List RunState
  results : List RunState
  /-- How many calls were made. -/
  made : Nat
  deriving DecidableEq

/-- Which run has a lock file. -/
abbrev Locks := LockPath → Option Nat

structure State where
  runs : Nat → Run
  locked : Locks

/-- A message of the program that the runner acts on. -/
inductive Message
  | call (tool : String) (args : Args)
  | reserve (names : List String)
  | release (names : List String)
  | ask
  /-- `done`, `failed` or `cancelled`. -/
  | final (op : String)
  deriving DecidableEq

/-- What a thread of a run does, or is done to the run. -/
inductive Act
  /-- The program is started. -/
  | start
  /-- Somebody asks the run to stop, or it has taken too long. -/
  | requestCancel (reason : String)
  /-- The supervisor tells the program to stop. -/
  | sendCancel
  | message (m : Message)
  /-- The operator answers. -/
  | answer
  /-- The grace time is over; the time after the final message is over; the program is gone. -/
  | kill
  | late
  | closed
  /-- A worker takes its next step; a call succeeds or not. -/
  | work (i : Nat) (ok : Bool)
  /-- The worker that has the reservations takes a lock file, or has all it wants. -/
  | take
  /-- It gives up: the time is over, the run is to stop, or there is an error. -/
  | giveUp
  /-- The supervisor takes its next step to the end; a safe-state call succeeds or not. -/
  | finish (ok : Bool)
  deriving DecidableEq

/-- The final state, from what the program reported and how it ended. -/
def verdict (reason ended : Option String) (killed : Bool) : RunState :=
  let stopped := if reason = some "timeout" ∨ reason = some "operator_timeout" then .timed_out
    else RunState.cancelled
  match ended with
  | some op =>
    if op = "done" then .succeeded
    else if op = "cancelled" ∨ reason.isSome then stopped
    else .failed
  | none => if killed then stopped else .failed

/-- Adds a safe-state call to what is to be undone. -/
def record (touched : List Entry) (action : Option Action) : List Entry :=
  match action with
  | some a => if touched.any (·.action.same a) then touched else touched ++ [⟨a, false⟩]
  | none => touched

/-- A call that makes a safe-state call necessary goes ahead. -/
def mark (touched : List Entry) (action : Option Action) : List Entry :=
  match action with
  | some a => touched.map fun e => if e.action.same a then { e with granted := true } else e
  | none => touched

/-- Instruments are released. -/
def forget (bench : Bench) (names : List String) (touched : List Entry) : List Entry :=
  touched.map fun e =>
    if (bench.instrumentOf e.action.tool e.action.args).any (· ∈ names) then
      { e with granted := false }
    else e

/-- Lock files are given up. -/
def unlock (root : String) (names : List String) (locked : Locks) : Locks := fun p =>
  if p ∈ names.map (lockPath root) then none else locked p

namespace Run

/-- A worker goes on. -/
def set (i : Nat) (w : Worker) (run : Run) : Run := { run with workers := run.workers.set i w }

/-- A worker starts. -/
def spawn (w : Worker) (run : Run) : Run := { run with workers := run.workers ++ [w] }

/-- A new state is recorded. -/
def setState (state : RunState) (run : Run) : Run := { run with states := state :: run.states }

variable (bench : Bench)

/-- A worker has the reservations that it wanted. -/
def grant (i : Nat) (call : Option ToolCall) (run : Run) : Run :=
  match call with
  | none => run.set i .gone
  | some c =>
    { run.set i (.granted c (bench.instrumentOf c.1 c.2)) with
      touched := mark run.touched (actionFor c.1 c.2 run.safeStatePsuOff) }

/-- The next step of a worker. -/
def work (i : Nat) (ok : Bool) (run : Run) (locked : Locks) : Option (Run × Locks) :=
  match run.workers[i]? with
  | some (.asked call) =>
    let extra := if run.cancel.isSome then CLEANUP_CALLS else 0
    some (run.set i (.limited call (run.maxCalls + extra)), locked)
  | some (.limited call limit) =>
    if limit ≤ run.calls then some (run.set i .gone, locked)
    else some ({ run.set i (.counted call) with calls := run.calls + 1 }, locked)
  | some (.counted call) =>
    match bench.allow call.1 run.cap with
    | .ok tier => some (run.set i (.allowed call tier), locked)
    | .error _ => some ({ run.set i .gone with callErrors := run.callErrors + 1 }, locked)
  | some (.allowed call tier) =>
    let run := { run with
      touched := record run.touched (actionFor call.1 call.2 run.safeStatePsuOff) }
    match if Tier.ReadOnly.rank < tier.rank then bench.instrumentOf call.1 call.2 else none with
    | some name => some (run.set i (.wanting [name] (some call)), locked)
    | none => some (run.set i (.granted call none), locked)
  | some (.wanting names call) =>
    if run.hold.isSome then none
    else
      let need := names.filter (· ∉ run.held)
      if need = [] then some (run.grant bench i call, locked)
      else
        let sorted := need.dedup.insertionSort (· ≤ ·)
        some ({ run.set i .taking with hold := some ⟨i, sorted, [], call⟩ }, locked)
  | some (.granted call inst) =>
    some ({ run.set i (.calling call inst) with made := run.made + 1 }, locked)
  | some (.calling _ _) =>
    some ({ run.set i .gone with
      callErrors := if ok then run.callErrors else run.callErrors + 1 }, locked)
  | some (.releasing names) =>
    if run.hold.isSome then none
    else some ({ run.set i .gone with
      held := run.held.diff names
      touched := forget bench names run.touched },
      unlock run.root (names.filter (· ∈ run.held)) locked)
  | _ => none

/-- The worker that has the reservations of run `r` takes a lock file that is free, or is done. -/
def take (r : Nat) (run : Run) (locked : Locks) : Option (Run × Locks) :=
  match run.hold with
  | some ⟨i, [], got, call⟩ =>
    some (grant bench i call { run with held := run.held ++ got, hold := none }, locked)
  | some ⟨i, n :: todo, got, call⟩ =>
    if locked (lockPath run.root n) = none then
      some ({ run with hold := some ⟨i, todo, got ++ [n], call⟩ },
        Function.update locked (lockPath run.root n) (some r))
    else none
  | none => none

/-- It gives up what it got. -/
def giveUp (run : Run) (locked : Locks) : Option (Run × Locks) :=
  match run.hold with
  | some ⟨i, _ :: _, got, call⟩ =>
    some ({ run.set i .gone with
      hold := none
      callErrors := if call.isSome then run.callErrors + 1 else run.callErrors },
      unlock run.root got locked)
  | _ => none

/-- What the supervisor makes of a message. -/
def handle (m : Message) (cancelSent : Bool) (run : Run) : Run :=
  match m with
  | .call tool args => run.spawn (.asked (tool, args))
  | .reserve names =>
    if names ≠ [] ∧ ∀ n ∈ names, n ∈ bench.insts.map (·.name) then
      run.spawn (.wanting names none)
    else run
  | .release names =>
    if names ≠ [] ∧ ∀ n ∈ names, n ∈ bench.insts.map (·.name) then run.spawn (.releasing names)
    else run
  | .ask =>
    if run.ask ∨ run.cancel.isSome then run
    else { run.setState .waiting_operator with ask := true }
  | .final op => { run with sup := .loop cancelSent (some op) }

/-- The next step of the supervisor to the end. -/
def finish (ok : Bool) (run : Run) (locked : Locks) : Option (Run × Locks) :=
  match run.sup with
  | .ending ended killed =>
    let state := verdict run.cancel ended killed
    let todo := if state = .succeeded then [] else (run.touched.map (·.action)).reverse
    some ({ run with sup := .safing state todo 0 false }, locked)
  | .safing state [] _ _ =>
    some ({ run with sup := .written state, results := state :: run.results }, locked)
  | .safing state (a :: todo) tries false =>
    some ({ run with sup := .safing state (a :: todo) (tries + 1) true }, locked)
  | .safing state (a :: todo) tries true =>
    if ok ∨ 3 ≤ tries then some ({ run with sup := .safing state todo 0 false }, locked)
    else some ({ run with sup := .safing state (a :: todo) tries false }, locked)
  | .written state =>
    if run.hold.isSome then none
    else some ({ run with sup := .freed state, held := [] }, unlock run.root run.held locked)
  | .freed state => some ({ run.setState state with sup := .gone }, locked)
  | _ => none

/-- What happens in run `r`, when it can. -/
def step (r : Nat) (run : Run) (locked : Locks) : Act → Option (Run × Locks)
  | .start =>
    match run.sup with
    | .starting => some ({ run.setState .running with sup := .loop false none }, locked)
    | _ => none
  | .requestCancel reason =>
    some ({ run with cancel := some (run.cancel.getD reason) }, locked)
  | .sendCancel =>
    match run.sup with
    | .loop false none =>
      if run.cancel.isSome then
        some ({ run.setState .cancelling with sup := .loop true none, ask := false }, locked)
      else none
    | _ => none
  | .message m =>
    match run.sup with
    | .loop cancelSent _ => some (run.handle bench m cancelSent, locked)
    | _ => none
  | .answer =>
    match run.sup with
    | .loop false none =>
      if run.ask then some ({ run.setState .running with ask := false }, locked) else none
    | _ => none
  | .kill =>
    match run.sup with
    | .loop true none => some ({ run with sup := .ending none true }, locked)
    | _ => none
  | .late =>
    match run.sup with
    | .loop _ (some op) => some ({ run with sup := .ending (some op) false }, locked)
    | _ => none
  | .closed =>
    match run.sup with
    | .loop _ ended => some ({ run with sup := .ending ended false }, locked)
    | _ => none
  | .work i ok => run.work bench i ok locked
  | .take => run.take bench r locked
  | .giveUp => run.giveUp locked
  | .finish ok => run.finish ok locked

/-- A run before its program is started. -/
def created (root : String) (cap : Tier) (maxCalls : Nat) (safeStatePsuOff : Bool) : Run where
  root := root
  cap := cap
  maxCalls := maxCalls
  safeStatePsuOff := safeStatePsuOff
  cancel := none
  ask := false
  calls := 0
  callErrors := 0
  touched := []
  held := []
  hold := none
  workers := []
  sup := .starting
  states := [.starting]
  results := []
  made := 0

end Run

/-- A run takes a step, and the others stand still. -/
def State.step (bench : Bench) (s : State) (e : Nat × Act) : Option State :=
  ((s.runs e.1).step bench e.1 s.locked e.2).map fun (run, locked) =>
    ⟨Function.update s.runs e.1 run, locked⟩

/-- The interleavings of any number of runs on a bench. -/
def machine (bench : Bench) : Machine State (Nat × Act) where
  init s := (∀ r, ∃ root cap maxCalls psuOff, s.runs r = .created root cap maxCalls psuOff) ∧
    ∀ p, s.locked p = none
  step := State.step bench

end HamsOpen.Runner
