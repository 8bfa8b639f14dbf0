import HamsOpen.Lib.Machine
import HamsOpen.Rig.Op

/-!
# The service in front of a rig, and who has its transmitter

The clients of one rig share its queue and the record of who keyed it (`service.rs`, `arbiter.rs`,
`server.rs`). A task serves a client, one command after another, until the client leaves. Between
the claim, the operation and what is done about its outcome there are awaits, so that any other
task may step in between.

The queue gives no order: an unkey jumps it, and an operation that is reported to have failed may
still be carried out.
-/

namespace HamsOpen.Radioctld

open Rig (Op ErrorKind)

/-- The number of a client, in the order of connecting; the server's own task is number 0. -/
abbrev ClientId := ℕ

/-- Who holds the transmitter. -/
structure PttOwner where
  owner : Option ClientId
  deriving DecidableEq

namespace PttOwner

def tryKey (ptt : PttOwner) (client : ClientId) : Except ClientId PttOwner :=
  match ptt.owner with
  | none => .ok ⟨some client⟩
  | some current => if current = client then .ok ptt else .error current

/-- Gives the transmitter up, if the client has it, and tells whether it had. -/
def release (ptt : PttOwner) (client : ClientId) : Bool × PttOwner :=
  if ptt.owner = some client then (true, ⟨none⟩) else (false, ptt)

def clear (_ : PttOwner) : PttOwner := ⟨none⟩

variable {ptt ptt' : PttOwner} {client c : ClientId}

/-- A claim that is granted leaves the client the owner, and found no other one. -/
theorem tryKey_ok (h : ptt.tryKey client = .ok ptt') :
    ptt'.owner = some client ∧ ∀ c, ptt.owner = some c → c = client := by
  unfold tryKey at h
  split at h
  next hnone =>
    cases h
    exact ⟨rfl, by rw [hnone]; nofun⟩
  next current hsome =>
    split at h
    next heq =>
      cases h
      subst heq
      exact ⟨hsome, fun c hc => Option.some.inj (hc.symm.trans hsome)⟩
    next => cases h

/-- A release takes the transmitter from nobody else. -/
theorem release_owner (h : c ≠ client) :
    (ptt.release client).2.owner = some c ↔ ptt.owner = some c := by
  unfold release
  split
  next howner =>
    rw [howner]
    constructor
    · nofun
    · intro hc
      exact absurd (Option.some.inj hc).symm h
  next => exact Iff.rfl

theorem release_not_owner : (ptt.release client).2.owner ≠ some client := by
  unfold release
  split
  next => nofun
  next howner => exact howner

theorem release_fst : (ptt.release client).1 = true ↔ ptt.owner = some client := by
  unfold release
  split <;> simp_all

end PttOwner

/-! ### Commands -/

/-- The code of a command that did not run: not now. -/
def ERJCTED : ℤ := -9

def ETIMEOUT : ℤ := -5

def EIO : ℤ := -6

def EPROTO : ℤ := -8

def ENAVAIL : ℤ := -11

def EBUSBUSY : ℤ := -14

/-- The code for an error of the rig's queue. -/
def errorCode : ErrorKind → ℤ
  | .timeout => ETIMEOUT
  | .rejected | .transmitGateClosed | .transmitFrequencyUnknown => ERJCTED
  | .unsupported => ENAVAIL
  | .linkDown | .cancelled => EIO
  | .malformed => EPROTO
  | .queueFull => EBUSBUSY

/-- What a client asks of the transmitter. To leave is the last of it. -/
inductive Command
  | key
  | sendMorse (text : String)
  | unkey
  | stopMorse
  | disconnect
  deriving DecidableEq

namespace Command

/-- The operation that goes on the rig's queue. -/
def op : Command → Op
  | key => .setPtt true
  | sendMorse text => .sendCw text
  | unkey | disconnect => .setPtt false
  | stopMorse => .stopCw

end Command

/-- Where a task is. -/
inductive Task
  /-- It has answered, and waits for a command. -/
  | idle (answer : Option (Except ℤ Unit))
  /-- It runs a command, whose operation is put on the queue next, or waits for its outcome. -/
  | running (command : Command) (id : Option ℕ)
  /-- It has the outcome, and has yet to do about the owner what follows from it. -/
  | answered (command : Command) (id : Option ℕ) (outcome : Except ℤ Unit)
  /-- Its client has left. -/
  | gone
  deriving DecidableEq

/-- An operation on the rig's queue. The numbers are in the order of their issue. -/
structure Item where
  id : ℕ
  op : Op
  client : ClientId
  deriving DecidableEq

/-- The clients of one rig, its queue and the rig. -/
structure State where
  owner : PttOwner
  /-- The transmit gate is open. -/
  permit : Bool
  linkUp : Bool
  tasks : List Task
  /-- What the rig may still carry out. -/
  queue : List Item
  /-- The operations that the rig carried out. -/
  carried : List ℕ
  /-- The last operation that transmits which the rig carried out since its last unkey. -/
  last : Option Item
  /-- The number of the next operation or claim. -/
  next : ℕ
  /-- The number of the last claim. -/
  claimed : ℕ
  deriving DecidableEq

/-- What happens next. -/
inductive Act
  | connect
  /-- The task of a client starts with a command. -/
  | start (client : ClientId) (command : Command)
  /-- The operation goes on the queue, or is refused there. -/
  | submit (client : ClientId) (refused : Option ErrorKind)
  /-- The outcome of the operation arrives. -/
  | reply (client : ClientId) (failure : Option ErrorKind)
  /-- The task does about the owner what follows from the outcome. -/
  | finish (client : ClientId)
  /-- The rig carries an operation out. -/
  | carryOut (item : Item)
  /-- An operation comes to nothing. -/
  | drop (item : Item)
  /-- The rig is unkeyed by its watchdog or another guard of its own. -/
  | unkeyed
  | link (up : Bool)
  deriving DecidableEq

namespace State

variable (s : State)

def setTask (client : ClientId) (task : Task) : State :=
  { s with tasks := s.tasks.set client task }

def checkTransmit : Except ℤ Unit :=
  if !s.permit then .error ERJCTED
  else if !s.linkUp then .error EIO
  else .ok ()

/-- What a command that transmits does before its operation: the check, then the claim. -/
def claim (client : ClientId) : Except ℤ State := do
  s.checkTransmit
  match s.owner.tryKey client with
  | .ok owner => .ok { s with owner, claimed := s.next, next := s.next + 1 }
  | .error _ => .error ERJCTED

/-- The task of a client starts with a command; the server's own has only the unkey at the end. -/
def start (client : ClientId) (command : Command) : Option State :=
  match s.tasks[client]?, command with
  | some (.idle _), .key | some (.idle _), .sendMorse _ =>
    if client = 0 then none
    else match s.claim client with
      | .ok s' => some (s'.setTask client (.running command none))
      | .error code => some (s.setTask client (.idle (some (.error code))))
  | some (.idle _), .unkey | some (.idle _), .stopMorse =>
    some (s.setTask client (.running command none))
  | some (.idle _), .disconnect =>
    if client = 0 then none
    else
      let released := s.owner.release client
      if released.1 then
        some ({ s with owner := released.2 }.setTask client (.running command none))
      else some (s.setTask client .gone)
  | _, _ => none

def submit (client : ClientId) (refused : Option ErrorKind) : Option State :=
  match s.tasks[client]?, refused with
  | some (.running command none), none =>
    let item : Item := ⟨s.next, command.op, client⟩
    some ({ s with queue := s.queue ++ [item], next := s.next + 1 }.setTask client
      (.running command (some s.next)))
  | some (.running command none), some e =>
    some (s.setTask client (.answered command none (.error (errorCode e))))
  | _, _ => none

/-- An operation is reported done when the rig has carried it out, and may fail at any time. -/
def reply (client : ClientId) (failure : Option ErrorKind) : Option State :=
  match s.tasks[client]?, failure with
  | some (.running command (some id)), none =>
    if id ∈ s.carried then some (s.setTask client (.answered command (some id) (.ok ())))
    else none
  | some (.running command (some id)), some e =>
    some (s.setTask client (.answered command (some id) (.error (errorCode e))))
  | _, _ => none

/-- A failed key or Morse gives its claim back; an unkey that is done clears the owner. -/
def finish (client : ClientId) : Option State :=
  match s.tasks[client]? with
  | some (.answered command _ outcome) =>
    match command, outcome with
    | .key, .error _ | .sendMorse _, .error _ =>
      some ({ s with owner := (s.owner.release client).2 }.setTask client (.idle (some outcome)))
    | .unkey, .ok _ =>
      some ({ s with owner := s.owner.clear }.setTask client (.idle (some outcome)))
    | .disconnect, _ => some (s.setTask client .gone)
    | _, _ => some (s.setTask client (.idle (some outcome)))
  | _ => none

/-- The last operation that transmits, after one more operation. -/
def lastAfter (item : Item) : Option Item :=
  if item.op.isUnkey then none
  else if item.op.transmits then some item
  else s.last

def step : Act → Option State
  | .connect => some { s with tasks := s.tasks ++ [.idle none] }
  | .start client command => s.start client command
  | .submit client refused => s.submit client refused
  | .reply client failure => s.reply client failure
  | .finish client => s.finish client
  | .carryOut item =>
    if item ∈ s.queue then
      some { s with
        queue := s.queue.erase item, carried := item.id :: s.carried, last := s.lastAfter item }
    else none
  | .drop item =>
    if item ∈ s.queue then some { s with queue := s.queue.erase item } else none
  | .unkeyed => some { s with last := none }
  | .link up => some { s with linkUp := up }

end State

/-- The clients of a rig that nobody has keyed. -/
def machine : Machine State Act where
  init s := s.owner = ⟨none⟩ ∧ s.tasks = [.idle none] ∧ s.queue = [] ∧ s.carried = [] ∧
    s.last = none
  step := State.step

end HamsOpen.Radioctld
