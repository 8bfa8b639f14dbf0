import HamsOpen.Lib.Executor
import HamsOpen.Modbus.Frame

/-!
# The coil relay driver

The driver half of `modbus.rs`: `ModbusRelay` over any byte stream. Its methods are programs whose
actions are the points at which another task can run: the locks, the clock, the bytes on the wire.
The stream is held by one method at a time; the driver's record of the board (`Shadow`) has a lock
of its own and is read and written in single steps.

A byte read carries which request the board answered with it. No branch looks at that.
-/

namespace HamsOpen.Modbus

abbrev Instant := Nat
abbrev Duration := Nat

/-- A coil relay board, as data. -/
structure ModbusBoard where
  framing : Framing
  slave : Byte
  /-- Number of coils (relays). -/
  coils : UInt16
  /-- Coil address of line 0. -/
  coilBase : UInt16
  replyTimeoutMs : Duration
  interFrameMs : Duration
  /-- Whether the board's coil read (function 1) is trusted to report the relay states. -/
  statusReadable : Bool
  /-- The safe level of each coil. Empty means every coil off. -/
  safeState : List Bool

namespace ModbusBoard

/-- The safe level of every coil, in coil order: `safe_state`, or all off when it is empty. -/
def safeBits (board : ModbusBoard) : List Bool :=
  if board.safeState.isEmpty then List.replicate board.coils.toNat false else board.safeState

/-- The one frame that writes the safe state. -/
def safeRequest (board : ModbusBoard) : List Byte := pduWriteCoils board.coilBase board.safeBits

/-- The coil address of a line, bounds-checked. -/
def coil (board : ModbusBoard) (line : Nat) : Except ModbusError UInt16 :=
  if line ≥ board.coils.toNat then .error (.pastCoils line board.coils.toNat)
  else .ok (board.coilBase + UInt16.ofNat line)

/-- The board's safe level for a line (`safe_state`, off when empty). -/
def safeLine (board : ModbusBoard) (line : Nat) : Bool := board.safeBits.getD line false

/-- What the bytes of a frame say of a request. -/
def accept (board : ModbusBoard) (request frame : List Byte) : Except ModbusError Reply :=
  match decode board.framing frame with
  | .error e => .error e
  | .ok (slave, pdu) => if slave != board.slave then .error .otherSlave else parseReply request pdu

end ModbusBoard

/-- The driver's record of the board: one entry per coil plus the safe-state gate. -/
structure Shadow where
  /-- Per coil: the level the board last acknowledged and when (`none`: unknown). -/
  coils : List (Option (Bool × Instant))
  /-- Whether the safe state has been applied on the current link. -/
  safeDone : Bool
  /-- Consecutive failed safe-state writes. -/
  failures : Nat
  /-- No safe-state attempt before this time. -/
  retryAt : Option Instant
  deriving DecidableEq

def BACKOFF_BASE_MS : Nat := 250
def BACKOFF_MAX_MS : Nat := 8000
/-- `failures` is a `u32` and is counted up by a saturating add. -/
def FAILURES_MAX : Nat := 2 ^ 32 - 1

namespace Shadow

/-- The record of a new driver. -/
def new (coils : Nat) : Shadow := ⟨List.replicate coils none, false, 0, none⟩

/-- After a reopen. -/
def reopened (sh : Shadow) : Shadow := new sh.coils.length

/-- The safe state was acknowledged. -/
def safeApplied (bits : List Bool) (now : Instant) (sh : Shadow) : Shadow where
  coils := List.zipWith (fun _ b => some (b, now)) sh.coils bits ++ sh.coils.drop bits.length
  safeDone := true
  failures := 0
  retryAt := none

/-- The safe state was not acknowledged. -/
def safeFailed (now : Instant) (sh : Shadow) : Shadow :=
  let failures := min (sh.failures + 1) FAILURES_MAX
  { coils := List.replicate sh.coils.length none
    safeDone := false
    failures
    retryAt := some (now + min (BACKOFF_BASE_MS * 2 ^ min failures 6) BACKOFF_MAX_MS) }

/-- A write of the affected coils was acknowledged. -/
def wrote (affected : List (Nat × Bool)) (now : Instant) (sh : Shadow) : Shadow :=
  { sh with coils := affected.foldl (fun coils c => coils.set c.1 (some (c.2, now))) sh.coils }

/-- A write of the affected coils failed. -/
def forget (affected : List (Nat × Bool)) (lost : Bool) (sh : Shadow) : Shadow :=
  { sh with
    coils := affected.foldl (fun coils c => coils.set c.1 none) sh.coils
    safeDone := sh.safeDone && !lost }

end Shadow

/-! ### Actions -/

/-- What a timed read of one byte comes to. -/
inductive Got
  | byte (b : Byte) (answers : Nat)
  | closed
  | failed (e : String)
  | late
  deriving DecidableEq

/-- What a method does between two points at which others can run. -/
inductive Action
  | lock | unlock
  | now
  /-- Sleeps to a time. -/
  | sleep (wake : Instant)
  | shadow
  /-- One critical section of the record, with the time in it. -/
  | update (f : Instant → Shadow → Shadow)
  /-- A new byte stream in place of the old one. -/
  | replace
  /-- Begins to send a request, then waits until it is sent and flushed. -/
  | send (request : List Byte)
  | sent
  | read (deadline : Instant)
  /-- An exchange succeeds with a reply, made of bytes that answer these requests. -/
  | credit (reply : Reply) (answers : List Nat)

/-- The answer to an action. -/
abbrev Action.Answer : Action → Type
  | lock | unlock | sleep _ | update _ | replace | send _ | credit _ _ => Unit
  | now => Instant
  | shadow => Shadow
  | sent => Except ModbusError Unit
  | read _ => Got

/-- A program of the driver. -/
abbrev Driver := Prog Action Action.Answer

/-- A program of the driver that may fail. -/
abbrev Try := ExceptT ModbusError Driver

abbrev perform (a : Action) : Driver a.Answer := Prog.perform a

/-- Runs a program and keeps its error as a value. -/
def attempt {α : Type} (body : Try α) : Try (Except ModbusError α) := ExceptT.mk do
  let r ← body.run
  return .ok r

/-- A value computed at once. -/
def Try.of {α : Type} (r : Except ModbusError α) : Try α := ExceptT.mk (pure r)

/-- Runs with the stream locked. -/
def locked {α : Type} (body : Try α) : Try α := ExceptT.mk do
  let _ ← perform .lock
  let r ← body.run
  let _ ← perform .unlock
  return r

/-- A byte read, with the request it answers. -/
abbrev RxByte := Byte × Nat

/-- A byte more of a frame. An ASCII frame begins at its colon. -/
def pushByte (framing : Framing) (frame : List RxByte) (b : RxByte) : List RxByte :=
  match framing with
  | .ascii =>
    let frame := if b.1 == COLON then [] else frame
    if !frame.isEmpty || b.1 == COLON then frame ++ [b] else frame
  | .rtu => frame ++ [b]

/-- What a read makes of the bytes so far: more of them, or the end of the frame. -/
def onRead (framing : Framing) (frame : List RxByte) :
    Got → List RxByte ⊕ Except ModbusError (List RxByte)
  | .closed => .inr (.error .portClosed)
  | .failed e => .inr (.error (.readFailed e))
  | .late =>
    if framing == .rtu && !frame.isEmpty then .inr (.ok frame) else .inr (.error .noReply)
  | .byte b answers =>
    let frame := pushByte framing frame (b, answers)
    if framing == .ascii && CRLF.isSuffixOf (frame.map (·.1)) then .inr (.ok frame)
    else if frame.length > MAX_FRAME then .inr (.error .tooLong)
    else .inl frame

/-- Reads one reply frame: to CR LF (ASCII) or to an idle gap (RTU), bounded in size and time. -/
def readFrame (board : ModbusBoard) : Try (List RxByte) := ExceptT.mk <|
  Prog.iterate (fun frame : List RxByte => do
    let wait := if frame.isEmpty || board.framing == .ascii then board.replyTimeoutMs
      else max board.interFrameMs 1
    let start ← perform .now
    let got ← perform (.read (start + wait))
    return onRead board.framing frame got) []

/-- Sends one request PDU on the locked stream and returns the validated reply. A read coils
request is refused for a board whose status is not readable. -/
def exchange (board : ModbusBoard) (request : List Byte) : Try Reply := do
  if !board.statusReadable && request.head? == some FN_READ_COILS then
    throw .notReadable
  let start ← perform .now
  let _ ← perform (.sleep (start + board.interFrameMs))
  let _ ← perform (.send request)
  ExceptT.mk (perform .sent)
  let raw ← readFrame board
  let reply ← Try.of (board.accept request (raw.map (·.1)))
  let _ ← perform (.credit reply (raw.map (·.2)))
  return reply

/-- Records how the safe-state write went. -/
def settleSafe (board : ModbusBoard) : Except ModbusError Reply → Try Unit
  | .ok .written => do
    let _ ← perform (.update (Shadow.safeApplied board.safeBits))
  | .ok (.coils _) => do
    let _ ← perform (.update Shadow.safeFailed)
    throw .safeNotAcknowledged
  | .error e => do
    let _ ← perform (.update Shadow.safeFailed)
    throw e

/-- No safe-state attempt is made before its time. -/
def awaitRetry : Try Unit := do
  let sh ← perform .shadow
  if let some t := sh.retryAt then
    let now ← perform .now
    if now < t then
      throw .backoff

/-- Writes the board's safe state in ONE function 15 frame and records it on an acknowledgement.
The emergency path does not respect the retry delay. -/
def applySafe (board : ModbusBoard) (respectBackoff : Bool) : Try Unit := do
  if respectBackoff then
    awaitRetry
  let result ← attempt (exchange board board.safeRequest)
  settleSafe board result

/-- The safe state first, when it has not been applied on this link. -/
def safeFirst (board : ModbusBoard) : Try Unit := do
  let sh ← perform .shadow
  if !sh.safeDone then
    applySafe board true

/-- Applies the safe state if it has not been applied on this link. -/
def ensureSafeState (board : ModbusBoard) : Try Unit := locked (safeFirst board)

/-- Records how a command write went. A lost port also requires the safe state again. -/
def settleWrite (affected : List (Nat × Bool)) : Except ModbusError Reply → Try Unit
  | .ok .written => do
    let _ ← perform (.update (Shadow.wrote affected))
  | .ok (.coils _) => do
    let _ ← perform (.update fun _ => Shadow.forget affected false)
    throw .notAcknowledged
  | .error e => do
    let _ ← perform (.update fun _ => Shadow.forget affected e.portLost)
    throw e

/-- The one path for a command write: safe state first, then `request`. -/
def writeGated (board : ModbusBoard) (request : List Byte) (affected : List (Nat × Bool)) :
    Try Unit := locked do
  safeFirst board
  let result ← attempt (exchange board request)
  settleWrite affected result

/-- Function 15 over every coil: all on or all off in one frame, behind the safe-state gate. -/
def writeAll (board : ModbusBoard) (on : Bool) : Try Unit :=
  let n := board.coils.toNat
  writeGated board (pduWriteCoils board.coilBase (List.replicate n on))
    ((List.range n).map fun i => (i, on))

/-- Function 5 on the line's coil, behind the safe-state gate. -/
def writeLine (board : ModbusBoard) (line : Nat) (on : Bool) : Try Unit := do
  let coil ← Try.of (board.coil line)
  writeGated board (pduWriteCoil coil on) [(line, on)]

/-- The record of one line: recorded, not confirmed. -/
def Shadow.recordedLine (sh : Shadow) (line : Nat) : Option Bool := sh.coils[line]?.join.map (·.1)

/-- Without readable status: the driver's record of the line, with no I/O. With readable status:
function 1 on the line's coil. -/
def readLine (board : ModbusBoard) (line : Nat) : Try Bool := do
  let coil ← Try.of (board.coil line)
  if !board.statusReadable then
    let sh ← perform .shadow
    match sh.recordedLine line with
    | some level => return level
    | none => throw .unknownRecord
  else
    locked do
      safeFirst board
      match ← exchange board (pduReadCoils coil 1) with
      | .coils [level] => return level
      | _ => throw .unexpectedRead

/-- The emergency path: the board's whole safe state in one frame, ignoring the retry delay. -/
def forceSafe (board : ModbusBoard) (line : Nat) : Try Unit := do
  let _ ← Try.of (board.coil line)
  locked (applySafe board false)

/-- Replaces the byte stream after a reconnect: every coil becomes unknown and the safe state is
required again before any other command. Nothing is sent here. -/
def reopen : Try Unit := locked do
  let _ ← perform .replace
  let _ ← perform (.update fun _ => Shadow.reopened)

/-! ### The public methods -/

inductive Call
  | ensureSafeState
  | writeLine (line : Nat) (on : Bool)
  | writeAll (on : Bool)
  | readLine (line : Nat)
  | forceSafe (line : Nat)
  | reopen
  deriving DecidableEq

/-- What a method returns: the level of a line that was read, if it is a read. -/
abbrev Result := Except ModbusError (Option Bool)

def run (board : ModbusBoard) (call : Call) : Driver Result :=
  match call with
  | .ensureSafeState => ((fun _ => none) <$> ensureSafeState board).run
  | .writeLine line on => ((fun _ => none) <$> writeLine board line on).run
  | .writeAll on => ((fun _ => none) <$> writeAll board on).run
  | .readLine line => (some <$> readLine board line).run
  | .forceSafe line => ((fun _ => none) <$> forceSafe board line).run
  | .reopen => ((fun _ => none) <$> Modbus.reopen).run

end HamsOpen.Modbus
