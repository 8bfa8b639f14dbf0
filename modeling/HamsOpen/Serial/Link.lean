import HamsOpen.Lib.Machine

/-!
# A serial link and its sessions

The actor of a rig holds one end of a byte stream (`serial.rs`). What it writes goes through the
stream, the bridge task and a bounded queue to the supervisor thread, which writes it to the port.
What the port has to say goes through the reader thread, a second queue and a second task to the
stream. When the port is lost, the supervisor opens it again, and announces a new generation.

Every byte carries what is known of it when it is written or read, which the code does not look at:
its number, and the session that was current.
-/

namespace HamsOpen.Serial

def STREAM_BYTES : ℕ := 4096

def WRITE_QUEUE : ℕ := 64

def READ_QUEUE : ℕ := 64

def WRITE_RETRIES : ℕ := 40

/-- What a task or a thread takes at a time. -/
def BUFFER : ℕ := 256

/-- A byte that the actor wrote, with its number and the session that was current, if there was
one. -/
structure Sent where
  n : ℕ
  byte : UInt8
  session : Option ℕ
  deriving DecidableEq

/-- A byte that was read from the port in a session. -/
structure Received where
  byte : UInt8
  session : ℕ
  deriving DecidableEq

/-- What became of a byte that the actor wrote. -/
inductive Fate
  /-- It was written to the port of a session. -/
  | written (generation : ℕ)
  /-- It was dropped, and counted. -/
  | dropped
  /-- It was left behind when a write failed. -/
  | lost
  deriving DecidableEq

/-- What the bridge puts on the queue. -/
inductive Command
  | write (bytes : List Sent)
  | shutdown
  deriving DecidableEq

def Command.bytes : Command → List Sent
  | write bytes => bytes
  | shutdown => []

/-- Where the supervisor thread is. -/
inductive Phase
  /-- It waits before the next open, and drops what it is given to write. -/
  | sleeping
  /-- The port is open, and announced next. -/
  | opened
  /-- The session is announced, and its reader is started next. -/
  | announced
  | session
  /-- It writes a command to the port. -/
  | writing (rest : List Sent) (total timeouts : ℕ)
  /-- The session is at its end, and the reader is waited for. -/
  | ending (shutdown : Bool)
  | closed
  deriving DecidableEq

/-- What a command that is being written has left. -/
def Phase.hand : Phase → List Sent
  | writing rest _ _ => rest
  | _ => []

/-- Where the reader thread is. -/
inductive Reader
  | off
  /-- It looks whether it is to stop. -/
  | checking
  /-- It waits for the port. -/
  | reading
  /-- It waits for room on the queue. -/
  | sending (chunk : List Received)
  deriving DecidableEq

def Reader.hand : Reader → List Received
  | sending chunk => chunk
  | _ => []

/-- Where the task that takes bytes off the stream is. -/
inductive Bridge
  | idle
  | carrying (chunk : List Sent)
  | closed
  deriving DecidableEq

def Bridge.hand : Bridge → List Sent
  | carrying chunk => chunk
  | _ => []

structure Counters where
  bytesIn : ℕ
  bytesOut : ℕ
  bytesDropped : ℕ
  reconnects : ℕ
  deriving DecidableEq

/-- A link. -/
structure State where
  /-- What the actor wrote. -/
  sent : List Sent
  /-- The actor dropped its end. -/
  closed : Bool
  /-- What the actor wrote and the bridge has yet to take. -/
  stream : List Sent
  bridge : Bridge
  commands : List Command
  phase : Phase
  /-- The generation announced last; there is none before the first open. -/
  generation : ℕ
  /-- The status is that of a session, and not of a reconnect. -/
  connected : Bool
  /-- The reader found the port lost. -/
  lost : Bool
  reader : Reader
  toActor : List (List Received)
  /-- What the second task has yet to write to the stream. -/
  feeding : List Received
  /-- What the actor has yet to read. -/
  inbound : List Received
  /-- What became of the bytes that the actor wrote, in order. -/
  log : List (Sent × Fate)
  /-- What the actor read, with the generation announced last. -/
  delivered : List (Received × ℕ)
  counters : Counters
  deriving DecidableEq

/-- What the port answers to a write. -/
inductive WriteResult
  | wrote (n : ℕ)
  | interrupted
  | timedOut
  | failed
  deriving DecidableEq

/-- What happens next. -/
inductive Act
  /-- The actor writes, reads, or drops its end. -/
  | write (bytes : List UInt8)
  | read (n : ℕ)
  | close
  /-- The bridge takes bytes off the stream, sends them, or finds the end of the stream. -/
  | carry (n : ℕ)
  | send
  | finish
  /-- The second task takes a chunk, or writes some of it. -/
  | feed
  | pass (n : ℕ)
  /-- The supervisor opens the port, or gives the first open up. -/
  | openPort (ok : Bool)
  | giveUp
  | announce
  | startReader (ok : Bool)
  | noteLost
  | receive
  | port (result : WriteResult)
  | flush (ok : Bool)
  | joined
  /-- The reader looks whether it is to stop, reads, finds the port lost, or sends. -/
  | check
  | portRead (bytes : List UInt8)
  | portLost
  | deliver
  deriving DecidableEq

namespace State

variable (s : State)

/-- The session that is current. -/
def current : Option ℕ := if s.connected then some s.generation else none

/-- The bytes of a write, numbered from those before. -/
def tagged (bytes : List UInt8) : List Sent :=
  bytes.mapIdx fun i byte => ⟨s.sent.length + i, byte, s.current⟩

def write (bytes : List UInt8) : Option State :=
  if s.generation ≠ 0 ∧ !s.closed ∧ s.stream.length + bytes.length ≤ STREAM_BYTES then
    some { s with sent := s.sent ++ s.tagged bytes, stream := s.stream ++ s.tagged bytes }
  else none

def read (n : ℕ) : Option State :=
  if s.closed then none
  else some { s with
    delivered := s.delivered ++ (s.inbound.take n).map (·, s.generation)
    inbound := s.inbound.drop n }

/-- The bridge: up to a buffer of what is in the stream. -/
def carry (n : ℕ) : Option State :=
  if s.bridge = .idle ∧ 0 < n ∧ n ≤ BUFFER ∧ n ≤ s.stream.length then
    some { s with bridge := .carrying (s.stream.take n), stream := s.stream.drop n }
  else none

def send : Option State :=
  match s.bridge with
  | .carrying chunk =>
    if s.phase = .closed then some { s with bridge := .closed }
    else if s.commands.length < WRITE_QUEUE then
      some { s with bridge := .idle, commands := s.commands ++ [.write chunk] }
    else none
  | _ => none

/-- The stream has ended. -/
def finish : Option State :=
  if s.bridge = .idle ∧ s.closed ∧ s.stream = [] then
    if s.phase = .closed then some { s with bridge := .closed }
    else if s.commands.length < WRITE_QUEUE then
      some { s with bridge := .closed, commands := s.commands ++ [.shutdown] }
    else none
  else none

def feed : Option State :=
  match s.feeding, s.toActor with
  | [], chunk :: rest => if s.closed then none else some { s with feeding := chunk, toActor := rest }
  | _, _ => none

def pass (n : ℕ) : Option State :=
  if !s.closed ∧ n ≤ s.feeding.length ∧ s.inbound.length + n ≤ STREAM_BYTES then
    some { s with inbound := s.inbound ++ s.feeding.take n, feeding := s.feeding.drop n }
  else none

/-- `sleep_dropping` and the open that follows it. -/
def openPort (ok : Bool) : Option State :=
  if s.phase = .sleeping then some { s with phase := if ok then .opened else .sleeping }
  else none

def giveUp : Option State :=
  if s.phase = .sleeping ∧ s.generation = 0 then some { s with phase := .closed } else none

/-- `publish`: the next generation is current. -/
def announce : Option State :=
  if s.phase = .opened then
    some { s with
      phase := .announced
      generation := s.generation + 1
      connected := true
      lost := false
      counters := { s.counters with
        reconnects := s.counters.reconnects + if s.generation = 0 then 0 else 1 } }
  else none

def startReader (ok : Bool) : Option State :=
  if s.phase = .announced then
    if ok then some { s with phase := .session, reader := .checking }
    else some { s with phase := .ending false }
  else none

def noteLost : Option State :=
  if s.phase = .session ∧ s.lost then some { s with phase := .ending false } else none

/-- The next command: written in a session, and dropped without one. -/
def receive : Option State :=
  match s.phase, s.commands with
  | .session, .write bytes :: rest =>
    some { s with phase := .writing bytes bytes.length 0, commands := rest }
  | .session, .shutdown :: rest => some { s with phase := .ending true, commands := rest }
  | .sleeping, .write bytes :: rest =>
    some { s with
      commands := rest
      log := s.log ++ bytes.map (·, .dropped)
      counters := { s.counters with
        bytesDropped := s.counters.bytesDropped + bytes.length } }
  | .sleeping, .shutdown :: rest => some { s with phase := .closed, commands := rest }
  | _, _ => none

/-- A write that fails ends the session, with the rest of the command left behind. -/
def failWrite (rest : List Sent) : State :=
  { s with phase := .ending false, log := s.log ++ rest.map (·, .lost) }

/-- `write_fully`: one write to the port. -/
def port (result : WriteResult) : Option State :=
  match s.phase with
  | .writing (b :: rest) total timeouts =>
    match result with
    | .wrote 0 => some (s.failWrite (b :: rest))
    | .wrote n =>
      if n ≤ (b :: rest).length then
        some { s with
          phase := .writing ((b :: rest).drop n) total timeouts
          log := s.log ++ ((b :: rest).take n).map (·, .written s.generation) }
      else none
    | .interrupted => some s
    | .timedOut =>
      if timeouts < WRITE_RETRIES then
        some { s with phase := .writing (b :: rest) total (timeouts + 1) }
      else some (s.failWrite (b :: rest))
    | .failed => some (s.failWrite (b :: rest))
  | _ => none

def flush (ok : Bool) : Option State :=
  match s.phase with
  | .writing [] total _ =>
    if ok then
      some { s with
        phase := .session
        counters := { s.counters with bytesOut := s.counters.bytesOut + total } }
    else some (s.failWrite [])
  | _ => none

/-- The reader has ended, and the status is that of a reconnect, or the link is over. -/
def joined : Option State :=
  match s.phase with
  | .ending shutdown =>
    if s.reader = .off then
      some { s with phase := if shutdown then .closed else .sleeping, connected := false }
    else none
  | _ => none

/-- The reader stops when the session is at its end. -/
def check : Option State :=
  if s.reader = .checking then
    match s.phase with
    | .ending _ => some { s with reader := .off }
    | _ => some { s with reader := .reading }
  else none

/-- The reader: bytes, or none within the time the port waits for them. -/
def portRead (bytes : List UInt8) : Option State :=
  if s.reader = .reading ∧ bytes.length ≤ BUFFER then
    match bytes with
    | [] => some { s with reader := .checking }
    | _ => some { s with
        reader := .sending (bytes.map (⟨·, s.generation⟩))
        counters := { s.counters with bytesIn := s.counters.bytesIn + bytes.length } }
  else none

def portLost : Option State :=
  if s.reader = .reading then some { s with reader := .off, lost := true } else none

/-- The reader sends what it read; it ends when nobody takes it. -/
def deliver : Option State :=
  match s.reader with
  | .sending chunk =>
    if s.closed then some { s with reader := .off }
    else if s.toActor.length < READ_QUEUE then
      some { s with reader := .checking, toActor := s.toActor ++ [chunk] }
    else none
  | _ => none

def step : Act → Option State
  | .write bytes => s.write bytes
  | .read n => s.read n
  | .close => some { s with closed := true }
  | .carry n => s.carry n
  | .send => s.send
  | .finish => s.finish
  | .feed => s.feed
  | .pass n => s.pass n
  | .openPort ok => s.openPort ok
  | .giveUp => s.giveUp
  | .announce => s.announce
  | .startReader ok => s.startReader ok
  | .noteLost => s.noteLost
  | .receive => s.receive
  | .port result => s.port result
  | .flush ok => s.flush ok
  | .joined => s.joined
  | .check => s.check
  | .portRead bytes => s.portRead bytes
  | .portLost => s.portLost
  | .deliver => s.deliver

/-- What the actor wrote and nothing has become of yet, the oldest byte first. -/
def waiting : List Sent :=
  s.phase.hand ++ (s.commands.flatMap Command.bytes ++ (s.bridge.hand ++ s.stream))

/-- What was read from the port and the actor has yet to read, the oldest byte first. -/
def coming : List Received :=
  s.inbound ++ (s.feeding ++ (s.toActor.flatten ++ s.reader.hand))

end State

/-- A link before its first open. -/
def initial : State where
  sent := []
  closed := false
  stream := []
  bridge := .idle
  commands := []
  phase := .sleeping
  generation := 0
  connected := false
  lost := false
  reader := .off
  toActor := []
  feeding := []
  inbound := []
  log := []
  delivered := []
  counters := ⟨0, 0, 0, 0⟩

def machine : Machine State Act where
  init s := s = initial
  step := State.step

end HamsOpen.Serial
