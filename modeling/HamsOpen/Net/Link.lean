import HamsOpen.Lib.Machine

/-!
# A network link and its sessions

The supervisor of a network link owns the socket (`net.rs`), and hands the actor of a rig a byte
stream that stays open across reconnects. It opens the socket, greets the radio and waits for the
handshake that the framing may want; then it announces a session, and forwards between the stream
and the socket until the socket is lost. While there is no session it drops what the actor writes.

Every byte that the actor writes carries the session that was current, which the code does not look
at. Of the framing nothing is assumed.
-/

namespace HamsOpen.Net

def STREAM_BYTES : ℕ := 4096

/-- What a session takes off the stream at a time. -/
def TCP_READ : ℕ := 4096

/-- What is dropped at a time without a session. -/
def DROP_READ : ℕ := 512

inductive NetProtocol
  | tcp
  | udp
  deriving DecidableEq

structure NetConfig where
  protocol : NetProtocol
  firstAttempts : ℕ
  deriving DecidableEq

/-- What a framing makes of bytes read off the wire. -/
structure Decoded where
  payload : List UInt8
  /-- Bytes to send straight back to the radio. -/
  reply : List UInt8
  /-- The handshake is complete. -/
  ready : Bool
  /-- The connection is to be dropped. -/
  failure : Bool
  deriving DecidableEq

/-- The hooks of a radio that wraps its stream in a framing or a login, over their own state. -/
structure Framing (σ : Type) where
  reset : σ → σ
  greeting : σ → List UInt8 × σ
  needsHandshake : σ → Bool
  encode : σ → List UInt8 → List UInt8 × σ
  decode : σ → List UInt8 → Decoded × σ
  /-- What is sent to keep the connection alive; nothing without a keep-alive. -/
  keepalive : σ → Option (List UInt8)
  keepaliveSent : σ → σ

/-- No framing: the stream is the wire. -/
def RawFraming : Framing Unit where
  reset := id
  greeting _ := ([], ())
  needsHandshake _ := false
  encode _ payload := (payload, ())
  decode _ wire := (⟨wire, [], false, false⟩, ())
  keepalive _ := none
  keepaliveSent := id

/-- A byte that the actor wrote, with the session that was current, if there was one. -/
structure Sent where
  byte : UInt8
  session : Option ℕ
  deriving DecidableEq

/-- What became of bytes that the actor wrote. -/
inductive Fate
  /-- They were sent in a session, framed. -/
  | sent (generation : ℕ) (frame : List UInt8)
  /-- They were dropped, and a part of their frame was sent in a session. -/
  | cut (generation : ℕ) (part : List UInt8)
  /-- They were dropped. -/
  | dropped
  deriving DecidableEq

/-- Where the supervisor is. -/
inductive Phase
  /-- It opens the socket. -/
  | connecting
  | greeting (bytes : List UInt8)
  | handshaking
  /-- It answers in a handshake, which may be complete then. -/
  | answering (reply : List UInt8) (ready : Option (List UInt8))
  /-- The attempt has succeeded, and the session is announced next. -/
  | opened (leftover : List UInt8)
  | session
  /-- It writes to the stream of the actor. -/
  | delivering (payload : List UInt8)
  /-- It answers the radio, and has bytes for the actor then. -/
  | replying (reply payload : List UInt8)
  /-- It sends what the actor wrote. -/
  | sending (chunk : List Sent) (frame : List UInt8)
  | probing (probe : List UInt8)
  /-- The attempt has failed, or the session is at its end. -/
  | lost
  /-- It waits before the next attempt. -/
  | sleeping
  | closed
  deriving DecidableEq

namespace Phase

/-- What is being sent for the actor. -/
def hand : Phase → List Sent
  | sending chunk _ => chunk
  | _ => []

/-- An attempt is on. -/
def attempting : Phase → Bool
  | connecting | greeting _ | handshaking | answering _ _ => true
  | _ => false

/-- A session was announced, and is not at its end. -/
def inSession : Phase → Bool
  | session | delivering _ | replying _ _ | sending _ _ | probing _ => true
  | _ => false

end Phase

structure Counters where
  bytesIn : ℕ
  bytesOut : ℕ
  bytesDropped : ℕ
  reconnects : ℕ
  deriving DecidableEq

/-- A link. -/
structure State (σ : Type) where
  /-- What the actor wrote. -/
  sent : List Sent
  /-- The actor dropped its end of the stream. -/
  ended : Bool
  /-- What the actor wrote and nobody has read. -/
  stream : List Sent
  phase : Phase
  framing : σ
  /-- The generation announced last; there is none before the first session. -/
  generation : ℕ
  /-- The status is that of a session. -/
  connected : Bool
  failures : ℕ
  /-- What the attempt that is on has dropped, and not counted yet. -/
  dropped : ℕ
  /-- What became of what the actor wrote, in order. -/
  log : List (List Sent × Fate)
  /-- What was written to the stream of the actor, and how much was given up. -/
  toActor : List UInt8
  undelivered : ℕ
  counters : Counters
  deriving DecidableEq

/-- How a write to the socket ends: it may fail with a part written. -/
inductive Wrote
  | all
  | failed (n : ℕ)
  deriving DecidableEq

/-- How a write to the stream of the actor ends. -/
inductive Delivered
  | all
  | timedOut (n : ℕ)
  | gone
  deriving DecidableEq

/-- What happens next. -/
inductive Act
  /-- The actor writes, or drops its end. -/
  | write (bytes : List UInt8)
  | drop
  /-- Bytes of the actor are dropped, or the end of its stream is found. -/
  | drain (n : ℕ)
  | eof
  /-- An attempt goes on; bytes of the radio come, or the attempt fails. -/
  | connect (ok : Bool)
  | wrote (result : Wrote)
  | hear (bytes : List UInt8)
  | fail
  | announce
  /-- The session takes bytes of the actor, hears the radio, keeps alive, or writes to the actor. -/
  | take (n : ℕ)
  | probe
  | delivered (result : Delivered)
  /-- What follows a loss, and the end of the wait. -/
  | report
  | wake
  deriving DecidableEq

namespace State

variable {σ : Type} (F : Framing σ) (c : NetConfig) (s : State σ)

/-- The session that is current. -/
def current : Option ℕ := if s.connected then some s.generation else none

/-- The bytes of a write. -/
def tagged (bytes : List UInt8) : List Sent := bytes.map (⟨·, s.current⟩)

/-- The actor has its end of the stream once the first session is announced. -/
def write (bytes : List UInt8) : Option (State σ) :=
  if s.generation ≠ 0 ∧ !s.ended ∧ s.stream.length + bytes.length ≤ STREAM_BYTES then
    some { s with sent := s.sent ++ s.tagged bytes, stream := s.stream ++ s.tagged bytes }
  else none

/-- `sleep_dropping` counts at once what it drops, and `attempt` when it is over. -/
def drain (n : ℕ) : Option (State σ) :=
  if 0 < n ∧ n ≤ DROP_READ ∧ n ≤ s.stream.length then
    let taken := { s with
      stream := s.stream.drop n
      log := s.log ++ [(s.stream.take n, Fate.dropped)] }
    if s.phase.attempting then some { taken with dropped := s.dropped + n }
    else if s.phase = .sleeping then
      some { taken with
        counters := { s.counters with bytesDropped := s.counters.bytesDropped + n } }
    else none
  else none

/-- The end of the stream is found; an attempt that it ends forgets what it dropped. -/
def eof : Option (State σ) :=
  if s.ended ∧ s.stream = [] ∧
      (s.phase.attempting ∨ s.phase = .sleeping ∨ s.phase = .session) then
    some { s with phase := .closed, connected := false, dropped := 0 }
  else none

/-- The attempt is over, and what it dropped is counted. -/
def attempted (phase : Phase) : State σ :=
  { s with
    phase
    dropped := 0
    counters := { s.counters with bytesDropped := s.counters.bytesDropped + s.dropped } }

/-- The greeting is sent: the link is up, or a handshake is waited for. -/
def greeted : State σ :=
  if F.needsHandshake s.framing then { s with phase := .handshaking } else s.attempted (.opened [])

/-- `Wire::open`, and the greeting that follows it. -/
def connect (ok : Bool) : Option (State σ) :=
  if s.phase = .connecting then
    if ok then
      let greeting := F.greeting (F.reset s.framing)
      let begun := { s with framing := greeting.2 }
      if greeting.1 = [] then some (begun.greeted F)
      else some { begun with phase := .greeting greeting.1 }
    else some (s.attempted .lost)
  else none

/-- The reply of a handshake is sent, if there is one. -/
def answered (ready : Option (List UInt8)) : State σ :=
  match ready with
  | some leftover => s.attempted (.opened leftover)
  | none => { s with phase := .handshaking }

/-- Bytes were sent. -/
def count (n : ℕ) : State σ :=
  { s with counters := { s.counters with bytesOut := s.counters.bytesOut + n } }

/-- Bytes for the actor are written to its stream, if there are any. -/
def handed (payload : List UInt8) : State σ :=
  { s with phase := if payload = [] then .session else .delivering payload }

/-- One bounded write to the socket is over. A datagram is sent whole or not at all. -/
def wrote (result : Wrote) : Option (State σ) :=
  match s.phase, result with
  | .greeting bytes, .all => some ((s.count bytes.length).greeted F)
  | .answering reply ready, .all => some ((s.count reply.length).answered ready)
  | .replying reply payload, .all => some ((s.count reply.length).handed payload)
  | .probing probe, .all =>
    some { s.count probe.length with phase := .session, framing := F.keepaliveSent s.framing }
  | .sending chunk frame, .all =>
    some { s.count frame.length with
      phase := .session
      log := s.log ++ [(chunk, .sent s.generation frame)] }
  | .greeting _, .failed _ | .answering _ _, .failed _ => some (s.attempted .lost)
  | .replying _ _, .failed _ | .probing _, .failed _ => some { s with phase := .lost }
  | .sending chunk frame, .failed n =>
    if n < frame.length ∨ n = 0 then
      if c.protocol = .udp ∧ n ≠ 0 then none
      else some { s with
        phase := .lost
        log := s.log ++
          [(chunk, if n = 0 then .dropped else .cut s.generation (frame.take n))]
        counters := { s.counters with
          bytesDropped := s.counters.bytesDropped + chunk.length } }
    else none
  | _, _ => none

/-- Bytes of the radio, in a handshake or in a session. -/
def hear (bytes : List UInt8) : Option (State σ) :=
  let decoded := F.decode s.framing bytes
  match s.phase with
  | .handshaking =>
    let heard := { s with framing := decoded.2 }
    let ready := if decoded.1.ready then some decoded.1.payload else none
    if decoded.1.failure then some (heard.attempted .lost)
    else if decoded.1.reply = [] then some (heard.answered ready)
    else some { heard with phase := .answering decoded.1.reply ready }
  | .session =>
    let heard := { s with
      framing := decoded.2
      counters := { s.counters with bytesIn := s.counters.bytesIn + bytes.length } }
    if decoded.1.failure then some { heard with phase := .lost }
    else if decoded.1.reply = [] then some (heard.handed decoded.1.payload)
    else some { heard with phase := .replying decoded.1.reply decoded.1.payload }
  | _ => none

/-- The handshake times out, or the socket is closed or silent for too long. -/
def fail : Option (State σ) :=
  match s.phase with
  | .handshaking => some (s.attempted .lost)
  | .session => some { s with phase := .lost }
  | _ => none

/-- The next generation is announced, and what came with the handshake is written to the actor. -/
def announce : Option (State σ) :=
  match s.phase with
  | .opened leftover =>
    some { s with
      phase := if leftover = [] then .session else .delivering leftover
      generation := s.generation + 1
      connected := true
      failures := 0
      counters := { s.counters with
        reconnects := s.counters.reconnects + if s.generation = 0 then 0 else 1 } }
  | _ => none

/-- The session takes bytes of the actor off the stream, to be sent. -/
def take (n : ℕ) : Option (State σ) :=
  if s.phase = .session ∧ 0 < n ∧ n ≤ TCP_READ ∧ n ≤ s.stream.length then
    let framed := F.encode s.framing ((s.stream.take n).map Sent.byte)
    some { s with
      phase := .sending (s.stream.take n) framed.1
      stream := s.stream.drop n
      framing := framed.2 }
  else none

def probe : Option (State σ) :=
  match s.phase, F.keepalive s.framing with
  | .session, some bytes => some { s with phase := .probing bytes }
  | _, _ => none

/-- `deliver`: what the actor does not read in time is given up and counted. -/
def delivered (result : Delivered) : Option (State σ) :=
  match s.phase with
  | .delivering payload =>
    match result with
    | .all => some { s with phase := .session, toActor := s.toActor ++ payload }
    | .timedOut n =>
      if n < payload.length then
        some { s with
          phase := .session
          toActor := s.toActor ++ payload.take n
          undelivered := s.undelivered + payload.length
          counters := { s.counters with
            bytesDropped := s.counters.bytesDropped + payload.length } }
      else none
    | .gone => if s.ended then some { s with phase := .closed, connected := false } else none
  | _ => none

/-- After a failed attempt or a loss: the link is given up before its first session, or the status
is that of a reconnect. -/
def report : Option (State σ) :=
  if s.phase = .lost then
    some { s with
      failures := s.failures + 1
      phase := if s.generation = 0 ∧ max 1 c.firstAttempts ≤ s.failures + 1 then .closed
        else .sleeping
      connected := false }
  else none

def wake : Option (State σ) :=
  if s.phase = .sleeping then some { s with phase := .connecting } else none

def step : Act → Option (State σ)
  | .write bytes => s.write bytes
  | .drop => some { s with ended := true }
  | .drain n => s.drain n
  | .eof => s.eof
  | .connect ok => s.connect F ok
  | .wrote result => s.wrote F c result
  | .hear bytes => s.hear F bytes
  | .fail => s.fail
  | .announce => s.announce
  | .take n => s.take F n
  | .probe => s.probe F
  | .delivered result => s.delivered result
  | .report => s.report c
  | .wake => s.wake

/-- What the actor wrote and nothing has become of yet, the oldest byte first. -/
def waiting : List Sent := s.phase.hand ++ s.stream

end State

/-- A link before its first connection. -/
def initial {σ : Type} (framing : σ) : State σ where
  sent := []
  ended := false
  stream := []
  phase := .connecting
  framing
  generation := 0
  connected := false
  failures := 0
  dropped := 0
  log := []
  toActor := []
  undelivered := 0
  counters := ⟨0, 0, 0, 0⟩

def machine {σ : Type} (F : Framing σ) (c : NetConfig) : Machine (State σ) Act where
  init s := ∃ framing, s = initial framing
  step s a := s.step F c a

end HamsOpen.Net
