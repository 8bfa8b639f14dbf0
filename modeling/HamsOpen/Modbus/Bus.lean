import HamsOpen.Modbus.Relay

/-!
# The driver and the board on one bus

Any number of calls of the driver's methods run interleaved on one bus: the lock of the stream, the
driver's record, the requests the board has yet to answer and the bytes that are on their way back.
The board takes requests in order. It may perform one and answer it, refuse it with an exception,
or stay silent, and any byte may take any time: a read can run out while bytes are on their way.
-/

namespace HamsOpen.Modbus

/-- What a board does that performs a request: its coils, by address, and its answer. It performs no
request for coils it does not have. -/
def serve (coils : List Bool) (request : List Byte) : Option (List Bool × List Byte) :=
  let first := beNumber (request.getD 1 0) (request.getD 2 0)
  let count := beNumber (request.getD 3 0) (request.getD 4 0)
  match request.head? with
  | none => none
  | some fn =>
    if fn == FN_WRITE_COIL then
      if first < coils.length then some (coils.set first (request.getD 3 0 == 0xFF), request)
      else none
    else if fn == FN_WRITE_COILS then
      if first + count ≤ coils.length then
        some (coils.take first ++ unpackBits count (request.drop 6) ++ coils.drop (first + count),
          request.take 5)
      else none
    else if fn == FN_READ_COILS then
      if first + count ≤ coils.length then
        let data := packBits ((coils.drop first).take count)
        some (coils, [FN_READ_COILS, UInt8.ofNat data.length] ++ data)
      else none
    else none

/-- The levels a read asks for. -/
def levels (coils : List Bool) (request : List Byte) : List Bool :=
  (coils.drop (beNumber (request.getD 1 0) (request.getD 2 0))).take (coilCount request)

/-- What a board answers to a request that it performs: the echo of a write, or the levels. -/
theorem serve_cases {before coils : List Bool} {request answer : List Byte}
    (h : serve before request = some (coils, answer)) :
    (request.head? = some FN_WRITE_COIL ∧ answer = request) ∨
    (request.head? = some FN_WRITE_COILS ∧ answer = request.take 5) ∨
    (request.head? = some FN_READ_COILS ∧ (levels coils request).length = coilCount request ∧
      ∃ count, answer = [FN_READ_COILS, count] ++ packBits (levels coils request)) := by
  unfold serve at h
  dsimp only at h
  split at h
  · cases h
  next fn hfn =>
    split at h
    next hwrite =>
      obtain ⟨-, heq⟩ := Option.ite_none_right_eq_some.mp h
      obtain ⟨-, rfl⟩ := Prod.mk.inj (Option.some.inj heq)
      exact .inl ⟨by rw [hfn, beq_iff_eq.mp hwrite], rfl⟩
    split at h
    next hwrites =>
      obtain ⟨-, heq⟩ := Option.ite_none_right_eq_some.mp h
      obtain ⟨-, rfl⟩ := Prod.mk.inj (Option.some.inj heq)
      exact .inr (.inl ⟨by rw [hfn, beq_iff_eq.mp hwrites], rfl⟩)
    split at h
    next hread =>
      obtain ⟨hrange, heq⟩ := Option.ite_none_right_eq_some.mp h
      obtain ⟨rfl, rfl⟩ := Prod.mk.inj (Option.some.inj heq)
      refine .inr (.inr ⟨by rw [hfn, beq_iff_eq.mp hread], ?_, _, rfl⟩)
      simp only [levels, coilCount, List.length_take, List.length_drop]
      omega
    · cases h

/-- A board that performs a request answers in as many bytes as an accepted reply has. -/
theorem serve_length {before coils : List Bool} {request answer reply : List Byte} {r : Reply}
    (hserve : serve before request = some (coils, answer))
    (hreply : parseReply request reply = .ok r) : answer.length = reply.length := by
  rcases serve_cases hserve with ⟨hfn, rfl⟩ | ⟨hfn, rfl⟩ | ⟨hfn, hlength, count, rfl⟩ <;>
    rcases parseReply_ok hreply with ⟨hfn', -, rfl⟩ | ⟨hfn', -, hr⟩ | ⟨hfn', hr, -⟩
  all_goals first
    | exact absurd (hfn.symm.trans hfn') (by decide)
    | skip
  · rfl
  · rw [List.length_take, hr.1]
    omega
  · rw [List.length_append, packBits_length, hlength, hr]
    rfl

/-- An accepted read gives the levels there were when the board performed it. -/
theorem served_levels {before coils : List Bool} {request answer : List Byte} {bits : List Bool}
    (hserve : serve before request = some (coils, answer))
    (hreply : parseReply request answer = .ok (.coils bits)) : bits = levels coils request := by
  rcases parseReply_ok hreply with ⟨-, hr, -⟩ | ⟨-, hr, -⟩ | ⟨hfn', -, hr⟩
  · cases hr
  · cases hr
  rcases serve_cases hserve with ⟨hfn, -⟩ | ⟨hfn, -⟩ | ⟨-, hlength, count, rfl⟩
  · exact absurd (hfn.symm.trans hfn') (by decide)
  · exact absurd (hfn.symm.trans hfn') (by decide)
  · obtain rfl := Reply.coils.inj hr
    rw [← hlength]
    exact unpackBits_packBits _

/-- The board's refusal of a request. -/
def refusal (code : Byte) (request : List Byte) : List Byte := [request.headD 0 ||| 0x80, code]

/-- How the board takes the next request. -/
inductive Taking
  | perform
  | refuse (code : Byte)
  /-- It may have performed the request or not, and does not answer. -/
  | silent (performs : Bool)
  deriving DecidableEq

/-- What happened on the bus. A request is known by its session and its place in it. -/
inductive Event
  | sent (session place : Nat) (request : List Byte)
  /-- The board answered a request, performed or not; its coils are then as given. -/
  | answered (session place : Nat) (performed : Bool) (coils : List Bool) (answer : List Byte)
  | ignored (session place : Nat)
  /-- The exchange of a request succeeded with a reply, made of bytes that answer these requests. -/
  | credited (session place : Nat) (reply : Reply) (answers : List Nat)
  deriving DecidableEq

/-- The state that the calls of the driver and the board share. -/
structure Bus where
  now : Instant
  /-- The call that holds the stream. -/
  holder : Option Nat
  shadow : Shadow
  /-- The number of the stream: it changes with every reopen. -/
  session : Nat
  /-- How many requests were sent in this session. -/
  requests : Nat
  /-- The requests of this session that the board has yet to take. -/
  pending : List (Nat × List Byte)
  /-- The bytes the board has sent in this session and nobody has read. -/
  line : List RxByte
  /-- The relays. -/
  coils : List Bool
  /-- What happened, the latest first. -/
  log : List Event
  deriving DecidableEq

namespace Bus

def record (s : Bus) (e : Event) : Bus := { s with log := e :: s.log }

/-- The board takes its next request. -/
def take (board : ModbusBoard) (taking : Taking) (s : Bus) : Option Bus :=
  match s.pending with
  | [] => none
  | (place, request) :: rest =>
    let reply (performed : Bool) (coils : List Bool) (answer : List Byte) : Bus :=
      { s with
        pending := rest
        coils
        line := s.line ++ (encode board.framing board.slave answer).map fun b => (b, place)
        log := .answered s.session place performed coils answer :: s.log }
    match taking with
    | .perform => (serve s.coils request).map fun done => reply true done.1 done.2
    | .refuse code => some (reply false s.coils (refusal code request))
    | .silent performs =>
      some { s with
        pending := rest
        coils := if performs then ((serve s.coils request).map (·.1)).getD s.coils else s.coils
        log := .ignored s.session place :: s.log }

/-- A new stream: what was sent on the old one is gone, and the relays may be in any state. -/
def reconnect (coils : List Bool) (s : Bus) : Bus :=
  { s with session := s.session + 1, requests := 0, pending := [], line := [], coils }

/-- A request goes out. It reaches the board, or a part of it does not. -/
def transmit (request : List Byte) (whole : Bool) (s : Bus) : Bus :=
  { s with
    requests := s.requests + 1
    pending := if whole then s.pending ++ [(s.requests, request)] else s.pending
    log := .sent s.session s.requests request :: s.log }

end Bus

/-- What the port does with an action. -/
inductive Choice
  | go
  /-- The request does not reach the board whole. -/
  | cut
  | writeFails (e : String)
  | flushFails (e : String)
  | readFails (e : String)
  | closes
  | late
  /-- The relays of the board behind a new stream. -/
  | relays (coils : List Bool)
  deriving DecidableEq

/-- What an action of call `k` does to the bus, when it can be performed. -/
def Action.perform (k : Nat) (choice : Choice) : (a : Action) → Bus → Option (a.Answer × Bus)
  | .lock, s => if s.holder = none then some ((), { s with holder := some k }) else none
  | .unlock, s => if s.holder = some k then some ((), { s with holder := none }) else none
  | .now, s => some (s.now, s)
  | .sleep wake, s => if wake ≤ s.now then some ((), s) else none
  | .shadow, s => some (s.shadow, s)
  | .update f, s => some ((), { s with shadow := f s.now s.shadow })
  | .replace, s =>
    match choice with
    | .relays coils => some ((), s.reconnect coils)
    | _ => some ((), s.reconnect s.coils)
  | .send request, s =>
    match choice with
    | .cut => some ((), s.transmit request false)
    | _ => some ((), s.transmit request true)
  | .sent, s =>
    match choice with
    | .writeFails e => some (.error (.writeFailed e), s)
    | .flushFails e => some (.error (.flushFailed e), s)
    | _ => some (.ok (), s)
  | .read deadline, s =>
    match choice with
    | .closes => some (.closed, s)
    | .readFails e => some (.failed e, s)
    | .late => if deadline ≤ s.now then some (.late, s) else none
    | _ =>
      match s.line with
      | [] => none
      | (b, place) :: rest => some (.byte b place, { s with line := rest })
  | .credit reply answers, s =>
    some ((), s.record (.credited s.session (s.requests - 1) reply answers))

/-- The actions at which a method waits. -/
def Action.suspends : Action → Bool
  | .lock | .sleep _ | .sent | .read _ => true
  | _ => false

/-- What the world around the driver does. -/
inductive Outside
  | tick (d : Duration)
  | take (taking : Taking)
  deriving DecidableEq

/-- The calls of the driver of a board. -/
def executor (board : ModbusBoard) :
    Executor Action Action.Answer Bus Call Choice Outside Result where
  init s := s.holder = none ∧ s.shadow = .new board.coils.toNat ∧ s.session = 0 ∧ s.requests = 0 ∧
    s.pending = [] ∧ s.line = [] ∧ s.log = []
  exec := Action.perform
  suspends := Action.suspends
  clock := Bus.now
  release k s := if s.holder = some k then { s with holder := none } else s
  body := run board
  env
    | .tick d, s => some { s with now := s.now + d }
    | .take taking, s => s.take board taking

abbrev State := World Action Action.Answer Bus Call Result

/-- The driver of a board, with its calls run in any order, cut anywhere and dropped anywhere. -/
def machine (board : ModbusBoard) : Machine State (Turn Call Choice Outside) :=
  (executor board).machine

/-- A new driver at time 0, and the relays of its board. -/
def start (board : ModbusBoard) (coils : List Bool) : State where
  shared := ⟨0, none, .new board.coils.toNat, 0, 0, [], [], coils, []⟩
  jobs := []

theorem start_reachable (board : ModbusBoard) (coils : List Bool) :
    (machine board).Reachable (start board coils) :=
  .init ⟨⟨rfl, rfl, rfl, rfl, rfl, rfl, rfl⟩, rfl⟩

/-- A board of one relay that can be read. -/
def oneRelay : ModbusBoard where
  framing := .rtu
  slave := 1
  coils := 1
  coilBase := 0
  replyTimeoutMs := 10
  interFrameMs := 1
  statusReadable := true
  safeState := []

/-- The call takes its next turns, `n` of them. -/
def turns (k n : Nat) (choice : Choice) : List (Turn Call Choice Outside) :=
  List.replicate n (.turn k choice)

end HamsOpen.Modbus
