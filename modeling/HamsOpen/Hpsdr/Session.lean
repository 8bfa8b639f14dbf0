import HamsOpen.Lib.Machine
import HamsOpen.Hpsdr.P2
import Mathlib.Logic.Function.Basic

/-!
# Sessions with a radio

The sessions of `session.rs` and `session_p2.rs`. Callers ask to key, queue samples and change
settings, holders of the gate open and close it, and a task sends packets on every tick. Both sessions
share these steps; they differ in their packets. A packet is sent, or lost, at once, and what the
radio sends back is left out.

The lock of the transmit state is held by one party at a time. Between two steps of a party, the
others go on: between a look at the gate and what follows from it, and between building a packet and
sending it.
-/

namespace HamsOpen.Hpsdr

/-- A queued sample, and how often transmitting had been ended before it was queued. -/
structure Queued where
  sample : Sample
  ends : Nat
  deriving DecidableEq

/-- What the callers ask of the transmitter. -/
structure TxState where
  ptt : Bool
  drive : U8
  iq : List Queued
  deriving DecidableEq

def TX_QUEUE_MAX : Nat := 4096

namespace TxState

def new : TxState := ⟨false, 0, []⟩

/-- The transmitter is unkeyed. -/
def unkey (_ : TxState) : TxState := ⟨false, 0, []⟩

end TxState

/-- A packet that is built on a keyed tick, and the samples that are for it. -/
structure Part (Builder Packet : Type) where
  build : TxGate → Nat → Builder → Option Packet × Builder
  iq : List Queued

/-- How a session builds its packets. -/
structure Wire (Cfg Builder Packet : Type) where
  /-- How many samples a tick takes. -/
  samples : Nat
  validate : Cfg → Except HpsdrError Unit
  /-- What must not change while the session runs. -/
  fixed : Cfg → Cfg → Except HpsdrError Unit
  /-- What a tick makes of a request that is not to be carried out. -/
  clear : TxState → TxState
  rx : Cfg → Builder → Option Packet × Builder
  tx : Cfg → U8 → List Queued → List (Part Builder Packet)
  stop : Cfg → Option Packet
  /-- The packets at the start, and what builds the following ones. -/
  start : Cfg → List Packet × Builder
  /-- The packet keys the radio, or carries a drive or samples. -/
  transmits : Packet → Bool

/-- A packet, and the samples in it. -/
abbrev Ready (Packet : Type) : Type := Packet × List Queued

/-- How far the task is. -/
inductive Task (Cfg Builder Packet : Type)
  | waiting
  /-- It has read the clock. -/
  | read (now : Nat)
  /-- It has a copy of the settings. -/
  | copied (now : Nat) (cfg : Cfg)
  /-- It holds the lock, and has these packets to build and these to send. -/
  | building (now : Nat) (todo : List (Part Builder Packet)) (ready : List (Ready Packet))
  | sending (ready : List (Ready Packet))
  | ended

/-- How far a call is that looks at the gate. -/
inductive Call
  | none
  /-- It holds the lock, and has read the clock. -/
  | keying (drive : U8) (now : Nat)
  /-- It holds the lock, and found the gate open. -/
  | passed (drive : U8)
  | queueing (iq : List Sample) (now : Nat)
  | admitted (iq : List Sample)
  deriving DecidableEq

/-- Who holds the lock of the transmit state. -/
inductive Holder
  | task
  | caller (i : Nat)
  deriving DecidableEq

/-- How far the end of the session is. -/
inductive Stop
  | running
  /-- The transmitter is unkeyed, and the task aborted. -/
  | aborted
  | stopped
  deriving DecidableEq

/-- A packet that was built: whether the gate was open then, and whether a request to key had been
accepted since it was last opened. -/
structure Built (Packet : Type) where
  packet : Packet
  isOpen : Bool
  accepted : Bool

/-- A packet that was sent: the samples in it, and how often transmitting had been ended, and the
request and the settings then. -/
structure Sent (Cfg Packet : Type) where
  packet : Packet
  iq : List Queued
  ends : Nat
  tx : TxState
  cfg : Cfg

structure Session (Cfg Builder Packet : Type) where
  clock : Nat
  gate : TxGate
  cfg : Cfg
  tx : TxState
  holder : Option Holder
  builder : Builder
  task : Task Cfg Builder Packet
  calls : Nat → Call
  /-- How many calls are under way. -/
  busy : Nat
  phase : Stop
  /-- How often transmitting was ended: by an unkey, a closing of the gate or the end of its lease. -/
  ends : Nat
  /-- A request to key was accepted since the gate last went from closed to open. -/
  accepted : Bool
  /-- The packets built, and the packets sent, the latest first. -/
  built : List (Built Packet)
  sent : List (Sent Cfg Packet)

/-- What happens in a session. -/
inductive Event (Cfg : Type)
  /-- The clock goes on. -/
  | advance (by_ : Nat)
  /-- A holder of the gate opens it, closes it, or dies with its lock. -/
  | openUntil (deadline : Nat)
  | close
  | poison
  | update (f : Cfg → Cfg)
  /-- A caller asks to unkey. -/
  | unkey
  /-- A caller asks to key: it takes the lock and reads the clock, looks at the gate, and sets. -/
  | key (i : Nat) (drive : U8)
  | keyCheck (i : Nat)
  | keySet (i : Nat)
  /-- A caller has samples: it reads the clock, looks at the gate, and queues them. -/
  | iq (i : Nat) (iq : List Sample)
  | iqCheck (i : Nat)
  | iqQueue (i : Nat)
  /-- The task on a tick: it reads the clock, copies the settings, takes the lock and looks at the
  request and the gate, builds the packets, gives up the lock, and sends. -/
  | tick
  | copy
  | take
  | build
  | handOver
  | send
  | stop
  | stopSend

namespace Session

variable {Cfg Builder Packet : Type}

def isOpen (s : Session Cfg Builder Packet) : Bool := s.gate.isOpen s.clock

/-- The gate or the clock is another. -/
def turnGate (gate : TxGate) (clock : Nat) (s : Session Cfg Builder Packet) :
    Session Cfg Builder Packet :=
  { s with
    gate := gate
    clock := clock
    ends := if s.isOpen && !gate.isOpen clock then s.ends + 1 else s.ends
    accepted := s.accepted && (s.isOpen || !gate.isOpen clock) }

/-- A call is over. -/
def finish (i : Nat) (s : Session Cfg Builder Packet) : Session Cfg Builder Packet :=
  { s with calls := Function.update s.calls i .none, busy := s.busy - 1 }

/-- The task goes on after a packet was built. -/
def note (packet : Option Packet) (s : Session Cfg Builder Packet) : Session Cfg Builder Packet :=
  { s with built := packet.toList.map (⟨·, s.isOpen, s.accepted⟩) ++ s.built }

/-- Settings are changed, if they are valid and what is fixed stays. -/
def update (W : Wire Cfg Builder Packet) (f : Cfg → Cfg) (s : Session Cfg Builder Packet) :
    Except HpsdrError (Session Cfg Builder Packet) := do
  W.validate (f s.cfg)
  W.fixed s.cfg (f s.cfg)
  return { s with cfg := f s.cfg }

/-- A request to unkey is always accepted. -/
def unkey (s : Session Cfg Builder Packet) : Session Cfg Builder Packet :=
  { s with tx := s.tx.unkey, ends := s.ends + 1 }

/-- Samples are queued, if there is room. -/
def queue (iq : List Sample) (s : Session Cfg Builder Packet) :
    Except HpsdrError (Session Cfg Builder Packet) :=
  if TX_QUEUE_MAX < s.tx.iq.length + iq.length then .error (.Config "transmit queue full")
  else .ok { s with tx := { s.tx with iq := s.tx.iq ++ iq.map (⟨·, s.ends⟩) } }

/-- The task takes the request: a keyed one while the gate is open, with the samples that it takes,
and any other is cleared. -/
def take (W : Wire Cfg Builder Packet) (now : Nat) (cfg : Cfg) (s : Session Cfg Builder Packet) :
    Session Cfg Builder Packet :=
  if s.tx.ptt && s.gate.isOpen now then
    let iq := s.tx.iq.take W.samples
    { s with
      tx := { s.tx with iq := s.tx.iq.drop W.samples }
      holder := some .task
      task := .building now (W.tx cfg s.tx.drive iq) [] }
  else
    let (packet, builder) := W.rx cfg s.builder
    note packet { s with
      tx := W.clear s.tx
      builder := builder
      task := .sending (packet.toList.map (·, [])) }

/-- The task builds a packet, if the gate is open. -/
def build (now : Nat) (part : Part Builder Packet) (todo : List (Part Builder Packet))
    (ready : List (Ready Packet)) (s : Session Cfg Builder Packet) : Session Cfg Builder Packet :=
  let (packet, builder) := part.build s.gate now s.builder
  note packet { s with
    builder := builder
    task := .building now todo (ready ++ packet.toList.map (·, part.iq)) }

/-- A packet is sent. -/
def log (packet : Packet) (iq : List Queued) (s : Session Cfg Builder Packet) :
    Session Cfg Builder Packet :=
  { s with sent := ⟨packet, iq, s.ends, s.tx, s.cfg⟩ :: s.sent }

/-- What happens, when it can. -/
def step (W : Wire Cfg Builder Packet) (s : Session Cfg Builder Packet) :
    Event Cfg → Option (Session Cfg Builder Packet)
  | .advance n => some (s.turnGate s.gate (s.clock + n))
  | .openUntil deadline => some (s.turnGate (s.gate.openUntil deadline).2 s.clock)
  | .close => some { s.turnGate s.gate.close s.clock with ends := s.ends + 1 }
  | .poison => some (s.turnGate s.gate.poison s.clock)
  | .update f =>
    if s.phase = .running then some ((s.update W f).toOption.getD s) else none
  | .unkey => if s.phase = .running ∧ s.holder = none then some s.unkey else none
  | .key i drive =>
    if s.phase = .running ∧ s.holder = none ∧ s.calls i = .none then
      some { s with
        holder := some (.caller i)
        calls := Function.update s.calls i (.keying drive s.clock)
        busy := s.busy + 1 }
    else none
  | .keyCheck i =>
    match s.calls i with
    | .keying drive now =>
      if s.gate.isOpen now then
        some { s with calls := Function.update s.calls i (.passed drive) }
      else some (finish i { s with holder := none })
    | _ => none
  | .keySet i =>
    match s.calls i with
    | .passed drive =>
      some (finish i { s with
        tx := { s.tx with ptt := true, drive := drive }
        holder := none
        accepted := true })
    | _ => none
  | .iq i iq =>
    if s.phase = .running ∧ s.calls i = .none then
      some { s with
        calls := Function.update s.calls i (.queueing iq s.clock)
        busy := s.busy + 1 }
    else none
  | .iqCheck i =>
    match s.calls i with
    | .queueing iq now =>
      if s.gate.isOpen now then
        some { s with calls := Function.update s.calls i (.admitted iq) }
      else some (finish i s)
    | _ => none
  | .iqQueue i =>
    match s.calls i with
    | .admitted iq =>
      if s.holder = none then some (finish i ((s.queue iq).toOption.getD s)) else none
    | _ => none
  | .tick =>
    match s.task with
    | .waiting => some { s with task := .read s.clock }
    | _ => none
  | .copy =>
    match s.task with
    | .read now => some { s with task := .copied now s.cfg }
    | _ => none
  | .take =>
    match s.task with
    | .copied now cfg => if s.holder = none then some (s.take W now cfg) else none
    | _ => none
  | .build =>
    match s.task with
    | .building now (part :: todo) ready => some (s.build now part todo ready)
    | _ => none
  | .handOver =>
    match s.task with
    | .building _ [] ready => some { s with holder := none, task := .sending ready }
    | _ => none
  | .send =>
    match s.task with
    | .sending ((packet, iq) :: ready) => some (log packet iq { s with task := .sending ready })
    | .sending [] => some { s with task := if s.phase = .running then .waiting else .ended }
    | _ => none
  | .stop =>
    if s.phase = .running ∧ s.holder = none ∧ s.busy = 0 then
      some { s.unkey with
        phase := .aborted
        task := match s.task with
          | .waiting => .ended
          | task => task }
    else none
  | .stopSend =>
    if s.phase = .aborted then
      some ((W.stop s.cfg).elim { s with phase := .stopped } fun packet =>
        log packet [] { s with phase := .stopped })
    else none

end Session

namespace Wire

variable {Cfg Builder Packet : Type}

/-- A session at its start. -/
def started (W : Wire Cfg Builder Packet) (cfg : Cfg) (gate : TxGate) (clock : Nat) :
    Session Cfg Builder Packet where
  clock := clock
  gate := gate
  cfg := cfg
  tx := .new
  holder := none
  builder := (W.start cfg).2
  task := .waiting
  calls _ := .none
  busy := 0
  phase := .running
  ends := 0
  accepted := false
  built := []
  sent := (W.start cfg).1.reverse.map (⟨·, [], 0, .new, cfg⟩)

/-- The runs of a session with valid settings. -/
def machine (W : Wire Cfg Builder Packet) : Machine (Session Cfg Builder Packet) (Event Cfg) where
  init s := ∃ cfg gate clock, W.validate cfg = .ok () ∧ s = W.started cfg gate clock
  step := Session.step W

end Wire

/-! ### Protocol 1 -/

/-- What the PC sends to a radio of Protocol 1. -/
inductive P1Packet
  | ep2 (d : Ep2)
  | start
  | stop
  deriving DecidableEq

/-- The frame keys, or carries a drive or samples that are not silence. -/
def Frame.transmits (f : Frame) : Bool :=
  f.cc.mox || (f.cc.addr == 9 && f.cc.c1 != 0) || f.iq.any (· != (0, 0))

def P1Packet.transmits : P1Packet → Bool
  | ep2 d => d.first.transmits || d.second.transmits
  | _ => false

namespace P1

/-- The datagrams that tell a radio the settings before it starts. -/
def configure (cfg : P1Config) : Nat → Ep2Builder → List P1Packet
  | 0, _ => []
  | n + 1, b =>
    let (d, b) := b.buildRx cfg
    (d.toOption.map .ep2).toList ++ configure cfg n b

/-- The packet of a keyed tick. -/
def part (cfg : P1Config) (drive : U8) (iq : List Queued) : Part Ep2Builder P1Packet where
  build gate now b :=
    let (d, b) := b.buildTx cfg gate now ⟨true, drive, iq.map Queued.sample⟩
    (d.toOption.map .ep2, b)
  iq := iq

/-- The session of `session.rs`. -/
def wire : Wire P1Config Ep2Builder P1Packet where
  samples := TX_SAMPLES_PER_DATAGRAM
  validate := P1Config.validate
  fixed cfg next :=
    if next.numRx ≠ cfg.numRx then
      .error (.Config "the receiver count cannot change while running")
    else .ok ()
  clear tx := { tx with ptt := false, iq := [] }
  rx cfg b :=
    let (d, b) := b.buildRx cfg
    (d.toOption.map .ep2, b)
  tx cfg drive iq := [part cfg drive iq]
  stop _ := some .stop
  start cfg :=
    (configure cfg ((cfg.addresses.length + 1) / 2 + 1) .new ++ [.start], .new)
  transmits := P1Packet.transmits

end P1

/-! ### Protocol 2 -/

/-- The ports of a session. -/
structure RadioPorts where
  ddcSpecific : BitVec 16
  ducSpecific : BitVec 16
  hpFromPc : BitVec 16
  hpToPc : BitVec 16
  ddcAudio : BitVec 16
  duc0Iq : BitVec 16
  ddc0 : BitVec 16
  mic : BitVec 16
  wideband0 : BitVec 16
  deriving DecidableEq

/-- The settings, as far as the packets of a tick carry them or they are checked. -/
structure P2Config where
  rxHz : List U32
  numAdc : U8
  attAdc0 : U8
  attAdc1 : U8
  txHz : U32
  ports : RadioPorts
  deriving DecidableEq

/-- The sequence numbers of the packets of a tick. -/
structure Seqs where
  hp : U32
  duc : U32
  deriving DecidableEq

def P2Packet.transmits : P2Packet → Bool
  | highPriority _ _ ptt _ _ drive _ _ => ptt || drive != 0
  | ducIq _ iq => iq.any (· != (0, 0))

namespace P2

def validate (cfg : P2Config) : Except HpsdrError Unit := do
  if cfg.rxHz = [] ∨ 8 < cfg.rxHz.length then throw (.Config "1 to 8 receivers")
  if 31 < cfg.attAdc0.toNat ∨ 31 < cfg.attAdc1.toNat then
    throw (.Config "attenuator 0..=31 dB")
  if cfg.numAdc = 0 ∨ 8 < cfg.numAdc.toNat then throw (.Config "1 to 8 ADCs")

def fixed (cfg next : P2Config) : Except HpsdrError Unit :=
  if next.rxHz.length ≠ cfg.rxHz.length then
    .error (.Config "the receiver count cannot change while running")
  else if next.ports ≠ cfg.ports then
    .error (.Config "the port map cannot change while running")
  else .ok ()

variable (phaseWord : Option (U32 → U32))

/-- The receive part of a High Priority packet. -/
def hpRx (cfg : P2Config) (run : Bool) : HpRx :=
  ⟨run, cfg.rxHz, cfg.attAdc0, cfg.attAdc1, phaseWord⟩

/-- A packet that could be built is numbered. -/
def emit (packet : Except HpsdrError P2Packet) (next b : Seqs) : Option P2Packet × Seqs :=
  match packet with
  | .ok p => (some p, next)
  | .error _ => (none, b)

/-- The High Priority packet of a keyed tick. -/
def hpPart (cfg : P2Config) (drive : U8) : Part Seqs P2Packet where
  build gate now b :=
    emit (encodeHighPriorityTx b.hp (hpRx phaseWord cfg true) gate now ⟨true, cfg.txHz, drive⟩)
      { b with hp := b.hp + 1 } b
  iq := []

/-- The packet with the samples of a keyed tick. -/
def ducPart (iq : List Queued) : Part Seqs P2Packet where
  build gate now b :=
    emit (encodeDucIq b.duc (iq.map fun q => sample24 q.sample) gate now)
      { b with duc := b.duc + 1 } b
  iq := iq

/-- The session of `session_p2.rs`, for a radio that wants such phase words. -/
def wire : Wire P2Config Seqs P2Packet where
  samples := DUC_SAMPLES
  validate := validate
  fixed := fixed
  clear := TxState.unkey
  rx cfg b :=
    emit (encodeHighPriorityRx b.hp (hpRx phaseWord cfg true)) { b with hp := b.hp + 1 } b
  tx cfg drive iq :=
    hpPart phaseWord cfg drive :: if iq = [] then [] else [ducPart iq]
  stop cfg := (encodeHighPriorityRx 0xFFFFFFFF (hpRx phaseWord cfg false)).toOption
  start _ := ([], ⟨0, 0⟩)
  transmits := P2Packet.transmits

end P2

end HamsOpen.Hpsdr
