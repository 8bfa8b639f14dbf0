import Mathlib.Logic.Function.Basic
import HamsOpen.Rig.TxState
import HamsOpen.Rig.Poll

/-!
# What the actor remembers

The part of the rig actor (`rig.rs`) that is ordinary data: the cache of the rig's values, the
requests whose reply is still owed, the poll schedule, the transmit watchdog's start and the events
published so far, with the functions that change them. None of these waits for anything; each runs
at one moment `now` of the actor's clock.

An item read from the rig carries, beside what the engine decoded, the index of the request on the
wire it answers (`none` for a frame the rig sent on its own). The actor never looks at that index:
it only travels along, so that a completion can say which request's reply completed it.
-/

namespace HamsOpen.Rig

/-! ### What travels between the actor and the engine -/

/-- What the actor should wait for after sending a request. -/
inductive ReplyKind
  | none
  | ack
  | observation (field : Field)
  deriving DecidableEq

/-- The bytes for one command and the reply to expect. -/
structure Request where
  bytes : List UInt8
  reply : ReplyKind
  deriving DecidableEq

/-- Something decoded from received bytes. -/
inductive Inbound
  | observation (value : Observation)
  | scopeFrame
  | filterScopeFrame
  | ack
  | nak
  | unrecognised (bytes : List UInt8)
  deriving DecidableEq

/-- A decoded item with the request on the wire it answers. -/
abbrev Item := Inbound × Option Nat

/-! ### The memory -/

/-- A cached value and when the rig last reported it. -/
structure CacheEntry where
  value : Observation
  seen : Instant
  deriving DecidableEq

/-- A request on the wire whose reply has not been seen, with its index on the wire. -/
structure Outstanding where
  kind : ReplyKind
  seq : Nat
  expires : Instant
  write : Nat
  deriving DecidableEq

/-- How long after its write a request's reply is still expected, in reply timeouts. -/
def STALE_WINDOW_TIMEOUTS : Nat := 2

/-- `from + wait`; the clock of the model has no farthest instant to saturate at. -/
def deadlineAfter (start : Instant) (wait : Duration) : Instant := start + wait

/-- What the actor remembers between two waits. -/
structure Memory where
  cache : Field → Option CacheEntry
  outstanding : List Outstanding
  poll : PollSchedule
  keyedSince : Option Instant
  events : List RigEvent

namespace Memory

/-- The cached value of a field. -/
def value (m : Memory) (field : Field) : Option Observation := (m.cache field).map (·.value)

/-- The inputs of the transmit-frequency derivation, read from the cache. -/
def txState (m : Memory) : TxState := TxState.fromCache m.value

/-- Puts a value in the cache. -/
def insert (m : Memory) (value : Observation) (field : Field) (now : Instant) : Memory :=
  { m with cache := Function.update m.cache field (some ⟨value, now⟩) }

/-- Sends an event to the stream subscribers. -/
def emit (m : Memory) (event : RigEvent) : Memory := { m with events := m.events ++ [event] }

/-- Emits an alarm event. Alarms are never deduplicated and never cached. -/
def alarm (m : Memory) (alarm : Alarm) (source : Source) : Memory :=
  m.emit ⟨source, [⟨.alarm, none, .alarm alarm⟩]⟩

/-- Starts the transmit watchdog if it is not running. -/
def armWatchdog (m : Memory) (now : Instant) : Memory :=
  { m with keyedSince := m.keyedSince <|> some now }

/-- The watchdog's part of `observe`: a key report arms it, an unkey report disarms it. -/
def watchPtt (m : Memory) (value : Observation) (now : Instant) : Memory :=
  match value with
  | .ptt true => m.armWatchdog now
  | .ptt false => { m with keyedSince := none }
  | _ => m

/-- The cache's part of `observe`: the value itself, then the transmit frequency derived from the
cache when there is one, with the changes of the two. -/
def cacheValue (m : Memory) (value : Observation) (now : Instant) : Memory × List Change :=
  let field := value.field
  let old := m.value field
  let m₁ := m.insert value field now
  let changes := if old != some value then [⟨field, old, value⟩] else []
  match m₁.txState.activeTxFrequency with
  | some hz =>
    let derived := Observation.activeTxFrequency hz
    let before := m₁.value .activeTxFrequency
    if before != some derived then
      (m₁.insert derived .activeTxFrequency now,
        changes ++ [⟨.activeTxFrequency, before, derived⟩])
    else (m₁, changes)
  | none => (m₁, changes)

/-- Records a value the rig reported or acknowledged. -/
def observe (m : Memory) (value : Observation) (source : Source) (now : Instant) : Memory :=
  let (m₁, changes) := (m.watchPtt value now).cacheValue value now
  if changes.isEmpty then m₁ else m₁.emit ⟨source, changes⟩

@[simp] theorem watchPtt_outstanding (m : Memory) (value : Observation) (now : Instant) :
    (m.watchPtt value now).outstanding = m.outstanding := by
  unfold watchPtt
  split <;> rfl

@[simp] theorem cacheValue_outstanding (m : Memory) (value : Observation) (now : Instant) :
    (m.cacheValue value now).1.outstanding = m.outstanding := by
  unfold cacheValue
  dsimp only
  split
  · split <;> rfl
  · rfl

@[simp] theorem observe_outstanding (m : Memory) (value : Observation) (source : Source)
    (now : Instant) : (m.observe value source now).outstanding = m.outstanding := by
  have hcache := cacheValue_outstanding (m.watchPtt value now) value now
  rw [watchPtt_outstanding] at hcache
  unfold observe
  dsimp only
  split
  · exact hcache
  · exact hcache

/-- The value a successful set puts in the cache. -/
def setValue : Op → Option Observation
  | .setFrequency vfo hz => some (.frequency vfo hz)
  | .setMode mode => some (.mode mode)
  | .setPtt on => some (.ptt on)
  | .setSplit on => some (.split on)
  | .setRit on => some (.rit on)
  | .setXit on => some (.xit on)
  | .setRitOffset hz => some (.ritOffset hz)
  | .setFilterWidth hz => some (.filterWidth hz)
  | .setLevel level value => some (.level level value)
  | .setScopeOutput on => some (.scopeOutput on)
  | .setScopeAxis rx axis => some (.scopeAxis rx axis)
  | .setScopeSpan rx span => some (.scopeSpan rx span)
  | .setScopeReference rx centiDb => some (.scopeReference rx centiDb)
  | .setScopeSetting rx setting code => some (.scopeSetting rx setting code)
  | _ => none

/-- Records a successful set in the cache; polling reconciles it with the rig later. Morse arms the
watchdog; a stop of Morse says nothing about PTT. -/
def applySet (m : Memory) (op : Op) (source : Source) (now : Instant) : Memory :=
  match setValue op with
  | some value => m.observe value source now
  | none =>
    match op with
    | .sendCw _ => m.armWatchdog now
    | _ => m

@[simp] theorem applySet_outstanding (m : Memory) (op : Op) (source : Source) (now : Instant) :
    (m.applySet op source now).outstanding = m.outstanding := by
  unfold applySet
  split
  · exact observe_outstanding _ _ _ _
  · split <;> rfl

/-! ### Requests on the wire -/

/-- Forgets the requests whose reply is no longer expected. -/
def pruneOutstanding (m : Memory) (now : Instant) : Memory :=
  { m with outstanding := m.outstanding.filter fun o => now < o.expires }

/-- A request that expects a reply went out: remember it, so that its answer is matched to it even
if it arrives after the command has been given up. -/
def noteWritten (m : Memory) (kind : ReplyKind) (seq : Nat) (timeout : Duration) (write : Nat)
    (now : Instant) : Memory :=
  if kind = .none then m
  else
    let m := m.pruneOutstanding now
    { m with
      outstanding := m.outstanding ++
        [⟨kind, seq, deadlineAfter now (timeout * STALE_WINDOW_TIMEOUTS), write⟩] }

@[simp] theorem noteWritten_cache (m : Memory) (kind : ReplyKind) (seq : Nat) (timeout : Duration)
    (write : Nat) (now : Instant) : (m.noteWritten kind seq timeout write now).cache = m.cache := by
  unfold noteWritten
  split <;> rfl

@[simp] theorem noteWritten_keyedSince (m : Memory) (kind : ReplyKind) (seq : Nat)
    (timeout : Duration) (write : Nat) (now : Instant) :
    (m.noteWritten kind seq timeout write now).keyedSince = m.keyedSince := by
  unfold noteWritten
  split <;> rfl

@[simp] theorem noteWritten_events (m : Memory) (kind : ReplyKind) (seq : Nat) (timeout : Duration)
    (write : Nat) (now : Instant) :
    (m.noteWritten kind seq timeout write now).events = m.events := by
  unfold noteWritten
  split <;> rfl

/-- Whether a decoded item can be the reply to a request: an ack fits an ack request, an
observation its field, and a nak any request. -/
def fits (inbound : Inbound) (o : Outstanding) : Bool :=
  match inbound with
  | .ack => o.kind == .ack
  | .nak => true
  | .observation value => o.kind == .observation value.field
  | .scopeFrame | .filterScopeFrame | .unrecognised _ => false

/-- Which request a reply answers: the oldest outstanding one it fits, because the rig answers in
the order it was asked. -/
def claimReply (m : Memory) (inbound : Inbound) (now : Instant) : Option Nat × Memory :=
  let m := m.pruneOutstanding now
  ((m.outstanding.find? (fits inbound)).map (·.seq),
    { m with outstanding := m.outstanding.eraseP (fits inbound) })

/-- A frame arrived that no command was waiting for. On a rig that reports on its own that is
transceive traffic; on any other it is a late reply, which is only counted. -/
def noteUnsolicited (m : Memory) (caps : CapabilitySet) : Memory :=
  if caps.has .transceive then { m with poll := m.poll.noteTransceive } else m

@[simp] theorem noteUnsolicited_cache (m : Memory) (caps : CapabilitySet) :
    (m.noteUnsolicited caps).cache = m.cache := by
  unfold noteUnsolicited
  split <;> rfl

@[simp] theorem noteUnsolicited_keyedSince (m : Memory) (caps : CapabilitySet) :
    (m.noteUnsolicited caps).keyedSince = m.keyedSince := by
  unfold noteUnsolicited
  split <;> rfl

@[simp] theorem noteUnsolicited_events (m : Memory) (caps : CapabilitySet) :
    (m.noteUnsolicited caps).events = m.events := by
  unfold noteUnsolicited
  split <;> rfl

@[simp] theorem noteUnsolicited_outstanding (m : Memory) (caps : CapabilitySet) :
    (m.noteUnsolicited caps).outstanding = m.outstanding := by
  unfold noteUnsolicited
  split <;> rfl

/-- A decided command: its result, and the request on the wire whose reply decided it. -/
abbrev Decided := Reply × Option Nat

/-- One item of `absorb`: `done` is the result decided so far. -/
def absorbItem (caps : CapabilitySet) (expect : ReplyKind) (seq : Nat) (source : Source)
    (now : Instant) (m : Memory) (done : Option Decided) (item : Item) :
    Memory × Option Decided :=
  let (owner, m) := m.claimReply item.1 now
  -- The answer to a command already given up: never this command's, whatever it looks like.
  let stale := owner.any fun o => o != seq
  match item.1 with
  | .observation value =>
    let wanted := done.isNone && !stale && expect == .observation value.field
    let m := m.observe value (if wanted then source else .transceive) now
    if wanted then (m, some (.ok (some value), item.2))
    else (if owner.isNone then m.noteUnsolicited caps else m, done)
  | .ack =>
    if done.isNone && !stale && expect == .ack then (m, some (.ok none, item.2)) else (m, done)
  | .nak =>
    if done.isNone && !stale && expect != .none then
      (m, some (.error ⟨.rejected, "the rig refused the command"⟩, item.2))
    else (m, done)
  | .scopeFrame | .filterScopeFrame | .unrecognised _ => (m, done)

/-- Takes in what the engine made of received bytes; returns the command's result once it is
decided. A reply is the command's answer only when it fits the command and the oldest outstanding
request it fits is this command's: a fitting reply that an abandoned earlier command is still owed
belongs to that command. -/
def absorb (caps : CapabilitySet) (expect : ReplyKind) (seq : Nat) (source : Source)
    (now : Instant) : Memory → Option Decided → List Item → Memory × Option Decided
  | m, done, [] => (m, done)
  | m, done, item :: items =>
    let (m, done) := absorbItem caps expect seq source now m done item
    absorb caps expect seq source now m done items

/-- The values a list of items reports, oldest first. -/
def itemValues (items : List Item) : List Observation :=
  items.filterMap fun item =>
    match item.1 with
    | .observation value => some value
    | _ => none

section Reports

variable {P : Memory → List Observation → Prop} {caps : CapabilitySet} {expect : ReplyKind}
  {seq : Nat} {source : Source} {now : Instant}

/-- What one item does to the cache, the watchdog and the events is `observe` of the value it
reports, if any: `P` relates these three to the values reported so far. -/
theorem absorbItem_reports
    (hsame : ∀ m m' vs, m'.cache = m.cache → m'.keyedSince = m.keyedSince →
      m'.events = m.events → P m vs → P m' vs)
    (hobserve : ∀ m vs value source, P m vs → P (m.observe value source now) (vs ++ [value]))
    {m : Memory} {vs : List Observation} (done : Option Decided) (item : Item) (hP : P m vs) :
    P (absorbItem caps expect seq source now m done item).1 (vs ++ itemValues [item]) := by
  obtain ⟨inbound, write⟩ := item
  have hclaim : P (m.claimReply inbound now).2 vs := hsame m _ vs rfl rfl rfl hP
  cases inbound with
  | observation value =>
    change P _ (vs ++ [value])
    simp only [absorbItem]
    split
    · exact hobserve _ _ _ _ hclaim
    · split
      · exact hsame _ _ _ (noteUnsolicited_cache _ caps) (noteUnsolicited_keyedSince _ caps)
          (noteUnsolicited_events _ caps) (hobserve _ _ value _ hclaim)
      · exact hobserve _ _ _ _ hclaim
  | ack | nak =>
    change P _ (vs ++ [])
    rw [List.append_nil]
    simp only [absorbItem]
    split <;> exact hclaim
  | scopeFrame | filterScopeFrame | unrecognised =>
    change P _ (vs ++ [])
    rw [List.append_nil]
    exact hclaim

/-- What `absorb` does to the cache, the watchdog and the events is `observe` of each value
reported, in their order. -/
theorem absorb_reports
    (hsame : ∀ m m' vs, m'.cache = m.cache → m'.keyedSince = m.keyedSince →
      m'.events = m.events → P m vs → P m' vs)
    (hobserve : ∀ m vs value source, P m vs → P (m.observe value source now) (vs ++ [value]))
    {m : Memory} {vs : List Observation} (done : Option Decided) (items : List Item)
    (hP : P m vs) :
    P (absorb caps expect seq source now m done items).1 (vs ++ itemValues items) := by
  induction items generalizing m vs done with
  | nil => simpa [absorb, itemValues] using hP
  | cons item items ih =>
    have hitem : P (absorbItem caps expect seq source now m done item).1 (vs ++ itemValues [item]) :=
      absorbItem_reports hsame hobserve done item hP
    have hrest := ih (absorbItem caps expect seq source now m done item).2 hitem
    rwa [List.append_assoc, itemValues, itemValues, ← List.filterMap_append] at hrest

end Reports

/-- Takes in items that arrive while no command waits (transceive, late replies). -/
def ingest (caps : CapabilitySet) (now : Instant) (m : Memory) (items : List Item) : Memory :=
  (absorb caps .none 0 .transceive now m none items).1

end Memory

end HamsOpen.Rig
