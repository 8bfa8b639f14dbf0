import HamsOpen.StationIo.Image

/-!
# What the board answers

The replies of `io_engine.c` and `station_io.c`, and of the shared core in front of the application:
the status record, the release log and the edge log, and whether a request is accepted. A byte of a
reply that tells a time within a millisecond, or how long a pass of the main loop took, is left
open. The chip itself answers the request that loads an image.
-/

namespace HamsOpen.StationIo

/-- A byte of a record, unless it tells a time within a millisecond or of a pass of the loop. -/
abbrev Octet := Option U8

/-- A vendor request of the host. -/
structure Request where
  bm : U8
  req : U8
  value : U16
  index : U16
  length : U16
  deriving DecidableEq

/-- What the host gets: the request is stalled, or accepted, or answered with a record. -/
inductive Reply
  | stalled
  | accepted
  | record (octets : List Octet)
  deriving DecidableEq

namespace Request

/-- A request of the vendor type that the chip does not answer by itself. -/
def ofImage (r : Request) : Prop :=
  r.bm &&& 0x60 = 0x40 ∧ ¬ ((r.bm = 0x40 ∨ r.bm = 0xC0) ∧ r.req = 0xA0)

instance (r : Request) : Decidable r.ofImage := inferInstanceAs (Decidable (_ ∧ _))

/-- A record is sent as far as the host asked for it. -/
def send (r : Request) (octets : List Octet) : Reply := .record (octets.take r.length.toNat)

end Request

def St.code : St → U8
  | idle => 0
  | lead => 1
  | on => 2
  | lag => 3

def MapError.code : MapError → U8
  | none => 0
  | pinNotAllowed => 1
  | pinTwoFunctions => 2
  | badFunction => 3
  | safeUndefined => 4
  | safeIsActive => 5
  | badParam => 6
  | partner => 7
  | noTimeout => 8
  | noHeartbeat => 9
  | notLoading => 10
  | leadLagNoKeyline => 11

def Refusal.code : Refusal → U8
  | none => 0
  | noMap => 1
  | noHeartbeat => 2
  | minOff => 3
  | busy => 4
  | badChannel => 5

/-- The record that describes the device. -/
def appGetInfo : List U8 :=
  [23, 0, 2, 1, 0, 0, 2, 0, 1, 0x3F, 0, 0, 0, 1, 0x88, 0x13, 0xD0, 0x07, 0x07, 0x03, 1, 0x00, 1]

/-- A 16-bit value, the low byte first. -/
def put16 (v : U16) : List U8 := [v.truncate 8, (v >>> 8).truncate 8]

namespace Engine

/-- The lines that are at their active level. -/
def activeMask (s : Engine) : U8 :=
  (List.finRange IO_NCH).foldl (fun m c =>
    if (s.ch c).func ≠ .none ∧ (s.ch c).lastlvl = some ((s.ch c).active true) then
      m ||| 1#8 <<< c.val
    else m) 0

/-- How long a ptt channel may still be on. -/
def remaining (c : Ch) (s : Engine) : U16 :=
  if (s.ch c).func ≠ .ptt ∨ !(s.ch c).keyed then 0xFFFF
  else
    let used := s.now16 - (s.ch c).tMark
    if (s.ch c).maxOn ≤ used then 0 else (s.ch c).maxOn - used

/-- How long the next heartbeat may still take. -/
def hbRemaining (s : Engine) : U16 :=
  if s.alive then
    let used := s.now16 - s.hbT
    if s.hbTimeout ≤ used then 0 else s.hbTimeout - used
  else 0xFFFF

def flags (s : Engine) : U8 :=
  (if s.mapState = .valid then 1 else 0) ||| (if s.alive then 2 else 0) |||
    (if s.oos then 4 else 0) ||| (if s.mapState = .loading then 8 else 0)

def ioFillStatus (s : Engine) : List Octet :=
  ([23, s.flags, s.keyedMask, s.activeMask, s.logs.relReason, s.logs.relChan, s.logs.events.count,
    s.mapError.code, s.refusal.code, (s.ch 0).st.code, (s.ch 1).st.code] ++ put16 s.lastSeq ++
    put16 s.now16 ++ put16 (s.remaining 0) ++ put16 (s.remaining 1) ++
    put16 s.hbRemaining).map some ++ [none, none]

/-- An entry of the release log, as it is sent. -/
def eventOctets (e : EventEntry) : List Octet := ([e.reason, e.chan] ++ put16 e.ms).map some

/-- An entry of the edge log, as it is sent: with when it was within its millisecond. -/
def edgeOctets (e : EdgeEntry) : List Octet := ([e.pl] ++ put16 e.ms).map some ++ [none, none]

def ioFillEvents (s : Engine) : List Octet :=
  some s.logs.events.count :: s.logs.events.latest.flatMap eventOctets

def ioFillEdges (s : Engine) : List Octet :=
  some s.logs.edges.count :: s.logs.edges.latest.flatMap edgeOctets

/-- The answer to a vendor request: the core's own requests, those that report, those that change
something. -/
def vendorRequest (r : Request) (s : Engine) : Reply × Engine :=
  if r.req = 0x01 ∧ r.bm = 0xC0 then (r.send (appGetInfo.map some), s)
  else if r.req = 0x04 ∧ r.bm = 0xC0 then (.accepted, s)
  else if r.req = 0x20 ∧ r.bm = 0xC0 ∧ r.index = 7 then (.accepted, s)
  else if r.bm = 0xC0 ∧ r.req = 0x05 then (r.send s.ioFillStatus, s)
  else if r.bm = 0xC0 ∧ r.req = 0x06 then
    let s := (s.appVendorRequest r.bm r.req r.value r.index).2
    (r.send s.ioFillStatus, s)
  else if r.bm = 0xC0 ∧ r.req = 0x07 then (r.send s.ioFillEvents, s)
  else if r.bm = 0xC0 ∧ r.req = 0x08 then (r.send s.ioFillEdges, s)
  else if r.bm = 0xC0 ∧ r.req = 0x03 then (.accepted, s)
  else
    let answer := s.appVendorRequest r.bm r.req r.value r.index
    (if answer.1 then .accepted else .stalled, answer.2)

end Engine

end HamsOpen.StationIo
