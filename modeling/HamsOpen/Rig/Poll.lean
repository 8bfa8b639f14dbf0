import HamsOpen.Rig.Op

/-!
# The poll schedule

Adaptive per-field polling (`poll.rs`). Polling is the lowest priority work of the actor: it backs
off while a field does not change and, for a rig that reports on its own, slows to its maximum
interval. Instants and durations are natural numbers of milliseconds.
-/

namespace HamsOpen.Rig

/-- A moment of the actor's clock, in milliseconds. -/
abbrev Instant := Nat

/-- A length of time, in milliseconds. -/
abbrev Duration := Nat

/-- Polling intervals. -/
structure PollConfig where
  enabled : Bool
  fastMin : Duration
  fastMax : Duration
  slowMin : Duration
  slowMax : Duration
  pttReserve : Duration
  deriving DecidableEq

/-- One polled field. -/
structure PollEntry where
  field : Field
  op : Op
  min : Duration
  max : Duration
  interval : Duration
  due : Instant
  polledAt : Instant
  deriving DecidableEq

/-- The poll schedule of one rig. -/
structure PollSchedule where
  entries : List PollEntry
  transceiveActive : Bool
  deriving DecidableEq

namespace PollSchedule

/-- The fields that can be polled, each with the capability it needs, its read command and whether
it is a fast one. -/
def table : List (Capability × Field × Op × Bool) :=
  [(.readFrequency, .frequency .a, .getFrequency .a, true),
   (.secondVfo, .frequency .b, .getFrequency .b, true),
   (.split, .split, .getSplit, true),
   (.readMode, .mode, .getMode, true),
   (.readPtt, .ptt, .getPtt, true),
   (.readSignal, .signal, .getSignal, false),
   (.readPower, .power, .getPower, false)]

/-- Builds the schedule for the fields the capabilities allow, first due at `now`. -/
def forCapabilities (caps : CapabilitySet) (config : PollConfig) (now : Instant) : PollSchedule :=
  { entries :=
      if config.enabled then
        (table.filter fun row => caps.has row.1).map fun (_, field, op, fast) =>
          let (min, max) :=
            if fast then (config.fastMin, config.fastMax) else (config.slowMin, config.slowMax)
          { field, op, min, max, interval := min, due := now, polledAt := now }
      else []
    transceiveActive := false }

/-- The earliest due time, if any field is polled. -/
def nextDue (s : PollSchedule) : Option Instant := (s.entries.map (·.due)).min?

/-- The first of the entries that are due the longest. -/
def earliestDue (s : PollSchedule) (now : Instant) : Option PollEntry :=
  let due := s.entries.filter fun e => e.due ≤ now
  due.find? fun e => due.all fun f => e.due ≤ f.due

/-- Replaces the first entry for a field. -/
def update (s : PollSchedule) (field : Field) (f : PollEntry → PollEntry) : PollSchedule :=
  { s with
    entries :=
      match s.entries.findIdx? fun e => e.field == field with
      | some i => s.entries.modify i f
      | none => s.entries }

/-- The entry to poll now, if one is due. While the rig transmits only transmit state and power are
polled; the others are pushed back by their interval. -/
def takeDue (s : PollSchedule) (now : Instant) (transmitting : Bool) :
    Option PollEntry × PollSchedule :=
  match s.earliestDue now with
  | none => (none, s)
  | some entry =>
    if transmitting && !(entry.field == .ptt || entry.field == .power) then
      (none, s.update entry.field fun e => { e with due := now + e.interval })
    else (some entry, s)

/-- The entry for `field` when it has not been polled for `reserve` or longer. -/
def takeStarved (s : PollSchedule) (field : Field) (now : Instant) (reserve : Duration) :
    Option PollEntry :=
  s.entries.find? fun e => e.field == field && e.polledAt + reserve ≤ now

/-- Records the outcome of polling `field`: a change resets the interval to its minimum, no change
doubles it up to the maximum, a failure jumps to the maximum. -/
def report (s : PollSchedule) (field : Field) (changed failed : Bool) (now : Instant) :
    PollSchedule :=
  s.update field fun e =>
    let interval :=
      if failed || s.transceiveActive then e.max
      else if changed then e.min
      else Nat.min (e.interval * 2) e.max
    { e with interval, due := now + interval, polledAt := now }

/-- Notes that the rig reports on its own. -/
def noteTransceive (s : PollSchedule) : PollSchedule := { s with transceiveActive := true }

end PollSchedule

end HamsOpen.Rig
