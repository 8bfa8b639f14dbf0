import HamsOpen.StationIo.LogBook
import HamsOpen.StationIo.Outputs
import HamsOpen.StationIo.Reports
import Mathlib.Data.List.GetD
import Mathlib.Data.Rat.Defs

/-!
# What the host reads of the logs

The host asks for the latest entries of the release log and of the edge log, and takes the answers
apart, as `hams_fx2.py` does. Both logs count their entries modulo 256, and the counter alone says
how many entries an answer has.
-/

namespace HamsOpen.StationIo

/-! ### What the host makes of the answers -/

/-- A slot of the edge log, as it is sent. -/
def slotOctets (e : EdgeSlot) : List U8 := [e.pl] ++ put16 e.ms ++ put16 e.sub

/-- An entry of the release log, as it is sent. -/
def entryOctets (e : EventEntry) : List U8 := [e.reason, e.chan] ++ put16 e.ms

namespace Board

def ioFillEdges (b : Board) : List U8 := b.log.count :: b.log.latest.flatMap slotOctets

/-- The answer to a vendor request. -/
def answer (r : Request) (b : Board) : Reply :=
  if r.bm = 0xC0 ∧ r.req = 0x08 then r.send (b.ioFillEdges.map some)
  else (b.engine.vendorRequest r).1

end Board

/-- The requests of the host for the two logs. -/
def eventsRequest : Request := ⟨0xC0, 0x07, 0, 0, 64⟩
def edgesRequest : Request := ⟨0xC0, 0x08, 0, 0, 64⟩

/-- The bytes of an answer, if they are all told. -/
def Reply.bytes : Reply → Option (List U8)
  | .record octets => octets.mapM id
  | _ => none

/-- A byte of an answer. -/
def byte (d : List U8) (i : ℕ) : U8 := d.getD i 0

/-- Two bytes of an answer, the low byte first. -/
def word (d : List U8) (i : ℕ) : ℕ := (byte d i).toNat ||| (byte d (i + 1)).toNat <<< 8

/-- The release count modulo 256, and the reason, channel and time of each release. -/
def getEvents (d : List U8) : Option (U8 × List (U8 × U8 × ℕ)) :=
  d.head?.map fun count =>
    let n := (d.length - 1) / 4
    (count, (List.range n).map fun i =>
      (byte d (1 + 4 * i), byte d (2 + 4 * i), word d (3 + 4 * i)))

/-- The edge count modulo 256, and the channel, level and time of each edge. The time is computed
in a number format, which rounds the quotient and the sum. -/
def getEdges (round : ℚ → ℚ) (d : List U8) : Option (U8 × List (U8 × U8 × ℚ)) :=
  d.head?.map fun count =>
    let n := (d.length - 1) / 5
    (count, (List.range n).map fun i =>
      let o := 1 + 5 * i
      (byte d o &&& 0x0F, byte d o >>> 4,
        round ((word d (o + 1) : ℚ) + round ((word d (o + 3) : ℚ) / 4000))))

/-! ### Taking an answer apart -/

section Answers

variable {α : Type} {octets : α → List U8} {size : ℕ}

theorem flatMap_length (hsize : ∀ a, (octets a).length = size) (l : List α) :
    (l.flatMap octets).length = size * l.length := by
  induction l with
  | nil => rfl
  | cons a l ih =>
    rw [List.flatMap_cons, List.length_append, hsize, ih, List.length_cons, Nat.mul_succ,
      Nat.add_comm]

/-- The number of entries is told from the length of an answer. -/
theorem entries_of_length (hsize : ∀ a, (octets a).length = size) (hpos : 0 < size) (count : U8)
    (l : List α) : ((count :: l.flatMap octets).length - 1) / size = l.length := by
  rw [List.length_cons, Nat.add_sub_cancel, flatMap_length hsize, Nat.mul_div_cancel_left _ hpos]

/-- A byte of an entry stands behind the entries before it. -/
theorem byte_flatMap (hsize : ∀ a, (octets a).length = size) {l : List α} {i j : ℕ}
    (hi : i < l.length) (hj : j < size) :
    byte (l.flatMap octets) (size * i + j) = byte (octets l[i]) j := by
  induction l generalizing i with
  | nil => exact absurd hi (Nat.not_lt_zero i)
  | cons a l ih =>
    rw [List.flatMap_cons]
    cases i with
    | zero =>
      have hlt : size * 0 + j < (octets a).length := by
        rw [hsize]
        omega
      rw [byte, List.getD_append _ _ _ _ hlt, Nat.mul_zero, Nat.zero_add]
      rfl
    | succ i =>
      have hle : (octets a).length ≤ size * (i + 1) + j := by
        rw [hsize, Nat.mul_succ]
        omega
      have hrest : size * (i + 1) + j - (octets a).length = size * i + j := by
        rw [hsize, Nat.mul_succ]
        omega
      rw [byte, List.getD_append_right _ _ _ _ hle, hrest]
      exact ih (Nat.lt_of_succ_lt_succ hi)

/-- The entries stand behind the count. -/
theorem byte_entry (hsize : ∀ a, (octets a).length = size) (count : U8) {l : List α} {i j : ℕ}
    (hi : i < l.length) (hj : j < size) :
    byte (count :: l.flatMap octets) (1 + size * i + j) = byte (octets l[i]) j := by
  have hnumber : 1 + size * i + j = size * i + j + 1 := by omega
  rw [byte, hnumber, List.getD_cons_succ]
  exact byte_flatMap hsize hi hj

end Answers

/-- A 16-bit value is read as it was sent. -/
theorem word_put16 (v : U16) :
    (BitVec.truncate 8 v).toNat ||| ((BitVec.truncate 8 (v >>> 8)).toNat <<< 8) = v.toNat := by
  have hlow : (BitVec.truncate 8 v).toNat < 2 ^ 8 := (BitVec.truncate 8 v).isLt
  rw [Nat.or_comm, ← Nat.shiftLeft_add_eq_or_of_lt hlow, Nat.shiftLeft_eq]
  have hv := v.isLt
  simp only [BitVec.truncate_eq_setWidth, BitVec.toNat_setWidth, BitVec.toNat_ushiftRight,
    Nat.shiftRight_eq_div_pow]
  omega

theorem entryOctets_length (e : EventEntry) : (entryOctets e).length = 4 := rfl

theorem slotOctets_length (e : EdgeSlot) : (slotOctets e).length = 5 := rfl

/-- Reading the entries one after the other. -/
theorem map_range_length {α β : Type} {l : List α} {g : ℕ → β} {f : α → β}
    (h : ∀ (i : ℕ) (hi : i < l.length), g i = f l[i]) : (List.range l.length).map g = l.map f := by
  apply List.ext_getElem
  · rw [List.length_map, List.length_range, List.length_map]
  · intro i hi hi'
    rw [List.getElem_map, List.getElem_map, List.getElem_range]
    exact h i (by simpa using hi')

/-- An entry of the release log, as the host reads it. -/
def EventEntry.read (e : EventEntry) : U8 × U8 × ℕ := (e.reason, e.chan, e.ms.toNat)

/-- A slot of the edge log, as the host reads it. -/
def EdgeSlot.read (round : ℚ → ℚ) (e : EdgeSlot) : U8 × U8 × ℚ :=
  (e.pl &&& 0x0F, e.pl >>> 4, round ((e.ms.toNat : ℚ) + round ((e.sub.toNat : ℚ) / 4000)))

/-- The releases are read as they were sent. -/
theorem getEvents_record (count : U8) (l : List EventEntry) :
    getEvents (count :: l.flatMap entryOctets) =
      some (count, l.map EventEntry.read) := by
  simp only [getEvents, List.head?_cons, Option.map_some,
    entries_of_length entryOctets_length (by decide)]
  refine congrArg (fun es => some (count, es)) (map_range_length ?_)
  intro i hi
  have hbyte (j : ℕ) (hj : j < 4) := byte_entry entryOctets_length count hi hj
  have h0 : byte (count :: l.flatMap entryOctets) (1 + 4 * i) = l[i].reason :=
    hbyte 0 (by decide)
  have h1 : byte (count :: l.flatMap entryOctets) (2 + 4 * i) = l[i].chan := by
    rw [Nat.add_right_comm 1 1]
    exact hbyte 1 (by decide)
  have h2 : word (count :: l.flatMap entryOctets) (3 + 4 * i) = l[i].ms.toNat := by
    rw [word, Nat.add_right_comm 1 2, Nat.add_assoc _ 2 1, hbyte 2 (by decide), hbyte 3 (by decide)]
    exact word_put16 l[i].ms
  rw [h0, h1, h2]
  rfl

/-- The edges are read as they were sent. -/
theorem getEdges_record (round : ℚ → ℚ) (count : U8) (l : List EdgeSlot) :
    getEdges round (count :: l.flatMap slotOctets) =
      some (count, l.map (EdgeSlot.read round)) := by
  simp only [getEdges, List.head?_cons, Option.map_some,
    entries_of_length slotOctets_length (by decide)]
  refine congrArg (fun es => some (count, es)) (map_range_length ?_)
  intro i hi
  have hbyte (j : ℕ) (hj : j < 5) := byte_entry slotOctets_length count hi hj
  have h0 : byte (count :: l.flatMap slotOctets) (1 + 5 * i) = l[i].pl := hbyte 0 (by decide)
  have h1 : word (count :: l.flatMap slotOctets) (1 + 5 * i + 1) = l[i].ms.toNat := by
    rw [word, Nat.add_assoc _ 1 1, hbyte 1 (by decide), hbyte 2 (by decide)]
    exact word_put16 l[i].ms
  have h3 : word (count :: l.flatMap slotOctets) (1 + 5 * i + 3) = l[i].sub.toNat := by
    rw [word, Nat.add_assoc _ 3 1, hbyte 3 (by decide), hbyte 4 (by decide)]
    exact word_put16 l[i].sub
  rw [h0, h1, h3]
  rfl

/-! ### What the board answers -/

/-- The counter of a log, which counts modulo 256, does not hide entries that the log keeps. -/
def Unwrapped (total : ℕ) : Prop := total < 256 ∨ 8 ≤ total % 256

instance : DecidablePred Unwrapped := fun _ => inferInstanceAs (Decidable (_ ∨ _))

section Logs

variable {α β : Type} {r : RingLog 8 3 α} {log : List β} {entry : β → α} {octets : α → List U8}
  {size : ℕ}

/-- A record is of the latest eight entries as long as the counter hides none. -/
theorem record_iff (h : r.Holds (log.map entry)) (hsize : ∀ a, (octets a).length = size)
    (hpos : 0 < size) : r.count :: r.latest.flatMap octets =
      BitVec.ofNat 8 log.length :: ((log.take 8).map entry).flatMap octets ↔
    Unwrapped log.length := by
  have hiff := h.latest_iff (by decide)
  rw [List.length_map, ← List.map_take] at hiff
  constructor
  · intro heq
    have hlen := congrArg List.length (List.tail_eq_of_cons_eq heq)
    rw [flatMap_length hsize, flatMap_length hsize] at hlen
    have hlatest := h.latest_eq_take (by decide) (n := 8) (by
      rw [← List.map_take]
      exact Nat.eq_of_mul_eq_mul_left hpos hlen)
    exact hiff.mp (hlatest.trans List.map_take.symm)
  · intro hunwrapped
    rw [h.count, hiff.mpr hunwrapped, List.length_map]
    rfl

/-- The host asks for enough bytes to get the whole record. -/
theorem send_record (hsize : ∀ a, (octets a).length = size) (hle : size ≤ 7) {req : Request}
    (hlength : req.length = 64) : req.send ((r.count :: r.latest.flatMap octets).map some) =
      .record ((r.count :: r.latest.flatMap octets).map some) := by
  have hlatest : r.latest.length ≤ 8 := by
    rw [RingLog.latest, List.length_map, List.length_range]
    exact Nat.min_le_right _ _
  have hshort : ((r.count :: r.latest.flatMap octets).map some).length ≤ req.length.toNat := by
    rw [hlength, List.length_map, List.length_cons, flatMap_length hsize]
    have hmul := Nat.mul_le_mul hle hlatest
    exact Nat.succ_le_succ (Nat.le_trans hmul (by decide))
  rw [Request.send, List.take_of_length_le hshort]

end Logs

/-- All bytes of the answer are told. -/
theorem bytes_record (d : List U8) : (Reply.record (d.map some)).bytes = some d := by
  have htold : d.mapM some = some d := by
    induction d with
    | nil => rfl
    | cons b d ih => rw [List.mapM_cons, ih]; rfl
  rw [Reply.bytes, List.mapM_map]
  exact htold

namespace Board

/-- The release log is reported: the latest eight releases and how many there were modulo 256, in
the answer of the board and for the host. -/
structure EventsTold (b : Board) : Prop where
  answer : b.answer eventsRequest = .record ((BitVec.ofNat 8 b.released.length ::
    ((b.released.take 8).map NotedRelease.entry).flatMap entryOctets).map some)
  host : (b.answer eventsRequest).bytes.bind getEvents = some (BitVec.ofNat 8 b.released.length,
    (b.released.take 8).map fun r => (r.reason.code, BitVec.ofNat 8 r.chan.val, r.time % 65536))

/-- The edge log is reported: the latest eight edges and how many there were modulo 256, in the
answer of the board and for the host. -/
structure EdgesTold (round : ℚ → ℚ) (b : Board) : Prop where
  answer : b.answer edgesRequest = .record ((BitVec.ofNat 8 b.edged.length ::
    ((b.edged.take 8).map NotedEdge.slot).flatMap slotOctets).map some)
  host : (b.answer edgesRequest).bytes.bind (getEdges round) =
    some (BitVec.ofNat 8 b.edged.length, (b.edged.take 8).map fun e =>
      (BitVec.ofNat 8 e.edge.chan.val, e.edge.level.code,
        round (((e.time % 65536 : ℕ) : ℚ) + round ((e.reading.sub.toNat : ℚ) / 4000))))

theorem answer_events (b : Board) : b.answer eventsRequest = .record
    ((b.engine.logs.events.count :: b.engine.logs.events.latest.flatMap entryOctets).map some) := by
  have hrecord : b.engine.ioFillEvents =
      (b.engine.logs.events.count :: b.engine.logs.events.latest.flatMap entryOctets).map some := by
    rw [Engine.ioFillEvents, List.map_cons, List.map_flatMap]
    rfl
  have hanswer : b.answer eventsRequest = eventsRequest.send b.engine.ioFillEvents := rfl
  rw [hanswer, hrecord]
  exact send_record entryOctets_length (by decide) rfl

theorem answer_edges (b : Board) : b.answer edgesRequest =
    .record ((b.log.count :: b.log.latest.flatMap slotOctets).map some) := by
  have hanswer : b.answer edgesRequest = edgesRequest.send (b.ioFillEdges.map some) := rfl
  rw [hanswer]
  exact send_record slotOctets_length (by decide) rfl

theorem record_inj {d d' : List U8} :
    Reply.record (d.map some) = .record (d'.map some) ↔ d = d' := by
  rw [Reply.record.injEq, List.map_inj_right fun _ _ h => Option.some.inj h]

/-- The board answers what its engine does, where the engine tells a byte at all, as long as the
timer is not ahead of the clock. -/
theorem Kept.ioFillEdges {b : Board} (h : b.Kept)
    (hpending : ∀ e ∈ b.edged, e.reading.pending = false) :
    List.Forall₂ (fun o x => ∀ y ∈ o, y = x) b.engine.ioFillEdges b.ioFillEdges := by
  have hcount : b.engine.logs.edges.count = b.log.count := by
    rw [h.edges.count, h.log.count, List.length_map, List.length_map]
  have hengine := h.edges.latest_eq (by decide)
  have hlog := h.log.latest_eq (by decide)
  rw [List.length_map, ← List.map_take] at hengine hlog
  have hall (l : List NotedEdge) (hl : ∀ e ∈ l, e.reading.pending = false) :
      List.Forall₂ (fun o x => ∀ y ∈ o, y = x)
        ((l.map fun e => e.edge.entry).flatMap Engine.edgeOctets)
        ((l.map NotedEdge.slot).flatMap slotOctets) := by
    induction l with
    | nil => exact .nil
    | cons e l ih =>
      have htime : e.time = e.edge.time := by
        rw [NotedEdge.time, hl e List.mem_cons_self]
        rfl
      rw [List.map_cons, List.map_cons, List.flatMap_cons, List.flatMap_cons]
      refine List.rel_append ?_ (ih fun e he => hl e (List.mem_cons_of_mem _ he))
      simp [Engine.edgeOctets, slotOctets, Edge.entry, NotedEdge.slot, put16, htime]
  rw [Engine.ioFillEdges, Board.ioFillEdges, hengine, hlog]
  refine .cons ?_ (hall _ fun e he => hpending e (List.mem_of_mem_take he))
  simp [hcount]

theorem Kept.eventsTold_iff {b : Board} (h : b.Kept) :
    b.EventsTold ↔ Unwrapped b.released.length := by
  have hiff := record_iff h.events entryOctets_length (by decide)
  constructor
  · intro htold
    have hanswer := htold.answer
    rw [b.answer_events, record_inj] at hanswer
    exact hiff.mp hanswer
  · intro hunwrapped
    have hanswer := b.answer_events
    rw [hiff.mpr hunwrapped] at hanswer
    refine ⟨hanswer, ?_⟩
    rw [hanswer, bytes_record, Option.bind_some, getEvents_record, List.map_map]
    refine congrArg (fun es => some (BitVec.ofNat 8 b.released.length, es)) ?_
    apply List.map_congr_left
    intro r _
    simp [NotedRelease.entry, EventEntry.read]

/-- The host tells the channel and the level of a slot apart. -/
theorem read_slot (round : ℚ → ℚ) (e : NotedEdge) :
    e.slot.read round = (BitVec.ofNat 8 e.edge.chan.val, e.edge.level.code,
      round (((e.time % 65536 : ℕ) : ℚ) + round ((e.reading.sub.toNat : ℚ) / 4000))) := by
  have hpl (c : Ch) (lvl : Level) :
      (BitVec.ofNat 8 c.val ||| lvl.code <<< 4) &&& 0x0F = BitVec.ofNat 8 c.val ∧
        (BitVec.ofNat 8 c.val ||| lvl.code <<< 4) >>> 4 = lvl.code := by
    revert c
    cases lvl <;> decide
  rw [EdgeSlot.read, NotedEdge.slot, (hpl _ _).1, (hpl _ _).2, BitVec.toNat_ofNat]

theorem Kept.edgesTold_iff {b : Board} (h : b.Kept) (round : ℚ → ℚ) :
    b.EdgesTold round ↔ Unwrapped b.edged.length := by
  have hiff := record_iff h.log slotOctets_length (by decide)
  constructor
  · intro htold
    have hanswer := htold.answer
    rw [b.answer_edges, record_inj] at hanswer
    exact hiff.mp hanswer
  · intro hunwrapped
    have hanswer := b.answer_edges
    rw [hiff.mpr hunwrapped] at hanswer
    refine ⟨hanswer, ?_⟩
    rw [hanswer, bytes_record, Option.bind_some, getEdges_record, List.map_map]
    refine congrArg (fun es => some (BitVec.ofNat 8 b.edged.length, es)) ?_
    apply List.map_congr_left
    intro e _
    exact read_slot round e

end Board

/-! ### A line that is keyed again and again -/

namespace Engine

variable {s : Engine} {st : St} {lvl : Level}

/-- The entry of a ptt line on pin 0, active high and without a keyline. -/
def lineEntry : Entry := ⟨.ptt, .low, true, none, none, 5000, 0, 0, 0⟩

/-- Loads that line, and sends a good heartbeat. -/
def loadLine : List Input :=
  [.request 0x40 0x10 0 0, .request 0x40 0x11 0x0100 0x0C, .request 0x40 0x14 0 0,
    .request 0xC0 0x06 1 0]

/-- A key-down and a key-up of that line, and a millisecond. -/
def keyCycle : List Input := [.request 0x40 0x15 0 1, .request 0x40 0x15 0 0, .tick]

/-- That line alone is mapped, and its channel is in a phase and at a level. -/
structure Line (st : St) (lvl : Level) (s : Engine) : Prop where
  valid : s.mapState = .valid
  alive : s.alive = true
  hbTimeout : s.hbTimeout = 2000
  hbT : s.hbT = BitVec.ofNat 16 0
  entry : (s.ch 0).toEntry = lineEntry
  st : (s.ch 0).st = st
  lastlvl : (s.ch 0).lastlvl = some lvl
  other : (s.ch 1).func = .none

theorem pinLevel_releases {c : Ch} : (s.pinLevel c lvl).releases = s.releases := by
  unfold pinLevel
  split
  · rfl
  · cases s.leaves c lvl <;> cases lvl <;> rfl

theorem Line.down (h : s.Line .idle .low) :
    (next s (.request 0x40 0x15 0 1)).Line .on .high ∧
      (next s (.request 0x40 0x15 0 1)).ms = s.ms ∧
      (next s (.request 0x40 0x15 0 1)).releases = s.releases := by
  have hkeyed : (s.ch 0).keyed = false := by simp [Chan.keyed, h.st]
  have hmin : (s.ch 0).minOff.toNat = 0 := by rw [h.entry]; rfl
  have hnone : (s.ch 0).partner = none := by rw [h.entry]; rfl
  have hprimary : (s.ch 0).isPrimary = true := by rw [h.entry]; rfl
  have hnext : next s (.request 0x40 0x15 0 1) = s.keyDown 0 := by
    have hkey : next s (.request 0x40 0x15 0 1) = (s.ioKey 0 1).2 := rfl
    have hpin : boardPinChannel 0 = some 0 := rfl
    rw [hkey, ioKey, if_neg (by simp [h.valid]), hpin]
    simp [hprimary, hkeyed, h.alive, h.st, hmin]
  have hdown : s.keyDown 0 = (s.markKey 0).lineOn 0 := by
    have hmark : ((s.markKey 0).ch 0).partner = none := by simp [markKey, setCh, hnone]
    simp only [keyDown, hmark]
  rw [hnext, hdown]
  refine ⟨⟨?_, ?_, ?_, ?_, ?_, ?_, ?_, ?_⟩, ?_, ?_⟩
  all_goals simp [lineOn, setCh, pinActive, markKey, h.valid, h.alive, h.hbTimeout, h.hbT, h.entry,
    h.other, pinLevel_releases, Entry.active, lineEntry]
  rfl

theorem Line.up (h : s.Line .on .high) :
    (next s (.request 0x40 0x15 0 0)).Line .idle .low ∧
      (next s (.request 0x40 0x15 0 0)).ms = s.ms ∧
      (next s (.request 0x40 0x15 0 0)).releases = (.host, 0) :: s.releases := by
  have hkeyed : (s.ch 0).keyed = true := by simp [Chan.keyed, h.st]
  have hnone : (s.ch 0).partner = none := by rw [h.entry]; rfl
  have hsafe : (s.ch 0).safe = .low := by rw [h.entry]; rfl
  have hprimary : (s.ch 0).isPrimary = true := by rw [h.entry]; rfl
  have hnext : next s (.request 0x40 0x15 0 0) = s.keyUp 0 := by
    have hkey : next s (.request 0x40 0x15 0 0) = (s.ioKey 0 0).2 := rfl
    have hpin : boardPinChannel 0 = some 0 := rfl
    rw [hkey, ioKey, if_neg (by simp [h.valid]), hpin]
    simp [hprimary]
  rw [hnext, keyUp, if_pos hkeyed]
  simp only [keylineOff, logRelease, stampOff, setCh, pinSafe, hsafe, pinLevel_ch,
    Function.update_self, hnone]
  refine ⟨⟨?_, ?_, ?_, ?_, ?_, ?_, ?_, ?_⟩, ?_, ?_⟩
  all_goals simp [pinSafe?, h.valid, h.alive, h.hbTimeout, h.hbT, h.entry, h.other,
    pinLevel_releases]

/-- At a tick nothing but the off time of the line is looked at. -/
theorem Line.tick (h : s.Line .idle .low) (hms : s.ms + 1 < 2000) :
    (next s .tick).Line .idle .low ∧ (next s .tick).ms = s.ms + 1 ∧
      (next s .tick).releases = s.releases := by
  have hprimary : (s.ch 0).isPrimary = true := by rw [h.entry]; rfl
  have hother : (s.ch 1).isPrimary = false := by simp [Entry.isPrimary, h.other]
  let u : Engine := { s with ms := s.ms + 1 }
  have hserve : ∃ b, u.serveOff 0 = u.setCh 0 fun ch => { ch with offValid := b } := by
    unfold serveOff
    split
    · exact ⟨false, rfl⟩
    · exact ⟨(s.ch 0).offValid, by simp [setCh, u]⟩
  obtain ⟨b, hserve⟩ := hserve
  have hticks : u.forCh tickChan = u.setCh 0 fun ch => { ch with offValid := b } := by
    have hst : ((u.serveOff 0).ch 0).st = .idle := by simp [hserve, setCh, u, h.st]
    have h0 : u.tickChan 0 = u.serveOff 0 := by
      rw [tickChan, if_pos hprimary, advance, hst]
    have h1 : ((u.serveOff 0).ch 1).isPrimary = false := by simp [hserve, setCh, u, hother]
    rw [forCh_two, h0, tickChan, if_neg (by simp [h1]), hserve]
  have hnext : next s .tick = u.setCh 0 fun ch => { ch with offValid := b } := by
    have htick : next s .tick = (u.forCh tickChan).checkLapse := if_neg (by simp [h.valid])
    rw [htick, hticks, checkLapse, if_neg]
    rintro ⟨-, hle⟩
    have hle : s.hbTimeout.toNat ≤ Wrap.elapsed (BitVec.ofNat 16 (s.ms + 1)) s.hbT := hle
    have htimeout : (2000 : U16).toNat = 2000 := rfl
    rw [h.hbTimeout, h.hbT, Wrap.elapsed_ofNat (Nat.zero_le _) (by omega), htimeout] at hle
    omega
  rw [hnext]
  refine ⟨⟨h.valid, h.alive, h.hbTimeout, h.hbT, ?_, ?_, ?_, ?_⟩, rfl, rfl⟩
  all_goals simp [setCh, u, h.entry, h.st, h.lastlvl, h.other]

/-- Each cycle releases the line once. -/
theorem Line.cycles (n : ℕ) (h : s.Line .idle .low) (hms : s.ms + n < 2000) :
    (((List.replicate n keyCycle).flatten).foldl next s).releases.length =
      s.releases.length + n := by
  induction n generalizing s with
  | zero => rfl
  | succ n ih =>
    obtain ⟨hdown, hdownMs, hdownReleases⟩ := h.down
    obtain ⟨hup, hupMs, hupReleases⟩ := hdown.up
    obtain ⟨htick, htickMs, htickReleases⟩ := hup.tick (by omega)
    rw [List.replicate_succ, List.flatten_cons, List.foldl_append]
    have hrest := ih htick (by omega)
    rw [htickReleases, hupReleases, hdownReleases, List.length_cons] at hrest
    exact hrest.trans (by omega)

theorem line_loadLine : (after loadLine).Line .idle .low := by
  refine ⟨rfl, rfl, rfl, rfl, rfl, rfl, rfl, rfl⟩

end Engine

/-- A line is keyed that often. -/
def keyedOften (n : ℕ) : List Input :=
  Engine.loadLine ++ (List.replicate n Engine.keyCycle).flatten

theorem released_keyedOften (timer : ℕ → Reading) {n : ℕ} (hn : n < 2000) :
    (Board.after timer (keyedOften n)).released.length = n := by
  have hkept : (Board.after timer (keyedOften n)).Kept :=
    kept_of_reachable (Board.reachable_after _ _)
  have hms : (Engine.after Engine.loadLine).ms = 0 := rfl
  have hcycles := Engine.line_loadLine.cycles n (by omega)
  have hreleases := congrArg List.length hkept.releases
  rw [List.length_map, Board.after_engine, keyedOften, Engine.after, List.foldl_append] at hreleases
  exact (hreleases.trans hcycles).trans (Nat.zero_add n)

/-- After every run, each log is answered and read by the host with its latest eight entries if and
only if fewer than 256 were logged, or at least eight since the counter last wrapped. -/
theorem logs_told_iff {timer : ℕ → Reading} {b : Board} (h : (board timer).Reachable b)
    (round : ℚ → ℚ) : (b.EventsTold ↔ Unwrapped b.released.length) ∧
      (b.EdgesTold round ↔ Unwrapped b.edged.length) :=
  ⟨(kept_of_reachable h).eventsTold_iff, (kept_of_reachable h).edgesTold_iff round⟩

/-- After seven releases the host is told of all of them. -/
theorem logs_told_seven :
    (Board.after (fun _ => ⟨false, 0⟩) (keyedOften 7)).released.length = 7 ∧
      (Board.after (fun _ => ⟨false, 0⟩) (keyedOften 7)).EventsTold := by
  have hlength : (Board.after (fun _ => ⟨false, 0⟩) (keyedOften 7)).released.length = 7 :=
    released_keyedOften _ (by decide)
  have hiff := logs_told_iff (Board.reachable_after (fun _ => ⟨false, 0⟩) (keyedOften 7)) id
  refine ⟨hlength, hiff.1.mpr ?_⟩
  rw [hlength]
  decide

/-- After 256 releases of a line the host is told of none. -/
theorem releases_hidden :
    (Board.after (fun _ => ⟨false, 0⟩) (keyedOften 256)).released.length = 256 ∧
      ((Board.after (fun _ => ⟨false, 0⟩) (keyedOften 256)).answer eventsRequest).bytes.bind
        getEvents = some (0, []) ∧
      ¬ (Board.after (fun _ => ⟨false, 0⟩) (keyedOften 256)).EventsTold := by
  have hlength : (Board.after (fun _ => ⟨false, 0⟩) (keyedOften 256)).released.length = 256 :=
    released_keyedOften _ (by decide)
  have hkept : (Board.after (fun _ => ⟨false, 0⟩) (keyedOften 256)).Kept :=
    kept_of_reachable (Board.reachable_after _ _)
  generalize Board.after (fun _ => ⟨false, 0⟩) (keyedOften 256) = b at hlength hkept ⊢
  refine ⟨hlength, ?_, ?_⟩
  · have hcount := hkept.events.count
    have hlatest := hkept.events.latest_eq (by decide)
    rw [List.length_map, hlength] at hcount hlatest
    rw [b.answer_events, bytes_record, Option.bind_some, getEvents_record, hlatest, hcount]
    rfl
  · rw [hkept.eventsTold_iff, hlength]
    decide

end HamsOpen.StationIo
