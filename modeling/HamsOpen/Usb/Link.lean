import HamsOpen.Lib.Loop
import HamsOpen.Usb.Wire

/-!
# The USB link serves requests

A supervisor owns the open device, takes the requests out of the bytes that the actor writes,
performs them one at a time and writes the replies back, until the device is lost.
-/

namespace HamsOpen.Usb

abbrev Duration := ℕ

/-- Why one transfer failed. -/
inductive UsbFailure where
  | timeout
  | noDevice
  | stall
  | other (detail : String)
  deriving DecidableEq

/-- One open USB device: its transfers over its state `δ`. -/
structure UsbDevice (δ : Type) where
  controlIn : Byte → Byte → UInt16 → UInt16 → UInt16 → Duration → δ →
    Except UsbFailure (List Byte) × δ
  controlOut : Byte → Byte → UInt16 → UInt16 → List Byte → Duration → δ → Except UsbFailure ℕ × δ
  bulkWrite : Byte → List Byte → Duration → δ → Except UsbFailure ℕ × δ
  bulkRead : Byte → ℕ → Duration → δ → Except UsbFailure (List Byte) × δ
  interruptWrite : Byte → List Byte → Duration → δ → Except UsbFailure ℕ × δ
  interruptRead : Byte → ℕ → Duration → δ → Except UsbFailure (List Byte) × δ

def statusOf : UsbFailure → UsbStatus
  | .timeout => .timeout
  | .noDevice => .noDevice
  | .stall => .stall
  | .other _ => .other

/-- The reply to a write. One that moves fewer bytes than it was given is no success. -/
def wrote (result : Except UsbFailure ℕ) (wanted : ℕ) : UsbStatus × List Byte :=
  match result with
  | .ok n => if n = wanted then (.ok, []) else (.other, [])
  | .error failure => (statusOf failure, [])

def read (result : Except UsbFailure (List Byte)) : UsbStatus × List Byte :=
  match result with
  | .ok data => (.ok, data)
  | .error failure => (statusOf failure, [])

section Serve

variable {δ : Type} (device : UsbDevice δ) (timeout : Duration)

/-- Performs a transfer: its reply, and the device after it. -/
def execute (t : UsbTransfer) (s : δ) : UsbReply × δ :=
  let reply (r : UsbStatus × List Byte) (s : δ) : UsbReply × δ := (⟨t.op, r.1, r.2⟩, s)
  match t with
  | .controlIn requestType request value index length =>
    let (result, s) := device.controlIn requestType request value index length timeout s
    reply (read result) s
  | .controlOut requestType request value index data =>
    let (result, s) := device.controlOut requestType request value index data timeout s
    reply (wrote result data.length) s
  | .bulkWrite endpoint data =>
    let (result, s) := device.bulkWrite endpoint data timeout s
    reply (wrote result data.length) s
  | .bulkRead endpoint length =>
    let (result, s) := device.bulkRead endpoint length.toNat timeout s
    reply (read result) s
  | .interruptWrite endpoint data =>
    let (result, s) := device.interruptWrite endpoint data timeout s
    reply (wrote result data.length) s
  | .interruptRead endpoint length =>
    let (result, s) := device.interruptRead endpoint length.toNat timeout s
    reply (read result) s
  | .interruptExchange outEndpoint inEndpoint data readLength =>
    let (result, s) := device.interruptWrite outEndpoint data timeout s
    match wrote result data.length with
    | (.ok, _) =>
      let (result, s) := device.interruptRead inEndpoint readLength.toNat timeout s
      reply (read result) s
    | failed => reply failed s

/-- What the supervisor has at hand. -/
structure Serving (δ : Type) where
  device : δ
  /-- Bytes of the actor that are not yet served. -/
  pending : List Byte
  /-- The reply frames sent to the actor, in order. -/
  toActor : List (List Byte)
  deriving DecidableEq

/-- A reply is sent; one that says the device is gone is the last. -/
def Serving.reply (s : Serving δ) (r : UsbReply) : Serving δ ⊕ Option String × Serving δ :=
  let s := { s with toActor := s.toActor ++ [r.encode] }
  if r.status = .noDevice then .inr (some "device is gone", { s with pending := [] }) else .inl s

theorem Serving.pending_of_reply {s t : Serving δ} {r : UsbReply} (h : s.reply r = .inl t) :
    t.pending = s.pending := by
  unfold Serving.reply at h
  split at h
  · cases h
  · exact (congrArg Serving.pending (Sum.inl.inj h)).symm

/-- Performs every complete request among the pending bytes; says why when the device was lost. -/
def serve : Loop (Serving δ) (Option String × Serving δ) where
  body s := match UsbTransfer.decode s.pending with
    | .ok (t, used) =>
      let (r, dev) := execute device timeout t s.device
      { s with device := dev, pending := s.pending.drop used }.reply r
    | .error .incomplete => .inr (none, s)
    -- Out of step with the actor: the garbage is dropped, and the reply says so.
    | .error .malformed => { s with pending := [] }.reply ⟨0, .other, []⟩
  size s := s.pending.length
  shrinks {s t} h := by
    split at h
    next u used hdecode =>
      obtain ⟨-, hpos, hle⟩ := UsbTransfer.decode_ok hdecode []
      rw [Serving.pending_of_reply h, List.length_drop]
      omega
    · cases h
    next hdecode =>
      rw [Serving.pending_of_reply h]
      apply List.length_pos_of_ne_nil
      intro hnil
      rw [hnil] at hdecode
      cases hdecode

/-- One open device: the actor's writes are served in their order, until the device is lost. -/
def session : List (List Byte) → Serving δ → Option String × Serving δ
  | [], s => (none, s)
  | bytes :: writes, s =>
    match (serve device timeout).run { s with pending := s.pending ++ bytes } with
    | (some why, s) => (some why, s)
    | (none, s) => session writes s

/-- Transfers performed one after the other until the device is lost: whether it was lost, the
replies and the device. -/
def answers : List UsbTransfer → δ → Bool × List UsbReply × δ
  | [], s => (false, [], s)
  | t :: ts, s =>
    let (r, s) := execute device timeout t s
    if r.status = .noDevice then (true, [r], s)
    else
      let (lost, replies, s) := answers ts s
      (lost, r :: replies, s)

/-- A supervisor that has answered so much, with `rest` at hand: a lost device leaves nothing. -/
def finished (toActor : List (List Byte)) (rest : List Byte) :
    Bool × List UsbReply × δ → Option String × Serving δ
  | (true, replies, s) => (some "device is gone", ⟨s, [], toActor ++ replies.map UsbReply.encode⟩)
  | (false, replies, s) => (none, ⟨s, rest, toActor ++ replies.map UsbReply.encode⟩)

/-! ### What is answered -/

variable {device timeout} {ts us : List UsbTransfer} {s : δ} {pending rest : List Byte}
  {toActor : List (List Byte)}

theorem answers_append : answers device timeout (ts ++ us) s =
    match answers device timeout ts s with
    | (true, replies, s') => (true, replies, s')
    | (false, replies, s') =>
      let (lost, replies', s'') := answers device timeout us s'
      (lost, replies ++ replies', s'') := by
  induction ts generalizing s with
  | nil => exact rfl
  | cons t ts ih =>
    simp only [List.cons_append, answers]
    split
    · exact rfl
    · rw [ih]
      generalize answers device timeout ts (execute device timeout t s).2 = answered
      obtain ⟨lost, replies, s'⟩ := answered
      cases lost <;> rfl

/-- While the device is there, each transfer is performed once and in order, and answered. -/
theorem answers_kept (h : (answers device timeout ts s).1 = false) :
    (answers device timeout ts s).2.1.length = ts.length ∧
      (answers device timeout ts s).2.2 = ts.foldl (fun s t => (execute device timeout t s).2) s := by
  induction ts generalizing s with
  | nil => exact ⟨rfl, rfl⟩
  | cons t ts ih =>
    simp only [answers] at h ⊢
    split at h
    · cases h
    next hkept =>
      obtain ⟨hlength, hdevice⟩ := ih h
      rw [if_neg hkept]
      exact ⟨congrArg (· + 1) hlength, hdevice⟩

/-! ### Serving a stream -/

/-- Serving performs the requests that are read off the pending bytes and keeps the others. -/
theorem serve_reads (h : UsbTransfer.scanner.Reads pending ts rest) :
    (serve device timeout).run ⟨s, pending, toActor⟩ =
      finished toActor rest (answers device timeout ts s) := by
  induction h generalizing s toActor with
  | @wait pending hmore =>
    have hdecode := decode_of_more hmore
    rw [Loop.run_of_break (r := (none, ⟨s, pending, toActor⟩)) (by simp only [serve, hdecode])]
    simp [answers, finished]
  | @item pending t used ts rest hitem _ ih =>
    have hdecode := decode_of_item hitem
    simp only [answers]
    by_cases hlost : (execute device timeout t s).1.status = .noDevice
    · rw [if_pos hlost, Loop.run_of_break (r := (some "device is gone",
        ⟨(execute device timeout t s).2, [], toActor ++ [(execute device timeout t s).1.encode]⟩))
        (by simp only [serve, hdecode, Serving.reply, hlost, if_true])]
      exact rfl
    · rw [if_neg hlost, Loop.run_of_next (t := ⟨(execute device timeout t s).2, pending.drop used,
        toActor ++ [(execute device timeout t s).1.encode]⟩)
        (by simp only [serve, hdecode, Serving.reply, hlost, if_false]), ih]
      generalize answers device timeout ts (execute device timeout t s).2 = answered
      obtain ⟨lost, replies, s'⟩ := answered
      cases lost <;> simp [finished]

/-- A session answers the requests that are read off the actor's writes. -/
theorem session_readsAll {writes : List (List Byte)}
    (h : UsbTransfer.scanner.ReadsAll pending writes ts rest) :
    session device timeout writes ⟨s, pending, toActor⟩ =
      finished toActor rest (answers device timeout ts s) := by
  induction h generalizing s toActor with
  | nil => simp [session, answers, finished]
  | @cons pending bytes mid rest writes ts us hreads _ ih =>
    simp only [session, serve_reads hreads, answers_append]
    generalize answers device timeout ts s = answered
    obtain ⟨lost, replies, s'⟩ := answered
    cases lost with
    | true => exact rfl
    | false =>
      simp only [finished, ih]
      generalize answers device timeout us s' = answered
      obtain ⟨lost, replies', s''⟩ := answered
      cases lost <;> simp

end Serve

/-- Frames whose data and read lengths fit are read back and leave what follows them, their strict
prefixes are incomplete, and a session whose actor writes requests in any pieces performs each of
them once and in order until one finds the device gone. -/
theorem wire_protocol {ts : List UsbTransfer} {rs : List UsbReply} (hts : ∀ t ∈ ts, t.Fits)
    (hrs : ∀ r ∈ rs, r.Fits) :
    (∀ t ∈ ts, (∀ rest, ∃ used, UsbTransfer.decode (t.encode ++ rest) = .ok (t, used) ∧
        (t.encode ++ rest).drop used = rest) ∧
      ∀ p, p <+: t.encode → p ≠ t.encode → UsbTransfer.decode p = .error .incomplete) ∧
    (∀ r ∈ rs, (∀ rest, ∃ used, UsbReply.decode (r.encode ++ rest) = .ok (r, used) ∧
        (r.encode ++ rest).drop used = rest) ∧
      ∀ p, p <+: r.encode → p ≠ r.encode → UsbReply.decode p = .error .incomplete) ∧
    ∀ {δ : Type} (device : UsbDevice δ) (timeout : Duration) (s : δ) (writes : List (List Byte)),
      writes.flatten = (ts.map UsbTransfer.encode).flatten →
      session device timeout writes ⟨s, [], []⟩ =
        finished [] [] (answers device timeout ts s) ∧
      ((answers device timeout ts s).1 = false →
        (answers device timeout ts s).2.1.length = ts.length ∧
        (answers device timeout ts s).2.2 =
          ts.foldl (fun s t => (execute device timeout t s).2) s) := by
  have hencodes : List.Forall₂ UsbTransfer.scanner.Encodes (ts.map UsbTransfer.encode) ts := by
    rw [List.forall₂_map_left_iff, List.forall₂_same]
    intro t ht
    exact UsbTransfer.encodes (hts t ht)
  refine ⟨fun t ht => ⟨fun rest => ?_, fun p => UsbTransfer.decode_prefix (hts t ht)⟩,
    fun r hr => ⟨fun rest => ?_, fun p => UsbReply.decode_prefix (hrs r hr)⟩,
    fun device timeout s writes hwrites => ⟨session_readsAll ?_, answers_kept⟩⟩
  · exact ⟨_, UsbTransfer.decode_encode (hts t ht) rest, List.drop_left⟩
  · exact ⟨_, UsbReply.decode_encode (hrs r hr) rest, List.drop_left⟩
  · exact Scanner.readsAll_of_encodes hencodes hwrites

/-- A device that is gone from its first transfer on, and the endpoints written to. -/
def goneDevice : UsbDevice (List Byte) where
  controlIn _ _ _ _ _ _ s := (.error .noDevice, s)
  controlOut _ _ _ _ _ _ s := (.error .noDevice, s)
  bulkWrite endpoint _ _ s := (.error .noDevice, s ++ [endpoint])
  bulkRead _ _ _ s := (.error .noDevice, s)
  interruptWrite endpoint _ _ s := (.error .noDevice, s ++ [endpoint])
  interruptRead _ _ _ s := (.error .noDevice, s)

/-- One request, one reply, and the request written in two pieces. -/
theorem wire_protocol_one :
    session goneDevice 1000 [[3, 1, 0, 0, 0], [0, 0, 1, 0, 7]] ⟨[], [], []⟩ =
      finished [] [] (answers goneDevice 1000 [.bulkWrite 1 [7]] []) ∧
    UsbReply.decode [3, 0, 0] = .error .incomplete := by
  have hall := @wire_protocol [.bulkWrite 1 [7]] [⟨3, .ok, []⟩] (by decide) (by decide)
  exact ⟨(hall.2.2 goneDevice 1000 [] _ (by decide)).1,
    (hall.2.1 _ (.head _)).2 _ (by decide) (by decide)⟩

/-- A request that follows one that loses the device is not performed. -/
theorem lost_device_unserved : ∃ (ts : List UsbTransfer) (writes : List (List Byte)),
    (∀ t ∈ ts, t.Fits) ∧ writes.flatten = (ts.map UsbTransfer.encode).flatten ∧
      ts = [.bulkWrite 1 [], .bulkWrite 2 []] ∧
      (session goneDevice 1000 writes ⟨[], [], []⟩).2.device = [1] :=
  ⟨[.bulkWrite 1 [], .bulkWrite 2 []], [[3, 1, 0, 0, 0, 0, 0, 0, 0, 3, 2, 0, 0, 0, 0, 0, 0, 0]],
    by decide, by decide, rfl, by decide +kernel⟩

end HamsOpen.Usb
