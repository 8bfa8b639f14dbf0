import HamsOpen.Lib.Loop
import HamsOpen.Net.Link
import HamsOpen.Ws.Frame
import Mathlib

/-!
# Frames with a length before them

A radio may wrap its stream in frames: a length of two or four bytes, the high one first, and that
many bytes. Every write of the actor becomes one frame, and the payload of every complete frame that
was heard is passed up. A length over the limit is a failure, since the stream is out of step.
-/

namespace HamsOpen.Net

open Ws (toBeBytes fromBeBytes)

/-- The largest frame that is accepted. -/
def MAX_FRAME : ℕ := 1 <<< 20

/-- The most that is heard at once, as a datagram. -/
def UDP_READ : ℕ := 65536

structure LengthFraming where
  /-- The bytes of the length. -/
  width : ℕ
  pending : List UInt8
  two_or_four : width = 2 ∨ width = 4
  deriving DecidableEq

/-- What is passed up of the bytes heard, and why the stream is out of step. -/
structure Unwrapped where
  payload : List UInt8
  failure : Option String
  deriving DecidableEq

/-- The frame at the front of the bytes heard. A length over the limit is none, whatever follows. -/
def frame (width : ℕ) (pending : List UInt8) : Scan (List UInt8) ℕ :=
  if pending.length < width then .more
  else
    let len := fromBeBytes (pending.take width)
    if MAX_FRAME < len then .bad len
    else if pending.length < width + len then .more
    else .item ((pending.take (width + len)).drop width) (width + len)

section Frame

variable {width len : ℕ} {pending payload : List UInt8}

theorem frame_short (h : pending.length < width) : frame width pending = .more := by
  rw [frame, if_pos h]

/-- The frame of bytes that hold a length. -/
theorem frame_header (h : width ≤ pending.length) (hlen : fromBeBytes (pending.take width) = len) :
    frame width pending = if MAX_FRAME < len then .bad len
      else if pending.length < width + len then .more
      else .item ((pending.take (width + len)).drop width) (width + len) := by
  rw [frame, if_neg (Nat.not_lt.mpr h), hlen]

/-- Bytes that wait for more hold no length, or one within the limit and a part of its frame. -/
theorem frame_more (h : frame width pending = .more) :
    pending.length < width ∨ fromBeBytes (pending.take width) ≤ MAX_FRAME ∧
      pending.length < width + fromBeBytes (pending.take width) := by
  by_cases hshort : pending.length < width
  · exact .inl hshort
  · rw [frame_header (Nat.not_lt.mp hshort) rfl] at h
    split at h
    · cases h
    next hlimit =>
      split at h
      next hpart => exact .inr ⟨Nat.not_lt.mp hlimit, hpart⟩
      · cases h

theorem frame_bad (h : frame width pending = .bad len) :
    width ≤ pending.length ∧ fromBeBytes (pending.take width) = len ∧ MAX_FRAME < len := by
  by_cases hshort : pending.length < width
  · rw [frame_short hshort] at h
    cases h
  · rw [frame_header (Nat.not_lt.mp hshort) rfl] at h
    split at h
    next hlimit =>
      obtain rfl := Scan.bad.inj h
      exact ⟨Nat.not_lt.mp hshort, rfl, hlimit⟩
    · split at h <;> cases h

theorem frame_item {n : ℕ} (h : frame width pending = .item payload n) :
    n = width + fromBeBytes (pending.take width) ∧ n ≤ pending.length ∧
      fromBeBytes (pending.take width) ≤ MAX_FRAME ∧ payload = (pending.take n).drop width := by
  by_cases hshort : pending.length < width
  · rw [frame_short hshort] at h
    cases h
  · rw [frame_header (Nat.not_lt.mp hshort) rfl] at h
    split at h
    · cases h
    next hlimit =>
      split at h
      · cases h
      next hpart =>
        obtain ⟨rfl, rfl⟩ := Scan.item.inj h
        exact ⟨rfl, Nat.not_lt.mp hpart, Nat.not_lt.mp hlimit, rfl⟩

end Frame

/-- A round of `decode`, as a scanner. -/
def frames (width : ℕ) (hpos : 0 < width) : Scanner UInt8 (List UInt8) ℕ where
  scan := frame width
  scan_nil := frame_short hpos
  used_pos h := by
    have hn := (frame_item h).1
    omega
  used_le h := (frame_item h).2.1
  item_append {bs payload n} cs h := by
    obtain ⟨hn, hle, hlimit, rfl⟩ := frame_item h
    have hwidth : width ≤ bs.length := by omega
    have htake : (bs ++ cs).take width = bs.take width := List.take_append_of_le_length hwidth
    rw [frame_header (by rw [List.length_append]; omega) (congrArg fromBeBytes htake), ← hn,
      if_neg (Nat.not_lt.mpr hlimit), if_neg (by rw [List.length_append]; omega),
      List.take_append_of_le_length hle]
  bad_append {bs len} cs h := by
    obtain ⟨hwidth, rfl, hlimit⟩ := frame_bad h
    have htake : (bs ++ cs).take width = bs.take width := List.take_append_of_le_length hwidth
    rw [frame_header (by rw [List.length_append]; omega) (congrArg fromBeBytes htake),
      if_pos hlimit]

namespace LengthFraming

/-- A framing with a length of `width` bytes: two or four, and anything else is made four. -/
def new (width : ℕ) : LengthFraming where
  width := if width = 2 then 2 else 4
  pending := []
  two_or_four := by split <;> simp

variable (s : LengthFraming)

theorem width_pos : 0 < s.width := by
  have h := s.two_or_four
  omega

def reset : LengthFraming := { s with pending := [] }

/-- A length too large for the field is written as the largest one. -/
def encode (payload : List UInt8) : List UInt8 :=
  let len := payload.length
  toBeBytes s.width (if len < 256 ^ s.width then len else 256 ^ s.width - 1) ++ payload

/-- The rounds of `decode`, over the bytes at hand and what is passed up so far. -/
def unwrapping (width : ℕ) (hpos : 0 < width) :
    Loop (List UInt8 × List UInt8) (Unwrapped × List UInt8) where
  body r := match frame width r.1 with
    | .more => .inr (⟨r.2, none⟩, r.1)
    | .bad len => .inr (⟨r.2, some s!"frame of {len} bytes is over the limit"⟩, [])
    | .item body used => .inl (r.1.drop used, r.2 ++ body)
  size r := r.1.length
  shrinks {r t} h := by
    split at h
    · cases h
    · cases h
    next body used hitem =>
      obtain rfl := Sum.inl.inj h
      have hused := (frames width hpos).used_pos hitem
      have hle := (frames width hpos).used_le hitem
      rw [List.length_drop]
      omega

/-- The frames of what was heard; a part of one is kept. -/
def decode (wire : List UInt8) : Unwrapped × LengthFraming :=
  let (out, pending) := (unwrapping s.width s.width_pos).run (s.pending ++ wire, [])
  (out, { s with pending })

/-- What is made of a stream that is heard in pieces, piece by piece. -/
def decodeAll : LengthFraming → List (List UInt8) → List Unwrapped × LengthFraming
  | s, [] => ([], s)
  | s, wire :: wires =>
    let (out, s) := s.decode wire
    let (outs, s) := decodeAll s wires
    (out :: outs, s)

/-- The hooks of a link whose radio wraps its stream in such frames. -/
def framing : Framing LengthFraming where
  reset := reset
  greeting s := ([], s)
  needsHandshake _ := false
  encode s payload := (s.encode payload, s)
  decode s wire :=
    let (out, s) := s.decode wire
    (⟨out.payload, [], false, out.failure.isSome⟩, s)
  keepalive _ := none
  keepaliveSent := id

/-- The largest payload: one that its length can be written for, and that is accepted. -/
def limit : ℕ := min (256 ^ s.width - 1) MAX_FRAME

end LengthFraming

/-! ### What is passed up -/

section Unwrapping

variable {width : ℕ} {hpos : 0 < width} {bytes rest bad out : List UInt8}
  {payloads : List (List UInt8)} {len : ℕ}

/-- Frames that are read are passed up, and what is left waits. -/
theorem unwrapping_reads (h : (frames width hpos).Reads bytes payloads rest) :
    (LengthFraming.unwrapping width hpos).run (bytes, out) =
      (⟨out ++ payloads.flatten, none⟩, rest) := by
  induction h generalizing out with
  | @wait bytes hmore =>
    have hframe : frame width bytes = .more := hmore
    rw [Loop.run_of_break (r := (⟨out, none⟩, bytes))
      (by simp only [LengthFraming.unwrapping, hframe])]
    simp
  | @item bytes body used payloads rest hitem _ ih =>
    have hframe : frame width bytes = .item body used := hitem
    rw [Loop.run_of_next (t := (bytes.drop used, out ++ body))
      (by simp only [LengthFraming.unwrapping, hframe]), ih]
    simp

/-- A length over the limit is reported, after the frames before it, and nothing is kept. -/
theorem unwrapping_fails (h : (frames width hpos).Fails bytes payloads bad len) :
    (LengthFraming.unwrapping width hpos).run (bytes, out) =
      (⟨out ++ payloads.flatten, some s!"frame of {len} bytes is over the limit"⟩, []) := by
  induction h generalizing out with
  | @bad bytes len hbad =>
    have hframe : frame width bytes = .bad len := hbad
    rw [Loop.run_of_break
      (r := (⟨out, some s!"frame of {len} bytes is over the limit"⟩, []))
      (by simp only [LengthFraming.unwrapping, hframe])]
    simp
  | @item bytes body used payloads bad len hitem _ ih =>
    have hframe : frame width bytes = .item body used := hitem
    rw [Loop.run_of_next (t := (bytes.drop used, out ++ body))
      (by simp only [LengthFraming.unwrapping, hframe]), ih]
    simp

end Unwrapping

namespace LengthFraming

variable {s t : LengthFraming} {wire rest bad : List UInt8} {wires payloads : List (List UInt8)}
  {len : ℕ}

/-- The frames of this width. -/
abbrev scanner (s : LengthFraming) : Scanner UInt8 (List UInt8) ℕ := frames s.width s.width_pos

theorem decode_reads (h : s.scanner.Reads (s.pending ++ wire) payloads rest) :
    s.decode wire = (⟨payloads.flatten, none⟩, { s with pending := rest }) := by
  simp only [decode, unwrapping_reads h, List.nil_append]

theorem decode_fails (h : s.scanner.Fails (s.pending ++ wire) payloads bad len) :
    s.decode wire = (⟨payloads.flatten, some s!"frame of {len} bytes is over the limit"⟩,
      s.reset) := by
  simp only [decode, unwrapping_fails h, List.nil_append, reset]

/-- A stream that is read in pieces fails nowhere, and the payloads are passed up in order. -/
theorem decodeAll_reads (h : s.scanner.ReadsAll s.pending wires payloads rest) :
    (∀ out ∈ (s.decodeAll wires).1, out.failure = none) ∧
      ((s.decodeAll wires).1.map Unwrapped.payload).flatten = payloads.flatten ∧
      (s.decodeAll wires).2 = { s with pending := rest } := by
  obtain ⟨width, left, hwidth⟩ := s
  change (frames width _).ReadsAll left wires payloads rest at h
  induction h with
  | nil => exact ⟨List.forall_mem_nil _, rfl, rfl⟩
  | @cons left wire mid rest wires payloads payloads' hreads _ ih =>
    have hdecode := decode_reads (s := ⟨width, left, hwidth⟩) hreads
    obtain ⟨hnone, hpayload, hstate⟩ := ih
    simp only [decodeAll, hdecode]
    refine ⟨List.forall_mem_cons.mpr ⟨rfl, hnone⟩, ?_, hstate⟩
    rw [List.map_cons, List.flatten_cons, hpayload, List.flatten_append]

/-- What is at hand waits for more. -/
def Waits (s : LengthFraming) : Prop := s.scanner.scan s.pending = .more

theorem waits_new (width : ℕ) : (new width).Waits := (new width).scanner.scan_nil

/-- After every call what is at hand waits for more, also after a failure. -/
theorem waits_decode (s : LengthFraming) (wire : List UInt8) : (s.decode wire).2.Waits := by
  obtain ⟨payloads, rest, h⟩ | ⟨payloads, bad, len, h⟩ :=
    s.scanner.reads_or_fails (s.pending ++ wire)
  · rw [decode_reads h]
    exact h.waits
  · rw [decode_fails h]
    exact s.scanner.scan_nil

theorem waits_decodeAll (h : s.Waits) (wires : List (List UInt8)) :
    (s.decodeAll wires).2.Waits := by
  induction wires generalizing s with
  | nil => exact h
  | cons wire wires ih => exact ih (s.waits_decode wire)

theorem decodeAll_width (s : LengthFraming) (wires : List (List UInt8)) :
    (s.decodeAll wires).2.width = s.width := by
  induction wires generalizing s with
  | nil => rfl
  | cons wire wires ih => exact (ih (s.decode wire).2).trans rfl

/-- A payload within the limit is read back from its frame, whatever follows it. -/
theorem encodes {payload : List UInt8} (h : payload.length ≤ s.limit) :
    s.scanner.Encodes (s.encode payload) payload := by
  intro cs
  have hlimit : payload.length ≤ MAX_FRAME := Nat.le_trans h (Nat.min_le_right _ _)
  have hfield : payload.length ≤ 256 ^ s.width - 1 := Nat.le_trans h (Nat.min_le_left _ _)
  have hpow : 0 < 256 ^ s.width := Nat.pow_pos (by decide)
  have hlt : payload.length < 256 ^ s.width := by omega
  have hencode : s.encode payload = toBeBytes s.width payload.length ++ payload := by
    rw [encode, if_pos hlt]
  have hlen : (s.encode payload).length = s.width + payload.length := by
    rw [hencode, List.length_append, Ws.length_toBeBytes]
  have htake : (s.encode payload ++ cs).take s.width = toBeBytes s.width payload.length := by
    rw [hencode, List.append_assoc, List.take_left' (Ws.length_toBeBytes _ _)]
  have hheader : fromBeBytes ((s.encode payload ++ cs).take s.width) = payload.length := by
    rw [htake, Ws.fromBeBytes_toBeBytes, Nat.mod_eq_of_lt hlt]
  have hwhole : (s.encode payload ++ cs).length = s.width + payload.length + cs.length := by
    rw [List.length_append, hlen]
  change frame s.width _ = _
  rw [frame_header (by omega) hheader, if_neg (Nat.not_lt.mpr hlimit), if_neg (by omega), ← hlen,
    List.take_left' rfl, hencode, List.drop_left' (Ws.length_toBeBytes _ _)]

/-- A length over the limit is no frame, whatever follows it. -/
theorem scan_over (hlen : len < 256 ^ s.width) (hlimit : MAX_FRAME < len) :
    s.scanner.scan (toBeBytes s.width len ++ rest) = .bad len := by
  have hheader : fromBeBytes ((toBeBytes s.width len ++ rest).take s.width) = len := by
    rw [List.take_left' (Ws.length_toBeBytes _ _), Ws.fromBeBytes_toBeBytes, Nat.mod_eq_of_lt hlen]
  have hwidth : s.width ≤ (toBeBytes s.width len ++ rest).length := by
    rw [List.length_append, Ws.length_toBeBytes]
    omega
  change frame s.width _ = _
  rw [frame_header hwidth hheader, if_pos hlimit]

theorem forall₂_encodes (h : ∀ payload ∈ payloads, payload.length ≤ s.limit) :
    List.Forall₂ s.scanner.Encodes (payloads.map s.encode) payloads := by
  rw [List.forall₂_map_left_iff, List.forall₂_same]
  intro payload hpayload
  exact encodes (h payload hpayload)

/-- The calls that hear a part of some frames pass up the complete ones, and keep a strict prefix of
the next one. -/
theorem decodeAll_prefix {width : ℕ} {later : List UInt8}
    (h : ∀ payload ∈ payloads, payload.length ≤ (new width).limit)
    (hpre : wires.flatten ++ later = (payloads.map (new width).encode).flatten) :
    ∃ n left, (∀ out ∈ ((new width).decodeAll wires).1, out.failure = none) ∧
      (((new width).decodeAll wires).1.map Unwrapped.payload).flatten =
        (payloads.take n).flatten ∧
      ((new width).decodeAll wires).2 = { new width with pending := left } ∧
      wires.flatten = ((payloads.take n).map (new width).encode).flatten ++ left ∧
      (left = [] ∨ ∃ payload, payloads[n]? = some payload ∧
        left <+: (new width).encode payload ∧ left ≠ (new width).encode payload) := by
  obtain ⟨n, left, hwires, hreads, hleft⟩ :=
    Scanner.exists_reads_of_prefix (forall₂_encodes h) hpre
  have hall : (new width).scanner.ReadsAll [] wires (payloads.take n) left :=
    Scanner.Reads.readsAll (new width).scanner.scan_nil hreads
  obtain ⟨hnone, hpayload, hstate⟩ := decodeAll_reads (s := new width) hall
  refine ⟨n, left, hnone, hpayload, hstate, by rw [hwires, List.map_take], ?_⟩
  obtain hnil | ⟨enc, henc, hpre, hne⟩ := hleft
  · exact .inl hnil
  · rw [List.getElem?_map, Option.map_eq_some_iff] at henc
    obtain ⟨payload, hpayload, rfl⟩ := henc
    exact .inr ⟨payload, hpayload, hpre, hne⟩

/-- The call that hears the last byte of a length over the limit reports it, after the frames before
it, and keeps nothing. -/
theorem decode_over {width : ℕ} {later : List UInt8}
    (h : ∀ payload ∈ payloads, payload.length ≤ (new width).limit)
    (hlimit : MAX_FRAME < len) (hlen : len < 256 ^ (new width).width)
    (hstream : wires.flatten ++ wire ++ later = (payloads.map (new width).encode).flatten ++
      (toBeBytes (new width).width len ++ rest))
    (hbefore : wires.flatten.length <
      (payloads.map (new width).encode).flatten.length + (new width).width)
    (hafter : (payloads.map (new width).encode).flatten.length + (new width).width ≤
      (wires.flatten ++ wire).length) :
    (∀ out ∈ ((new width).decodeAll wires).1, out.failure = none) ∧
      ((new width).decodeAll wires).2.decode wire =
        (⟨(((new width).decodeAll wires).2.decode wire).1.payload,
          some s!"frame of {len} bytes is over the limit"⟩, new width) ∧
      (((new width).decodeAll wires).1.map Unwrapped.payload).flatten ++
        (((new width).decodeAll wires).2.decode wire).1.payload = payloads.flatten := by
  -- The bytes heard so far are the frames, the length and something after it.
  have hheader : (payloads.map (new width).encode).flatten ++ toBeBytes (new width).width len <+:
      wires.flatten ++ wire := by
    have hframes : (payloads.map (new width).encode).flatten ++
        toBeBytes (new width).width len <+: wires.flatten ++ wire ++ later :=
      ⟨rest, by rw [hstream, List.append_assoc]⟩
    apply List.prefix_of_prefix_length_le hframes
    · exact List.prefix_append _ _
    · rw [List.length_append, Ws.length_toBeBytes]
      exact hafter
  obtain ⟨x, hx⟩ := hheader
  rw [List.append_assoc] at hx
  have hfails : (new width).scanner.Fails (wires.flatten ++ wire) payloads
      (toBeBytes (new width).width len ++ x) len := by
    rw [← hx]
    exact .of_encodes (forall₂_encodes h) (scan_over hlen hlimit)
  have hlength := congrArg List.length hx
  simp only [List.length_append, Ws.length_toBeBytes] at hlength
  obtain ⟨as, left, hreads⟩ | ⟨as, bad, e, hbad⟩ :=
    (new width).scanner.reads_or_fails wires.flatten
  · obtain ⟨as', hfails', rfl⟩ := hfails.of_reads hreads
    obtain ⟨hnone, hpayload, hstate⟩ := decodeAll_reads (s := new width)
      (Scanner.Reads.readsAll (new width).scanner.scan_nil hreads)
    have hdecode := decode_fails (s := { new width with pending := left }) hfails'
    rw [hstate, hdecode, hpayload]
    exact ⟨hnone, rfl, List.flatten_append.symm⟩
  · -- A failure before holds the length already, and the calls before have not heard it all.
    obtain ⟨-, heq, -⟩ := (hbad.append wire).unique hfails
    have hwidth := (frame_bad (hbad.scan_eq)).1
    have hsplit := congrArg List.length heq
    simp only [List.length_append, Ws.length_toBeBytes] at hsplit
    exact absurd hwidth (by omega)

end LengthFraming

open LengthFraming in
/-- Payloads within the limit of their length field are passed up in order, whatever the pieces in
which their frames are heard. No call fails, and what is kept after each is a strict prefix of one
frame. A length over the limit that follows them fails in the call that hears its last byte, while
fewer bytes of its frame are at hand than it says, and nothing is kept of it. After any calls
whatever, what is kept is less than a length, or less than a frame within the limit. -/
theorem length_framing (width : ℕ) {payloads : List (List UInt8)}
    (hfit : ∀ payload ∈ payloads, payload.length ≤ (new width).limit) :
    let s := new width
    let stream := (payloads.map s.encode).flatten
    (∀ wires : List (List UInt8), wires.flatten = stream →
      (∀ out ∈ (s.decodeAll wires).1, out.failure = none) ∧
      ((s.decodeAll wires).1.map Unwrapped.payload).flatten = payloads.flatten ∧
      (s.decodeAll wires).2 = s) ∧
    (∀ (wires : List (List UInt8)) (later : List UInt8), wires.flatten ++ later = stream →
      ∃ n left, (∀ out ∈ (s.decodeAll wires).1, out.failure = none) ∧
        ((s.decodeAll wires).1.map Unwrapped.payload).flatten = (payloads.take n).flatten ∧
        (s.decodeAll wires).2 = { s with pending := left } ∧
        wires.flatten = ((payloads.take n).map s.encode).flatten ++ left ∧
        (left = [] ∨ ∃ payload, payloads[n]? = some payload ∧
          left <+: s.encode payload ∧ left ≠ s.encode payload)) ∧
    (∀ (len : ℕ) (rest : List UInt8) (wires : List (List UInt8)) (wire later : List UInt8),
      MAX_FRAME < len → len < 256 ^ s.width →
      wires.flatten ++ wire ++ later = stream ++ (toBeBytes s.width len ++ rest) →
      wires.flatten.length < stream.length + s.width →
      stream.length + s.width ≤ (wires.flatten ++ wire).length →
      let heard := s.decodeAll wires
      let (out, after) := heard.2.decode wire
      (∀ out ∈ heard.1, out.failure = none) ∧
      out.failure = some s!"frame of {len} bytes is over the limit" ∧
      (heard.1.map Unwrapped.payload).flatten ++ out.payload = payloads.flatten ∧ after = s ∧
      (wire.length ≤ UDP_READ → (wires.flatten ++ wire).length < stream.length + len)) ∧
    ∀ wires : List (List UInt8),
      let pending := (s.decodeAll wires).2.pending
      pending.length < s.width ∨ fromBeBytes (pending.take s.width) ≤ MAX_FRAME ∧
        pending.length < s.width + fromBeBytes (pending.take s.width) := by
  intro s stream
  refine ⟨?whole, ?part, ?beyond, ?any⟩
  case whole =>
    intro wires hwires
    have hall : s.scanner.ReadsAll [] wires payloads [] :=
      Scanner.readsAll_of_encodes (forall₂_encodes hfit) hwires
    exact decodeAll_reads (s := s) hall
  case part =>
    intro wires later hpre
    exact decodeAll_prefix hfit hpre
  case beyond =>
    intro len rest wires wire later hlimit hlen hstream hbefore hafter
    obtain ⟨hnone, hdecode, hpayload⟩ := decode_over hfit hlimit hlen hstream hbefore hafter
    refine ⟨hnone, congrArg (fun r => r.1.failure) hdecode, hpayload, congrArg Prod.snd hdecode, ?_⟩
    intro hread
    have hwidth : s.width ≤ 4 := by
      obtain h | h := s.two_or_four <;> omega
    simp only [MAX_FRAME, UDP_READ, List.length_append] at *
    omega
  case any =>
    intro wires
    have hwaits := waits_decodeAll (waits_new width) wires
    have hmore := frame_more hwaits
    rw [decodeAll_width] at hmore
    exact hmore

open LengthFraming in
/-- Two frames heard in three pieces, and a length over the limit after the first one. -/
theorem length_framing_pieces :
    ((new 2).decodeAll [[0], [2, 104], [105, 0, 0]]).2 = new 2 ∧
      (((new 4).decodeAll [[0, 0, 0, 0, 0xff]]).2.decode [0xff, 0, 0, 7]).2 = new 4 := by
  have htwo : ∀ payload ∈ ([[104, 105], []] : List (List UInt8)),
      payload.length ≤ (new 2).limit := by decide
  have hone : ∀ payload ∈ ([[]] : List (List UInt8)), payload.length ≤ (new 4).limit := by decide
  constructor
  · exact ((length_framing 2 htwo).1 _ (by decide)).2.2
  · exact ((length_framing 4 hone).2.2.1 0xffff0000 [7] [[0, 0, 0, 0, 0xff]] [0xff, 0, 0, 7] []
      (by decide) (by decide) (by decide) (by decide) (by decide)).2.2.2.1

end HamsOpen.Net
