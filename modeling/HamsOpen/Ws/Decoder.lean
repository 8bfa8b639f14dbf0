import HamsOpen.Lib.Loop
import HamsOpen.Ws.Frame

/-!
# WebSocket messages out of a byte stream

A decoder takes frames out of the bytes it has received, joins the fragments of a message and gives
each message when its last frame is there, and each control frame at once, also between the
fragments of a message.
-/

namespace HamsOpen.Ws

/-- A whole message or a control frame. -/
structure Message where
  /-- Its type; never `continuation`. -/
  opcode : Opcode
  payload : List Byte
  deriving DecidableEq

/-- A message of which some fragments are there. -/
abbrev Joining := Option (Opcode × List Byte)

/-- Reassembles frames from a byte stream. -/
structure Decoder where
  buffer : List Byte
  joining : Joining
  maxMessage : UInt64
  deriving DecidableEq

/-- A decoder that refuses any message over `maxMessage` bytes. -/
def Decoder.new (maxMessage : UInt64) : Decoder := ⟨[], none, maxMessage⟩

/-- What a frame comes to: a message, or an error, and the message being joined after it. -/
def join (maxMessage : ℕ) (joining : Joining) : Frame → Except Fault (Option Message) × Joining
  | (fin, opcode, payload) =>
    match opcode with
    | .ping | .pong | .close =>
      if fin = false ∨ 125 < payload.length then
        (.error (.refused "a control frame is fragmented or too long"), joining)
      else (.ok (some ⟨opcode, payload⟩), joining)
    | .text | .binary =>
      if joining.isSome then
        (.error (.refused "a new message began inside a fragmented one"), joining)
      else if fin then (.ok (some ⟨opcode, payload⟩), joining)
      else (.ok none, some (opcode, payload))
    | .continuation =>
      -- The message is taken out of the decoder, and put back when it goes on.
      match joining with
      | none => (.error (.refused "a continuation with nothing to continue"), none)
      | some (first, joined) =>
        let joined := joined ++ payload
        if maxMessage < joined.length then (.error (.refused "message too large"), none)
        else if fin then (.ok (some ⟨first, joined⟩), none)
        else (.ok none, some (first, joined))

/-- Takes every complete frame out of the buffer, or stops at an error. -/
def reading : Loop (Decoder × List Message) (Except Fault (List Message) × Decoder) where
  body s := match (frame s.1.maxMessage.toNat).run s.1.buffer with
    | .error e => .inr (.error e, s.1)
    | .ok none => .inr (.ok s.2, s.1)
    | .ok (some (f, used)) =>
      -- Draining more than there is panics.
      if s.1.buffer.length < used then .inr (.error .outOfRange, s.1)
      else
        let (r, joining) := join s.1.maxMessage.toNat s.1.joining f
        let d := { s.1 with buffer := s.1.buffer.drop used, joining := joining }
        match r with
        | .error e => .inr (.error e, d)
        | .ok m => .inl (d, s.2 ++ m.toList)
  size s := s.1.buffer.length
  shrinks {s t} h := by
    have hspec := frame_spec s.1.maxMessage.toNat s.1.buffer
    split at h
    · cases h
    · cases h
    next f used hrun =>
      obtain ⟨⟨hpos, hle⟩, -⟩ := hspec.found hrun
      rw [if_neg (Nat.not_lt.mpr hle)] at h
      dsimp only at h hpos hle
      split at h
      · cases h
      · rw [← Sum.inl.inj h, List.length_drop]
        omega

/-- Adds bytes and gives every message completed, or the error that ends the connection. -/
def Decoder.push (d : Decoder) (bytes : List Byte) : Except Fault (List Message) × Decoder :=
  reading.run ({ d with buffer := d.buffer ++ bytes }, [])

/-- A stream pushed in pieces, up to the first error. -/
def pushAll (d : Decoder) : List (List Byte) → Except Fault (List Message) × Decoder
  | [] => (.ok [], d)
  | bytes :: pieces =>
    match d.push bytes with
    | (.error e, d) => (.error e, d)
    | (.ok ms, d) =>
      let (r, d) := pushAll d pieces
      (r.map (ms ++ ·), d)

/-! ### What frames come to -/

/-- Frames one after the other, up to the first error. -/
def joinAll (maxMessage : ℕ) (joining : Joining) :
    List Frame → Except Fault (List Message) × Joining
  | [] => (.ok [], joining)
  | f :: fs =>
    match join maxMessage joining f with
    | (.error e, joining) => (.error e, joining)
    | (.ok m, joining) =>
      let (r, joining) := joinAll maxMessage joining fs
      (r.map (m.toList ++ ·), joining)

def Opcode.IsControl (opcode : Opcode) : Prop := opcode = .ping ∨ opcode = .pong ∨ opcode = .close

def Opcode.IsData (opcode : Opcode) : Prop := opcode = .text ∨ opcode = .binary

/-- `Carries joining fs ms`: after the fragments `joining` of a message, the frames `fs` carry the
messages `ms`, in the order in which these are complete. A data message is one frame or several,
cut anywhere, and a control frame may stand before any frame. -/
inductive Carries : Joining → List Frame → List Message → Prop
  | nil : Carries none [] []
  | control {joining : Joining} {opcode : Opcode} {payload : List Byte} {fs : List Frame}
      {ms : List Message} : opcode.IsControl → payload.length ≤ 125 → Carries joining fs ms →
      Carries joining ((true, opcode, payload) :: fs) (⟨opcode, payload⟩ :: ms)
  | whole {opcode : Opcode} {payload : List Byte} {fs : List Frame} {ms : List Message} :
      opcode.IsData → Carries none fs ms →
      Carries none ((true, opcode, payload) :: fs) (⟨opcode, payload⟩ :: ms)
  | first {opcode : Opcode} {payload : List Byte} {fs : List Frame} {ms : List Message} :
      opcode.IsData → Carries (some (opcode, payload)) fs ms →
      Carries none ((false, opcode, payload) :: fs) ms
  | middle {opcode : Opcode} {joined payload : List Byte} {fs : List Frame} {ms : List Message} :
      Carries (some (opcode, joined ++ payload)) fs ms →
      Carries (some (opcode, joined)) ((false, .continuation, payload) :: fs) ms
  | last {opcode : Opcode} {joined payload : List Byte} {fs : List Frame} {ms : List Message} :
      Carries none fs ms →
      Carries (some (opcode, joined)) ((true, .continuation, payload) :: fs)
        (⟨opcode, joined ++ payload⟩ :: ms)

section Joining

variable {maxMessage : ℕ} {joining joining' : Joining} {fs gs : List Frame} {ms : List Message}

/-- Frames that come to messages do so part by part. -/
theorem joinAll_append (h : joinAll maxMessage joining (fs ++ gs) = (.ok ms, joining')) :
    ∃ ms₁ ms₂ mid, joinAll maxMessage joining fs = (.ok ms₁, mid) ∧
      joinAll maxMessage mid gs = (.ok ms₂, joining') ∧ ms = ms₁ ++ ms₂ := by
  induction fs generalizing joining ms with
  | nil => exact ⟨[], ms, joining, rfl, h, rfl⟩
  | cons f fs ih =>
    simp only [List.cons_append, joinAll] at h ⊢
    cases hf : join maxMessage joining f with
    | mk r next =>
      rw [hf] at h
      cases r with
      | error e => cases h
      | ok m =>
        dsimp only at h ⊢
        cases hrest : joinAll maxMessage next (fs ++ gs) with
        | mk r last =>
          rw [hrest] at h
          cases r with
          | error e => cases h
          | ok ms' =>
            obtain ⟨hms, rfl⟩ := Prod.mk.inj h
            obtain ⟨ms₁, ms₂, mid, h₁, h₂, rfl⟩ := ih hrest
            refine ⟨m.toList ++ ms₁, ms₂, mid, ?_, h₂, ?_⟩
            · rw [h₁]
              exact rfl
            · rw [List.append_assoc]
              exact (Except.ok.inj hms).symm

namespace Carries

/-- What is joined so far is the beginning of a message that is carried. -/
theorem exists_prefix {opcode : Opcode} {joined : List Byte}
    (h : Carries (some (opcode, joined)) fs ms) : ∃ m ∈ ms, joined <+: m.payload := by
  generalize hjoining : some (opcode, joined) = joining at h
  induction h generalizing joined with
  | nil | whole | first => cases hjoining
  | control _ _ _ ih =>
    obtain ⟨m, hm, hpre⟩ := ih hjoining
    exact ⟨m, .tail _ hm, hpre⟩
  | @middle _ _ payload _ _ _ ih =>
    obtain ⟨rfl, rfl⟩ := Prod.mk.inj (Option.some.inj hjoining)
    obtain ⟨m, hm, hpre⟩ := ih rfl
    exact ⟨m, hm, (List.prefix_append _ payload).trans hpre⟩
  | @last _ _ payload _ _ _ =>
    obtain ⟨rfl, rfl⟩ := Prod.mk.inj (Option.some.inj hjoining)
    exact ⟨_, .head _, List.prefix_append _ payload⟩

/-- No frame has a longer payload than some message that is carried. -/
theorem exists_longer (h : Carries joining fs ms) {f : Frame} (hf : f ∈ fs) :
    ∃ m ∈ ms, f.2.2.length ≤ m.payload.length := by
  induction h with
  | nil => cases hf
  | control _ _ _ ih | whole _ _ ih =>
    rcases List.mem_cons.mp hf with rfl | hf
    · exact ⟨_, .head _, Nat.le_refl _⟩
    · obtain ⟨m, hm, hle⟩ := ih hf
      exact ⟨m, .tail _ hm, hle⟩
  | first _ h ih =>
    rcases List.mem_cons.mp hf with rfl | hf
    · obtain ⟨m, hm, hpre⟩ := h.exists_prefix
      exact ⟨m, hm, hpre.length_le⟩
    · exact ih hf
  | middle h ih =>
    rcases List.mem_cons.mp hf with rfl | hf
    · obtain ⟨m, hm, hpre⟩ := h.exists_prefix
      have hle := hpre.length_le
      rw [List.length_append] at hle
      exact ⟨m, hm, Nat.le_trans (Nat.le_add_left _ _) hle⟩
    · exact ih hf
  | last _ ih =>
    rcases List.mem_cons.mp hf with rfl | hf
    · refine ⟨_, .head _, ?_⟩
      rw [List.length_append]
      exact Nat.le_add_left _ _
    · obtain ⟨m, hm, hle⟩ := ih hf
      exact ⟨m, .tail _ hm, hle⟩

/-- Frames come to the messages they carry, when these are within the limit. -/
theorem joinAll (h : Carries joining fs ms) (hmax : ∀ m ∈ ms, m.payload.length ≤ maxMessage) :
    joinAll maxMessage joining fs = (.ok ms, none) := by
  induction h with
  | nil => exact rfl
  | @control joining opcode payload fs ms hopcode hlen _ ih =>
    have hjoin : join maxMessage joining (true, opcode, payload) =
        (.ok (some ⟨opcode, payload⟩), joining) := by
      have hfine : ¬(true = false ∨ 125 < payload.length) := by simp [hlen]
      rcases hopcode with rfl | rfl | rfl <;> exact if_neg hfine
    simp only [Ws.joinAll, hjoin, ih fun m hm => hmax m (.tail _ hm)]
    exact rfl
  | @whole opcode payload fs ms hopcode _ ih =>
    have hjoin : join maxMessage none (true, opcode, payload) =
        (.ok (some ⟨opcode, payload⟩), none) := by
      rcases hopcode with rfl | rfl <;> exact rfl
    simp only [Ws.joinAll, hjoin, ih fun m hm => hmax m (.tail _ hm)]
    exact rfl
  | @first opcode payload fs ms hopcode _ ih =>
    have hjoin : join maxMessage none (false, opcode, payload) =
        (.ok none, some (opcode, payload)) := by
      rcases hopcode with rfl | rfl <;> exact rfl
    simp only [Ws.joinAll, hjoin, ih hmax]
    exact rfl
  | @middle opcode joined payload fs ms h ih =>
    obtain ⟨m, hm, hpre⟩ := h.exists_prefix
    have hfits : ¬maxMessage < (joined ++ payload).length :=
      Nat.not_lt.mpr (Nat.le_trans hpre.length_le (hmax m hm))
    have hjoin : join maxMessage (some (opcode, joined)) (false, .continuation, payload) =
        (.ok none, some (opcode, joined ++ payload)) := if_neg hfits
    simp only [Ws.joinAll, hjoin, ih hmax]
    exact rfl
  | @last opcode joined payload fs ms _ ih =>
    have hfits : ¬maxMessage < (joined ++ payload).length := Nat.not_lt.mpr (hmax _ (.head _))
    have hjoin : join maxMessage (some (opcode, joined)) (true, .continuation, payload) =
        (.ok (some ⟨opcode, joined ++ payload⟩), none) := if_neg hfits
    simp only [Ws.joinAll, hjoin, ih fun m hm => hmax m (.tail _ hm)]
    exact rfl

end Carries

end Joining

/-! ### Pushing a stream -/

section Push

variable {maxMessage : UInt64} {joining joining' : Joining} {fs : List Frame} {ms : List Message}
  {bytes rest : List Byte}

/-- Reading comes to what the frames of the buffer come to, and leaves the rest of it. -/
theorem reading_reads (h : (scanner maxMessage.toNat).Reads bytes fs rest)
    (hjoin : joinAll maxMessage.toNat joining fs = (.ok ms, joining')) (out : List Message) :
    reading.run (⟨bytes, joining, maxMessage⟩, out) =
      (.ok (out ++ ms), ⟨rest, joining', maxMessage⟩) := by
  induction h generalizing joining ms out with
  | @wait bytes hmore =>
    have hrun := Peek.run_of_more hmore
    obtain ⟨hms, rfl⟩ := Prod.mk.inj hjoin
    obtain rfl := Except.ok.inj hms
    rw [Loop.run_of_break (r := (.ok out, ⟨bytes, joining, maxMessage⟩)) (by simp only [reading, hrun]),
      List.append_nil]
  | @item bytes f used fs rest hitem _ ih =>
    have hrun := Peek.run_of_item hitem
    have hle := (scanner maxMessage.toNat).used_le hitem
    simp only [joinAll] at hjoin
    cases hf : join maxMessage.toNat joining f with
    | mk r next =>
      rw [hf] at hjoin
      cases r with
      | error e => cases hjoin
      | ok m =>
        dsimp only at hjoin
        cases hrest : joinAll maxMessage.toNat next fs with
        | mk r last =>
          rw [hrest] at hjoin
          cases r with
          | error e => cases hjoin
          | ok ms' =>
            obtain ⟨hms, rfl⟩ := Prod.mk.inj hjoin
            obtain rfl := Except.ok.inj hms
            rw [Loop.run_of_next (t := (⟨bytes.drop used, next, maxMessage⟩, out ++ m.toList))
              (by simp only [reading, hrun, if_neg (Nat.not_lt.mpr hle), hf]), ih hrest,
              List.append_assoc]

/-- A stream in any pieces comes to what its frames come to. -/
theorem pushAll_readsAll {pieces : List (List Byte)}
    (h : (scanner maxMessage.toNat).ReadsAll bytes pieces fs rest)
    (hjoin : joinAll maxMessage.toNat joining fs = (.ok ms, joining')) :
    pushAll ⟨bytes, joining, maxMessage⟩ pieces = (.ok ms, ⟨rest, joining', maxMessage⟩) := by
  induction h generalizing joining ms with
  | nil =>
    obtain ⟨hms, rfl⟩ := Prod.mk.inj hjoin
    obtain rfl := Except.ok.inj hms
    exact rfl
  | cons hreads _ ih =>
    obtain ⟨ms₁, ms₂, mid, h₁, h₂, rfl⟩ := joinAll_append hjoin
    simp only [pushAll, Decoder.push, reading_reads hreads h₁, ih h₂, List.nil_append]
    exact rfl

end Push

/-! ### Any stream -/

/-- The message being joined is within the limit. -/
def Decoder.Bounded (d : Decoder) : Prop :=
  ∀ opcode joined, d.joining = some (opcode, joined) → joined.length ≤ d.maxMessage.toNat

theorem Decoder.bounded_new (maxMessage : UInt64) : (Decoder.new maxMessage).Bounded := nofun

/-- A frame within the limit leaves a joined message within it. -/
theorem join_bounded {maxMessage : ℕ} {joining : Joining} {f : Frame}
    (hjoining : ∀ opcode joined, joining = some (opcode, joined) → joined.length ≤ maxMessage)
    (hf : f.2.2.length ≤ maxMessage) (opcode : Opcode) (joined : List Byte)
    (h : (join maxMessage joining f).2 = some (opcode, joined)) : joined.length ≤ maxMessage := by
  obtain ⟨fin, type, payload⟩ := f
  unfold join at h
  dsimp only at h
  split at h
  · split at h <;> exact hjoining _ _ h
  · split at h <;> exact hjoining _ _ h
  · split at h <;> exact hjoining _ _ h
  · split at h
    · exact hjoining _ _ h
    split at h
    · exact hjoining _ _ h
    · obtain ⟨-, rfl⟩ := Prod.mk.inj (Option.some.inj h)
      exact hf
  · split at h
    · exact hjoining _ _ h
    split at h
    · exact hjoining _ _ h
    · obtain ⟨-, rfl⟩ := Prod.mk.inj (Option.some.inj h)
      exact hf
  · split at h
    · cases h
    split at h
    · cases h
    next hfits =>
      split at h
      · cases h
      · obtain ⟨-, rfl⟩ := Prod.mk.inj (Option.some.inj h)
        exact Nat.le_of_not_lt hfits

theorem join_ne_outOfRange (maxMessage : ℕ) (joining : Joining) (f : Frame) :
    (join maxMessage joining f).1 ≠ .error .outOfRange := by
  obtain ⟨fin, opcode, payload⟩ := f
  unfold join
  dsimp only
  split
  iterate 3
    · split <;> nofun
  iterate 2
    · split
      · nofun
      · split <;> nofun
  · split
    · nofun
    split
    · nofun
    · split <;> nofun

/-- Reading panics nowhere and keeps the joined message within the limit. When it ends well, what is
left in the buffer is less than a header and the limit. -/
theorem reading_holds (s : Decoder × List Message) :
    (reading.run s).1 ≠ .error .outOfRange ∧
      (s.1.Bounded → (reading.run s).2.Bounded) ∧
      (reading.run s).2.maxMessage = s.1.maxMessage ∧
      ∀ ms, (reading.run s).1 = .ok ms →
        (reading.run s).2.buffer.length < 14 + s.1.maxMessage.toNat := by
  refine Loop.induct (L := reading) (P := fun s r => r.1 ≠ .error .outOfRange ∧
    (s.1.Bounded → r.2.Bounded) ∧ r.2.maxMessage = s.1.maxMessage ∧
    ∀ ms, r.1 = .ok ms → r.2.buffer.length < 14 + s.1.maxMessage.toNat) ?_ ?_ s
  · intro s r h
    have hspec := frame_spec s.1.maxMessage.toNat s.1.buffer
    simp only [reading] at h
    split at h
    next e hrun =>
      obtain rfl := Sum.inr.inj h
      exact ⟨fun he => hspec.fails hrun (Except.error.inj he), id, rfl, nofun⟩
    next hrun =>
      obtain rfl := Sum.inr.inj h
      exact ⟨nofun, id, rfl, fun _ _ => hspec.waits hrun⟩
    next f used hrun =>
      obtain ⟨⟨hpos, hle⟩, hlen⟩ := hspec.found hrun
      rw [if_neg (Nat.not_lt.mpr hle)] at h
      split at h
      next e hjoin =>
        obtain rfl := Sum.inr.inj h
        refine ⟨fun he => ?_, fun hb => join_bounded hb hlen, rfl, nofun⟩
        exact join_ne_outOfRange _ _ f (hjoin.trans (congrArg _ (Except.error.inj he)))
      · cases h
  · intro s t r h ih
    have hspec := frame_spec s.1.maxMessage.toNat s.1.buffer
    simp only [reading] at h
    split at h
    · cases h
    · cases h
    next f used hrun =>
      obtain ⟨⟨hpos, hle⟩, hlen⟩ := hspec.found hrun
      rw [if_neg (Nat.not_lt.mpr hle)] at h
      split at h
      · cases h
      · obtain rfl := Sum.inl.inj h
        exact ⟨ih.1, fun hb => ih.2.1 (join_bounded hb hlen), ih.2.2⟩

/-- A decoder after a stream pushed in pieces, whatever the pushes gave. -/
def Decoder.after (d : Decoder) (pieces : List (List Byte)) : Decoder :=
  pieces.foldl (fun d bytes => (d.push bytes).2) d

theorem Decoder.after_bounded {d : Decoder} (h : d.Bounded) (pieces : List (List Byte)) :
    (d.after pieces).Bounded ∧ (d.after pieces).maxMessage = d.maxMessage := by
  induction pieces generalizing d with
  | nil => exact ⟨h, rfl⟩
  | cons bytes pieces ih =>
    have hpush := reading_holds ({ d with buffer := d.buffer ++ bytes }, [])
    obtain ⟨hbounded, hmax⟩ := ih (d := (d.push bytes).2) (hpush.2.1 h)
    exact ⟨hbounded, hmax.trans hpush.2.2.1⟩

/-- Messages within the limit come back in order, whatever their frames' masks, however they are cut
in frames and with control frames between these, and in whatever pieces their frames arrive. After
any stream whatever a push ends within a round for each byte, uses no index out of range, and when it
gives messages the decoder holds less than a header and the limit undecoded, and no more than the
limit of the message being joined. -/
theorem codec (maxMessage : UInt64) :
    (∀ (ms : List Message) (fs : List Frame) (encs pieces : List (List Byte)),
      Carries none fs ms → (∀ m ∈ ms, m.payload.length ≤ maxMessage.toNat) →
      List.Forall₂ (fun enc f => ∃ mask, enc = encodeAs f mask) encs fs →
      pieces.flatten = encs.flatten →
      pushAll (.new maxMessage) pieces = (.ok ms, .new maxMessage)) ∧
    ∀ (pieces : List (List Byte)) (bytes : List Byte),
      let d := (Decoder.new maxMessage).after pieces
      (∃ n ≤ d.buffer.length + bytes.length + 1,
        reading.within n ({ d with buffer := d.buffer ++ bytes }, []) = some (d.push bytes)) ∧
      (d.push bytes).1 ≠ .error .outOfRange ∧
      ∀ ms, (d.push bytes).1 = .ok ms →
        (d.push bytes).2.buffer.length < maxMessage.toNat + 14 ∧
        ∀ opcode joined, (d.push bytes).2.joining = some (opcode, joined) →
          joined.length ≤ maxMessage.toNat := by
  refine ⟨fun ms fs encs pieces hcarries hmax hencs hpieces => ?_, fun pieces bytes => ?_⟩
  · have hencodes : List.Forall₂ (scanner maxMessage.toNat).Encodes encs fs := by
      have hle (f : Frame) (hf : f ∈ fs) : f.2.2.length ≤ maxMessage.toNat := by
        obtain ⟨m, hm, hlonger⟩ := hcarries.exists_longer hf
        exact Nat.le_trans hlonger (hmax m hm)
      clear hcarries hpieces
      induction hencs with
      | nil => exact .nil
      | @cons enc f encs fs hmask _ ih =>
        obtain ⟨mask, rfl⟩ := hmask
        have hf := hle f (.head _)
        exact .cons (encodes hf (Nat.lt_of_le_of_lt hf maxMessage.toNat_lt))
          (ih fun g hg => hle g (.tail _ hg))
    exact pushAll_readsAll (Scanner.readsAll_of_encodes hencodes hpieces) (hcarries.joinAll hmax)
  · intro d
    obtain ⟨hbounded, hmax⟩ := Decoder.after_bounded (Decoder.bounded_new maxMessage) pieces
    obtain ⟨hrange, hkeeps, hlimit, hleft⟩ :=
      reading_holds ({ d with buffer := d.buffer ++ bytes }, [])
    have hd : d.maxMessage = maxMessage := hmax
    refine ⟨⟨_, Nat.le_refl _, reading.within_eq ?_⟩, hrange, fun ms hms => ⟨?_, ?_⟩⟩
    · change (d.buffer ++ bytes).length < _
      rw [List.length_append]
      exact Nat.lt_succ_self _
    · have hlt := hleft ms hms
      rw [Nat.add_comm, ← hd]
      exact hlt
    · rw [← hd, ← hlimit]
      exact hkeeps hbounded

/-- A fragmented text with a ping between its fragments, one of them masked. -/
theorem codec_fragmented :
    pushAll (.new 1024) [[0x01], [2, 104, 101, 0x89], [1, 112, 0x80, 0x83, 1, 2], [3, 4, 109, 110, 108]]
      = (.ok [⟨.ping, [112]⟩, ⟨.text, [104, 101, 108, 108, 111]⟩], .new 1024) :=
  (codec 1024).1 _ [(false, .text, [104, 101]), (true, .ping, [112]),
      (true, .continuation, [108, 108, 111])]
    [[0x01, 2, 104, 101], [0x89, 1, 112], [0x80, 0x83, 1, 2, 3, 4, 109, 110, 108]] _
    (.first (.inl rfl) (.control (.inl rfl) (by decide) (.last .nil))) (by decide)
    (.cons ⟨none, rfl⟩ (.cons ⟨none, rfl⟩ (.cons ⟨some ⟨1, 2, 3, 4⟩, rfl⟩ .nil))) rfl

/-- What a decoder holds is not within the limit and a header: it holds a fragment beside the bytes
of the next, and after an error all that it was given. And a control message over 125 bytes is
refused. -/
theorem held_twice :
    (∃ bytes, ((Decoder.new 20).push bytes).1 = .ok [] ∧
      20 + 14 < ((Decoder.new 20).push bytes).2.buffer.length +
        (((Decoder.new 20).push bytes).2.joining.elim [] (·.2)).length) ∧
    (∃ bytes, 20 + 14 < ((Decoder.new 20).push bytes).2.buffer.length) ∧
    ((Decoder.new 200).push (encodeFrame .ping (List.replicate 126 0) none)).1 =
      .error (.refused "a control frame is fragmented or too long") :=
  ⟨⟨[0x01, 20] ++ List.replicate 20 0 ++ [0x80, 20] ++ List.replicate 19 0, by decide +kernel,
    by decide +kernel⟩, ⟨List.replicate 40 0xff, by decide +kernel⟩, by decide +kernel⟩

end HamsOpen.Ws
