import HamsOpen.Lib.Loop
import Mathlib

/-!
# CI-V frames out of a byte stream

A CI-V frame is two `FE`, the addresses, the command, its data and `FD`. The parser cuts frames out
of what it receives, calls everything else junk, drops a partial frame that is too old or too long,
and begins again at a second preamble inside a frame.
-/

namespace HamsOpen.Civ

abbrev Byte := UInt8

/-- Nanoseconds. -/
abbrev Duration := ℕ

/-- Start-of-frame byte (sent twice). -/
def PREAMBLE : Byte := 0xFE
/-- End-of-frame byte. -/
def END : Byte := 0xFD
/-- Buffered bytes beyond this without a frame end are dropped. -/
def MAX_PENDING : ℕ := 256
/-- A partial frame older than this is junk. -/
def PARTIAL_FRAME_TIMEOUT : Duration := 500000000

/-- One decoded frame. -/
structure Frame where
  /-- Destination address. -/
  toAddr : Byte
  /-- Source address. -/
  fromAddr : Byte
  cmd : Byte
  /-- Sub-command and data bytes. -/
  data : List Byte
  deriving DecidableEq

/-- The bytes between the preamble and the end. -/
def Frame.body (f : Frame) : List Byte := f.toAddr :: f.fromAddr :: f.cmd :: f.data

/-- The wire form of the frame. -/
def Frame.toBytes (f : Frame) : List Byte := PREAMBLE :: PREAMBLE :: (f.body ++ [END])

/-- What the parser found. -/
inductive Parsed where
  | frame (f : Frame)
  /-- Bytes that were not part of any frame. -/
  | junk (bytes : List Byte)
  deriving DecidableEq

/-! ### The parser -/

/-- Where the first preamble begins. -/
def findPreamble : List Byte → Option ℕ
  | a :: b :: rest =>
    if a = PREAMBLE ∧ b = PREAMBLE then some 0 else (findPreamble (b :: rest)).map (· + 1)
  | _ => none

/-- Where the last preamble begins. -/
def lastPreamble : List Byte → Option ℕ
  | a :: b :: rest =>
    match lastPreamble (b :: rest) with
    | some i => some (i + 1)
    | none => if a = PREAMBLE ∧ b = PREAMBLE then some 0 else none
  | _ => none

/-- Turns the bytes from a preamble to an end into a frame, or junk. A later preamble restarts the
frame. -/
def frameOrJunk : Loop (List Byte) Parsed where
  body raw := match (lastPreamble raw.tail).map (· + 1) with
    | some restart => .inl (raw.drop restart)
    | none => match (raw.drop 2).dropLast with
      | toAddr :: fromAddr :: cmd :: data => .inr (.frame ⟨toAddr, fromAddr, cmd, data⟩)
      | _ => .inr (.junk raw)
  size raw := raw.length
  shrinks {raw t} h := by
    split at h
    next restart hrestart =>
      obtain ⟨i, hi, rfl⟩ := Option.map_eq_some_iff.mp hrestart
      rw [← Sum.inl.inj h, List.length_drop]
      cases raw with
      | nil => cases hi
      | cons b raw =>
        rw [List.length_cons]
        omega
    · split at h <;> cases h

/-- With no preamble pending, everything but a trailing lone `FE` is junk. -/
def dropLeadingJunk (pending : List Byte) (out : List Parsed) : List Parsed × List Byte :=
  let keep := if pending.getLast? = some PREAMBLE then 1 else 0
  let cut := pending.length - keep
  if 0 < cut then (out ++ [.junk (pending.take cut)], pending.drop cut) else (out, pending)

theorem length_drop_stop_lt {pending : List Byte} {start stop : ℕ}
    (hstop : (pending.drop start).findIdx? (· == END) = some stop) :
    ((pending.drop start).drop (stop + 1)).length < pending.length := by
  have hlt := (List.findIdx?_eq_some_iff_getElem.mp hstop).1
  rw [List.length_drop] at hlt ⊢
  rw [List.length_drop]
  omega

/-- Takes the complete frames and the junk out of the pending bytes. -/
def sift : Loop (List Byte × List Parsed) (List Parsed × List Byte) where
  body s := match findPreamble s.1 with
    | none => .inr (dropLeadingJunk s.1 s.2)
    | some start =>
      let out := if 0 < start then s.2 ++ [.junk (s.1.take start)] else s.2
      let pending := s.1.drop start
      match pending.findIdx? (· == END) with
      | none =>
        if MAX_PENDING < pending.length then .inr (out ++ [.junk pending], [])
        else .inr (out, pending)
      | some stop =>
        .inl (pending.drop (stop + 1), out ++ [frameOrJunk.run (pending.take (stop + 1))])
  size s := s.1.length
  shrinks {s t} h := by
    split at h
    · cases h
    dsimp only at h
    split at h
    · split at h <;> cases h
    next stop hstop =>
      rw [← Sum.inl.inj h]
      exact length_drop_stop_lt hstop

/-- Splits a byte stream into frames. -/
structure FrameParser where
  pending : List Byte
  lastByteAt : Duration
  deriving DecidableEq

/-- Adds bytes received at `now` and gives every complete frame and every run of junk. -/
def FrameParser.feed (p : FrameParser) (bytes : List Byte) (now : Duration) :
    List Parsed × FrameParser :=
  let stale := decide (PARTIAL_FRAME_TIMEOUT < now - p.lastByteAt) && !p.pending.isEmpty
  let (out, pending) := if stale then ([.junk p.pending], []) else ([], p.pending)
  let (out, pending) := sift.run (pending ++ bytes, out)
  (out, ⟨pending, now⟩)

/-- A stream received in pieces, each at its time. -/
def feedAll (p : FrameParser) : List (List Byte × Duration) → List Parsed × FrameParser
  | [] => ([], p)
  | (bytes, now) :: pieces =>
    let (out, p) := p.feed bytes now
    let (out', p) := feedAll p pieces
    (out ++ out', p)

/-- The frames among what was found. -/
def frames (found : List Parsed) : List Frame :=
  found.filterMap fun
    | .frame f => some f
    | .junk _ => none

@[simp] theorem frames_append (found found' : List Parsed) :
    frames (found ++ found') = frames found ++ frames found' := List.filterMap_append

@[simp] theorem frames_nil : frames [] = [] := rfl

@[simp] theorem frames_junk (bytes : List Byte) (found : List Parsed) :
    frames (.junk bytes :: found) = frames found := rfl

@[simp] theorem frames_frame (f : Frame) (found : List Parsed) :
    frames (.frame f :: found) = f :: frames found := rfl

/-! ### Preambles and ends -/

section Bytes

variable {junk rest : List Byte}

theorem findPreamble_none (h : PREAMBLE ∉ junk) : findPreamble junk = none := by
  induction junk with
  | nil => exact rfl
  | cons a junk ih =>
    cases junk with
    | nil => exact rfl
    | cons b junk =>
      have ha : a ≠ PREAMBLE := fun ha => h (ha ▸ .head _)
      simp only [findPreamble]
      rw [if_neg fun hab => ha hab.1, ih fun hmem => h (.tail _ hmem)]
      exact rfl

/-- A lone `FE` is no preamble. -/
theorem findPreamble_lone (h : PREAMBLE ∉ junk) : findPreamble (junk ++ [PREAMBLE]) = none := by
  induction junk with
  | nil => exact rfl
  | cons a junk ih =>
    have ha : a ≠ PREAMBLE := fun ha => h (ha ▸ .head _)
    have hrest := ih fun hmem => h (.tail _ hmem)
    cases junk with
    | nil => exact if_neg fun hab => ha hab.1
    | cons b junk =>
      simp only [List.cons_append, findPreamble] at hrest ⊢
      rw [if_neg fun hab => ha hab.1, hrest]
      exact rfl

theorem findPreamble_append (h : PREAMBLE ∉ junk) :
    findPreamble (junk ++ PREAMBLE :: PREAMBLE :: rest) = some junk.length := by
  induction junk with
  | nil => exact if_pos ⟨rfl, rfl⟩
  | cons a junk ih =>
    have ha : a ≠ PREAMBLE := fun ha => h (ha ▸ .head _)
    have hrest := ih fun hmem => h (.tail _ hmem)
    cases junk with
    | nil =>
      simp only [List.cons_append, List.nil_append, findPreamble] at hrest ⊢
      rw [if_neg fun hab => ha hab.1, hrest]
      exact rfl
    | cons b junk =>
      simp only [List.cons_append, findPreamble] at hrest ⊢
      rw [if_neg fun hab => ha hab.1, hrest]
      exact rfl

theorem lastPreamble_cons (a : Byte) (h : PREAMBLE ∉ junk) : lastPreamble (a :: junk) = none := by
  induction junk generalizing a with
  | nil => exact rfl
  | cons b junk ih =>
    have hb : b ≠ PREAMBLE := fun hb => h (hb ▸ .head _)
    simp only [lastPreamble]
    rw [ih b fun hmem => h (.tail _ hmem)]
    exact if_neg fun hab => hb hab.2

theorem findEnd_none (h : END ∉ junk) : junk.findIdx? (· == END) = none := by
  rw [List.findIdx?_eq_none_iff]
  intro b hb
  simp only [beq_eq_false_iff_ne]
  rintro rfl
  exact h hb

theorem findEnd_append (h : END ∉ junk) :
    (junk ++ END :: rest).findIdx? (· == END) = some junk.length := by
  rw [List.findIdx?_append, findEnd_none h]
  simp [List.findIdx?_cons]

end Bytes

/-- Where two ways to cut a list differ, the first part of one goes on into the other's second. -/
theorem append_split {a b c d : List Byte} (h : a ++ b = c ++ d) :
    (∃ e, c = a ++ e ∧ b = e ++ d) ∨ ∃ e, e ≠ [] ∧ a = c ++ e ∧ d = e ++ b := by
  rcases List.append_eq_append_iff.mp h with ⟨e, hc, hb⟩ | ⟨e, ha, hd⟩
  · exact .inl ⟨e, hc, hb⟩
  by_cases hnil : e = []
  · subst hnil
    exact .inl ⟨[], by simpa using ha.symm, hd.symm⟩
  · exact .inr ⟨e, hnil, ha, hd⟩

/-! ### Frames on the wire -/

/-- No byte between the preamble and the end is one that the parser takes for either. -/
def Frame.Plain (f : Frame) : Prop := ∀ b ∈ f.body, b ≠ PREAMBLE ∧ b ≠ END

/-- The frame fits the parser: before its last byte it is no longer than what may be pending. -/
def Frame.Fits (f : Frame) : Prop := f.toBytes.length ≤ MAX_PENDING + 1

instance (f : Frame) : Decidable f.Plain := inferInstanceAs (Decidable (∀ _ ∈ _, _))

instance (f : Frame) : Decidable f.Fits := inferInstanceAs (Decidable (_ ≤ _))

namespace Frame

variable {f : Frame}

theorem Plain.preamble (h : f.Plain) : PREAMBLE ∉ f.body := fun hmem => (h _ hmem).1 rfl

theorem Plain.fin (h : f.Plain) : END ∉ f.body := fun hmem => (h _ hmem).2 rfl

theorem toBytes_ne_nil (f : Frame) : f.toBytes ≠ [] := nofun

/-- A frame on the wire is taken for the frame it is. -/
theorem run_toBytes (h : f.Plain) : frameOrJunk.run f.toBytes = .frame f := by
  have hlast : lastPreamble f.toBytes.tail = none := by
    apply lastPreamble_cons
    intro hmem
    rcases List.mem_append.mp hmem with hmem | hmem
    · exact h.preamble hmem
    · cases List.mem_singleton.mp hmem
  apply Loop.run_of_break
  simp only [frameOrJunk, hlast, Option.map_none]
  have hbody : (f.toBytes.drop 2).dropLast = f.body := List.dropLast_concat
  rw [hbody]
  exact rfl

end Frame

/-- Frames on the wire, each after its junk, and the junk after the last one. -/
def wire : List (List Byte × Frame) → List Byte → List Byte
  | [], tail => tail
  | (junk, f) :: rest, tail => junk ++ (f.toBytes ++ wire rest tail)

/-- What the claim about a stream asks for: no `FE` in the junk, frames that are plain and fit. -/
structure Valid (sent : List (List Byte × Frame)) (tail : List Byte) : Prop where
  junk : ∀ s ∈ sent, PREAMBLE ∉ s.1
  plain : ∀ s ∈ sent, s.2.Plain
  fits : ∀ s ∈ sent, s.2.Fits
  tail : PREAMBLE ∉ tail

theorem Valid.of_cons {s : List Byte × Frame} {sent : List (List Byte × Frame)} {tail : List Byte}
    (h : Valid (s :: sent) tail) : Valid sent tail :=
  ⟨fun s hs => h.junk s (.tail _ hs), fun s hs => h.plain s (.tail _ hs),
    fun s hs => h.fits s (.tail _ hs), h.tail⟩

/-- The junk before the next frame may be other junk. -/
theorem Valid.head {junk junk' tail : List Byte} {f : Frame} {sent : List (List Byte × Frame)}
    (h : Valid ((junk, f) :: sent) tail) (hjunk : PREAMBLE ∉ junk') :
    Valid ((junk', f) :: sent) tail where
  junk s hs := by
    rcases List.mem_cons.mp hs with rfl | hs
    · exact hjunk
    · exact h.junk s (.tail _ hs)
  plain s hs := by
    rcases List.mem_cons.mp hs with rfl | hs
    · exact h.plain (junk, f) (.head _)
    · exact h.plain s (.tail _ hs)
  fits s hs := by
    rcases List.mem_cons.mp hs with rfl | hs
    · exact h.fits (junk, f) (.head _)
    · exact h.fits s (.tail _ hs)
  tail := h.tail

/-- What is pending before more of a stream: nothing, or the beginning of its next frame. -/
def Held (pending : List Byte) (sent : List (List Byte × Frame)) : Prop :=
  pending = [] ∨ ∃ f rest, sent = ([], f) :: rest ∧ pending.length < f.toBytes.length

section Sift

variable {junk p r tail : List Byte} {sent : List (List Byte × Frame)}
  {f : Frame}

theorem dropLeadingJunk_all (out : List Parsed) (h : PREAMBLE ∉ junk) :
    (dropLeadingJunk junk out).2 = [] ∧ frames (dropLeadingJunk junk out).1 = frames out := by
  have hlast : ¬junk.getLast? = some PREAMBLE := fun hlast => h (List.mem_of_getLast? hlast)
  simp only [dropLeadingJunk, if_neg hlast]
  split
  · simp
  next hcut =>
    obtain rfl : junk = [] := List.eq_nil_of_length_eq_zero (by omega)
    exact ⟨rfl, rfl⟩

theorem dropLeadingJunk_lone (out : List Parsed) :
    (dropLeadingJunk (junk ++ [PREAMBLE]) out).2 = [PREAMBLE] ∧
      frames (dropLeadingJunk (junk ++ [PREAMBLE]) out).1 = frames out := by
  simp only [dropLeadingJunk, List.getLast?_concat, if_true]
  split
  · simp
  next hcut =>
    obtain rfl : junk = [] := by
      apply List.eq_nil_of_length_eq_zero
      rw [List.length_append, List.length_singleton] at hcut
      omega
    exact ⟨rfl, rfl⟩

/-- Bytes without a preamble leave nothing pending. -/
theorem sift_junk (out : List Parsed) (h : PREAMBLE ∉ junk) :
    (sift.run (junk, out)).2 = [] ∧ frames (sift.run (junk, out)).1 = frames out := by
  have hrun : sift.run (junk, out) = dropLeadingJunk junk out :=
    Loop.run_of_break (by simp only [sift, findPreamble_none h])
  rw [hrun]
  exact dropLeadingJunk_all out h

theorem sift_lone (out : List Parsed) (h : PREAMBLE ∉ junk) :
    (sift.run (junk ++ [PREAMBLE], out)).2 = [PREAMBLE] ∧
      frames (sift.run (junk ++ [PREAMBLE], out)).1 = frames out := by
  have hrun : sift.run (junk ++ [PREAMBLE], out) = dropLeadingJunk (junk ++ [PREAMBLE]) out :=
    Loop.run_of_break (by simp only [sift, findPreamble_lone h])
  rw [hrun]
  exact dropLeadingJunk_lone out

/-- The beginning of a frame stays pending. -/
theorem sift_begun (out : List Parsed) {begun : List Byte} (h : PREAMBLE ∉ junk) (hend : END ∉ begun)
    (hfits : begun.length + 2 ≤ MAX_PENDING) :
    (sift.run (junk ++ PREAMBLE :: PREAMBLE :: begun, out)).2 = PREAMBLE :: PREAMBLE :: begun ∧
      frames (sift.run (junk ++ PREAMBLE :: PREAMBLE :: begun, out)).1 = frames out := by
  have hnone : (PREAMBLE :: PREAMBLE :: begun).findIdx? (· == END) = none := by
    apply findEnd_none
    intro hmem
    rcases List.mem_cons.mp hmem with hmem | hmem
    · cases hmem
    · exact hend ((List.mem_cons.mp hmem).resolve_left nofun)
  have hle : ¬MAX_PENDING < (PREAMBLE :: PREAMBLE :: begun).length := by
    rw [List.length_cons, List.length_cons]
    omega
  have hrun : sift.run (junk ++ PREAMBLE :: PREAMBLE :: begun, out) =
      (if 0 < junk.length then out ++ [.junk junk] else out, PREAMBLE :: PREAMBLE :: begun) := by
    apply Loop.run_of_break
    simp only [sift, findPreamble_append h, List.drop_left, List.take_left, hnone, if_neg hle]
  rw [hrun]
  refine ⟨rfl, ?_⟩
  dsimp only
  split
  · simp
  · exact rfl

/-- A strict prefix of a frame stays pending. -/
theorem sift_prefix (out : List Parsed) {begun more : List Byte} (h : PREAMBLE ∉ junk) (hf : f.Plain) (hfits : f.Fits)
    (hbytes : f.toBytes = begun ++ more) (hmore : more ≠ []) :
    (sift.run (junk ++ begun, out)).2 = begun ∧
      frames (sift.run (junk ++ begun, out)).1 = frames out := by
  have hlength : begun.length < f.toBytes.length := by
    rw [hbytes, List.length_append]
    exact Nat.lt_add_of_pos_right (List.length_pos_of_ne_nil hmore)
  match begun with
  | [] =>
    rw [List.append_nil]
    exact sift_junk out h
  | [a] =>
    obtain rfl : PREAMBLE = a := (List.cons.inj hbytes).1
    exact sift_lone out h
  | a :: b :: begun =>
    obtain ⟨rfl, htail⟩ := List.cons.inj hbytes
    obtain ⟨rfl, hbody⟩ := List.cons.inj htail
    have hbody : f.body ++ [END] = begun ++ more := hbody
    have hend : END ∉ begun := by
      have hpre : begun <+: f.body := by
        apply List.prefix_of_prefix_length_le ⟨more, hbody.symm⟩ (List.prefix_append _ _)
        have hmore := List.length_pos_of_ne_nil hmore
        have hlen := congrArg List.length hbody
        rw [List.length_append, List.length_append, List.length_singleton] at hlen
        omega
      exact fun hmem => hf.fin (hpre.subset hmem)
    apply sift_begun out h hend
    have hle : f.toBytes.length ≤ MAX_PENDING + 1 := hfits
    rw [List.length_cons, List.length_cons] at hlength
    omega

/-- A whole frame is taken out, and sifting goes on after it. -/
theorem sift_frame (out : List Parsed) (h : PREAMBLE ∉ junk) (hf : f.Plain) :
    ∃ out', sift.run (junk ++ (f.toBytes ++ p), out) = sift.run (p, out') ∧
      frames out' = frames out ++ [f] := by
  have hsome : (f.toBytes ++ p).findIdx? (· == END) = some (f.body.length + 2) := by
    have hbytes : f.toBytes ++ p = (PREAMBLE :: PREAMBLE :: f.body) ++ END :: p := by
      simp [Frame.toBytes]
    rw [hbytes, findEnd_append]
    · exact rfl
    · intro hmem
      rcases List.mem_cons.mp hmem with hmem | hmem
      · cases hmem
      · exact hf.fin ((List.mem_cons.mp hmem).resolve_left nofun)
  have hlength : f.body.length + 2 + 1 = f.toBytes.length := by
    simp [Frame.toBytes]
  refine ⟨(if 0 < junk.length then out ++ [.junk junk] else out) ++ [.frame f], ?_, ?_⟩
  · apply Loop.run_of_next
    have hstart : findPreamble (junk ++ (f.toBytes ++ p)) = some junk.length :=
      findPreamble_append h
    simp only [sift, hstart, List.drop_left, List.take_left, hsome, hlength, Frame.run_toBytes hf]
  · split <;> simp

/-- What one call takes off a stream of frames: some of them, in order, and what it leaves pending is
with the rest of the stream one of the other frames. -/
theorem sift_wire (out : List Parsed) (h : Valid sent tail) (hp : p ++ r = wire sent tail) :
    ∃ done sent' tail', frames (sift.run (p, out)).1 = frames out ++ done ∧
      sent.map (·.2) = done ++ sent'.map (·.2) ∧
      (sift.run (p, out)).2 ++ r = wire sent' tail' ∧ Valid sent' tail' ∧
      Held (sift.run (p, out)).2 sent' := by
  induction sent generalizing p out with
  | nil =>
    have htail : p ++ r = tail := hp
    have hjunk : PREAMBLE ∉ p := fun hmem => h.tail (htail ▸ List.mem_append_left r hmem)
    have hr : PREAMBLE ∉ r := fun hmem => h.tail (htail ▸ List.mem_append_right p hmem)
    obtain ⟨hleft, hout⟩ := sift_junk out hjunk
    refine ⟨[], [], r, by rw [hout, List.append_nil], rfl, by rw [hleft]; exact rfl,
      ⟨nofun, nofun, nofun, hr⟩, .inl hleft⟩
  | cons s sent ih =>
    obtain ⟨junk, f⟩ := s
    have hjunk : PREAMBLE ∉ junk := h.junk _ (.head _)
    rcases List.append_eq_append_iff.mp hp with ⟨junk', rfl, rfl⟩ | ⟨p', rfl, hp'⟩
    · -- The bytes end within the junk.
      obtain ⟨hleft, hout⟩ :=
        sift_junk out fun hmem => hjunk (List.mem_append_left junk' hmem)
      refine ⟨[], (junk', f) :: sent, tail, by rw [hout, List.append_nil], rfl,
        by rw [hleft]; exact rfl, h.head fun hmem => hjunk (List.mem_append_right p hmem),
        .inl hleft⟩
    rcases append_split hp' with ⟨p'', rfl, hp''⟩ | ⟨rest, hnil, hrest, rfl⟩
    · -- The frame is complete.
      obtain ⟨out', hrun, hout'⟩ :=
        sift_frame (p := p'') out hjunk (h.plain _ (.head _))
      obtain ⟨done, sent', tail', hout, hmap, hleft, hvalid, hheld⟩ :=
        ih out' h.of_cons hp''.symm
      rw [hrun]
      refine ⟨f :: done, sent', tail', by rw [hout, hout', List.append_assoc]; exact rfl, ?_, hleft,
        hvalid, hheld⟩
      rw [List.map_cons, hmap]
      exact rfl
    · -- The bytes end within the frame.
      obtain ⟨hleft, hout⟩ :=
        sift_prefix out hjunk (h.plain _ (.head _)) (h.fits _ (.head _)) hrest hnil
      refine ⟨[], ([], f) :: sent, tail, by rw [hout, List.append_nil], rfl, ?_, h.head nofun,
        .inr ⟨f, sent, rfl, ?_⟩⟩
      · rw [hleft, wire, hrest, List.nil_append, List.append_assoc]
      · rw [hleft, hrest, List.length_append]
        exact Nat.lt_add_of_pos_right (List.length_pos_of_ne_nil hnil)

end Sift

/-! ### A stream in pieces -/

section Feed

variable {sent : List (List Byte × Frame)} {r tail : List Byte} {p : FrameParser}
  {bytes : List Byte} {now : Duration}

/-- Bytes that come soon enough after what is pending are sifted with it. -/
theorem feed_eq (h : p.pending = [] ∨ now - p.lastByteAt ≤ PARTIAL_FRAME_TIMEOUT) :
    p.feed bytes now =
      ((sift.run (p.pending ++ bytes, [])).1, ⟨(sift.run (p.pending ++ bytes, [])).2, now⟩) := by
  have hfresh : (decide (PARTIAL_FRAME_TIMEOUT < now - p.lastByteAt) && !p.pending.isEmpty) =
      false := by
    rcases h with hnil | hsoon
    · simp [hnil]
    · simp [Nat.not_lt.mpr hsoon]
  simp only [FrameParser.feed, hfresh]
  exact rfl

/-- Pieces that each come soon enough after the one before. -/
def Prompt (pieces : List (List Byte × Duration)) : Prop :=
  pieces.IsChain fun a b => b.2 - a.2 ≤ PARTIAL_FRAME_TIMEOUT

/-- In whatever pieces it comes, what is left of a stream comes out as the frames left in it. -/
theorem feedAll_wire {pieces : List (List Byte × Duration)} (hvalid : Valid sent tail)
    (hheld : Held p.pending sent) (hsoon : p.pending = [] ∨ ∀ piece ∈ pieces.head?,
      piece.2 - p.lastByteAt ≤ PARTIAL_FRAME_TIMEOUT) (hprompt : Prompt pieces)
    (hpieces : p.pending ++ (pieces.map (·.1)).flatten = wire sent tail) :
    frames (feedAll p pieces).1 = sent.map (·.2) ∧ (feedAll p pieces).2.pending = [] := by
  induction pieces generalizing p sent tail with
  | nil =>
    rw [List.map_nil, List.flatten_nil, List.append_nil] at hpieces
    rcases hheld with hnil | ⟨f, rest, rfl, hlt⟩
    · cases sent with
      | nil => exact ⟨rfl, hnil⟩
      | cons s sent =>
        rw [hnil, wire] at hpieces
        exact absurd hpieces.symm (by simp [s.2.toBytes_ne_nil])
    · rw [hpieces, wire, List.nil_append, List.length_append] at hlt
      omega
  | cons piece pieces ih =>
    obtain ⟨bytes, now⟩ := piece
    have hfeed : p.feed bytes now = _ := feed_eq (hsoon.imp_right fun h => h (bytes, now) rfl)
    rw [List.map_cons, List.flatten_cons, ← List.append_assoc] at hpieces
    obtain ⟨done, sent', tail', hout, hmap, hleft, hvalid', hheld'⟩ :=
      sift_wire [] hvalid hpieces
    have hnext : ∀ piece ∈ pieces.head?, piece.2 - now ≤ PARTIAL_FRAME_TIMEOUT := by
      intro piece hpiece
      cases pieces with
      | nil => cases hpiece
      | cons _ _ =>
        obtain rfl := Option.some.inj hpiece
        exact (List.isChain_cons_cons.mp hprompt).1
    obtain ⟨hframes, hpending⟩ := ih (p := ⟨(sift.run (p.pending ++ bytes, [])).2, now⟩) hvalid'
      hheld' (.inr hnext) hprompt.tail hleft
    simp only [feedAll, hfeed, frames_append]
    refine ⟨?_, hpending⟩
    rw [hframes, hout, hmap]
    exact rfl

/-- A stream of frames, each plain and short enough for the parser, with junk between them that has
no `FE`, comes out of a parser with nothing pending as exactly those frames in order, in whatever
pieces it is received when each comes soon enough after the one before, and leaves nothing pending:
the next stream finds the parser as this one did. -/
theorem framing (hvalid : Valid sent tail) (hp : p.pending = [])
    {pieces : List (List Byte × Duration)} (hprompt : Prompt pieces)
    (hpieces : (pieces.map (·.1)).flatten = wire sent tail) :
    frames (feedAll p pieces).1 = sent.map (·.2) ∧ (feedAll p pieces).2.pending = [] :=
  feedAll_wire hvalid (.inl hp) (.inl hp) hprompt (by rw [hp, List.nil_append, hpieces])

/-- Two frames after junk, in pieces that cut a preamble and an end. -/
theorem framing_two :
    frames (feedAll ⟨[], 0⟩ [([0xFD, 7, 0xFE], 10), ([0xFE, 0xE0, 0x94, 0xFB], 20),
      ([0xFD, 1, 2, 0xFE, 0xFE, 0xE0, 0x94, 3, 0, 0xFD, 9], 30)]).1 =
        [⟨0xE0, 0x94, 0xFB, []⟩, ⟨0xE0, 0x94, 3, [0]⟩] ∧
    (feedAll ⟨[], 0⟩ [([0xFD, 7, 0xFE], 10), ([0xFE, 0xE0, 0x94, 0xFB], 20),
      ([0xFD, 1, 2, 0xFE, 0xFE, 0xE0, 0x94, 3, 0, 0xFD, 9], 30)]).2.pending = [] :=
  framing (⟨by decide, by decide +kernel, by decide, by decide⟩ :
      Valid [([0xFD, 7], ⟨0xE0, 0x94, 0xFB, []⟩), ([1, 2], ⟨0xE0, 0x94, 3, [0]⟩)] [9]) rfl
    (.cons_cons (by decide) (.cons_cons (by decide) (.singleton _))) (by decide)

end Feed

end HamsOpen.Civ
