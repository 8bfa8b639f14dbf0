import HamsOpen.Net.Link
import Mathlib

/-!
# Bytes and the sessions they are sent in

What the actor writes is taken in order, and is sent in a session, framed, or dropped and counted.
It is sent in the session that it belongs to when nothing is unread at the moment a session is
announced.
-/

namespace HamsOpen.Net

/-- What a fate says of bytes that the actor wrote. -/
def Fate.Proper {σ : Type} (F : Framing σ) (chunk : List Sent) : Fate → Prop
  | sent generation frame => (∀ b ∈ chunk, b.session = some generation) ∧
      ∃ framing, frame = (F.encode framing (chunk.map Sent.byte)).1
  | cut _ _ => False
  | dropped => True

/-- How many of the bytes were not sent. -/
def Fate.unsent (chunk : List Sent) : Fate → ℕ
  | sent _ _ => 0
  | cut _ _ | dropped => chunk.length

namespace Phase

/-- The supervisor sends nothing for the actor, and has not ended. -/
def Free : Phase → Prop
  | sending _ _ | closed => False
  | _ => True

/-- And it is in no session. -/
def Outside (p : Phase) : Prop := p.Free ∧ p.inSession = false

variable {p : Phase}

theorem hand_of_free (h : p.Free) : p.hand = [] := by
  cases p <;> first | rfl | exact h.elim

theorem ne_closed_of_free (h : p.Free) : p ≠ .closed := by
  rintro rfl
  exact h

theorem ne_sending_of_free (h : p.Free) (chunk : List Sent) (frame : List UInt8) :
    p ≠ .sending chunk frame := by
  rintro rfl
  exact h

theorem free_of_attempting (h : p.attempting = true) : p.Free := by
  cases p <;> trivial

end Phase

namespace State

variable {σ : Type} {F : Framing σ} {c : NetConfig} {s t : State σ}

/-- A session is announced with nothing unread, the actor does not leave an attempt that has dropped
bytes nor bytes unread, and a write that fails has written nothing. -/
def Clean (s : State σ) : Act → Prop
  | .announce => s.stream = []
  | .eof => s.dropped = 0
  | .wrote (.failed n) => n = 0
  | .delivered .gone => s.stream = []
  | _ => True

instance (s : State σ) (a : Act) : Decidable (s.Clean a) := by
  unfold Clean
  split <;> infer_instance

/-- What is counted as dropped, now or when the attempt that is on is over. -/
def counts (s : State σ) : ℕ := s.counters.bytesDropped + s.dropped

/-- What is said of the bytes of a link. -/
structure Kept (F : Framing σ) (s : State σ) : Prop where
  /-- Every byte that the actor wrote is accounted for once, in order. -/
  accounted : s.log.flatMap Prod.fst ++ s.waiting = s.sent
  /-- It was sent in the session that was current when the actor wrote it, or it was dropped. -/
  fates : ∀ chunk fate, (chunk, fate) ∈ s.log → fate.Proper F chunk
  /-- What was not sent is counted, with what the actor did not read. -/
  counted : s.counts = (s.log.map fun entry => entry.2.unsent entry.1).sum + s.undelivered
  /-- A link that has ended has nothing left. -/
  settled : s.phase = .closed → s.waiting = []

/-- The invariant. -/
structure Inv (F : Framing σ) (s : State σ) : Prop where
  fresh : s.generation = 0 → s.sent = []
  gone : s.phase = .closed → s.ended = true ∨ s.generation = 0
  session : s.phase.inSession = true → s.connected = true
  tagged : s.connected = true → ∀ b ∈ s.waiting, b.session = some s.generation
  framed : ∀ chunk frame, s.phase = .sending chunk frame →
    ∃ framing, frame = (F.encode framing (chunk.map Sent.byte)).1
  kept : s.Kept F

/-! ### Steps that leave the bytes of the actor alone -/

/-- The bytes of the actor are left alone. -/
structure Aside (s t : State σ) : Prop where
  sent : t.sent = s.sent
  stream : t.stream = s.stream
  log : t.log = s.log
  generation : t.generation = s.generation
  connected : t.connected = s.connected
  undelivered : t.undelivered = s.undelivered
  counts : t.counts = s.counts

theorem Aside.trans {u : State σ} (h : s.Aside t) (h' : t.Aside u) : s.Aside u where
  sent := h'.sent.trans h.sent
  stream := h'.stream.trans h.stream
  log := h'.log.trans h.log
  generation := h'.generation.trans h.generation
  connected := h'.connected.trans h.connected
  undelivered := h'.undelivered.trans h.undelivered
  counts := h'.counts.trans h.counts

theorem attempted_aside (s : State σ) (phase : Phase) : s.Aside (s.attempted phase) :=
  ⟨rfl, rfl, rfl, rfl, rfl, rfl, rfl⟩

theorem count_aside (s : State σ) (n : ℕ) : s.Aside (s.count n) :=
  ⟨rfl, rfl, rfl, rfl, rfl, rfl, rfl⟩

theorem greeted_aside (s : State σ) : s.Aside (s.greeted F) := by
  unfold greeted
  split
  · exact ⟨rfl, rfl, rfl, rfl, rfl, rfl, rfl⟩
  · exact attempted_aside s _

theorem answered_aside (s : State σ) (ready : Option (List UInt8)) : s.Aside (s.answered ready) := by
  cases ready with
  | some leftover => exact attempted_aside s _
  | none => exact ⟨rfl, rfl, rfl, rfl, rfl, rfl, rfl⟩

theorem greeted_outside (s : State σ) : (s.greeted F).phase.Outside := by
  unfold greeted
  split <;> exact ⟨trivial, rfl⟩

theorem answered_outside (s : State σ) (ready : Option (List UInt8)) :
    (s.answered ready).phase.Outside := by
  cases ready <;> exact ⟨trivial, rfl⟩

theorem handed_free (s : State σ) (payload : List UInt8) : (s.handed payload).phase.Free := by
  unfold handed
  dsimp only
  split <;> trivial

/-- A step that leaves the bytes of the actor alone, with none of them in hand. -/
theorem Inv.aside (h : s.Inv F) (haside : s.Aside t) (hs : s.phase.Free)
    (ht : t.phase.Free) (hsession : t.phase.inSession = true → s.phase.inSession = true) :
    t.Inv F := by
  have hopen := Phase.ne_closed_of_free ht
  have hwaiting : t.waiting = s.waiting := by
    unfold waiting
    rw [Phase.hand_of_free hs, Phase.hand_of_free ht, haside.stream]
  constructor
  · rw [haside.generation, haside.sent]
    exact h.fresh
  · exact fun hclosed => absurd hclosed hopen
  · rw [haside.connected]
    exact h.session ∘ hsession
  · rw [haside.connected, haside.generation, hwaiting]
    exact h.tagged
  · exact fun chunk frame hsending => absurd hsending (Phase.ne_sending_of_free ht chunk frame)
  · constructor
    · rw [haside.log, haside.sent, hwaiting]
      exact h.kept.accounted
    · rw [haside.log]
      exact h.kept.fates
    · rw [haside.counts, haside.log, haside.undelivered]
      exact h.kept.counted
    · exact fun hclosed => absurd hclosed hopen

/-- The same, when what follows is no session. -/
theorem Inv.outside (h : s.Inv F) (haside : s.Aside t) (hs : s.phase.Free)
    (ht : t.phase.Outside) : t.Inv F := by
  apply h.aside haside hs ht.1
  intro hsession
  rw [ht.2] at hsession
  cases hsession

/-! ### What becomes of bytes -/

/-- Bytes at the front of those that wait meet their fate. -/
theorem Inv.settle (h : s.Inv F) (fate : Fate) {chunk : List Sent}
    (hfate : (s.connected = true → ∀ b ∈ chunk, b.session = some s.generation) →
      fate.Proper F chunk)
    (hsent : t.sent = s.sent) (hwaiting : s.waiting = chunk ++ t.waiting)
    (hlog : t.log = s.log ++ [(chunk, fate)]) (hgeneration : t.generation = s.generation)
    (hconnected : t.connected = s.connected) (hundelivered : t.undelivered = s.undelivered)
    (hcounts : t.counts = s.counts + fate.unsent chunk) (ht : t.phase.Free)
    (hsession : t.phase.inSession = true → s.phase.inSession = true) : t.Inv F := by
  have hopen := Phase.ne_closed_of_free ht
  have htagged : s.connected = true → ∀ b ∈ chunk, b.session = some s.generation := by
    intro hcurrent b hb
    apply h.tagged hcurrent
    rw [hwaiting]
    exact List.mem_append_left _ hb
  constructor
  · rw [hgeneration, hsent]
    exact h.fresh
  · exact fun hclosed => absurd hclosed hopen
  · rw [hconnected]
    exact h.session ∘ hsession
  · rw [hconnected, hgeneration]
    intro hcurrent b hb
    apply h.tagged hcurrent
    rw [hwaiting]
    exact List.mem_append_right _ hb
  · exact fun chunk frame hsending => absurd hsending (Phase.ne_sending_of_free ht chunk frame)
  · constructor
    · have haccounted := h.kept.accounted
      rw [hwaiting] at haccounted
      rw [hlog, hsent, List.flatMap_append, List.append_assoc, ← haccounted]
      simp only [List.flatMap_cons, List.flatMap_nil, List.append_nil]
    · intro chunk' fate' hmem
      rw [hlog] at hmem
      rcases List.mem_append.mp hmem with hmem | hmem
      · exact h.kept.fates chunk' fate' hmem
      · cases List.mem_singleton.mp hmem
        exact hfate htagged
    · rw [hcounts, hlog, hundelivered, h.kept.counted, List.map_append, List.sum_append]
      simp only [List.map_cons, List.map_nil, List.sum_cons, List.sum_nil, Nat.add_zero]
      omega
    · exact fun hclosed => absurd hclosed hopen

theorem Inv.write (h : s.Inv F) {bytes : List UInt8} (hstep : s.write bytes = some t) :
    t.Inv F := by
  simp only [State.write] at hstep
  split at hstep <;> cases hstep
  next hopen =>
    obtain ⟨hgeneration, hended, -⟩ := hopen
    have htagged : ∀ b ∈ s.tagged bytes, b.session = s.current := by
      intro b hb
      obtain ⟨byte, -, rfl⟩ := List.mem_map.mp hb
      rfl
    have hnever : s.phase ≠ .closed := by
      intro hclosed
      rcases h.gone hclosed with hend | hzero
      · rw [hend] at hended
        cases hended
      · exact hgeneration hzero
    refine ⟨fun hzero => absurd hzero hgeneration, h.gone, h.session, ?_, h.framed, ?_, h.kept.fates,
      h.kept.counted, fun hclosed => absurd hclosed hnever⟩
    · intro hcurrent b hb
      simp only [waiting, ← List.append_assoc] at hb
      rcases List.mem_append.mp hb with hb | hb
      · exact h.tagged hcurrent b hb
      · rw [htagged b hb, current]
        exact if_pos hcurrent
    · have haccounted := h.kept.accounted
      simp only [waiting] at haccounted ⊢
      rw [← haccounted]
      simp only [List.append_assoc]

theorem Inv.drop (h : s.Inv F) : Inv F { s with ended := true } :=
  ⟨h.fresh, fun _ => .inl rfl, h.session, h.tagged, h.framed,
    ⟨h.kept.accounted, h.kept.fates, h.kept.counted, h.kept.settled⟩⟩

theorem Inv.drain (h : s.Inv F) {n : ℕ} (hstep : s.drain n = some t) : t.Inv F := by
  simp only [State.drain] at hstep
  split at hstep
  next hn =>
    have hlength : (s.stream.take n).length = n := List.length_take_of_le hn.2.2
    have hfront (hfree : s.phase.Free) :
        s.waiting = s.stream.take n ++ (s.phase.hand ++ s.stream.drop n) := by
      rw [waiting, Phase.hand_of_free hfree, List.nil_append, List.nil_append, List.take_append_drop]
    split at hstep
    next hattempt =>
      cases hstep
      have hfree := Phase.free_of_attempting hattempt
      refine h.settle .dropped (fun _ => trivial) rfl (hfront hfree) rfl rfl rfl rfl ?_
        hfree id
      simp only [counts, Fate.unsent, hlength]
      omega
    next =>
      split at hstep <;> cases hstep
      next hsleep =>
        have hfree : s.phase.Free := by
          rw [hsleep]
          trivial
        refine h.settle .dropped (fun _ => trivial) rfl (hfront hfree) rfl rfl rfl rfl ?_
          hfree id
        simp only [counts, Fate.unsent, hlength]
        omega
  next => cases hstep

/-- The link ends with nothing that waits. -/
theorem Inv.close (h : s.Inv F) (hphase : t.phase = .closed) (hnone : s.waiting = [])
    (hstream : t.stream = s.stream) (hended : s.ended = true ∨ s.generation = 0)
    (hended' : t.ended = s.ended) (hsent : t.sent = s.sent) (hlog : t.log = s.log)
    (hgeneration : t.generation = s.generation) (hundelivered : t.undelivered = s.undelivered)
    (hcounts : t.counts = s.counts) : t.Inv F := by
  have hnone' : t.waiting = [] := by
    unfold waiting at hnone ⊢
    rw [hphase, hstream, (List.append_eq_nil_iff.mp hnone).2]
    rfl
  constructor
  · rw [hgeneration, hsent]
    exact h.fresh
  · rw [hended', hgeneration]
    exact fun _ => hended
  · rw [hphase]
    nofun
  · rw [hnone']
    intro _ b hb
    cases hb
  · rw [hphase]
    nofun
  · constructor
    · rw [hlog, hsent, hnone', ← h.kept.accounted, hnone]
    · rw [hlog]
      exact h.kept.fates
    · rw [hcounts, hlog, hundelivered]
      exact h.kept.counted
    · exact fun _ => hnone'

theorem Inv.eof (h : s.Inv F) (hclean : s.dropped = 0) (hstep : s.eof = some t) : t.Inv F := by
  simp only [State.eof] at hstep
  split at hstep <;> cases hstep
  next hend =>
    obtain ⟨hended, hstream, hphase⟩ := hend
    have hfree : s.phase.Free := by
      rcases hphase with hattempt | hsleep | hsession
      · exact Phase.free_of_attempting hattempt
      · rw [hsleep]
        trivial
      · rw [hsession]
        trivial
    refine h.close rfl ?_ rfl (.inl hended) rfl rfl rfl rfl rfl ?_
    · rw [waiting, Phase.hand_of_free hfree, hstream]
      rfl
    · unfold counts
      rw [hclean]

theorem Inv.connect (h : s.Inv F) {ok : Bool} (hstep : s.connect F ok = some t) : t.Inv F := by
  simp only [State.connect] at hstep
  split at hstep
  next hphase =>
    have hfree : s.phase.Free := by
      rw [hphase]
      trivial
    split at hstep
    next =>
      have hbegun : s.Aside { s with framing := (F.greeting (F.reset s.framing)).2 } :=
        ⟨rfl, rfl, rfl, rfl, rfl, rfl, rfl⟩
      split at hstep <;> cases hstep
      · exact h.outside (hbegun.trans (greeted_aside _)) hfree (greeted_outside _)
      · exact h.outside ⟨rfl, rfl, rfl, rfl, rfl, rfl, rfl⟩ hfree ⟨trivial, rfl⟩
    next =>
      cases hstep
      exact h.outside (attempted_aside s _) hfree ⟨trivial, rfl⟩
  next => cases hstep

theorem Inv.wrote (h : s.Inv F) {result : Wrote} (hclean : s.Clean (.wrote result))
    (hstep : s.wrote F c result = some t) : t.Inv F := by
  have hfree {p : Phase} (hphase : s.phase = p) (hp : p.Free) : s.phase.Free := by
    rw [hphase]
    exact hp
  have hin {p : Phase} (hphase : s.phase = p) (hp : p.inSession = true) :
      s.phase.inSession = true := by
    rw [hphase]
    exact hp
  have hfront {chunk : List Sent} {frame : List UInt8} (hphase : s.phase = .sending chunk frame) :
      s.waiting = chunk ++ s.stream := by
    rw [waiting, hphase]
    rfl
  simp only [State.wrote] at hstep
  split at hstep
  next bytes hphase =>
    cases hstep
    exact h.outside ((count_aside s _).trans (greeted_aside _)) (hfree hphase trivial)
      (greeted_outside _)
  next reply ready hphase =>
    cases hstep
    exact h.outside ((count_aside s _).trans (answered_aside _ _)) (hfree hphase trivial)
      (answered_outside _ _)
  next reply payload hphase =>
    cases hstep
    exact h.aside (t := (s.count reply.length).handed payload)
      ⟨rfl, rfl, rfl, rfl, rfl, rfl, rfl⟩ (hfree hphase trivial) (handed_free _ _)
      fun _ => hin hphase rfl
  next probe hphase =>
    cases hstep
    exact h.aside ⟨rfl, rfl, rfl, rfl, rfl, rfl, rfl⟩ (hfree hphase trivial) trivial
      fun _ => hin hphase rfl
  next chunk frame hphase =>
    cases hstep
    -- the frame is that of the bytes, which belong to the session that is current
    refine h.settle (.sent s.generation frame) ?_ rfl (hfront hphase) rfl rfl rfl rfl rfl
      trivial fun _ => hin hphase rfl
    intro htagged
    exact ⟨htagged (h.session (hin hphase rfl)), h.framed chunk frame hphase⟩
  next bytes n hphase =>
    cases hstep
    exact h.outside (attempted_aside s _) (hfree hphase trivial) ⟨trivial, rfl⟩
  next reply ready n hphase =>
    cases hstep
    exact h.outside (attempted_aside s _) (hfree hphase trivial) ⟨trivial, rfl⟩
  next reply payload n hphase =>
    cases hstep
    exact h.outside ⟨rfl, rfl, rfl, rfl, rfl, rfl, rfl⟩ (hfree hphase trivial) ⟨trivial, rfl⟩
  next probe n hphase =>
    cases hstep
    exact h.outside ⟨rfl, rfl, rfl, rfl, rfl, rfl, rfl⟩ (hfree hphase trivial) ⟨trivial, rfl⟩
  next chunk frame n hphase =>
    obtain rfl : n = 0 := hclean
    split at hstep
    next =>
      split at hstep <;> cases hstep
      refine h.settle .dropped (fun _ => trivial) rfl (hfront hphase) rfl rfl rfl rfl ?_
        trivial nofun
      simp only [counts, Fate.unsent]
      omega
    next => cases hstep
  next => cases hstep

theorem Inv.hear (h : s.Inv F) {bytes : List UInt8} (hstep : s.hear F bytes = some t) :
    t.Inv F := by
  simp only [State.hear] at hstep
  split at hstep
  next hphase =>
    have hfree : s.phase.Free := by
      rw [hphase]
      trivial
    have hheard : s.Aside { s with framing := (F.decode s.framing bytes).2 } :=
      ⟨rfl, rfl, rfl, rfl, rfl, rfl, rfl⟩
    split at hstep
    · cases hstep
      exact h.outside (hheard.trans (attempted_aside _ _)) hfree ⟨trivial, rfl⟩
    · split at hstep <;> cases hstep
      · exact h.outside (hheard.trans (answered_aside _ _)) hfree (answered_outside _ _)
      · exact h.outside ⟨rfl, rfl, rfl, rfl, rfl, rfl, rfl⟩ hfree ⟨trivial, rfl⟩
  next hphase =>
    have hfree : s.phase.Free := by
      rw [hphase]
      trivial
    have hin : s.phase.inSession = true := by
      rw [hphase]
      rfl
    split at hstep
    · cases hstep
      exact h.outside ⟨rfl, rfl, rfl, rfl, rfl, rfl, rfl⟩ hfree ⟨trivial, rfl⟩
    · split at hstep <;> cases hstep
      · exact h.aside ⟨rfl, rfl, rfl, rfl, rfl, rfl, rfl⟩ hfree (handed_free _ _) fun _ => hin
      · exact h.aside ⟨rfl, rfl, rfl, rfl, rfl, rfl, rfl⟩ hfree trivial fun _ => hin
  next => cases hstep

theorem Inv.fail (h : s.Inv F) (hstep : s.fail = some t) : t.Inv F := by
  simp only [State.fail] at hstep
  split at hstep
  next hphase =>
    cases hstep
    refine h.outside (attempted_aside s _) ?_ ⟨trivial, rfl⟩
    rw [hphase]
    trivial
  next hphase =>
    cases hstep
    refine h.outside ⟨rfl, rfl, rfl, rfl, rfl, rfl, rfl⟩ ?_ ⟨trivial, rfl⟩
    rw [hphase]
    trivial
  next => cases hstep

theorem Inv.probe (h : s.Inv F) (hstep : s.probe F = some t) : t.Inv F := by
  simp only [State.probe] at hstep
  split at hstep
  next hphase _ =>
    cases hstep
    refine h.aside ⟨rfl, rfl, rfl, rfl, rfl, rfl, rfl⟩ ?_ trivial ?_
    · rw [hphase]
      trivial
    · intro _
      rw [hphase]
      rfl
  next => cases hstep

theorem Inv.wake (h : s.Inv F) (hstep : s.wake = some t) : t.Inv F := by
  simp only [State.wake] at hstep
  split at hstep <;> cases hstep
  next hphase =>
    refine h.outside ⟨rfl, rfl, rfl, rfl, rfl, rfl, rfl⟩ ?_ ⟨trivial, rfl⟩
    rw [hphase]
    trivial

/-- Nothing is unread as the next session is announced. -/
theorem Inv.announce (h : s.Inv F) (hclean : s.stream = []) (hstep : s.announce = some t) :
    t.Inv F := by
  simp only [State.announce] at hstep
  split at hstep
  next leftover hphase =>
    cases hstep
    have hfree : Phase.Free (if leftover = [] then .session else .delivering leftover) := by
      split <;> trivial
    have hnone : s.waiting = [] := by
      rw [waiting, hphase, hclean]
      rfl
    have haccounted := h.kept.accounted
    rw [hnone] at haccounted
    refine ⟨nofun, fun hclosed => absurd hclosed (Phase.ne_closed_of_free hfree), fun _ => rfl, ?_,
      fun chunk frame hsending => absurd hsending (Phase.ne_sending_of_free hfree chunk frame), ?_,
      h.kept.fates, h.kept.counted, fun hclosed => absurd hclosed (Phase.ne_closed_of_free hfree)⟩
    · intro _ b hb
      simp only [waiting, Phase.hand_of_free hfree, hclean, List.append_nil] at hb
      cases hb
    · simp only [waiting, Phase.hand_of_free hfree, hclean, List.append_nil] at haccounted ⊢
      exact haccounted
  next => cases hstep

theorem Inv.take (h : s.Inv F) {n : ℕ} (hstep : s.take F n = some t) : t.Inv F := by
  simp only [State.take] at hstep
  split at hstep <;> cases hstep
  next hn =>
    have hwaiting : s.stream.take n ++ s.stream.drop n = s.waiting := by
      rw [waiting, hn.1, List.take_append_drop]
      rfl
    refine ⟨h.fresh, nofun, fun _ => h.session ?_, ?_, ?_, ?_, h.kept.fates, h.kept.counted, nofun⟩
    · rw [hn.1]
      rfl
    · intro hcurrent b hb
      apply h.tagged hcurrent
      rw [← hwaiting]
      exact hb
    · intro chunk frame hsending
      cases hsending
      exact ⟨s.framing, rfl⟩
    · have haccounted := h.kept.accounted
      rw [← hwaiting] at haccounted
      exact haccounted

theorem Inv.delivered (h : s.Inv F) {result : Delivered} (hclean : s.Clean (.delivered result))
    (hstep : s.delivered result = some t) : t.Inv F := by
  simp only [State.delivered] at hstep
  split at hstep
  next payload hphase =>
    have hfree : s.phase.Free := by
      rw [hphase]
      trivial
    have hin : s.phase.inSession = true := by
      rw [hphase]
      rfl
    split at hstep
    next =>
      cases hstep
      exact h.aside ⟨rfl, rfl, rfl, rfl, rfl, rfl, rfl⟩ hfree trivial fun _ => hin
    next n =>
      split at hstep <;> cases hstep
      have hsame : s.waiting = s.stream := by
        rw [waiting, hphase]
        rfl
      have haccounted := h.kept.accounted
      have htagged := h.tagged
      have hcounted := h.kept.counted
      rw [hsame] at haccounted htagged
      refine ⟨h.fresh, nofun, fun _ => h.session hin, htagged, nofun, haccounted, h.kept.fates, ?_,
        nofun⟩
      simp only [counts] at hcounted ⊢
      omega
    next =>
      split at hstep <;> cases hstep
      next hended =>
        refine h.close rfl ?_ rfl (.inl hended) rfl rfl rfl rfl rfl rfl
        rw [waiting, hphase, (hclean : s.stream = [])]
        rfl
  next => cases hstep

theorem Inv.report (h : s.Inv F) (hstep : s.report c = some t) : t.Inv F := by
  simp only [State.report] at hstep
  split at hstep <;> cases hstep
  next hphase =>
    have hsame : s.waiting = s.stream := by
      rw [waiting, hphase]
      rfl
    split
    next hgive =>
      -- the actor never had its end of the stream
      have haccounted := h.kept.accounted
      rw [h.fresh hgive.1] at haccounted
      have hnone := (List.append_eq_nil_iff.mp haccounted).2
      exact h.close rfl hnone rfl (.inr hgive.1) rfl rfl rfl rfl rfl rfl
    next =>
      have haccounted := h.kept.accounted
      rw [hsame] at haccounted
      exact ⟨h.fresh, nofun, nofun, nofun, nofun, haccounted, h.kept.fates, h.kept.counted, nofun⟩

theorem Inv.step {a : Act} (h : s.Inv F) (hclean : s.Clean a) (hstep : s.step F c a = some t) :
    t.Inv F := by
  cases a with
  | write bytes => exact h.write hstep
  | drop =>
    cases hstep
    exact h.drop
  | drain n => exact h.drain hstep
  | eof => exact h.eof hclean hstep
  | connect ok => exact h.connect hstep
  | wrote result => exact h.wrote hclean hstep
  | hear bytes => exact h.hear hstep
  | fail => exact h.fail hstep
  | announce => exact h.announce hclean hstep
  | take n => exact h.take hstep
  | probe => exact h.probe hstep
  | delivered result => exact h.delivered hclean hstep
  | report => exact h.report hstep
  | wake => exact h.wake hstep

theorem inv_of_reach (h : (machine F c).Reach Clean s) : s.Inv F := by
  apply h.invariant
  · rintro s ⟨framing, rfl⟩
    exact ⟨fun _ => rfl, nofun, nofun, nofun, nofun, ⟨rfl, nofun, rfl, nofun⟩⟩
  · intro s a t hinv hclean hstep
    exact hinv.step hclean hstep

end State

open State

/-- Bytes are sent, framed, in the session that they belong to, or dropped and counted. -/
theorem sent_in_session {σ : Type} (F : Framing σ) (c : NetConfig) (s : State σ)
    (h : (machine F c).Reach Clean s) : s.Kept F :=
  (inv_of_reach h).kept

/-- A connection that needs no handshake, with its session. -/
def connecting : List Act := [.connect true, .announce]

/-- The socket is lost, and the status is that of a reconnect. -/
def losing : List Act := [.fail, .report]

/-- A command is sent in the first session, one after the loss is dropped, and another is sent in
the second session. -/
theorem sent_in_session_reconnected : ∃ s,
    (machine RawFraming ⟨.tcp, 1⟩).Reach Clean s ∧
    (s.log.map Prod.snd = [.sent 1 [1], .dropped, .sent 2 [3]] ∧ s.counters.bytesDropped = 1) ∧
    s.Kept RawFraming := by
  have hstart : (machine RawFraming ⟨.tcp, 1⟩).Reach Clean (initial ()) := .init ⟨(), rfl⟩
  obtain ⟨s, hs, hlog⟩ := hstart.exists_of_runWhile
    (P := fun s => s.log.map Prod.snd = [.sent 1 [1], .dropped, .sent 2 [3]] ∧
      s.counters.bytesDropped = 1)
    (connecting ++ [.write [1], .take 1, .wrote .all] ++ losing ++
      [.write [2], .drain 1, .wake] ++ connecting ++ [.write [3], .take 1, .wrote .all])
    (by decide +kernel)
  exact ⟨s, hs, hlog, sent_in_session RawFraming ⟨.tcp, 1⟩ s hs⟩

/-- A command that the actor writes while the socket is opened again, and that nobody has read when
it is open, is sent in the later session. -/
theorem sent_in_later_session : ∃ s, (machine RawFraming ⟨.tcp, 1⟩).Reachable s ∧
    s.log = [([⟨1, none⟩], .sent 2 [1])] ∧ ¬ s.Kept RawFraming := by
  have hstart : (machine RawFraming ⟨.tcp, 1⟩).Reachable (initial ()) := .init ⟨(), rfl⟩
  obtain ⟨s, hs, hlog⟩ := hstart.exists_of_run
    (P := fun s => s.log = [([⟨1, none⟩], .sent 2 [1])])
    (connecting ++ losing ++ [.wake, .write [1]] ++ connecting ++ [.take 1, .wrote .all])
    (by decide +kernel)
  refine ⟨s, hs, hlog, ?_⟩
  intro hkept
  have hfate := hkept.fates [⟨1, none⟩] (.sent 2 [1]) (by rw [hlog]; exact List.mem_cons_self)
  have hsession := hfate.1 ⟨1, none⟩ List.mem_cons_self
  cases hsession

end HamsOpen.Net
