import HamsOpen.Hpsdr.Lock
import Mathlib

/-!
# Transmitting is behind the gate

A packet that keys the radio is built while the gate is open, after a request to key was accepted since
it was opened, and no sample is sent after transmitting was ended. This is so as long as the gate is
not opened while a request or samples from before stand, no lease runs out between a reading of the
clock and the look at the gate that goes by it, and transmitting is not ended between building a
packet with samples and sending it.
-/

namespace HamsOpen.Hpsdr

/-- A receive packet does not transmit, and another is built only while the gate is open, from samples
that it was given. -/
structure Wire.Gated {Cfg Builder Packet : Type} (W : Wire Cfg Builder Packet) : Prop where
  quiet : ∀ cfg b, ∀ p ∈ (W.rx cfg b).1, W.transmits p = false
  gated : ∀ cfg drive iq, ∀ part ∈ W.tx cfg drive iq, ∀ gate now b, ∀ p ∈ (part.build gate now b).1,
    gate.isOpen now = true
  iq : ∀ cfg drive iq, ∀ part ∈ W.tx cfg drive iq, ∀ q ∈ part.iq, q ∈ iq
  clear : ∀ tx, (W.clear tx).ptt = false ∧ (W.clear tx).iq = []

namespace Session

variable {Cfg Builder Packet : Type} {W : Wire Cfg Builder Packet} {s t : Session Cfg Builder Packet}

/-- What is said of the packets: one that transmits was built while the gate was open and a request to
key had been accepted since it was opened, and the samples that were sent had been queued since
transmitting was last ended. -/
structure Guarded (W : Wire Cfg Builder Packet) (s : Session Cfg Builder Packet) : Prop where
  built : ∀ b ∈ s.built, W.transmits b.packet = true → b.isOpen = true ∧ b.accepted = true
  sent : ∀ x ∈ s.sent, ∀ q ∈ x.iq, q.ends = x.ends

/-- The packets that are built and wait to be sent. -/
def ready (s : Session Cfg Builder Packet) : List (Ready Packet) :=
  match s.task with
  | .building _ _ ready => ready
  | .sending ready => ready
  | _ => []

/-- No packet with samples waits to be sent. -/
def NoneReady (s : Session Cfg Builder Packet) : Prop := ∀ x ∈ s.ready, x.2 = []

instance (s : Session Cfg Builder Packet) : Decidable s.NoneReady :=
  inferInstanceAs (Decidable (∀ x ∈ s.ready, x.2 = []))

/-- No request to key stands, and no sample. -/
def Cleared (s : Session Cfg Builder Packet) : Prop := s.tx.ptt = false ∧ s.tx.iq = []

instance (s : Session Cfg Builder Packet) : Decidable s.Cleared :=
  inferInstanceAs (Decidable (_ ∧ _))

/-- The gate and the clock become others: it is not opened while a request or samples stand, and not
closed while a packet with samples waits to be sent. -/
def MayTurn (s : Session Cfg Builder Packet) (gate : TxGate) (clock : Nat) : Prop :=
  (s.isOpen = false → gate.isOpen clock = true → s.Cleared) ∧
    (s.isOpen = true → gate.isOpen clock = false → s.NoneReady)

instance (s : Session Cfg Builder Packet) (gate : TxGate) (clock : Nat) :
    Decidable (s.MayTurn gate clock) := inferInstanceAs (Decidable (_ ∧ _))

/-- What happens does not come between what belongs together. -/
def Undisturbed (s : Session Cfg Builder Packet) : Event Cfg → Prop
  | .advance n => s.MayTurn s.gate (s.clock + n)
  | .openUntil deadline => s.MayTurn (s.gate.openUntil deadline).2 s.clock
  | .poison => s.MayTurn s.gate.poison s.clock
  | .close | .unkey | .stop => s.NoneReady
  | .build =>
    match s.task with
    | .building now _ _ => s.gate.SteadyFrom now s.clock
    | _ => True
  | _ => True

instance (s : Session Cfg Builder Packet) : DecidablePred s.Undisturbed := fun e => by
  cases e <;> unfold Undisturbed <;> try infer_instance
  cases s.task <;> infer_instance

/-- What a building task goes by. -/
structure Keyed (s : Session Cfg Builder Packet) (todo : List (Part Builder Packet)) : Prop where
  ptt : s.tx.ptt = true
  gated : ∀ part ∈ todo, ∀ gate now b, ∀ p ∈ (part.build gate now b).1, gate.isOpen now = true
  fresh : s.isOpen = true → ∀ part ∈ todo, ∀ q ∈ part.iq, q.ends = s.ends

/-- What holds between the steps of a session. -/
structure Inv (W : Wire Cfg Builder Packet) (s : Session Cfg Builder Packet) : Prop where
  guarded : s.Guarded W
  /-- While the gate is open, a request that stands was accepted since, and so were the samples. -/
  accepted : s.isOpen = true → s.tx.ptt = true → s.accepted = true
  fresh : s.isOpen = true → ∀ q ∈ s.tx.iq, q.ends = s.ends
  ready : ∀ x ∈ s.ready, ∀ q ∈ x.2, q.ends = s.ends
  keyed : ∀ now todo ready, s.task = .building now todo ready → s.Keyed todo

/-- No sample waits to be sent. -/
theorem NoneReady.samples (h : s.NoneReady) {x : Ready Packet} (hx : x ∈ s.ready) {q : Queued}
    (hq : q ∈ x.2) : False := by
  rw [h x hx] at hq
  cases hq

/-- The gate and the clock become others. -/
theorem Inv.turnGate (h : s.Inv W) {gate : TxGate} {clock : Nat} (hok : s.MayTurn gate clock) :
    (s.turnGate gate clock).Inv W := by
  obtain ⟨hopens, hcloses⟩ := hok
  have hkept (hnow : gate.isOpen clock = true) : (s.turnGate gate clock).ends = s.ends := by
    simp [Session.turnGate, hnow]
  have hends : (s.turnGate gate clock).ends = s.ends ∨ s.NoneReady := by
    by_cases hcloses' : s.isOpen = true ∧ gate.isOpen clock = false
    · exact .inr (hcloses hcloses'.1 hcloses'.2)
    · left
      simp only [Session.turnGate]
      apply if_neg
      simpa using hcloses'
  constructor
  · exact ⟨h.guarded.built, h.guarded.sent⟩
  · intro hnow hptt
    cases hbefore : s.isOpen with
    | false =>
      have hcleared := (hopens hbefore hnow).1
      rw [show s.tx.ptt = true from hptt] at hcleared
      cases hcleared
    | true => simp [Session.turnGate, h.accepted hbefore hptt, hbefore]
  · intro hnow q hq
    cases hbefore : s.isOpen with
    | false =>
      have hold : q ∈ s.tx.iq := hq
      rw [(hopens hbefore hnow).2] at hold
      cases hold
    | true =>
      rw [hkept hnow]
      exact h.fresh hbefore q hq
  · intro x hx q hq
    rcases hends with heq | hnone
    · rw [heq]
      exact h.ready x hx q hq
    · exact (hnone.samples hx hq).elim
  · intro now todo ready htask
    obtain ⟨hptt, hgated, hfresh⟩ := h.keyed now todo ready htask
    refine ⟨hptt, hgated, fun hnow => ?_⟩
    cases hbefore : s.isOpen with
    | false =>
      have hcleared := (hopens hbefore hnow).1
      rw [hptt] at hcleared
      cases hcleared
    | true =>
      rw [hkept hnow]
      exact hfresh hbefore

/-- Transmitting is ended by a close of the gate. -/
theorem Inv.close (h : s.Inv W) (hnone : s.NoneReady) :
    { s.turnGate s.gate.close s.clock with ends := s.ends + 1 }.Inv W := by
  have hclosed : { s.turnGate s.gate.close s.clock with ends := s.ends + 1 }.isOpen = false :=
    TxGate.isOpen_close _ _
  constructor
  · exact ⟨h.guarded.built, h.guarded.sent⟩
  · intro hnow
    rw [hclosed] at hnow
    cases hnow
  · intro hnow
    rw [hclosed] at hnow
    cases hnow
  · intro x hx q hq
    exact (hnone.samples hx hq).elim
  · intro now todo ready htask
    obtain ⟨hptt, hgated, -⟩ := h.keyed now todo ready htask
    refine ⟨hptt, hgated, fun hnow => ?_⟩
    rw [hclosed] at hnow
    cases hnow

/-- Transmitting is ended by an unkey, which takes the lock. -/
theorem Inv.unkey (h : s.Inv W) (hlock : s.Lock) (hfree : s.holder = none) (hnone : s.NoneReady) :
    s.unkey.Inv W where
  guarded := ⟨h.guarded.built, h.guarded.sent⟩
  accepted _ := nofun
  fresh _ _ := nofun
  ready _ hx _ hq := (hnone.samples hx hq).elim
  keyed now todo ready htask := absurd htask ((hlock.free hfree).1 now todo ready)

/-- What is said of the packets does not depend on who holds the lock. -/
theorem Inv.calls (h : s.Inv W) (calls : Nat → Call) (holder : Option Holder) (busy : Nat) :
    { s with calls := calls, holder := holder, busy := busy }.Inv W where
  guarded := ⟨h.guarded.built, h.guarded.sent⟩
  accepted := h.accepted
  fresh := h.fresh
  ready := h.ready
  keyed now todo ready htask := { h.keyed now todo ready htask with }

/-- A request to key is accepted. -/
theorem Inv.set (h : s.Inv W) (drive : U8) :
    { s with tx := { s.tx with ptt := true, drive := drive }, accepted := true }.Inv W where
  guarded := ⟨h.guarded.built, h.guarded.sent⟩
  accepted _ _ := rfl
  fresh := h.fresh
  ready := h.ready
  keyed now todo ready htask := { h.keyed now todo ready htask with ptt := rfl }

/-- Samples are queued, by a call that takes the lock. -/
theorem Inv.queue (h : s.Inv W) (hlock : s.Lock) (hfree : s.holder = none) (iq : List Sample) :
    ((s.queue iq).toOption.getD s).Inv W := by
  rcases queue_cases (s := s) iq with heq | heq <;> rw [heq]
  · exact h
  · constructor
    · exact ⟨h.guarded.built, h.guarded.sent⟩
    · exact h.accepted
    · intro hopen q hq
      rcases List.mem_append.mp hq with hold | hnew
      · exact h.fresh hopen q hold
      · obtain ⟨x, -, rfl⟩ := List.mem_map.mp hnew
        rfl
    · exact h.ready
    · intro now todo ready htask
      exact absurd htask ((hlock.free hfree).1 now todo ready)

/-! ### The task -/

/-- The task goes on without a packet to build. -/
theorem Inv.task (h : s.Inv W) {task : Task Cfg Builder Packet} (holder : Option Holder)
    (hready : ∀ x ∈ { s with task := task }.ready, x ∈ s.ready)
    (hbuilding : ∀ now todo ready, task ≠ .building now todo ready) :
    { s with task := task, holder := holder }.Inv W where
  guarded := ⟨h.guarded.built, h.guarded.sent⟩
  accepted := h.accepted
  fresh := h.fresh
  ready x hx := h.ready x (hready x hx)
  keyed now todo ready htask := absurd htask (hbuilding now todo ready)

/-- A packet that was built is one of those built, or the one that was just built. -/
theorem mem_note {packet : Option Packet} {b : Built Packet} (hb : b ∈ (s.note packet).built) :
    b ∈ s.built ∨ b.packet ∈ packet ∧ b.isOpen = s.isOpen ∧ b.accepted = s.accepted := by
  rcases List.mem_append.mp hb with hnew | hold
  · obtain ⟨p, hp, rfl⟩ := List.mem_map.mp hnew
    exact .inr ⟨Option.mem_toList.mp hp, rfl, rfl⟩
  · exact .inl hold

theorem Inv.take (hW : W.Gated) (h : s.Inv W) (now : Nat) (cfg : Cfg) :
    (s.take W now cfg).Inv W := by
  rw [Session.take]
  split
  next hkeyed =>
    obtain ⟨hptt, -⟩ := Bool.and_eq_true_iff.mp hkeyed
    constructor
    · exact ⟨h.guarded.built, h.guarded.sent⟩
    · exact h.accepted
    · intro hopen q hq
      exact h.fresh hopen q (List.mem_of_mem_drop hq)
    · intro x hx
      cases hx
    · intro now' todo ready htask
      cases htask
      refine ⟨hptt, hW.gated _ _ _, ?_⟩
      intro hopen part hpart q hq
      exact h.fresh hopen q (List.mem_of_mem_take (hW.iq _ _ _ part hpart q hq))
  next =>
    obtain ⟨hptt, hiq⟩ := hW.clear s.tx
    dsimp only
    constructor
    · constructor
      · intro b hb htransmits
        rcases mem_note hb with hold | ⟨hp, -⟩
        · exact h.guarded.built b hold htransmits
        · rw [hW.quiet cfg s.builder b.packet hp] at htransmits
          cases htransmits
      · exact h.guarded.sent
    · intro _ hset
      rw [show (W.clear s.tx).ptt = true from hset] at hptt
      cases hptt
    · intro _ q hq
      have hleft : q ∈ (W.clear s.tx).iq := hq
      rw [hiq] at hleft
      cases hleft
    · intro x hx q hq
      obtain ⟨p, -, rfl⟩ := List.mem_map.mp hx
      cases hq
    · intro _ _ _ htask
      cases htask

theorem Inv.build (h : s.Inv W) {now : Nat} {part : Part Builder Packet}
    {todo : List (Part Builder Packet)} {ready : List (Ready Packet)}
    (htask : s.task = .building now (part :: todo) ready) (hsteady : s.gate.SteadyFrom now s.clock) :
    (s.build now part todo ready).Inv W := by
  obtain ⟨hptt, hgated, hfresh⟩ := h.keyed now _ ready htask
  have hready : s.ready = ready := by rw [Session.ready, htask]
  -- a packet is built only behind the gate, and the gate is still as it was found
  have hopen : ∀ p ∈ (part.build s.gate now s.builder).1, s.isOpen = true := by
    intro p hp
    exact TxGate.isOpen_of_steady hsteady
      (hgated part List.mem_cons_self s.gate now s.builder p hp)
  rw [Session.build]
  dsimp only
  constructor
  · constructor
    · intro b hb htransmits
      rcases mem_note hb with hold | ⟨hp, hisOpen, haccepted⟩
      · exact h.guarded.built b hold htransmits
      · have hnow := hopen b.packet hp
        exact ⟨hisOpen.trans hnow, haccepted.trans (h.accepted hnow hptt)⟩
    · exact h.guarded.sent
  · exact h.accepted
  · exact h.fresh
  · intro x hx q hq
    rcases List.mem_append.mp hx with hold | hnew
    · exact h.ready x (hready ▸ hold) q hq
    · obtain ⟨p, hp, rfl⟩ := List.mem_map.mp hnew
      exact hfresh (hopen p (Option.mem_toList.mp hp)) part List.mem_cons_self q hq
  · intro now' todo' ready' htask'
    cases htask'
    refine ⟨hptt, ?_, ?_⟩
    · intro part' hpart
      exact hgated part' (List.mem_cons_of_mem _ hpart)
    · intro hnow part' hpart
      exact hfresh hnow part' (List.mem_cons_of_mem _ hpart)

/-- A packet is sent. -/
theorem Inv.log (h : s.Inv W) {packet : Packet} {iq : List Queued}
    (hiq : ∀ q ∈ iq, q.ends = s.ends) : (s.log packet iq).Inv W where
  guarded :=
    { built := h.guarded.built
      sent := by
        intro x hx
        rcases List.mem_cons.mp hx with rfl | hold
        · exact hiq
        · exact h.guarded.sent x hold }
  accepted := h.accepted
  fresh := h.fresh
  ready := h.ready
  keyed now todo ready htask :=
    { h.keyed now todo ready htask with }

theorem Inv.cfg (h : s.Inv W) (cfg : Cfg) : { s with cfg := cfg }.Inv W where
  guarded := ⟨h.guarded.built, h.guarded.sent⟩
  accepted := h.accepted
  fresh := h.fresh
  ready := h.ready
  keyed now todo ready htask := { h.keyed now todo ready htask with }

/-- The session is being stopped. -/
theorem Inv.phase (h : s.Inv W) (phase : Stop) : { s with phase := phase }.Inv W where
  guarded := ⟨h.guarded.built, h.guarded.sent⟩
  accepted := h.accepted
  fresh := h.fresh
  ready := h.ready
  keyed now todo ready htask := { h.keyed now todo ready htask with }

/-- A task that waits for its timer ends when it is aborted. -/
theorem Inv.abort (h : s.Inv W) :
    { s with task := match s.task with
      | .waiting => .ended
      | task => task }.Inv W := by
  cases htask : s.task with
  | waiting => exact h.task s.holder (fun _ => nofun) (fun _ _ _ => nofun)
  | _ =>
    dsimp only
    rw [← htask]
    exact h

/-! ### Runs -/

/-- What an undisturbed step keeps. -/
theorem Inv.step (hW : W.Gated) (hlock : s.Lock) (h : s.Inv W) {e : Event Cfg}
    (hok : s.Undisturbed e) (hstep : s.step W e = some t) : t.Inv W := by
  cases e <;> simp only [Session.step] at hstep
  case advance n =>
    obtain rfl := Option.some.inj hstep
    exact h.turnGate hok
  case openUntil deadline =>
    obtain rfl := Option.some.inj hstep
    exact h.turnGate hok
  case poison =>
    obtain rfl := Option.some.inj hstep
    exact h.turnGate hok
  case close =>
    obtain rfl := Option.some.inj hstep
    exact h.close hok
  case update f =>
    split at hstep
    · obtain rfl := Option.some.inj hstep
      rcases update_cases (W := W) (s := s) f with heq | ⟨-, -, heq⟩ <;> rw [heq]
      · exact h
      · exact h.cfg _
    · cases hstep
  case unkey =>
    split at hstep
    next hfree =>
      obtain rfl := Option.some.inj hstep
      exact h.unkey hlock hfree.2 hok
    next => cases hstep
  case key i drive =>
    split at hstep
    next hfree =>
      obtain rfl := Option.some.inj hstep
      exact h.calls _ _ _
    next => cases hstep
  case keyCheck i =>
    split at hstep
    next drive now hcall =>
      split at hstep
      · obtain rfl := Option.some.inj hstep
        exact h.calls _ _ _
      · obtain rfl := Option.some.inj hstep
        exact h.calls _ _ _
    next => cases hstep
  case keySet i =>
    split at hstep
    next drive hcall =>
      obtain rfl := Option.some.inj hstep
      exact (h.set drive).calls _ _ _
    next => cases hstep
  case iq i iq =>
    split at hstep
    · obtain rfl := Option.some.inj hstep
      exact h.calls _ _ _
    · cases hstep
  case iqCheck i =>
    split at hstep
    · split at hstep
      · obtain rfl := Option.some.inj hstep
        exact h.calls _ _ _
      · obtain rfl := Option.some.inj hstep
        exact h.calls _ _ _
    · cases hstep
  case iqQueue i =>
    split at hstep
    next iq _ =>
      split at hstep
      next hfree =>
        obtain rfl := Option.some.inj hstep
        exact (h.queue hlock hfree iq).calls _ _ _
      next => cases hstep
    next => cases hstep
  case tick =>
    split at hstep
    next htask =>
      obtain rfl := Option.some.inj hstep
      exact h.task _ (fun _ hx => by cases hx) (fun _ _ _ hnot => by cases hnot)
    next => cases hstep
  case copy =>
    split at hstep
    next htask =>
      obtain rfl := Option.some.inj hstep
      exact h.task _ (fun _ hx => by cases hx) (fun _ _ _ hnot => by cases hnot)
    next => cases hstep
  case take =>
    split at hstep
    next now cfg htask =>
      split at hstep
      next hfree =>
        obtain rfl := Option.some.inj hstep
        exact h.take hW now cfg
      next => cases hstep
    next => cases hstep
  case build =>
    split at hstep
    next now part todo ready htask =>
      obtain rfl := Option.some.inj hstep
      apply h.build htask
      simpa only [Undisturbed, htask] using hok
    next => cases hstep
  case handOver =>
    split at hstep
    next now ready htask =>
      obtain rfl := Option.some.inj hstep
      have hready : s.ready = ready := by rw [Session.ready, htask]
      exact h.task _ (fun x hx => hready ▸ hx) (fun _ _ _ hnot => by cases hnot)
    next => cases hstep
  case send =>
    split at hstep
    next packet iq ready htask =>
      obtain rfl := Option.some.inj hstep
      have hready : s.ready = (packet, iq) :: ready := by rw [Session.ready, htask]
      have hrest : { s with task := .sending ready }.Inv W :=
        h.task s.holder (fun x hx => hready ▸ List.mem_cons_of_mem _ hx)
          (fun _ _ _ hnot => by cases hnot)
      exact hrest.log (h.ready (packet, iq) (hready ▸ List.mem_cons_self))
    next htask =>
      obtain rfl := Option.some.inj hstep
      apply h.task
      · intro x hx
        cases hphase : s.phase <;> simp [Session.ready, hphase] at hx
      · intro _ _ _
        split <;> rintro ⟨⟩
    next => cases hstep
  case stop =>
    split at hstep
    next hfree =>
      obtain rfl := Option.some.inj hstep
      exact ((h.unkey hlock hfree.2.1 hok).phase .aborted).abort
    next => cases hstep
  case stopSend =>
    split at hstep
    · obtain rfl := Option.some.inj hstep
      cases W.stop s.cfg with
      | none => exact h.phase .stopped
      | some packet => exact (h.phase .stopped).log (by intros; contradiction)
    · cases hstep

theorem inv_started (cfg : Cfg) (gate : TxGate) (clock : Nat) : (W.started cfg gate clock).Inv W where
  guarded :=
    { built := nofun
      sent := by
        intro x hx q hq
        obtain ⟨p, -, rfl⟩ := List.mem_map.mp hx
        cases hq }
  accepted _ := nofun
  fresh _ _ := nofun
  ready _ := nofun
  keyed _ _ _ := nofun

/-- What is said of the packets holds in every undisturbed run. -/
theorem guarded_of_reach (hW : W.Gated) (h : W.machine.Reach Undisturbed s) : s.Guarded W := by
  have hinv : s.Inv W := by
    apply h.invariant_with lock_of_reach
    · rintro s ⟨cfg, gate, clock, -, rfl⟩
      exact inv_started cfg gate clock
    · intro s e t hlock hs hok hstep
      exact hs.step hW hlock hok hstep
  exact hinv.guarded

end Session

/-! ### The two sessions -/

open Session

theorem slot_mem (cfg : P1Config) (cursor : Nat) : Ep2Builder.slot cfg cursor ∈ cfg.addresses := by
  have hlt : cursor % cfg.addresses.length < cfg.addresses.length := by
    apply Nat.mod_lt
    simp [P1Config.addresses]
  rw [Ep2Builder.slot, List.getD_eq_getElem _ _ hlt]
  exact List.getElem_mem hlt

/-- A frame that is not to key does not transmit. -/
theorem frame_quiet {cfg : P1Config} (hvalid : cfg.Valid) (f cursor : Nat) :
    (Ep2Builder.frame cfg false 0 [] f cursor).transmits = false := by
  have haddr := P1Config.addr_le hvalid (slot_mem cfg cursor)
  have hmox : (cfg.encodeCc (Ep2Builder.slot cfg cursor) false 0).mox = false :=
    P1Config.mox_encodeCc haddr
  have hdrive : (cfg.encodeCc (Ep2Builder.slot cfg cursor) false 0).addr = 9 →
      (cfg.encodeCc (Ep2Builder.slot cfg cursor) false 0).c1 = 0 := by
    rw [P1Config.addr_encodeCc haddr]
    intro h9
    rw [h9]
    rfl
  have hiq : ((List.range 63).map fun k => ([] : List Sample).getD (f * 63 + k) (0, 0)).any
      (· != (0, 0)) = false := by simp
  rw [Frame.transmits, Ep2Builder.frame, hmox, hiq, Bool.false_or, Bool.or_false,
    Bool.and_eq_false_iff]
  by_cases h9 : (cfg.encodeCc (Ep2Builder.slot cfg cursor) false 0).addr = 9
  · right
    rw [hdrive h9]
    rfl
  · left
    exact beq_eq_false_iff_ne.mpr h9

theorem buildRx_quiet {cfg : P1Config} {b : Ep2Builder} {d : Ep2}
    (hd : (b.buildRx cfg).1 = .ok d) : (P1Packet.ep2 d).transmits = false := by
  rw [Ep2Builder.buildRx, Ep2Builder.assemble] at hd
  cases hvalidate : cfg.validate with
  | error e =>
    rw [hvalidate] at hd
    cases hd
  | ok _ =>
    rw [hvalidate] at hd
    obtain rfl := Except.ok.inj hd
    have hvalid := P1Config.valid_of_validate hvalidate
    simp only [P1Packet.transmits, frame_quiet hvalid, Bool.or_self]

/-- What is made of a result that is there. -/
theorem mem_ok {α β ε : Type} {x : Except ε α} {f : α → β} {b : β}
    (h : b ∈ x.toOption.map f) : ∃ a, x = .ok a ∧ b = f a := by
  cases x with
  | error e => cases h
  | ok a =>
    obtain rfl := Option.some.inj h
    exact ⟨a, rfl, rfl⟩

theorem p1_gated : P1.wire.Gated where
  quiet cfg b p hp := by
    obtain ⟨d, hd, rfl⟩ := mem_ok hp
    exact buildRx_quiet hd
  gated cfg drive iq part hpart gate now b p hp := by
    obtain rfl := List.mem_singleton.mp hpart
    have hmem : p ∈ ((b.buildTx cfg gate now
        ⟨true, drive, iq.map Queued.sample⟩).1.toOption.map P1Packet.ep2) := hp
    obtain ⟨d, hd, -⟩ := mem_ok hmem
    by_contra hclosed
    have hnone : (b.buildTx cfg gate now ⟨true, drive, iq.map Queued.sample⟩).1 =
        .error .GateClosed := by
      rw [Ep2Builder.buildTx, if_pos (by simpa using hclosed)]
    rw [hnone] at hd
    cases hd
  iq cfg drive iq part hpart q hq := by
    obtain rfl := List.mem_singleton.mp hpart
    exact hq
  clear _ := ⟨rfl, rfl⟩

/-- What a packet of Protocol 2 is built from. -/
theorem mem_emit {packet : Except HpsdrError P2Packet} {next b : Seqs} {p : P2Packet}
    (h : p ∈ (P2.emit packet next b).1) : packet = .ok p := by
  cases packet with
  | error e => cases h
  | ok a => rw [Option.some.inj h]

theorem p2_gated (phaseWord : Option (U32 → U32)) : (P2.wire phaseWord).Gated where
  quiet cfg b p hp := by
    have hok : encodeHighPriorityRx b.hp (P2.hpRx phaseWord cfg true) = .ok p := mem_emit hp
    unfold encodeHighPriorityRx at hok
    cases hcheck : (P2.hpRx phaseWord cfg true).check with
    | error e =>
      rw [hcheck] at hok
      cases hok
    | ok _ =>
      rw [hcheck] at hok
      obtain rfl := Except.ok.inj hok
      rfl
  gated cfg drive iq part hpart gate now b p hp := by
    by_contra hclosed
    have hshut : (!gate.isOpen now) = true := by simpa using hclosed
    have hcases : part = P2.hpPart phaseWord cfg drive ∨ part = P2.ducPart iq := by
      rcases List.mem_cons.mp hpart with rfl | hduc
      · exact .inl rfl
      · split at hduc
        · cases hduc
        · exact .inr (List.mem_singleton.mp hduc)
    rcases hcases with rfl | rfl
    · have hok : encodeHighPriorityTx b.hp (P2.hpRx phaseWord cfg true) gate now
          ⟨true, cfg.txHz, drive⟩ = .ok p := mem_emit hp
      rw [encodeHighPriorityTx, if_pos hshut] at hok
      cases hok
    · have hok : encodeDucIq b.duc (iq.map fun q => sample24 q.sample) gate now = .ok p :=
        mem_emit hp
      rw [encodeDucIq, if_pos hshut] at hok
      cases hok
  iq cfg drive iq part hpart q hq := by
    rcases List.mem_cons.mp hpart with rfl | hduc
    · cases hq
    · split at hduc
      · cases hduc
      · obtain rfl := List.mem_singleton.mp hduc
        exact hq
  clear _ := ⟨rfl, rfl⟩

/-- In both sessions, in every undisturbed run, a packet that transmits is built behind the gate, and
no sample is sent after transmitting was ended. -/
theorem transmit_guarded (phaseWord : Option (U32 → U32)) :
    (∀ s, P1.wire.machine.Reach Undisturbed s → s.Guarded P1.wire) ∧
      ∀ s, (P2.wire phaseWord).machine.Reach Undisturbed s → s.Guarded (P2.wire phaseWord) :=
  ⟨fun _ => guarded_of_reach p1_gated, fun _ => guarded_of_reach (p2_gated phaseWord)⟩

/-- A tick of the task. -/
def tick (Cfg : Type) : List (Event Cfg) := [.tick, .copy, .take, .build, .handOver, .send, .send]

/-- A caller asks to key, and the gate is open. -/
def keyDown (Cfg : Type) (drive : U8) : List (Event Cfg) :=
  [.key 0 drive, .keyCheck 0, .keySet 0]

/-- The session of the default settings, with a closed gate. -/
def session : Session P1Config Ep2Builder P1Packet := P1.wire.started .default .new 0

theorem session_reach {ok : Session P1Config Ep2Builder P1Packet → Event P1Config → Prop} :
    P1.wire.machine.Reach ok session :=
  .init ⟨.default, .new, 0, rfl, rfl⟩

/-- A session that keys the radio and sends a sample. -/
theorem transmit_guarded_keyed : ∃ s, P1.wire.machine.Reach Undisturbed s ∧
    (∃ x ∈ s.sent, x.iq ≠ []) ∧ s.Guarded P1.wire := by
  have hstart : P1.wire.machine.Reach Undisturbed session := session_reach
  obtain ⟨s, hs, hsent⟩ := hstart.exists_of_runWhile
    (P := fun s => ∃ x ∈ s.sent, x.iq ≠ [])
    (.openUntil 100 :: keyDown P1Config 50 ++ [.iq 1 [(1, 1)], .iqCheck 1, .iqQueue 1] ++
      tick P1Config) (by decide +kernel)
  exact ⟨s, hs, hsent, (transmit_guarded none).1 s hs⟩

/-- A request from before the gate was closed keys the radio when the gate is opened again. -/
theorem stale_request_revived :
    ¬ ∀ s, P1.wire.machine.Reachable s → s.Guarded P1.wire := by
  intro hall
  have hstart : P1.wire.machine.Reachable session := session_reach
  obtain ⟨s, hs, b, hb, htransmits, hstale⟩ := hstart.exists_of_run
    (P := fun s => ∃ b ∈ s.built, P1.wire.transmits b.packet = true ∧ b.accepted = false)
    (.openUntil 100 :: keyDown P1Config 50 ++ [.close, .openUntil 100] ++
      tick P1Config) (by decide +kernel)
  have haccepted := ((hall s hs).built b hb htransmits).2
  rw [hstale] at haccepted
  cases haccepted

end HamsOpen.Hpsdr
