import HamsOpen.Hpsdr.Radio
import Mathlib

/-!
# Keyed settings, and the end of a session

What a radio of Protocol 1 holds when it is keyed. The bit that keys is in every command, but the
drive and the transmit frequency have a turn of their own. So the radio is keyed with what was asked
as long as a request or an update comes when the radio has what it asks for, or is told it next. A
session ends unkeyed as long as it is stopped with no keyed command behind it, and its task has ended
before the last packet is sent.
-/

namespace HamsOpen.Hpsdr

open Ep2Builder

abbrev P1Session := Session P1Config Ep2Builder P1Packet

/-- Keyed commands leave the radio as the request and the settings ask. -/
def Keeps (tx : TxState) (hz : U32) : List CC → P1Radio → Prop
  | [], _ => True
  | cc :: ccs, r =>
    (cc.mox = true → tx.ptt = true ∧ (r.hear cc).Holds tx.drive hz) ∧ Keeps tx hz ccs (r.hear cc)

/-- Whenever the radio saw the bit that keys, it held the drive and the transmit frequency asked for
then. -/
def Right (r : P1Radio) : List (Sent P1Config P1Packet) → Prop
  | [] => True
  | x :: sent => Keeps x.tx x.cfg.txHz x.packet.commands (r.after sent) ∧ Right r sent

/-- Keyed commands leave the radio with a drive and a transmit frequency, and it has them, or is told
them next. -/
def Fits (drive : U8) (hz : U32) (next : Nat) : List CC → P1Radio → Prop
  | [], r => r.Meets drive hz next
  | cc :: ccs, r =>
    (cc.mox = true → (r.hear cc).Holds drive hz) ∧ Fits drive hz next ccs (r.hear cc)

instance Keeps.decidable (tx : TxState) (hz : U32) :
    ∀ ccs r, Decidable (Keeps tx hz ccs r)
  | [], _ => .isTrue trivial
  | cc :: ccs, r => @instDecidableAnd _ _ _ (decidable tx hz ccs (r.hear cc))

instance Right.decidable (r : P1Radio) : ∀ sent, Decidable (Right r sent)
  | [] => .isTrue trivial
  | _ :: sent => @instDecidableAnd _ _ _ (decidable r sent)

instance Fits.decidable (drive : U8) (hz : U32) (next : Nat) :
    ∀ ccs r, Decidable (Fits drive hz next ccs r)
  | [], r => inferInstanceAs (Decidable (r.Meets drive hz next))
  | cc :: ccs, r => @instDecidableAnd _ _ _ (decidable drive hz next ccs (r.hear cc))

/-- The last command sent keys. -/
def lastKeyed (sent : List (Sent P1Config P1Packet)) : Bool :=
  (sent.findSome? fun x => x.packet.commands.getLast?).any CC.mox

namespace Session

/-- The commands that are built and wait to be sent. -/
def hand (s : P1Session) : List CC := s.ready.flatMap fun x => x.1.commands

/-- The task has a copy of the settings to build from. -/
def copying (s : P1Session) : Bool :=
  match s.task with
  | .copied _ _ => true
  | .building _ (_ :: _) _ => true
  | _ => false

/-- The address of the next command. -/
def next (s : P1Session) : Nat := slot s.cfg s.builder.cursor

/-- The addresses that the task has the settings of already. -/
def held (s : P1Session) : List Nat :=
  s.hand.map CC.addr ++
    if s.copying then [s.next, slot s.cfg (s.builder.cursor + 1)] else []

/-- No keyed command waits to be sent, or was the last. -/
def Hushed (s : P1Session) : Prop :=
  (∀ cc ∈ s.hand, cc.mox = false) ∧ (s.hand = [] → lastKeyed s.sent = false)

instance (s : P1Session) : Decidable s.Hushed := inferInstanceAs (Decidable (_ ∧ _))

/-- What is said of the radio and of the end of the session. -/
structure AsAsked (r : P1Radio) (s : P1Session) : Prop where
  right : Right r s.sent
  /-- The radio holds the settings after a round of addresses. -/
  whole : ∀ l sent, s.sent = l ++ sent → (∀ x ∈ l, x.packet.commands ≠ [] ∧ x.cfg = s.cfg) →
    s.cfg.addresses.length ≤ 2 * l.length →
    ∀ a ∈ s.cfg.addresses, (r.after s.sent).settings.SameAt s.cfg a
  /-- After the end, the last command sent is unkeyed, and none is to follow. -/
  stopped : s.phase = .stopped → s.task = .ended ∧ lastKeyed s.sent = false

/-- The drive that a call is about to set. -/
def asked (s : P1Session) (i : Nat) : Option U8 :=
  match s.calls i with
  | .passed drive => some drive
  | _ => none

def hasEnded (s : P1Session) : Bool :=
  match s.task with
  | .ended => true
  | _ => false

/-- A request comes when the radio has what it asks for or is told it next, an update leaves alone
what the task has already, and an end comes with no keyed command behind it. -/
def Orderly (r : P1Radio) (s : P1Session) : Event P1Config → Prop
  | .keySet i => ∀ drive ∈ s.asked i, Fits drive s.cfg.txHz s.next s.hand (r.after s.sent)
  | .update f => ∀ t ∈ (s.update P1.wire f).toOption, (∀ a ∈ s.held, t.cfg.SameAt s.cfg a) ∧
    (s.tx.ptt = true → Fits s.tx.drive t.cfg.txHz s.next s.hand (r.after s.sent))
  | .unkey => ∀ cc ∈ s.hand, cc.mox = false
  | .stop => s.Hushed
  | .stopSend => s.hasEnded = true
  | _ => True

instance (r : P1Radio) (s : P1Session) : DecidablePred (s.Orderly r) := fun e => by
  cases e <;> unfold Orderly <;> infer_instance

variable {r : P1Radio} {s t : P1Session}

/-- A copy of the settings is the same as them where the task builds from it. -/
structure CopyOf (cfg : P1Config) (cursor : Nat) (copy : P1Config) : Prop where
  numRx : copy.numRx = cfg.numRx
  first : copy.SameAt cfg (slot cfg cursor)
  second : copy.SameAt cfg (slot cfg (cursor + 1))

/-- Where the task is in the rounds, after so many addresses: it holds no packet, or the next one. -/
def InRounds (s : P1Session) (n : Nat) : Prop :=
  (s.ready = [] ∧ s.builder.cursor = n % s.cfg.addresses.length) ∨
    ∃ x mox drive, s.ready = [x] ∧ s.builder.cursor = (n + 2) % s.cfg.addresses.length ∧
      x.1.commands = [s.cfg.encodeCc (slot s.cfg n) mox drive,
        s.cfg.encodeCc (slot s.cfg (n + 1)) mox drive]

/-- What holds between the steps of an orderly run. -/
structure Kept (r : P1Radio) (s : P1Session) : Prop where
  valid : s.cfg.Valid
  rounds : ∃ n, Rounds s.sent n ∧ s.InRounds n
  copied : ∀ now cfg, s.task = .copied now cfg → CopyOf s.cfg s.builder.cursor cfg
  building : ∀ now part todo ready, s.task = .building now (part :: todo) ready →
    todo = [] ∧ ready = [] ∧ s.tx.ptt = true ∧
      ∃ cfg iq, part = P1.part cfg s.tx.drive iq ∧ CopyOf s.cfg s.builder.cursor cfg
  /-- As long as a request stands, the radio will be keyed with what it asks for. -/
  fits : s.tx.ptt = true → Fits s.tx.drive s.cfg.txHz s.next s.hand (r.after s.sent)
  keyed : ∀ cc ∈ s.hand, cc.mox = true → s.tx.ptt = true
  right : Right r s.sent
  idle : s.phase ≠ .running → s.tx.ptt = false ∧ s.Hushed
  stopped : s.phase = .stopped → s.task = .ended

end Session

/-! ### Commands -/

theorem Fits.keeps {tx : TxState} {hz : U32} {next : Nat} {ccs : List CC} {r : P1Radio}
    (h : Fits tx.drive hz next ccs r) (hptt : ∀ cc ∈ ccs, cc.mox = true → tx.ptt = true) :
    Keeps tx hz ccs r := by
  induction ccs generalizing r with
  | nil => trivial
  | cons cc ccs ih =>
    obtain ⟨hfirst, hrest⟩ := h
    constructor
    · intro hmox
      exact ⟨hptt cc List.mem_cons_self hmox, hfirst hmox⟩
    · exact ih hrest fun c hc => hptt c (List.mem_cons_of_mem _ hc)

theorem keeps_of_unkeyed {tx : TxState} {hz : U32} {ccs : List CC} {r : P1Radio}
    (h : ∀ cc ∈ ccs, cc.mox = false) : Keeps tx hz ccs r := by
  induction ccs generalizing r with
  | nil => trivial
  | cons cc ccs ih =>
    constructor
    · intro hmox
      rw [h cc List.mem_cons_self] at hmox
      cases hmox
    · exact ih fun c hc => h c (List.mem_cons_of_mem _ hc)

theorem Fits.after {drive : U8} {hz : U32} {next : Nat} {ccs : List CC} {r : P1Radio}
    (h : Fits drive hz next ccs r) : (ccs.foldl P1Radio.hear r).Meets drive hz next := by
  induction ccs generalizing r with
  | nil => exact h
  | cons cc ccs ih => exact ih h.2

/-- The keyed commands of a datagram fit what the radio meets. -/
theorem fits_keyed {cfg : P1Config} {drive : U8} {n : Nat} {r : P1Radio} (hvalid : cfg.Valid)
    (h : r.Meets drive cfg.txHz (slot cfg n)) (next : Nat) :
    Fits drive cfg.txHz next [cfg.encodeCc (slot cfg n) true drive,
      cfg.encodeCc (slot cfg (n + 1)) true drive] r := by
  have hfirst := P1Radio.holds_hear hvalid (addr_slot_le hvalid n) true h
  have hsecond := P1Radio.holds_hear hvalid (addr_slot_le hvalid (n + 1)) true (hfirst.meets _)
  exact ⟨fun _ => hfirst, fun _ => hsecond, hsecond.meets _⟩

theorem lastKeyed_cons (x : Sent P1Config P1Packet) (sent : List (Sent P1Config P1Packet)) :
    lastKeyed (x :: sent) =
      (x.packet.commands.getLast?.elim (lastKeyed sent) CC.mox) := by
  rw [lastKeyed, List.findSome?_cons]
  cases x.packet.commands.getLast? <;> rfl

/-- A datagram that is built from a copy of the settings carries what the settings would. -/
theorem Session.CopyOf.assemble {cfg copy : P1Config} {b : Ep2Builder} {n : Nat}
    (h : CopyOf cfg b.cursor copy) (hcursor : b.cursor = n % cfg.addresses.length) (mox : Bool)
    (drive : U8) (iq : List Sample) :
    (∃ e, b.assemble copy mox drive iq = (.error e, b)) ∨
      ∃ d b', b.assemble copy mox drive iq = (.ok d, b') ∧
        (P1Packet.ep2 d).commands = [cfg.encodeCc (slot cfg n) mox drive,
          cfg.encodeCc (slot cfg (n + 1)) mox drive] ∧
        b'.cursor = (n + 2) % cfg.addresses.length := by
  have hfirst : slot cfg b.cursor = slot cfg n := by rw [hcursor, slot_mod]
  have hsecond : slot cfg (b.cursor + 1) = slot cfg (n + 1) := by
    rw [← slot_mod cfg (b.cursor + 1), hcursor, Nat.mod_add_mod, slot_mod]
  have hlen : copy.addresses.length = cfg.addresses.length := by
    rw [length_addresses, length_addresses, h.numRx]
  rcases assemble_cases copy mox drive iq b with hfail | ⟨d, b', hd, hcommands, hb'⟩
  · exact .inl hfail
  · refine .inr ⟨d, b', hd, ?_, ?_⟩
    · rw [hcommands, slot_congr h.numRx, slot_congr h.numRx, h.first.encodeCc_eq,
        h.second.encodeCc_eq, hfirst, hsecond]
    · rw [hb', hlen, hcursor, Nat.mod_add_mod]

namespace Session

/-! ### Steps -/

variable {r : P1Radio} {s t : P1Session}

/-- What happens beside the settings, the request and the task. -/
theorem Kept.beside (h : s.Kept r) (clock : Nat) (gate : TxGate) (iq : List Queued)
    (holder : Option Holder) (calls : Nat → Call) (busy ends : Nat) (accepted : Bool)
    (built : List (Built P1Packet)) :
    { s with
      clock := clock
      gate := gate
      tx := { s.tx with iq := iq }
      holder := holder
      calls := calls
      busy := busy
      ends := ends
      accepted := accepted
      built := built }.Kept r :=
  ⟨h.valid, h.rounds, h.copied, h.building, h.fits, h.keyed, h.right, h.idle, h.stopped⟩

theorem CopyOf.refl (cfg : P1Config) (cursor : Nat) : CopyOf cfg cursor cfg :=
  ⟨rfl, .refl _ _, .refl _ _⟩

/-- A request to key no longer stands. -/
theorem Kept.unkeyed (h : s.Kept r) {tx : TxState} (htx : tx.ptt = false)
    (hbuilding : ∀ now part todo ready, s.task ≠ .building now (part :: todo) ready)
    (hhand : ∀ cc ∈ s.hand, cc.mox = false) : { s with tx := tx }.Kept r where
  valid := h.valid
  rounds := h.rounds
  copied := h.copied
  building now part todo ready htask := absurd htask (hbuilding now part todo ready)
  fits hptt := by
    rw [show tx.ptt = true from hptt] at htx
    cases htx
  keyed cc hcc hmox := by
    rw [hhand cc hcc] at hmox
    cases hmox
  right := h.right
  idle hover := ⟨htx, (h.idle hover).2⟩
  stopped := h.stopped

/-- A request to key comes in order. -/
theorem Kept.set (h : s.Kept r) (hrunning : s.phase = .running)
    (hbuilding : ∀ now todo ready, s.task ≠ .building now todo ready) {drive : U8}
    (hfits : Fits drive s.cfg.txHz s.next s.hand (r.after s.sent)) :
    { s with tx := { s.tx with ptt := true, drive := drive } }.Kept r where
  valid := h.valid
  rounds := h.rounds
  copied := h.copied
  building now part todo ready htask := absurd htask (hbuilding now (part :: todo) ready)
  fits _ := hfits
  keyed _ _ _ := rfl
  right := h.right
  idle hover := absurd hrunning hover
  stopped := h.stopped

/-- The task goes on with the packets that it has. -/
theorem Kept.task (h : s.Kept r) {task : Task P1Config Ep2Builder P1Packet}
    (hready : { s with task := task }.ready = s.ready)
    (hcopied : ∀ now cfg, task = .copied now cfg → CopyOf s.cfg s.builder.cursor cfg)
    (hbuilding : ∀ now part todo ready, task ≠ .building now (part :: todo) ready)
    (hstopped : s.phase = .stopped → task = .ended) : { s with task := task }.Kept r := by
  have hhand : { s with task := task }.hand = s.hand := by rw [hand, hready, hand]
  constructor
  · exact h.valid
  · obtain ⟨n, hrounds, hin⟩ := h.rounds
    refine ⟨n, hrounds, ?_⟩
    rw [InRounds, hready]
    exact hin
  · exact hcopied
  · intro now part todo ready htask
    exact absurd htask (hbuilding now part todo ready)
  · rw [hhand]
    exact h.fits
  · rw [hhand]
    exact h.keyed
  · exact h.right
  · rw [Hushed, hhand]
    exact h.idle
  · exact hstopped

/-- The task builds a datagram, and keeps it. -/
theorem Kept.emit (h : s.Kept r) (hnone : s.ready = []) (hrunning : s.phase ≠ .stopped)
    {copy : P1Config} (hcopy : CopyOf s.cfg s.builder.cursor copy) (mox : Bool) (drive : U8)
    (iq : List Sample) (hmox : mox = s.tx.ptt) (hdrive : mox = true → drive = s.tx.drive)
    (task : Task P1Config Ep2Builder P1Packet) {q : List Queued}
    (hready : { s with task := task }.ready = ((s.builder.assemble copy mox drive
      iq).1.toOption.map P1Packet.ep2).toList.map (·, q))
    (hcopied : ∀ now cfg, task ≠ .copied now cfg)
    (hbuilding : ∀ now part todo ready, task ≠ .building now (part :: todo) ready) :
    { s with builder := (s.builder.assemble copy mox drive iq).2, task := task }.Kept r := by
  obtain ⟨n, hrounds, hin⟩ := h.rounds
  have hcursor : s.builder.cursor = n % s.cfg.addresses.length := by
    rcases hin with ⟨-, hcursor⟩ | ⟨x, _, _, hx, -⟩
    · exact hcursor
    · rw [hnone] at hx
      cases hx
  rcases hcopy.assemble hcursor mox drive iq with ⟨e, hfail⟩ | ⟨d, b', hd, hcommands, hb'⟩
  · -- nothing could be built
    rw [hfail] at hready ⊢
    apply h.task
    · rw [hready, hnone]
      rfl
    · intro now cfg htask
      exact absurd htask (hcopied now cfg)
    · exact hbuilding
    · exact fun hstopped => absurd hstopped hrunning
  · rw [hd] at hready ⊢
    dsimp only
    have hhand : { s with builder := b', task := task }.hand = (P1Packet.ep2 d).commands := by
      have hready' : { s with builder := b', task := task }.ready = [(P1Packet.ep2 d, q)] := hready
      rw [hand, hready', List.flatMap_singleton]
    have hle (c : Nat) : slot s.cfg c ≤ 10 := addr_slot_le h.valid c
    -- both commands key, or none does
    have hmoxs : ∀ cc ∈ (P1Packet.ep2 d).commands, cc.mox = mox := by
      intro cc hcc
      rw [hcommands] at hcc
      simp only [List.mem_cons, List.not_mem_nil, or_false] at hcc
      rcases hcc with rfl | rfl
      · exact P1Config.mox_encodeCc (hle _)
      · exact P1Config.mox_encodeCc (hle _)
    constructor
    · exact h.valid
    · exact ⟨n, hrounds, .inr ⟨_, mox, drive, hready, hb', hcommands⟩⟩
    · intro now cfg htask
      exact absurd htask (hcopied now cfg)
    · intro now part todo ready htask
      exact absurd htask (hbuilding now part todo ready)
    · intro hptt
      have hkeyed : mox = true := hmox.trans hptt
      have hfits := h.fits hptt
      have hslot : s.next = slot s.cfg n := by rw [next, hcursor, slot_mod]
      rw [hand, hnone, hslot] at hfits
      rw [hhand, hcommands, hkeyed, hdrive hkeyed]
      exact fits_keyed h.valid hfits _
    · intro cc hcc hcc'
      rw [hhand] at hcc
      rw [hmoxs cc hcc] at hcc'
      exact hmox.symm.trans hcc'
    · exact h.right
    · intro hover
      have hptt := (h.idle hover).1
      refine ⟨hptt, ?_, ?_⟩
      · intro cc hcc
        rw [hhand] at hcc
        rw [hmoxs cc hcc, hmox, hptt]
      · intro hempty
        rw [hhand, hcommands] at hempty
        cases hempty
    · exact fun hstopped => absurd hstopped hrunning

/-- Without a packet, nothing is in hand. -/
theorem hand_nil (h : s.ready = []) : s.hand = [] := by rw [hand, h, List.flatMap_nil]

/-- The task takes the request: it builds a receive datagram at once, or goes on to key. -/
theorem Kept.take (h : s.Kept r) {now : Nat} {copy : P1Config} (htask : s.task = .copied now copy) :
    (s.take P1.wire now copy).Kept r := by
  have hnone : s.ready = [] := by rw [ready, htask]
  have hcopy := h.copied now copy htask
  have hrunning : s.phase ≠ .stopped := by
    intro hstopped
    have hended := h.stopped hstopped
    rw [htask] at hended
    cases hended
  rw [Session.take]
  split
  next hkeyed =>
    obtain ⟨hptt, -⟩ := Bool.and_eq_true_iff.mp hkeyed
    dsimp only
    have hhand := hand_nil hnone
    constructor
    · exact h.valid
    · obtain ⟨n, hrounds, hin⟩ := h.rounds
      rw [InRounds, hnone] at hin
      exact ⟨n, hrounds, hin⟩
    · intros; contradiction
    · intro now' part todo ready' htask'
      cases htask'
      exact ⟨rfl, rfl, hptt, copy, _, rfl, hcopy⟩
    · intro hptt'
      have hfits := h.fits hptt'
      rw [hhand] at hfits
      exact hfits
    · intros; contradiction
    · exact h.right
    · intro hover
      have hstill := h.idle hover
      exact ⟨hstill.1, (by intros; contradiction), fun _ => hstill.2.2 hhand⟩
    · exact fun hstopped => absurd hstopped hrunning
  next =>
    have hcleared : { s with tx := P1.wire.clear s.tx }.Kept r := by
      apply h.unkeyed rfl
      · intro now' part todo ready htask'
        rw [htask] at htask'
        cases htask'
      · rw [hand_nil hnone]
        intros; contradiction
    have hbuilt := hcleared.emit hnone hrunning hcopy false 0 [] rfl (by intros; contradiction)
      (.sending (((s.builder.buildRx copy).1.toOption.map P1Packet.ep2).toList.map (·, [])))
      rfl (by rintro _ _ ⟨⟩) (by rintro _ _ _ _ ⟨⟩)
    exact hbuilt.beside _ _ _ _ _ _ _ _ _

/-- The task builds a datagram that keys, unless the gate is closed. -/
theorem Kept.build (h : s.Kept r) {now : Nat} {part : Part Ep2Builder P1Packet}
    {todo : List (Part Ep2Builder P1Packet)} {ready : List (Ready P1Packet)}
    (htask : s.task = .building now (part :: todo) ready) : (s.build now part todo ready).Kept r := by
  obtain ⟨rfl, rfl, hptt, copy, iq, rfl, hcopy⟩ := h.building now part todo ready htask
  have hnone : s.ready = [] := by rw [Session.ready, htask]
  have hrunning : s.phase ≠ .stopped := by
    intro hstopped
    have hended := h.stopped hstopped
    rw [htask] at hended
    cases hended
  rw [Session.build]
  cases hgate : s.gate.isOpen now with
  | false =>
    have hclosed : (P1.part copy s.tx.drive iq).build s.gate now s.builder = (none, s.builder) := by
      simp [P1.part, buildTx, hgate, Except.toOption]
    rw [hclosed]
    have hgone : { s with task := .building now [] [] }.Kept r := by
      apply h.task
      · exact hnone.symm
      · intros; contradiction
      · rintro _ _ _ _ ⟨⟩
      · exact fun hstopped => absurd hstopped hrunning
    exact hgone.beside _ _ _ _ _ _ _ _ _
  | true =>
    have hopen : s.builder.buildTx copy s.gate now ⟨true, s.tx.drive, iq.map Queued.sample⟩ =
        s.builder.assemble copy true s.tx.drive
          ((iq.map Queued.sample).take TX_SAMPLES_PER_DATAGRAM) := by
      simp [buildTx, hgate]
    simp only [P1.part, hopen]
    have hbuilt := h.emit hnone hrunning hcopy true s.tx.drive
      ((iq.map Queued.sample).take TX_SAMPLES_PER_DATAGRAM) hptt.symm (fun _ => rfl)
      (.building now [] ([] ++ ((s.builder.assemble copy true s.tx.drive
        ((iq.map Queued.sample).take TX_SAMPLES_PER_DATAGRAM)).1.toOption.map
          P1Packet.ep2).toList.map (·, iq))) rfl (by rintro _ _ ⟨⟩)
      (by rintro _ _ _ _ ⟨⟩)
    exact hbuilt.beside _ _ _ _ _ _ _ _ _

/-- The task sends the packet that it has. -/
theorem Kept.send (h : s.Kept r) {packet : P1Packet} {iq : List Queued} {rest : List (Ready P1Packet)}
    (htask : s.task = .sending ((packet, iq) :: rest)) :
    (log packet iq { s with task := .sending rest }).Kept r := by
  obtain ⟨n, hrounds, hin⟩ := h.rounds
  have hready : s.ready = (packet, iq) :: rest := by rw [Session.ready, htask]
  rcases hin with ⟨hnone, -⟩ | ⟨x, mox, drive, hx, hcursor, hcommands⟩
  · rw [hready] at hnone
    cases hnone
  rw [hready] at hx
  cases hx
  dsimp only at hcommands
  have hhand : s.hand = packet.commands := by rw [hand, hready, List.flatMap_singleton]
  have hrunning : s.phase ≠ .stopped := by
    intro hstopped
    have hended := h.stopped hstopped
    rw [htask] at hended
    cases hended
  constructor
  · exact h.valid
  · exact ⟨n + 2, hrounds.ep2 mox drive hcommands, .inl ⟨rfl, hcursor⟩⟩
  · intros; contradiction
  · intros; contradiction
  · intro hptt
    have hfits := h.fits hptt
    rw [hhand] at hfits
    exact hfits.after
  · intros; contradiction
  · refine ⟨?_, h.right⟩
    -- keyed commands fit a request that stands
    cases hptt : s.tx.ptt with
    | true =>
      have hfits := h.fits hptt
      rw [hhand] at hfits
      exact hfits.keeps fun _ _ _ => hptt
    | false =>
      apply keeps_of_unkeyed
      intro cc hcc
      cases hmox : cc.mox with
      | false => rfl
      | true =>
        have hkeyed := h.keyed cc (hhand ▸ hcc) hmox
        rw [hptt] at hkeyed
        cases hkeyed
  · intro hover
    obtain ⟨hptt, hquiet, -⟩ := h.idle hover
    refine ⟨hptt, (by intros; contradiction), fun _ => ?_⟩
    have hlast : (s.cfg.encodeCc (slot s.cfg (n + 1)) mox drive).mox = false := by
      apply hquiet
      rw [hhand, hcommands]
      exact List.mem_cons_of_mem _ List.mem_cons_self
    rw [log, lastKeyed_cons]
    dsimp only
    rw [hcommands]
    exact hlast
  · exact fun hstopped => absurd hstopped hrunning

/-- An update leaves alone what the task has, and a request that stands still fits. -/
theorem Kept.update (h : s.Kept r) {cfg : P1Config} (hvalid : cfg.Valid)
    (hrx : cfg.numRx = s.cfg.numRx) (hheld : ∀ a ∈ s.held, cfg.SameAt s.cfg a)
    (hfits : s.tx.ptt = true → Fits s.tx.drive cfg.txHz s.next s.hand (r.after s.sent)) :
    { s with cfg := cfg }.Kept r := by
  have hlen : cfg.addresses.length = s.cfg.addresses.length := by
    rw [length_addresses, length_addresses, hrx]
  have hcopyOf {copy : P1Config} (hcopying : s.copying = true)
      (hcopy : CopyOf s.cfg s.builder.cursor copy) : CopyOf cfg s.builder.cursor copy := by
    have hnext (c : Nat) (hc : slot s.cfg c ∈ [s.next, slot s.cfg (s.builder.cursor + 1)]) :
        cfg.SameAt s.cfg (slot cfg c) := by
      rw [slot_congr hrx]
      apply hheld
      rw [held, if_pos hcopying]
      exact List.mem_append_right _ hc
    constructor
    · exact hcopy.numRx.trans hrx.symm
    · apply P1Config.SameAt.of_common _ (hnext _ List.mem_cons_self)
      rw [slot_congr hrx]
      exact hcopy.first
    · apply P1Config.SameAt.of_common _ (hnext _ (List.mem_cons_of_mem _ List.mem_cons_self))
      rw [slot_congr hrx]
      exact hcopy.second
  constructor
  · exact hvalid
  · obtain ⟨n, hrounds, hin⟩ := h.rounds
    refine ⟨n, hrounds, ?_⟩
    rcases hin with ⟨hnone, hcursor⟩ | ⟨x, mox, drive, hx, hcursor, hcommands⟩
    · refine .inl ⟨hnone, ?_⟩
      rw [hlen]
      exact hcursor
    · refine .inr ⟨x, mox, drive, hx, ?_, ?_⟩
      · rw [hlen]
        exact hcursor
      · -- what is in hand is from the addresses that are left alone
        have hhand : s.hand = x.1.commands := by rw [hand, hx, List.flatMap_singleton]
        have hsame (c : Nat)
            (hc : s.cfg.encodeCc (slot s.cfg c) mox drive ∈ x.1.commands) :
            cfg.encodeCc (slot cfg c) mox drive = s.cfg.encodeCc (slot s.cfg c) mox drive := by
          rw [slot_congr hrx]
          apply P1Config.SameAt.encodeCc_eq
          apply hheld
          apply List.mem_append_left
          rw [hhand, ← P1Config.addr_encodeCc (addr_slot_le h.valid c)]
          exact List.mem_map_of_mem hc
        dsimp only
        rw [hsame n, hsame (n + 1)]
        · exact hcommands
        · rw [hcommands]
          exact List.mem_cons_of_mem _ List.mem_cons_self
        · rw [hcommands]
          exact List.mem_cons_self
  · intro now copy htask
    have hcopying : s.copying = true := by rw [copying, show s.task = _ from htask]
    exact hcopyOf hcopying (h.copied now copy htask)
  · intro now part todo ready htask
    have hcopying : s.copying = true := by rw [copying, show s.task = _ from htask]
    obtain ⟨htodo, hready, hptt, copy, iq, hpart, hcopy⟩ := h.building now part todo ready htask
    exact ⟨htodo, hready, hptt, copy, iq, hpart, hcopyOf hcopying hcopy⟩
  · intro hptt
    have hslot : { s with cfg := cfg }.next = s.next := slot_congr hrx _
    rw [hslot]
    exact hfits hptt
  · exact h.keyed
  · exact h.right
  · exact h.idle
  · exact h.stopped

/-- An end comes in order, and the task ends at once if it waits for its timer. -/
theorem Kept.stop (h : s.Kept r) (hbuilding : ∀ now todo ready, s.task ≠ .building now todo ready)
    (hhushed : s.Hushed) {task : Task P1Config Ep2Builder P1Packet}
    (htask : task = s.task ∨ s.task = .waiting ∧ task = .ended) :
    { s.unkey with phase := .aborted, task := task }.Kept r := by
  have hunkeyed : { s with tx := s.tx.unkey }.Kept r :=
    h.unkeyed rfl (fun now part todo => hbuilding now (part :: todo)) hhushed.1
  have haborted : { s with tx := s.tx.unkey, phase := .aborted }.Kept r :=
    { hunkeyed with
      idle := fun _ => ⟨rfl, hhushed⟩
      stopped := (by intros; contradiction) }
  have hgoes : { s with tx := s.tx.unkey, phase := .aborted, task := task }.Kept r := by
    rcases htask with rfl | ⟨hwaiting, rfl⟩
    · exact haborted
    · apply haborted.task
      · simp only [Session.ready, hwaiting]
      · intros; contradiction
      · rintro _ _ _ _ ⟨⟩
      · exact fun _ => rfl
  exact hgoes.beside _ _ _ _ _ _ _ _ _

/-- The last packet is sent, and the task has ended. -/
theorem Kept.stopSend (h : s.Kept r) (hover : s.phase ≠ .running) (hended : s.task = .ended) :
    (log .stop [] { s with phase := .stopped }).Kept r := by
  obtain ⟨n, hrounds, hin⟩ := h.rounds
  constructor
  · exact h.valid
  · exact ⟨n, hrounds.other rfl, hin⟩
  · exact h.copied
  · exact h.building
  · exact h.fits
  · exact h.keyed
  · exact ⟨trivial, h.right⟩
  · intro _
    obtain ⟨hptt, hquiet, hlast⟩ := h.idle hover
    exact ⟨hptt, hquiet, hlast⟩
  · exact fun _ => hended

/-! ### Runs -/

/-- What an orderly step keeps. -/
theorem Kept.step (h : s.Kept r) (hlock : s.Lock) {e : Event P1Config} (hok : s.Orderly r e)
    (hstep : s.step P1.wire e = some t) : t.Kept r := by
  cases e <;> simp only [Session.step] at hstep
  case advance n | openUntil n | poison | close =>
    obtain rfl := Option.some.inj hstep
    exact h.beside _ _ _ _ _ _ _ _ _
  case update f =>
    split at hstep
    · obtain rfl := Option.some.inj hstep
      rcases update_cases (W := P1.wire) (s := s) f with heq | ⟨hvalid, hfixed, heq⟩
      · rw [heq]
        exact h
      · rw [heq]
        have hrx : (f s.cfg).numRx = s.cfg.numRx := by
          by_contra hne
          rw [show P1.wire.fixed s.cfg (f s.cfg) = _ from if_pos hne] at hfixed
          cases hfixed
        have hok' : s.update P1.wire f = .ok { s with cfg := f s.cfg } := by
          rw [Session.update, hvalid, hfixed]
          rfl
        rw [Orderly, hok'] at hok
        obtain ⟨hheld, hfits⟩ := hok _ rfl
        exact h.update (P1Config.valid_of_validate hvalid) hrx hheld hfits
    · cases hstep
  case unkey =>
    split at hstep
    next hfree =>
      obtain rfl := Option.some.inj hstep
      have hbuilding := (hlock.free hfree.2).1
      have hunkeyed : { s with tx := s.tx.unkey }.Kept r :=
        h.unkeyed rfl (fun now part todo => hbuilding now (part :: todo)) hok
      exact hunkeyed.beside _ _ _ _ _ _ _ _ _
    next => cases hstep
  case key i drive =>
    split at hstep
    · obtain rfl := Option.some.inj hstep
      exact h.beside _ _ _ _ _ _ _ _ _
    · cases hstep
  case keyCheck i =>
    split at hstep
    · split at hstep
      · obtain rfl := Option.some.inj hstep
        exact h.beside _ _ _ _ _ _ _ _ _
      · obtain rfl := Option.some.inj hstep
        exact h.beside _ _ _ _ _ _ _ _ _
    · cases hstep
  case keySet i =>
    split at hstep
    next drive hcall =>
      obtain rfl := Option.some.inj hstep
      have hholder := hlock.passed i drive hcall
      have hrunning : s.phase = .running := by
        by_contra hover
        exact hlock.idle hover i hholder
      have hbuilding (now : Nat) (todo : List (Part Ep2Builder P1Packet))
          (ready : List (Ready P1Packet)) : s.task ≠ .building now todo ready := by
        intro htask
        rw [hlock.building now todo ready htask] at hholder
        cases hholder
      have hasked : drive ∈ s.asked i := by
        rw [asked, hcall]
        exact rfl
      exact (h.set hrunning hbuilding (hok drive hasked)).beside _ _ _ _ _ _ _ _ _
    next => cases hstep
  case iq i iq =>
    split at hstep
    · obtain rfl := Option.some.inj hstep
      exact h.beside _ _ _ _ _ _ _ _ _
    · cases hstep
  case iqCheck i =>
    split at hstep
    · split at hstep
      · obtain rfl := Option.some.inj hstep
        exact h.beside _ _ _ _ _ _ _ _ _
      · obtain rfl := Option.some.inj hstep
        exact h.beside _ _ _ _ _ _ _ _ _
    · cases hstep
  case iqQueue i =>
    split at hstep
    next iq _ =>
      split at hstep
      · obtain rfl := Option.some.inj hstep
        rcases queue_cases (s := s) iq with heq | heq <;> rw [heq]
        · exact h.beside _ _ _ _ _ _ _ _ _
        · exact h.beside _ _ _ _ _ _ _ _ _
      · cases hstep
    next => cases hstep
  case tick =>
    split at hstep
    next htask =>
      obtain rfl := Option.some.inj hstep
      apply h.task
      · simp only [Session.ready, htask]
      · intros; contradiction
      · rintro _ _ _ _ ⟨⟩
      · intro hstopped
        rw [h.stopped hstopped] at htask
        cases htask
    next => cases hstep
  case copy =>
    split at hstep
    next now htask =>
      obtain rfl := Option.some.inj hstep
      apply h.task
      · simp only [Session.ready, htask]
      · intro now' cfg hcopied
        cases hcopied
        exact .refl _ _
      · rintro _ _ _ _ ⟨⟩
      · intro hstopped
        rw [h.stopped hstopped] at htask
        cases htask
    next => cases hstep
  case take =>
    split at hstep
    next now copy htask =>
      split at hstep
      · obtain rfl := Option.some.inj hstep
        exact h.take htask
      · cases hstep
    next => cases hstep
  case build =>
    split at hstep
    next now part todo ready htask =>
      obtain rfl := Option.some.inj hstep
      exact h.build htask
    next => cases hstep
  case handOver =>
    split at hstep
    next now ready htask =>
      obtain rfl := Option.some.inj hstep
      have hsending : { s with task := .sending ready }.Kept r := by
        apply h.task
        · simp only [Session.ready, htask]
        · intros; contradiction
        · rintro _ _ _ _ ⟨⟩
        · intro hstopped
          rw [h.stopped hstopped] at htask
          cases htask
      exact hsending.beside _ _ _ _ _ _ _ _ _
    next => cases hstep
  case send =>
    split at hstep
    next packet iq ready htask =>
      obtain rfl := Option.some.inj hstep
      exact h.send htask
    next htask =>
      obtain rfl := Option.some.inj hstep
      apply h.task
      · cases s.phase <;> simp [Session.ready, htask]
      · cases s.phase <;> rintro _ _ ⟨⟩
      · cases s.phase <;> rintro _ _ _ _ ⟨⟩
      · intro hstopped
        rw [hstopped]
        rfl
    next => cases hstep
  case stop =>
    split at hstep
    next hfree =>
      obtain rfl := Option.some.inj hstep
      apply h.stop (hlock.free hfree.2.1).1 hok
      cases s.task with
      | waiting => exact .inr ⟨rfl, rfl⟩
      | _ => exact .inl rfl
    next => cases hstep
  case stopSend =>
    split at hstep
    next hphase =>
      obtain rfl := Option.some.inj hstep
      have hended : s.task = .ended := by
        rw [Orderly, hasEnded] at hok
        split at hok
        next htask => exact htask
        next => cases hok
      apply h.stopSend _ hended
      rw [hphase]
      rintro ⟨⟩
    next => cases hstep

/-- The packets at the start do not key. -/
theorem configure_unkeyed {cfg : P1Config} (hvalid : cfg.Valid) {n : Nat} {b : Ep2Builder}
    {p : P1Packet} (hp : p ∈ P1.configure cfg n b) : ∀ cc ∈ p.commands, cc.mox = false := by
  induction n generalizing b with
  | zero => cases hp
  | succ n ih =>
    have hcases := assemble_cases cfg false 0 [] b
    rw [P1.configure, buildRx] at hp
    rcases hcases with ⟨e, hfail⟩ | ⟨d, b', hd, hcommands, -⟩
    · rw [hfail] at hp
      exact ih hp
    · rw [hd] at hp
      rcases List.mem_cons.mp hp with rfl | hrest
      · intro cc hcc
        rw [hcommands] at hcc
        simp only [List.mem_cons, List.not_mem_nil, or_false] at hcc
        rcases hcc with rfl | rfl
        · exact P1Config.mox_encodeCc (addr_slot_le hvalid _)
        · exact P1Config.mox_encodeCc (addr_slot_le hvalid _)
      · exact ih hrest

theorem right_of_unkeyed {sent : List (Sent P1Config P1Packet)}
    (h : ∀ x ∈ sent, ∀ cc ∈ x.packet.commands, cc.mox = false) : Right r sent := by
  induction sent with
  | nil => trivial
  | cons x sent ih =>
    exact ⟨keeps_of_unkeyed (h x List.mem_cons_self), ih fun y hy => h y (List.mem_cons_of_mem _ hy)⟩

theorem start_right {cfg : P1Config} (hvalid : cfg.Valid) {gate : TxGate} {clock : Nat} :
    Right r (P1.wire.started cfg gate clock).sent := by
  apply right_of_unkeyed
  intro x hx
  obtain ⟨p, hp, rfl⟩ := List.mem_map.mp hx
  rcases List.mem_append.mp (List.mem_reverse.mp hp) with hconfigure | hstart
  · exact configure_unkeyed hvalid hconfigure
  · obtain rfl := List.mem_singleton.mp hstart
    nofun

theorem start_rounds (cfg : P1Config) {gate : TxGate} {clock : Nat} :
    Rounds (P1.wire.started cfg gate clock).sent 0 := by
  have hstart : (P1.wire.started cfg gate clock).sent = ⟨.start, [], 0, .new, cfg⟩ ::
      (P1.configure cfg ((cfg.addresses.length + 1) / 2 + 1) .new).reverse.map
        (⟨·, [], 0, .new, cfg⟩) := by
    simp [Wire.started, P1.wire]
  rw [hstart]
  exact .init _ rfl

theorem kept_started {cfg : P1Config} (hvalid : cfg.Valid) (gate : TxGate) (clock : Nat) :
    (P1.wire.started cfg gate clock).Kept r where
  valid := hvalid
  rounds := ⟨0, start_rounds cfg, .inl ⟨rfl, (Nat.zero_mod _).symm⟩⟩
  copied := nofun
  building := nofun
  fits := nofun
  keyed := nofun
  right := start_right hvalid
  idle hover := absurd rfl hover
  stopped := nofun

theorem kept_of_reach (h : P1.wire.machine.Reach (Orderly r) s) : s.Kept r := by
  apply h.invariant_with lock_of_reach
  · rintro s ⟨cfg, gate, clock, hvalid, rfl⟩
    exact kept_started (P1Config.valid_of_validate hvalid) gate clock
  · intro s e t hlock hs hok hstep
    exact hs.step hlock hok hstep

theorem Kept.asAsked (h : s.Kept r) : s.AsAsked r where
  right := h.right
  whole l sent hsent hl hround a ha := by
    obtain ⟨n, hrounds, -⟩ := h.rounds
    rw [hsent] at hrounds ⊢
    exact hrounds.whole h.valid hl hround ha
  stopped hstopped := by
    have hended := h.stopped hstopped
    have hover : s.phase ≠ .running := by
      rw [hstopped]
      nofun
    refine ⟨hended, (h.idle hover).2.2 (hand_nil ?_)⟩
    rw [ready, hended]

end Session

open Session

/-- In every orderly run, the radio is keyed with what was asked for, holds all settings after a
round of addresses, and ends unkeyed. -/
theorem keyed_as_asked (r : P1Radio) (s : P1Session)
    (h : P1.wire.machine.Reach (Orderly r) s) : s.AsAsked r :=
  (kept_of_reach h).asAsked

/-- A tick of the task that keys nothing. -/
def quietTick : List (Event P1Config) := [.tick, .copy, .take, .send, .send]

/-- A session that keys, changes the transmit frequency, unkeys and ends. -/
theorem keyed_as_asked_whole : ∃ s, P1.wire.machine.Reach (Orderly ⟨.default, 0⟩) s ∧
    (s.phase = .stopped ∧ ∃ x ∈ s.sent, ∃ cc ∈ x.packet.commands, cc.mox = true) ∧
      s.AsAsked ⟨.default, 0⟩ := by
  have hstart : P1.wire.machine.Reach (Orderly ⟨.default, 0⟩) session := session_reach
  obtain ⟨s, hs, hsent⟩ := hstart.exists_of_runWhile
    (P := fun s => s.phase = .stopped ∧ ∃ x ∈ s.sent, ∃ cc ∈ x.packet.commands, cc.mox = true)
    -- the address of the drive is the next after four ticks
    (.openUntil 100 :: quietTick ++ quietTick ++ quietTick ++ quietTick ++ keyDown P1Config 50 ++
      tick P1Config ++ [.unkey] ++ quietTick ++
      [.update fun cfg => { cfg with txHz := 14200000 }] ++ quietTick ++ [.stop, .stopSend])
    (by decide +kernel)
  exact ⟨s, hs, hsent, keyed_as_asked ⟨.default, 0⟩ s hs⟩

/-- A request to key with a drive of 10 keys the radio with the drive of 200 from before. -/
theorem earlier_drive_keyed : ∃ s, P1.wire.machine.Reachable s ∧
    (lastKeyed s.sent = true ∧ s.tx.drive = 10 ∧ (P1Radio.after ⟨.default, 0⟩ s.sent).drive = 200) ∧
      ¬ s.AsAsked ⟨.default, 0⟩ := by
  have hstart : P1.wire.machine.Reachable session := session_reach
  obtain ⟨s, hs, hdrive, hwrong⟩ := hstart.exists_of_run
    (P := fun s => (lastKeyed s.sent = true ∧ s.tx.drive = 10 ∧
      (P1Radio.after ⟨.default, 0⟩ s.sent).drive = 200) ∧ ¬ Right ⟨.default, 0⟩ s.sent)
    (.openUntil 100 :: quietTick ++ keyDown P1Config 200 ++ tick P1Config ++ [.unkey] ++
      keyDown P1Config 10 ++ tick P1Config) (by decide +kernel)
  exact ⟨s, hs, hdrive, fun hall => hwrong hall.right⟩

end HamsOpen.Hpsdr
