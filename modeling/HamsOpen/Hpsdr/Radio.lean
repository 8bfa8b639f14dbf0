import HamsOpen.Hpsdr.Guarded

/-!
# The radio of Protocol 1

A radio that applies every five command-and-control bytes that reach it, as `apply_cc` does, and
what it comes to hold: the settings of an address after the bytes for it, all settings after a
round of addresses, and the drive of a keyed transmission from the address of the drive on.
-/

namespace HamsOpen.Hpsdr

/-- What a radio holds: its settings, and its drive. -/
structure P1Radio where
  settings : P1Config
  drive : U8

namespace P1Radio

/-- The radio applies five bytes. -/
def hear (r : P1Radio) (cc : CC) : P1Radio where
  settings := (r.settings.applyCc cc).1
  drive := (r.settings.applyCc cc).2.2.getD r.drive

/-- It has this drive and transmit frequency. -/
def Holds (r : P1Radio) (drive : U8) (hz : U32) : Prop := r.drive = drive ∧ r.settings.txHz = hz

instance (r : P1Radio) (drive : U8) (hz : U32) : Decidable (r.Holds drive hz) :=
  inferInstanceAs (Decidable (_ ∧ _))

/-- It has them, but for what an address carries. -/
def Meets (r : P1Radio) (drive : U8) (hz : U32) (addr : Nat) : Prop :=
  (r.drive = drive ∨ addr = 9) ∧ (r.settings.txHz = hz ∨ addr = 1)

instance (r : P1Radio) (drive : U8) (hz : U32) (addr : Nat) : Decidable (r.Meets drive hz addr) :=
  inferInstanceAs (Decidable (_ ∧ _))

variable {r : P1Radio} {cfg : P1Config} {addr : Nat} {mox : Bool} {drive : U8} {hz : U32}

theorem Holds.meets (h : r.Holds drive hz) (addr : Nat) : r.Meets drive hz addr :=
  ⟨.inl h.1, .inl h.2⟩

theorem drive_hear (haddr : addr ≤ 10) :
    (r.hear (cfg.encodeCc addr mox drive)).drive = if addr = 9 then drive else r.drive := by
  rw [hear]
  dsimp only
  rw [P1Config.applyCc_told haddr]
  by_cases h9 : addr = 9
  · simp only [if_pos h9, Option.getD_some]
  · simp only [if_neg h9, Option.getD_none]

/-- What the radio holds of an address is right after these bytes, if it was or they carry it. -/
theorem sameAt_hear (hvalid : cfg.Valid) (haddr : addr ≤ 10) {a : Nat}
    (h : a ≠ addr → r.settings.SameAt cfg a) :
    (r.hear (cfg.encodeCc addr mox drive)).settings.SameAt cfg a := by
  by_cases ha : a = addr
  · subst ha
    exact P1Config.sameAt_self hvalid haddr
  · apply P1Config.sameAt_of_ne _ (h ha)
    rw [P1Config.addr_encodeCc haddr]
    exact ha

/-- Keyed bytes leave the radio with what it was to hold. -/
theorem holds_hear (hvalid : cfg.Valid) (haddr : addr ≤ 10) (mox : Bool)
    (h : r.Meets drive cfg.txHz addr) :
    (r.hear (cfg.encodeCc addr mox drive)).Holds drive cfg.txHz := by
  obtain ⟨hdrive, hhz⟩ := h
  constructor
  · rw [drive_hear haddr]
    by_cases h9 : addr = 9
    · rw [if_pos h9]
    · rw [if_neg h9]
      exact hdrive.resolve_right h9
  · -- the transmit frequency is what address 1 carries
    have hsame : (r.hear (cfg.encodeCc addr mox drive)).settings.SameAt cfg 1 :=
      sameAt_hear hvalid haddr fun h1 => hhz.resolve_right (Ne.symm h1)
    exact hsame

end P1Radio

/-! ### Commands -/

/-- The commands of a packet. -/
def P1Packet.commands : P1Packet → List CC
  | ep2 d => [d.first.cc, d.second.cc]
  | _ => []

/-- The radio at the end of a log, the latest packet first. -/
def P1Radio.after {Cfg : Type} (r : P1Radio) (sent : List (Sent Cfg P1Packet)) : P1Radio :=
  sent.foldr (fun x r => x.packet.commands.foldl hear r) r

@[simp] theorem P1Radio.after_cons {Cfg : Type} (r : P1Radio) (x : Sent Cfg P1Packet)
    (sent : List (Sent Cfg P1Packet)) :
    r.after (x :: sent) = x.packet.commands.foldl hear (r.after sent) := rfl

/-! ### Rounds of addresses -/

namespace Ep2Builder

variable {cfg : P1Config}

theorem addr_slot_le (hvalid : cfg.Valid) (cursor : Nat) : slot cfg cursor ≤ 10 :=
  P1Config.addr_le hvalid (slot_mem cfg cursor)

theorem length_addresses (cfg : P1Config) : cfg.addresses.length = cfg.numRx + 4 := by
  simp [P1Config.addresses]

@[simp] theorem slot_mod (cfg : P1Config) (cursor : Nat) :
    slot cfg (cursor % cfg.addresses.length) = slot cfg cursor := by
  rw [slot, Nat.mod_mod, slot]

theorem slot_congr {cfg' : P1Config} (h : cfg.numRx = cfg'.numRx) (cursor : Nat) :
    slot cfg cursor = slot cfg' cursor := by
  have haddresses : cfg.addresses = cfg'.addresses := by rw [P1Config.addresses, h]; rfl
  rw [slot, haddresses, slot]

/-- Every address has its turn in a round, wherever the round starts. -/
theorem exists_slot {a : Nat} (ha : a ∈ cfg.addresses) (start : Nat) :
    ∃ k, start ≤ k ∧ k < start + cfg.addresses.length ∧ slot cfg k = a := by
  obtain ⟨i, hi, rfl⟩ := List.getElem_of_mem ha
  have hlen : 0 < cfg.addresses.length := by omega
  -- the first `k` from `start` on that leaves the remainder `i`
  refine ⟨start + (i + (cfg.addresses.length - start % cfg.addresses.length)) %
    cfg.addresses.length, by omega, ?_, ?_⟩
  · have hlt := Nat.mod_lt (i + (cfg.addresses.length - start % cfg.addresses.length)) hlen
    omega
  · have hstart := Nat.mod_lt start hlen
    have hsum : start % cfg.addresses.length +
        (i + (cfg.addresses.length - start % cfg.addresses.length)) =
          i + cfg.addresses.length := by omega
    have hmod : (start + (i + (cfg.addresses.length - start % cfg.addresses.length)) %
        cfg.addresses.length) % cfg.addresses.length = i := by
      rw [Nat.add_mod_mod, ← Nat.mod_add_mod, hsum, Nat.add_mod_right, Nat.mod_eq_of_lt hi]
    rw [slot, hmod, List.getD_eq_getElem _ _ hi]

/-- A datagram carries the next two addresses, or cannot be built. -/
theorem assemble_cases (cfg : P1Config) (mox : Bool) (drive : U8) (iq : List Sample)
    (b : Ep2Builder) : (∃ e, b.assemble cfg mox drive iq = (.error e, b)) ∨
      ∃ d b', b.assemble cfg mox drive iq = (.ok d, b') ∧
        (P1Packet.ep2 d).commands = [cfg.encodeCc (slot cfg b.cursor) mox drive,
          cfg.encodeCc (slot cfg (b.cursor + 1)) mox drive] ∧
        b'.cursor = (b.cursor + 2) % cfg.addresses.length := by
  rw [assemble]
  cases cfg.validate with
  | error e => exact .inl ⟨e, rfl⟩
  | ok _ =>
    refine .inr ⟨_, _, rfl, ?_, ?_⟩
    · simp only [P1Packet.commands, frame, slot_mod]
    · exact Nat.mod_add_mod (b.cursor + 1) cfg.addresses.length 1

end Ep2Builder

open Ep2Builder

/-- The datagrams in a log since some other packet carry the addresses in their order, from the
settings then; so many addresses were sent. -/
inductive Rounds : List (Sent P1Config P1Packet) → Nat → Prop
  | init {x : Sent P1Config P1Packet} (sent : List (Sent P1Config P1Packet)) :
      x.packet.commands = [] → Rounds (x :: sent) 0
  | ep2 {sent : List (Sent P1Config P1Packet)} {x : Sent P1Config P1Packet} {n : Nat}
      (mox : Bool) (drive : U8) : Rounds sent n →
      x.packet.commands = [x.cfg.encodeCc (slot x.cfg n) mox drive,
        x.cfg.encodeCc (slot x.cfg (n + 1)) mox drive] → Rounds (x :: sent) (n + 2)
  | other {sent : List (Sent P1Config P1Packet)} {x : Sent P1Config P1Packet} {n : Nat} :
      Rounds sent n → x.packet.commands = [] → Rounds (x :: sent) n

namespace Rounds

variable {cfg : P1Config} {l sent : List (Sent P1Config P1Packet)} {n : Nat} {r : P1Radio}

theorem length_le (h : Rounds (l ++ sent) n) (hl : ∀ x ∈ l, x.packet.commands ≠ []) :
    2 * l.length ≤ n := by
  induction l generalizing n with
  | nil => exact Nat.zero_le _
  | cons x l ih =>
    have hcommands := hl x List.mem_cons_self
    rw [List.length_cons]
    cases h with
    | init _ hnone => exact absurd hnone hcommands
    | other _ hnone => exact absurd hnone hcommands
    | ep2 mox drive hrounds hcc =>
      have hrest := ih hrounds fun y hy => hl y (List.mem_cons_of_mem _ hy)
      omega

/-- The radio holds what the latest datagrams carried, if they are from the same settings. -/
theorem recent (hvalid : cfg.Valid) (h : Rounds (l ++ sent) n)
    (hl : ∀ x ∈ l, x.packet.commands ≠ [] ∧ x.cfg = cfg) {k : Nat}
    (hlow : n ≤ k + 2 * l.length) (hk : k < n) :
    (r.after (l ++ sent)).settings.SameAt cfg (slot cfg k) := by
  induction l generalizing n with
  | nil =>
    simp only [List.length_nil] at hlow
    omega
  | cons x l ih =>
    obtain ⟨hcommands, rfl⟩ := hl x List.mem_cons_self
    rw [List.length_cons] at hlow
    cases h with
    | init _ hnone => exact absurd hnone hcommands
    | other _ hnone => exact absurd hnone hcommands
    | @ep2 _ _ m mox drive hrounds hcc =>
      have hle (c : Nat) : slot x.cfg c ≤ 10 := addr_slot_le hvalid c
      rw [List.cons_append, P1Radio.after_cons, hcc]
      simp only [List.foldl_cons, List.foldl_nil]
      -- carried by this datagram, or before it
      apply P1Radio.sameAt_hear hvalid (hle _)
      intro hsecond
      apply P1Radio.sameAt_hear hvalid (hle _)
      intro hfirst
      have hbefore : k < m := by
        by_contra hlast
        have hcases : k = m ∨ k = m + 1 := by omega
        rcases hcases with rfl | rfl
        · exact hfirst rfl
        · exact hsecond rfl
      exact ih hrounds (fun y hy => hl y (List.mem_cons_of_mem _ hy)) (by omega) hbefore

/-- After a round of addresses from the same settings, the radio holds all of them. -/
theorem whole (hvalid : cfg.Valid) (h : Rounds (l ++ sent) n)
    (hl : ∀ x ∈ l, x.packet.commands ≠ [] ∧ x.cfg = cfg)
    (hround : cfg.addresses.length ≤ 2 * l.length) {a : Nat} (ha : a ∈ cfg.addresses) :
    (r.after (l ++ sent)).settings.SameAt cfg a := by
  have hlen := h.length_le fun x hx => (hl x hx).1
  obtain ⟨k, hstart, hend, rfl⟩ := exists_slot ha (n - 2 * l.length)
  exact h.recent hvalid hl (by omega) (by omega)

end Rounds

end HamsOpen.Hpsdr
