import HamsOpen.Hpsdr.Gate
import Mathlib.Data.List.Range

/-!
# Protocol 1 datagrams

The wire format of `p1.rs` from the PC to the radio: the settings, the command-and-control bytes that
carry one of them each, in a round of addresses, and the datagrams of two frames. The bytes of a
datagram that are the same in every one are left out.
-/

namespace HamsOpen.Hpsdr

/-- A sample rate. -/
inductive Rate
  | K48 | K96 | K192 | K384 | K768 | K1536
  deriving DecidableEq

namespace Rate

/-- The speed code of Protocol 1. -/
def p1Code : Rate → Except HpsdrError U8
  | K48 => .ok 0
  | K96 => .ok 1
  | K192 => .ok 2
  | K384 => .ok 3
  | _ => .error (.Config "Protocol 1 supports 48/96/192/384 ksps")

def fromP1Code (c : U8) : Rate :=
  if c &&& 3 = 0 then K48 else if c &&& 3 = 1 then K96 else if c &&& 3 = 2 then K192 else K384

end Rate

/-- The most receivers there are addresses for. -/
def MAX_RX : Nat := 7

structure P1Config where
  rate : Rate
  numRx : Nat
  /-- The frequency of each receiver. -/
  rxHz : Fin MAX_RX → U32
  preamp : Bool
  dither : Bool
  random : Bool
  attDb : U8
  attEnable : Bool
  txHz : U32

/-- One receiver at 48 ksps on 7.1 MHz, no attenuation. -/
protected def P1Config.default : P1Config where
  rate := .K48
  numRx := 1
  rxHz _ := 7100000
  preamp := false
  dither := false
  random := false
  attDb := 0
  attEnable := false
  txHz := 7100000

/-- Five command-and-control bytes. -/
structure CC where
  c0 : U8
  c1 : U8
  c2 : U8
  c3 : U8
  c4 : U8
  deriving DecidableEq

namespace CC

/-- The address in the first byte. -/
def addr (cc : CC) : Nat := (cc.c0 >>> 1).toNat

/-- The bit that keys. -/
def mox (cc : CC) : Bool := cc.c0 &&& 1 == 1

/-- The last four bytes as a number. -/
def word (cc : CC) : U32 := cc.c1 ++ cc.c2 ++ cc.c3 ++ cc.c4

/-- The first byte, and a number in the other four. -/
def ofWord (c0 : U8) (w : U32) : CC :=
  ⟨c0, w.extractLsb' 24 8, w.extractLsb' 16 8, w.extractLsb' 8 8, w.extractLsb' 0 8⟩

end CC

/-- A bit at a place of a byte. -/
def flag (b : Bool) (place : Nat) : U8 := (if b then 1#8 else 0#8) <<< place

namespace P1Config

/-- Refuses what the protocol cannot express. -/
def validate (cfg : P1Config) : Except HpsdrError Unit := do
  let _ ← cfg.rate.p1Code
  if cfg.numRx = 0 ∨ MAX_RX < cfg.numRx then
    throw (.Config s!"receivers {cfg.numRx} (1..=7)")
  if 31 < cfg.attDb.toNat then
    throw (.Config s!"attenuator {cfg.attDb.toNat} dB (0..=31)")

/-- The addresses of a round: general, the frequency of each receiver, the transmit frequency, the
drive, the attenuator. -/
def addresses (cfg : P1Config) : List Nat :=
  0 :: (List.range cfg.numRx).map (2 + ·) ++ [1, 9, 10]

/-- The bytes for an address. -/
def encodeCc (cfg : P1Config) (addr : Nat) (mox : Bool) (drive : U8) : CC :=
  let c0 : U8 := BitVec.ofNat 8 addr <<< 1 ||| flag mox 0
  if addr = 0 then
    ⟨c0, cfg.rate.p1Code.toOption.getD 0, 0,
      flag cfg.preamp 2 ||| flag cfg.dither 3 ||| flag cfg.random 4,
      (BitVec.ofNat 8 (cfg.numRx - 1) &&& 7) <<< 3⟩
  else if addr = 1 then .ofWord c0 cfg.txHz
  else if h : 2 ≤ addr ∧ addr ≤ 8 then
    .ofWord c0 (cfg.rxHz ⟨addr - 2, by unfold MAX_RX; omega⟩)
  else if addr = 9 then ⟨c0, drive, 0, 0, 0⟩
  else if addr = 10 then ⟨c0, 0, 0, 0, (cfg.attDb &&& 31) ||| flag cfg.attEnable 5⟩
  else ⟨c0, 0, 0, 0, 0⟩

/-- What a radio makes of five bytes: the settings, whether it is keyed, and its drive if told. -/
def applyCc (cc : CC) (cfg : P1Config) : P1Config × Bool × Option U8 :=
  if cc.addr = 0 then
    ({ cfg with
      rate := .fromP1Code cc.c1
      preamp := cc.c3 &&& 4 != 0
      dither := cc.c3 &&& 8 != 0
      random := cc.c3 &&& 16 != 0
      numRx := ((cc.c4 >>> 3) &&& 7).toNat + 1 }, cc.mox, none)
  else if cc.addr = 1 then ({ cfg with txHz := cc.word }, cc.mox, none)
  else if 2 ≤ cc.addr ∧ cc.addr ≤ 8 then
    ({ cfg with
      rxHz := fun i => if i.val = cc.addr - 2 then cc.word else cfg.rxHz i }, cc.mox, none)
  else if cc.addr = 9 then (cfg, cc.mox, some cc.c1)
  else if cc.addr = 10 then
    ({ cfg with attDb := cc.c4 &&& 31, attEnable := cc.c4 &&& 32 != 0 }, cc.mox, none)
  else (cfg, cc.mox, none)

end P1Config

/-! ### What a radio makes of the bytes -/

namespace CC

theorem word_ofWord (c0 : U8) (w : U32) : (CC.ofWord c0 w).word = w := by
  apply BitVec.eq_of_getLsbD_eq
  intro i hi
  simp only [CC.ofWord, CC.word, BitVec.getLsbD_append, BitVec.getLsbD_extractLsb']
  -- by the byte that the bit is in
  by_cases h0 : i < 8
  · simp [h0]
  by_cases h1 : i - 8 < 8
  · have hbit : 8 + (i - 8) = i := by omega
    simp [h0, h1, hbit]
  by_cases h2 : i - 8 - 8 < 8
  · have hbit : 16 + (i - 8 - 8) = i := by omega
    simp [h0, h1, h2, hbit]
  · have hbit : 24 + (i - 8 - 8 - 8) = i := by omega
    have h3 : i - 8 - 8 - 8 < 8 := by omega
    simp [h0, h1, h2, h3, hbit]

/-- The first byte tells the address and whether the radio is keyed. -/
theorem first_byte : ∀ addr, addr ≤ 10 → ∀ mox,
    ((BitVec.ofNat 8 addr <<< 1 ||| flag mox 0 : U8) >>> 1).toNat = addr ∧
      ((BitVec.ofNat 8 addr <<< 1 ||| flag mox 0 : U8) &&& 1 == 1) = mox := by
  decide

theorem front_end : ∀ preamp dither random : Bool,
    ((flag preamp 2 ||| flag dither 3 ||| flag random 4) &&& 4 != 0) = preamp ∧
    ((flag preamp 2 ||| flag dither 3 ||| flag random 4) &&& 8 != 0) = dither ∧
    ((flag preamp 2 ||| flag dither 3 ||| flag random 4) &&& 16 != 0) = random := by
  decide

theorem receivers : ∀ n, n ≤ MAX_RX → n ≠ 0 →
    ((((BitVec.ofNat 8 (n - 1) &&& 7) <<< 3 : U8) >>> 3) &&& 7).toNat + 1 = n := by
  decide

theorem attenuator : ∀ n, n ≤ 31 → ∀ enable,
    ((BitVec.ofNat 8 n &&& 31) ||| flag enable 5) &&& 31 = BitVec.ofNat 8 n ∧
    (((BitVec.ofNat 8 n &&& 31) ||| flag enable 5) &&& 32 != 0) = enable := by
  decide

end CC

namespace P1Config

variable {cfg radio : P1Config} {addr : Nat} {mox : Bool} {drive : U8}

/-- The settings that an address carries are the same. -/
def SameAt (radio cfg : P1Config) (addr : Nat) : Prop :=
  if addr = 0 then
    radio.rate = cfg.rate ∧ radio.preamp = cfg.preamp ∧ radio.dither = cfg.dither ∧
      radio.random = cfg.random ∧ radio.numRx = cfg.numRx
  else if addr = 1 then radio.txHz = cfg.txHz
  else if 2 ≤ addr ∧ addr ≤ 8 then ∀ i, i.val = addr - 2 → radio.rxHz i = cfg.rxHz i
  else if addr = 10 then radio.attDb = cfg.attDb ∧ radio.attEnable = cfg.attEnable
  else True

instance (radio cfg : P1Config) (addr : Nat) : Decidable (radio.SameAt cfg addr) := by
  unfold SameAt
  infer_instance

theorem SameAt.refl (cfg : P1Config) (addr : Nat) : cfg.SameAt cfg addr := by
  unfold SameAt
  repeat' split
  all_goals simp

/-- Settings that are the same as others at an address are the same as each other. -/
theorem SameAt.of_common {other : P1Config} (h : radio.SameAt other addr)
    (h' : cfg.SameAt other addr) : radio.SameAt cfg addr := by
  unfold SameAt at *
  split
  next h0 =>
    rw [if_pos h0] at h h'
    exact ⟨h.1.trans h'.1.symm, h.2.1.trans h'.2.1.symm, h.2.2.1.trans h'.2.2.1.symm,
      h.2.2.2.1.trans h'.2.2.2.1.symm, h.2.2.2.2.trans h'.2.2.2.2.symm⟩
  next h0 =>
  rw [if_neg h0] at h h'
  split
  next h1 =>
    rw [if_pos h1] at h h'
    exact h.trans h'.symm
  next h1 =>
  rw [if_neg h1] at h h'
  split
  next hrx =>
    rw [if_pos hrx] at h h'
    intro i hi
    exact (h i hi).trans (h' i hi).symm
  next hrx =>
  rw [if_neg hrx] at h h'
  split
  next h10 =>
    rw [if_pos h10] at h h'
    exact ⟨h.1.trans h'.1.symm, h.2.trans h'.2.symm⟩
  next => trivial

/-- The bytes for an address depend only on the settings that it carries. -/
theorem SameAt.encodeCc_eq (h : radio.SameAt cfg addr) (mox : Bool) (drive : U8) :
    radio.encodeCc addr mox drive = cfg.encodeCc addr mox drive := by
  unfold encodeCc
  split
  next h0 =>
    rw [SameAt, if_pos h0] at h
    obtain ⟨hrate, hpreamp, hdither, hrandom, hrx⟩ := h
    rw [hrate, hpreamp, hdither, hrandom, hrx]
  next h0 =>
  rw [SameAt, if_neg h0] at h
  split
  next h1 =>
    rw [if_pos h1] at h
    rw [h]
  next h1 =>
  rw [if_neg h1] at h
  split
  next hrx =>
    rw [if_pos hrx] at h
    rw [h ⟨addr - 2, by unfold MAX_RX; omega⟩ rfl]
  next hrx =>
  rw [if_neg hrx] at h
  split
  next => rfl
  next =>
  split
  next h10 =>
    rw [if_pos h10] at h
    rw [h.1, h.2]
  next => rfl

theorem fromP1Code_p1Code {rate : Rate} {c : U8} (h : rate.p1Code = .ok c) :
    Rate.fromP1Code c = rate := by
  cases rate <;> cases h <;> rfl

/-- What the protocol can express. -/
structure Valid (cfg : P1Config) : Prop where
  rate : ∃ c, cfg.rate.p1Code = .ok c
  numRx : cfg.numRx ≠ 0 ∧ cfg.numRx ≤ MAX_RX
  attDb : cfg.attDb.toNat ≤ 31

theorem valid_of_validate (h : cfg.validate = .ok ()) : cfg.Valid := by
  unfold validate at h
  cases hrate : cfg.rate.p1Code with
  | error e =>
    rw [hrate] at h
    cases h
  | ok c =>
    by_cases hrx : cfg.numRx = 0 ∨ MAX_RX < cfg.numRx
    · simp [hrate, hrx, bind, Except.bind, throw, throwThe, MonadExceptOf.throw] at h
    · by_cases hatt : 31 < cfg.attDb.toNat
      · simp [hrate, hrx, hatt, bind, Except.bind, throw, throwThe, MonadExceptOf.throw] at h
      · exact ⟨⟨c, hrate⟩, ⟨fun h0 => hrx (.inl h0), by omega⟩, by omega⟩

theorem addr_le (hvalid : cfg.Valid) (haddr : addr ∈ cfg.addresses) : addr ≤ 10 := by
  have hmax := hvalid.numRx.2
  simp only [addresses, MAX_RX, List.cons_append, List.mem_cons, List.mem_append, List.mem_map,
    List.mem_range, List.not_mem_nil, or_false] at haddr hmax
  omega

theorem encodeCc_c0 (addr : Nat) (mox : Bool) (drive : U8) :
    (cfg.encodeCc addr mox drive).c0 = BitVec.ofNat 8 addr <<< 1 ||| flag mox 0 := by
  unfold encodeCc
  repeat' split
  all_goals rfl

theorem addr_encodeCc (haddr : addr ≤ 10) : (cfg.encodeCc addr mox drive).addr = addr := by
  rw [CC.addr, encodeCc_c0]
  exact (CC.first_byte addr haddr mox).1

theorem mox_encodeCc (haddr : addr ≤ 10) : (cfg.encodeCc addr mox drive).mox = mox := by
  rw [CC.mox, encodeCc_c0]
  exact (CC.first_byte addr haddr mox).2

/-- What a radio is told beside settings. -/
theorem applyCc_told (haddr : addr ≤ 10) (radio : P1Config) :
    (radio.applyCc (cfg.encodeCc addr mox drive)).2 =
      (mox, if addr = 9 then some drive else none) := by
  have hfirst : (cfg.encodeCc addr mox drive).addr = addr := addr_encodeCc haddr
  unfold applyCc
  rw [hfirst, mox_encodeCc haddr]
  by_cases h9 : addr = 9
  · subst h9
    rfl
  · repeat' split
    all_goals rfl

/-- A radio keeps the settings that are not carried by the bytes. -/
theorem sameAt_of_ne {cc : CC} {a : Nat} (hne : a ≠ cc.addr) (h : radio.SameAt cfg a) :
    (radio.applyCc cc).1.SameAt cfg a := by
  unfold applyCc
  split
  next h0 =>
    rw [h0] at hne
    rw [SameAt, if_neg hne] at h ⊢
    exact h
  next h0 =>
  split
  next h1 =>
    rw [h1] at hne
    simp only [SameAt, if_neg hne] at h ⊢
    exact h
  next h1 =>
  split
  next hrx =>
    by_cases ha : 2 ≤ a ∧ a ≤ 8
    · have ha0 : a ≠ 0 := by omega
      have ha1 : a ≠ 1 := by omega
      rw [SameAt, if_neg ha0, if_neg ha1, if_pos ha] at h ⊢
      intro i hi
      have hother : i.val ≠ cc.addr - 2 := by omega
      exact (if_neg hother).trans (h i hi)
    · simp only [SameAt, if_neg ha] at h ⊢
      exact h
  next hrx =>
  split
  next => exact h
  next h9 =>
  split
  next h10 =>
    rw [h10] at hne
    simp only [SameAt, if_neg hne] at h ⊢
    exact h
  next => exact h

/-- A radio holds the settings of an address after its bytes. -/
theorem sameAt_self (hvalid : cfg.Valid) (haddr : addr ≤ 10) :
    (radio.applyCc (cfg.encodeCc addr mox drive)).1.SameAt cfg addr := by
  have hfirst : (cfg.encodeCc addr mox drive).addr = addr := addr_encodeCc haddr
  by_cases h0 : addr = 0
  · subst h0
    obtain ⟨c, hc⟩ := hvalid.rate
    obtain ⟨hpreamp, hdither, hrandom⟩ := CC.front_end cfg.preamp cfg.dither cfg.random
    have hrate : cfg.rate.p1Code.toOption.getD 0 = c := by rw [hc]; rfl
    rw [applyCc, if_pos hfirst, SameAt, if_pos rfl]
    rw [encodeCc, if_pos rfl, hrate]
    exact ⟨fromP1Code_p1Code hc, hpreamp, hdither, hrandom,
      CC.receivers cfg.numRx hvalid.numRx.2 hvalid.numRx.1⟩
  by_cases h1 : addr = 1
  · subst h1
    rw [applyCc, if_neg (by rw [hfirst]; decide), if_pos hfirst, SameAt, if_neg (by decide),
      if_pos rfl]
    exact CC.word_ofWord _ _
  by_cases hrx : 2 ≤ addr ∧ addr ≤ 8
  · rw [applyCc, if_neg (by rw [hfirst]; exact h0), if_neg (by rw [hfirst]; exact h1),
      if_pos (by rw [hfirst]; exact hrx), SameAt, if_neg h0, if_neg h1, if_pos hrx]
    intro i hi
    have hword : (cfg.encodeCc addr mox drive).word = cfg.rxHz i := by
      rw [encodeCc, if_neg h0, if_neg h1, dif_pos hrx, CC.word_ofWord]
      exact congrArg cfg.rxHz (Fin.ext hi.symm)
    rw [hfirst]
    exact (if_pos hi).trans hword
  by_cases h9 : addr = 9
  · subst h9
    exact trivial
  · have h10 : addr = 10 := by omega
    subst h10
    obtain ⟨hdb, henable⟩ := CC.attenuator cfg.attDb.toNat hvalid.attDb cfg.attEnable
    rw [BitVec.ofNat_toNat, BitVec.setWidth_eq] at hdb henable
    rw [applyCc, if_neg (by rw [hfirst]; decide), if_neg (by rw [hfirst]; decide),
      if_neg (by rw [hfirst]; decide), if_neg (by rw [hfirst]; decide), if_pos hfirst]
    exact ⟨hdb, henable⟩

end P1Config

/-! ### Datagrams -/

/-- A transmit sample. -/
abbrev Sample := BitVec 16 × BitVec 16

/-- How many samples a datagram carries. -/
def TX_SAMPLES_PER_DATAGRAM : Nat := 126

/-- A frame: five bytes, and samples. -/
structure Frame where
  cc : CC
  iq : List Sample
  deriving DecidableEq

/-- A datagram from the PC to the radio. -/
structure Ep2 where
  seq : U32
  first : Frame
  second : Frame
  deriving DecidableEq

/-- What is asked of a datagram that may key. -/
structure TxRequest where
  ptt : Bool
  drive : U8
  iq : List Sample
  deriving DecidableEq

structure Ep2Builder where
  seq : U32
  cursor : Nat
  deriving DecidableEq

namespace Ep2Builder

def new : Ep2Builder := ⟨0, 0⟩

/-- The address of the next frame. -/
def slot (cfg : P1Config) (cursor : Nat) : Nat :=
  cfg.addresses.getD (cursor % cfg.addresses.length) 0

/-- The frame with the next address. A short list of samples is filled up with silence. -/
def frame (cfg : P1Config) (mox : Bool) (drive : U8) (iq : List Sample) (f cursor : Nat) : Frame :=
  ⟨cfg.encodeCc (slot cfg cursor) mox drive,
    (List.range 63).map fun k => iq.getD (f * 63 + k) (0, 0)⟩

def assemble (cfg : P1Config) (mox : Bool) (drive : U8) (iq : List Sample) (b : Ep2Builder) :
    Except HpsdrError Ep2 × Ep2Builder :=
  match cfg.validate with
  | .error e => (.error e, b)
  | .ok () =>
    let next := (b.cursor + 1) % cfg.addresses.length
    (.ok ⟨b.seq, frame cfg mox drive iq 0 b.cursor, frame cfg mox drive iq 1 next⟩,
      ⟨b.seq + 1, (next + 1) % cfg.addresses.length⟩)

/-- A receive datagram. -/
def buildRx (cfg : P1Config) (b : Ep2Builder) : Except HpsdrError Ep2 × Ep2Builder :=
  b.assemble cfg false 0 []

/-- A datagram that may key, if the gate is open. -/
def buildTx (cfg : P1Config) (gate : TxGate) (now : Nat) (req : TxRequest) (b : Ep2Builder) :
    Except HpsdrError Ep2 × Ep2Builder :=
  if !gate.isOpen now then (.error .GateClosed, b)
  else if req.ptt then
    b.assemble cfg true req.drive (req.iq.take TX_SAMPLES_PER_DATAGRAM)
  else b.assemble cfg false 0 []

end Ep2Builder

end HamsOpen.Hpsdr
