import Mathlib.Algebra.Order.Ring.Nat
import Mathlib.Data.List.GetD

/-!
# Checksums by a register with feedback

A cyclic redundancy check that takes the bits of a message in, the lowest bit of a byte first: each
bit is added to the lowest bit of a register, which is then shifted down, with a feedback when a one
was shifted out. The feedback sets the highest bit of the register. So the register can be run
backwards, and the only bits that empty it within its width are its own.
-/

namespace Crc

variable {w : Nat} {poly c d : BitVec w} {bs bs' : List Bool}

/-- Shifts the register down, with the feedback when a one is shifted out. -/
def shift (poly c : BitVec w) : BitVec w := if c.getLsbD 0 then (c >>> 1) ^^^ poly else c >>> 1

/-- The register that holds bits, the first one lowest. -/
def ofBits (bs : List Bool) : BitVec w := (BitVec.ofBoolListLE bs).setWidth w

/-- Takes one bit in. -/
def feed (poly c : BitVec w) (b : Bool) : BitVec w := shift poly (c ^^^ ofBits [b])

/-- Takes bits in, one after the other. -/
def run (poly c : BitVec w) (bs : List Bool) : BitVec w := bs.foldl (feed poly) c

/-- The bits of a register, the lowest first. -/
def toBits (c : BitVec w) : List Bool := (List.range w).map c.getLsbD

/-- The bits of bytes, the lowest of each first. -/
def bits (bytes : List UInt8) : List Bool := bytes.flatMap fun b => toBits b.toBitVec

/-- Errors, at least one, that all lie within so many bits. -/
def IsBurst (n : Nat) (errors : List Bool) : Prop :=
  ∃ before burst after,
    errors = List.replicate before false ++ burst ++ List.replicate after false ∧
      burst.length ≤ n ∧ true ∈ burst

/-- Bytes with errors in them. -/
def corrupt (bytes errors : List UInt8) : List UInt8 := List.zipWith (· ^^^ ·) bytes errors

theorem getLsbD_ofBits (bs : List Bool) {i : Nat} (hi : i < w) :
    (ofBits bs : BitVec w).getLsbD i = bs.getD i false := by
  simp [ofBits, hi]

@[simp] theorem ofBits_nil : (ofBits [] : BitVec w) = 0#w := by
  apply BitVec.eq_of_getLsbD_eq
  intro i hi
  rw [getLsbD_ofBits [] hi]
  simp

theorem ofBits_false : (ofBits [false] : BitVec w) = 0#w := by
  apply BitVec.eq_of_getLsbD_eq
  intro i hi
  rw [getLsbD_ofBits _ hi]
  cases i <;> simp

/-- The first bit is the lowest, the others one higher. -/
theorem ofBits_cons (b : Bool) (bs : List Bool) :
    (ofBits (b :: bs) : BitVec w) = ofBits [b] ^^^ (ofBits bs <<< 1) := by
  apply BitVec.eq_of_getLsbD_eq
  intro i hi
  rw [BitVec.getLsbD_xor, BitVec.getLsbD_shiftLeft, getLsbD_ofBits _ hi, getLsbD_ofBits _ hi]
  cases i with
  | zero => simp
  | succ i => simp [hi, getLsbD_ofBits bs (Nat.lt_of_succ_lt hi)]

theorem ofBits_eq_zero (h : (ofBits bs : BitVec w) = 0#w) (hlen : bs.length ≤ w) : true ∉ bs := by
  intro hmem
  obtain ⟨i, hi, hbit⟩ := List.mem_iff_getElem.mp hmem
  have hzero := congrArg (fun c => c.getLsbD i) h
  rw [getLsbD_ofBits bs (hi.trans_le hlen), List.getD_eq_getElem _ _ hi, hbit] at hzero
  simp at hzero

@[simp] theorem length_toBits (c : BitVec w) : (toBits c).length = w := by
  simp [toBits]

@[simp] theorem ofBits_toBits (c : BitVec w) : ofBits (toBits c) = c := by
  apply BitVec.eq_of_getLsbD_eq
  intro i hi
  rw [getLsbD_ofBits _ hi]
  simp [toBits, hi]

/-- The low bits of a register, and then the others. -/
theorem toBits_add (a b : Nat) (c : BitVec w) (h : w = a + b) :
    toBits (c.setWidth a) ++ toBits ((c >>> a).setWidth b) = toBits c := by
  subst h
  rw [toBits, toBits, toBits, List.range_add, List.map_append, List.map_map]
  congr 1
  · apply List.map_congr_left
    intro i hi
    simp [List.mem_range.mp hi]
  · apply List.map_congr_left
    intro i hi
    simp [List.mem_range.mp hi]

theorem xor_eq_iff {a b : BitVec w} : c ^^^ a = b ↔ c = b ^^^ a := by
  constructor
  · rintro rfl
    rw [BitVec.xor_assoc, BitVec.xor_self, BitVec.xor_zero]
  · rintro rfl
    rw [BitVec.xor_assoc, BitVec.xor_self, BitVec.xor_zero]

/-! ### The register -/

theorem shift_xor (poly c d : BitVec w) : shift poly (c ^^^ d) = shift poly c ^^^ shift poly d := by
  have hcancel (a b : BitVec w) : a ^^^ b = a ^^^ poly ^^^ (b ^^^ poly) := by
    rw [BitVec.xor_assoc, BitVec.xor_comm b, ← BitVec.xor_assoc poly, BitVec.xor_self,
      BitVec.zero_xor]
  unfold shift
  rw [BitVec.getLsbD_xor, BitVec.ushiftRight_xor_distrib]
  cases c.getLsbD 0 <;> cases d.getLsbD 0
  · rfl
  · exact BitVec.xor_assoc ..
  · -- the feedback of one of both
    simp only [Bool.true_bne, Bool.not_false, if_true, Bool.false_eq_true, if_false]
    rw [BitVec.xor_assoc, BitVec.xor_assoc, BitVec.xor_comm poly]
  · exact hcancel ..

@[simp] theorem shift_zero (poly : BitVec w) : shift poly 0#w = 0#w := by
  simp [shift]

theorem feed_xor (poly c d : BitVec w) (b b' : Bool) :
    feed poly (c ^^^ d) (b ^^ b') = feed poly c b ^^^ feed poly d b' := by
  have hbits : (ofBits [b ^^ b'] : BitVec w) = ofBits [b] ^^^ ofBits [b'] := by
    apply BitVec.eq_of_getLsbD_eq
    intro i hi
    rw [BitVec.getLsbD_xor, getLsbD_ofBits _ hi, getLsbD_ofBits _ hi, getLsbD_ofBits _ hi]
    cases i <;> simp
  rw [feed, hbits, feed, feed, ← shift_xor]
  congr 1
  rw [BitVec.xor_assoc, BitVec.xor_assoc, ← BitVec.xor_assoc d, BitVec.xor_comm d,
    BitVec.xor_assoc]

/-- The register of a sum is the sum of the registers. -/
theorem run_xor (poly c d : BitVec w) (h : bs.length = bs'.length) :
    run poly (c ^^^ d) (List.zipWith (· ^^ ·) bs bs') = run poly c bs ^^^ run poly d bs' := by
  induction bs generalizing bs' c d with
  | nil =>
    obtain rfl := List.eq_nil_of_length_eq_zero h.symm
    rfl
  | cons b bs ih =>
    cases bs' with
    | nil => cases h
    | cons b' bs' =>
      change run poly (feed poly (c ^^^ d) (b ^^ b')) _ = _
      rw [feed_xor, ih _ _ (Nat.succ.inj h)]
      rfl

theorem run_append (poly c : BitVec w) (bs bs' : List Bool) :
    run poly c (bs ++ bs') = run poly (run poly c bs) bs' := List.foldl_append

section Reversible

variable (hpoly : poly.getLsbD (w - 1) = true)

include hpoly

/-- A register whose highest bit is clear came from a shift without feedback. -/
theorem shift_eq_iff (hclear : d.getLsbD (w - 1) = false) :
    shift poly c = d ↔ c = d <<< 1 := by
  have hw : 0 < w := by
    by_contra h
    obtain rfl := Nat.eq_zero_of_not_pos h
    exact absurd hpoly (by simp)
  constructor
  · intro h
    cases hlow : c.getLsbD 0 with
    | true =>
      rw [shift, hlow, if_pos rfl] at h
      have htop := congrArg (fun x => x.getLsbD (w - 1)) h
      simp only [BitVec.getLsbD_xor, hpoly, hclear, BitVec.getLsbD_ushiftRight] at htop
      have hout : c.getLsbD (1 + (w - 1)) = false := BitVec.getLsbD_of_ge _ _ (by omega)
      rw [hout] at htop
      cases htop
    | false =>
      rw [shift, hlow, if_neg (by simp)] at h
      rw [← h]
      apply BitVec.eq_of_getLsbD_eq
      intro i hi
      rw [BitVec.getLsbD_shiftLeft]
      cases i with
      | zero => simp [hlow]
      | succ i => simp [hi, Nat.add_comm]
  · rintro rfl
    have hlow : (d <<< 1).getLsbD 0 = false := by simp
    rw [shift, hlow, if_neg (by simp)]
    apply BitVec.eq_of_getLsbD_eq
    intro i hi
    rw [BitVec.getLsbD_ushiftRight, BitVec.getLsbD_shiftLeft]
    by_cases htop : 1 + i < w
    · simp [Nat.add_comm, Nat.add_comm 1 i ▸ htop]
    · -- the bit that is lost was clear
      obtain rfl : i = w - 1 := by omega
      simp [hclear]

/-- Within its width, only its own bits empty a register. -/
theorem run_eq_zero (h : bs.length ≤ w) : run poly c bs = 0#w ↔ c = ofBits bs := by
  induction bs generalizing c with
  | nil =>
    rw [ofBits_nil]
    rfl
  | cons b bs ih =>
    have hclear : (ofBits bs : BitVec w).getLsbD (w - 1) = false := by
      rw [getLsbD_ofBits bs (by simp at h; omega)]
      exact List.getD_eq_default _ _ (by simp at h; omega)
    calc run poly c (b :: bs) = 0#w
        ↔ feed poly c b = ofBits bs := ih (Nat.le_of_succ_le h)
      _ ↔ c ^^^ ofBits [b] = ofBits bs <<< 1 := shift_eq_iff hpoly hclear
      _ ↔ c = ofBits (b :: bs) := by
          rw [ofBits_cons b bs, BitVec.xor_comm (ofBits [b])]
          exact xor_eq_iff

theorem run_zeros (n : Nat) : run poly c (List.replicate n false) = 0#w ↔ c = 0#w := by
  have hzero : (0#w).getLsbD (w - 1) = false := by simp
  induction n generalizing c with
  | zero => rfl
  | succ n ih =>
    have hstep : feed poly c false = 0#w ↔ c = 0#w := by
      rw [feed, ofBits_false, BitVec.xor_zero]
      simpa using shift_eq_iff (c := c) hpoly hzero
    exact ih.trans hstep

/-- Errors close together leave a trace in the register. -/
theorem run_burst (h : IsBurst w bs) : run poly 0#w bs ≠ 0#w := by
  obtain ⟨before, burst, after, rfl, hlen, hmem⟩ := h
  intro hzero
  rw [run_append, run_append, run_zeros hpoly, (run_zeros hpoly before).mpr rfl,
    run_eq_zero hpoly hlen] at hzero
  exact ofBits_eq_zero hzero.symm hlen hmem

/-- Bits that are added at once are taken in by as many shifts. -/
theorem shift_bits (h : bs.length ≤ w) :
    (shift poly)^[bs.length] (c ^^^ ofBits bs) = run poly c bs := by
  induction bs generalizing c with
  | nil =>
    rw [ofBits_nil, BitVec.xor_zero]
    rfl
  | cons b bs ih =>
    have hclear : (ofBits bs : BitVec w).getLsbD (w - 1) = false := by
      rw [getLsbD_ofBits bs (by simp at h; omega)]
      exact List.getD_eq_default _ _ (by simp at h; omega)
    have hshift : shift poly (ofBits bs <<< 1) = ofBits bs :=
      (shift_eq_iff hpoly hclear).mpr rfl
    rw [List.length_cons, Function.iterate_succ_apply, ofBits_cons, ← BitVec.xor_assoc, shift_xor,
      hshift]
    exact ih (Nat.le_of_succ_le h)

/-- A byte is taken in by eight shifts of the register it was added to. -/
theorem shift_byte (h : 8 ≤ w) (b : UInt8) :
    (shift poly)^[8] (c ^^^ b.toBitVec.setWidth w) = run poly c (toBits b.toBitVec) := by
  have hbyte : (ofBits (toBits b.toBitVec) : BitVec w) = b.toBitVec.setWidth w := by
    apply BitVec.eq_of_getLsbD_eq
    intro i hi
    rw [getLsbD_ofBits _ hi, BitVec.getLsbD_setWidth]
    by_cases hlt : i < 8
    · simp [toBits, hlt, hi]
    · simp [toBits, Nat.le_of_not_lt hlt]
  have hlength : (toBits b.toBitVec).length ≤ w := by simpa using h
  have hbits := shift_bits (c := c) hpoly hlength
  rwa [length_toBits, hbyte] at hbits

/-- Bytes that are added as a whole, each before eight shifts, are taken in bit by bit. -/
theorem run_bytes (h : 8 ≤ w) {step : BitVec w → UInt8 → BitVec w}
    (hstep : ∀ c b, step c b = (shift poly)^[8] (c ^^^ b.toBitVec.setWidth w))
    (bytes : List UInt8) : bytes.foldl step c = run poly c (bits bytes) := by
  induction bytes generalizing c with
  | nil => rfl
  | cons b bytes ih =>
    have hbits : bits (b :: bytes) = toBits b.toBitVec ++ bits bytes := rfl
    rw [List.foldl_cons, ih, hstep, shift_byte hpoly h, hbits, run_append]

end Reversible

/-! ### Bytes -/

theorem bits_append (bytes bytes' : List UInt8) :
    bits (bytes ++ bytes') = bits bytes ++ bits bytes' := List.flatMap_append

theorem length_bits (bytes : List UInt8) : (bits bytes).length = 8 * bytes.length := by
  induction bytes with
  | nil => rfl
  | cons b bytes ih =>
    rw [bits, List.flatMap_cons, List.length_append, length_toBits, List.length_cons, Nat.mul_succ,
      Nat.add_comm]
    exact congrArg (· + 8) ih

theorem length_bits_eq {bytes bytes' : List UInt8} (h : bytes.length = bytes'.length) :
    (bits bytes).length = (bits bytes').length := by
  rw [length_bits, length_bits, h]

theorem bits_corrupt {bytes errors : List UInt8} (h : bytes.length = errors.length) :
    bits (corrupt bytes errors) = List.zipWith (· ^^ ·) (bits bytes) (bits errors) := by
  induction bytes generalizing errors with
  | nil => rfl
  | cons b bytes ih =>
    cases errors with
    | nil => cases h
    | cons e errors =>
      have hbyte : toBits (b ^^^ e).toBitVec =
          List.zipWith (· ^^ ·) (toBits b.toBitVec) (toBits e.toBitVec) := by
        simp [toBits, List.zipWith_map, List.zipWith_self]
      have hcons : bits (corrupt (b :: bytes) (e :: errors)) =
          toBits (b ^^^ e).toBitVec ++ bits (corrupt bytes errors) := rfl
      rw [hcons, hbyte, ih (Nat.succ.inj h)]
      refine (List.zipWith_append ?_).symm
      rw [length_toBits, length_toBits]

/-- A burst of errors is seen in the register, whatever the frame was. -/
theorem run_corrupt_ne (hpoly : poly.getLsbD (w - 1) = true) {frame errors : List UInt8}
    (h : frame.length = errors.length) (hburst : IsBurst w (bits errors)) :
    run poly c (bits (corrupt frame errors)) ≠ run poly c (bits frame) := by
  intro heq
  have hsum := run_xor poly c 0#w (length_bits_eq h)
  rw [BitVec.xor_zero, ← bits_corrupt h, heq] at hsum
  have hzero : run poly 0#w (bits errors) = 0#w := by
    calc run poly 0#w (bits errors)
        = run poly c (bits frame) ^^^ (run poly c (bits frame) ^^^ run poly 0#w (bits errors)) := by
          rw [← BitVec.xor_assoc, BitVec.xor_self, BitVec.zero_xor]
      _ = 0#w := by rw [← hsum, BitVec.xor_self]
  exact run_burst hpoly hburst hzero

/-! ### Registers of two bytes -/

section Word

variable {poly : BitVec 16} {step : UInt16 → UInt16}

theorem and_one (c : UInt16) : c &&& 1 = if c.toBitVec.getLsbD 0 then 1 else 0 := by
  rw [← UInt16.toBitVec_inj, UInt16.toBitVec_and]
  refine (BitVec.and_one_eq_setWidth_ofBool_getLsbD).trans ?_
  cases c.toBitVec.getLsbD 0
  · rfl
  · rfl

/-- The two bytes of a word, the low one first, are its bits. -/
theorem bits_word (c : UInt16) : bits [c.toUInt8, (c >>> 8).toUInt8] = toBits c.toBitVec := by
  rw [← toBits_add 8 8 c.toBitVec rfl]
  exact congrArg (toBits c.toUInt8.toBitVec ++ ·) (List.append_nil _)

/-- A word to which bytes are added, each before eight shifts, is the register after their bits. -/
theorem toBitVec_foldl (hpoly : poly.getLsbD 15 = true)
    (hstep : ∀ c, (step c).toBitVec = shift poly c.toBitVec) (c : UInt16) (data : List UInt8) :
    (data.foldl (fun c b => Nat.repeat step 8 (c ^^^ b.toUInt16)) c).toBitVec =
      run poly c.toBitVec (bits data) := by
  have hbyte (c : UInt16) (b : UInt8) :
      (shift poly)^[8] (c.toBitVec ^^^ b.toBitVec.setWidth 16) =
        (Nat.repeat step 8 (c ^^^ b.toUInt16)).toBitVec := by
    simp only [Nat.repeat, hstep]
    rfl
  rw [← run_bytes hpoly (by decide) (fun _ _ => rfl)]
  exact (List.foldl_hom UInt16.toBitVec hbyte).symm

end Word

end Crc
