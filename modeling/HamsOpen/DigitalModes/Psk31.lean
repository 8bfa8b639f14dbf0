import HamsOpen.Lib.Bits
import Mathlib.Data.List.Nodup
import Mathlib.Data.Nat.Bits
import Mathlib.Algebra.Ring.Parity

/-!
# Varicode

The characters of `psk31.rs` and its two decoders: one reads a whole bit sequence, the other takes a
bit at a time. A codeword begins and ends with a one and never holds two zeros in a row, and two
zeros or more stand between two characters.
-/

namespace HamsOpen.Psk31

/-- Code and number of bits for each ASCII value. -/
def VARICODE : List (ℕ × ℕ) :=
  [(0b1010101011, 10), (0b1011011011, 10), (0b1011101101, 10), (0b1101110111, 10),
   (0b1011101011, 10), (0b1101011111, 10), (0b1011101111, 10), (0b1011111101, 10),
   (0b1011111111, 10), (0b11101111, 8), (0b11101, 5), (0b1101101111, 10), (0b1011011101, 10),
   (0b11111, 5), (0b1101110101, 10), (0b1110101011, 10), (0b1011110111, 10), (0b1011110101, 10),
   (0b1110101101, 10), (0b1110101111, 10), (0b1101011011, 10), (0b1101101011, 10),
   (0b1101101101, 10), (0b1101010111, 10), (0b1101111011, 10), (0b1101111101, 10),
   (0b1110110111, 10), (0b1101010101, 10), (0b1101011101, 10), (0b1110111011, 10),
   (0b1011111011, 10), (0b1101111111, 10), (0b1, 1), (0b111111111, 9), (0b101011111, 9),
   (0b111110101, 9), (0b111011011, 9), (0b1011010101, 10), (0b1010111011, 10), (0b101111111, 9),
   (0b11111011, 8), (0b11110111, 8), (0b101101111, 9), (0b111011111, 9), (0b1110101, 7),
   (0b110101, 6), (0b1010111, 7), (0b110101111, 9), (0b10110111, 8), (0b10111101, 8),
   (0b11101101, 8), (0b11111111, 8), (0b101110111, 9), (0b101011011, 9), (0b101101011, 9),
   (0b110101101, 9), (0b110101011, 9), (0b110110111, 9), (0b11110101, 8), (0b110111101, 9),
   (0b111101101, 9), (0b1010101, 7), (0b111010111, 9), (0b1010101111, 10), (0b1010111101, 10),
   (0b1111101, 7), (0b11101011, 8), (0b10101101, 8), (0b10110101, 8), (0b1110111, 7),
   (0b11011011, 8), (0b11111101, 8), (0b101010101, 9), (0b1111111, 7), (0b111111101, 9),
   (0b101111101, 9), (0b11010111, 8), (0b10111011, 8), (0b11011101, 8), (0b10101011, 8),
   (0b11010101, 8), (0b111011101, 9), (0b10101111, 8), (0b1101111, 7), (0b1101101, 7),
   (0b101010111, 9), (0b110110101, 9), (0b101011101, 9), (0b101110101, 9), (0b101111011, 9),
   (0b1010101101, 10), (0b111110111, 9), (0b111101111, 9), (0b111111011, 9), (0b1010111111, 10),
   (0b101101101, 9), (0b1011011111, 10), (0b1011, 4), (0b1011111, 7), (0b101111, 6), (0b101101, 6),
   (0b11, 2), (0b111101, 6), (0b1011011, 7), (0b101011, 6), (0b1101, 4), (0b111101011, 9),
   (0b10111111, 8), (0b11011, 5), (0b111011, 6), (0b1111, 4), (0b111, 3), (0b111111, 6),
   (0b110111111, 9), (0b10101, 5), (0b10111, 5), (0b101, 3), (0b110111, 6), (0b1111011, 7),
   (0b1101011, 7), (0b11011111, 8), (0b1011101, 7), (0b111010101, 9), (0b1010110111, 10),
   (0b110111011, 9), (0b1010110101, 10), (0b1011010111, 10), (0b1110110101, 10)]

/-- The longest codeword. -/
def MAX_VARICODE_BITS : ℕ := 10

def charToCode (c : ℕ) : Option (ℕ × ℕ) := if c < 128 then VARICODE[c]? else none

def codeToChar (code bitcount : ℕ) : Option ℕ :=
  (List.range 128).find? fun i => VARICODE[i]? == some (code, bitcount)

/-- The bits of a number, the high one first. -/
def bitsOf (code : ℕ) : ℕ → List Bool
  | 0 => []
  | n + 1 => code.testBit n :: bitsOf code n

/-- The bits of a character. -/
def codeword (c : ℕ) : List Bool :=
  match charToCode c with
  | some (code, bitcount) => bitsOf code bitcount
  | none => []

/-- `psk31_encode_bits`, of the bytes of a text. -/
def psk31EncodeBits (text : List ℕ) : List Bool :=
  text.flatMap fun byte => if (charToCode byte).isSome then codeword byte ++ [false, false] else []

/-! ### The decoder of a whole sequence -/

/-- What the loop of the decoder keeps. -/
structure Reading where
  out : List ℕ
  acc : ℕ
  count : ℕ
  prevWasZero : Bool
  deriving DecidableEq

/-- The character that some bits stand for, if they are any at all. -/
def flush (acc count : ℕ) : List ℕ := if 0 < count then (codeToChar acc count).toList else []

/-- One bit. -/
def Reading.next (r : Reading) (bit : Bool) : Reading :=
  if !bit && r.prevWasZero then
    -- the second zero of a gap: the first one does not belong to the codeword
    let (acc, count) := if 0 < r.count then (r.acc / 2, r.count - 1) else (r.acc, r.count)
    ⟨r.out ++ flush acc count, 0, 0, false⟩
  else
    let acc := 2 * r.acc + bit.toNat
    let count := r.count + 1
    if MAX_VARICODE_BITS + 1 < count then ⟨r.out, 0, 0, !bit⟩ else ⟨r.out, acc, count, !bit⟩

/-- `psk31_decode_bits`. -/
def psk31DecodeBits (bits : List Bool) : List ℕ :=
  let r := bits.foldl Reading.next ⟨[], 0, 0, false⟩
  r.out ++ flush r.acc r.count

/-! ### The decoder that takes a bit at a time -/

structure VaricodeAccumulator where
  acc : ℕ
  count : ℕ
  prevWasZero : Bool
  deriving DecidableEq

namespace VaricodeAccumulator

def new : VaricodeAccumulator := ⟨0, 0, false⟩

/-- Takes a bit, and gives the character that it completes. -/
def pushBit (a : VaricodeAccumulator) (bit : Bool) : Option ℕ × VaricodeAccumulator :=
  if !bit && a.prevWasZero then
    let (acc, count) := if 0 < a.count then (a.acc / 2, a.count - 1) else (a.acc, a.count)
    let result := if 0 < count then codeToChar acc count else none
    (result, ⟨0, 0, false⟩)
  else
    let acc := 2 * a.acc + bit.toNat
    let count := a.count + 1
    if MAX_VARICODE_BITS + 1 < count then (none, ⟨0, 0, !bit⟩) else (none, ⟨acc, count, !bit⟩)

/-- Takes bits in turn, and gives the characters that they complete. -/
def pushBits (a : VaricodeAccumulator) : List Bool → List ℕ × VaricodeAccumulator
  | [] => ([], a)
  | bit :: rest =>
    ((a.pushBit bit).1.toList ++ ((a.pushBit bit).2.pushBits rest).1,
      ((a.pushBit bit).2.pushBits rest).2)

end VaricodeAccumulator

/-! ### The two decoders agree -/

namespace VaricodeAccumulator

/-- The character in the accumulator that no gap has ended yet. -/
def pending (a : VaricodeAccumulator) : List ℕ := flush a.acc a.count

end VaricodeAccumulator

open VaricodeAccumulator

/-- The state of the first decoder, beside the second. -/
def Reading.of (out : List ℕ) (a : VaricodeAccumulator) : Reading :=
  ⟨out, a.acc, a.count, a.prevWasZero⟩

theorem toList_flush (acc count : ℕ) :
    (if 0 < count then codeToChar acc count else none).toList = flush acc count := by
  unfold flush
  split <;> rfl

theorem next_of (out : List ℕ) (a : VaricodeAccumulator) (bit : Bool) :
    (Reading.of out a).next bit = .of (out ++ (a.pushBit bit).1.toList) (a.pushBit bit).2 := by
  unfold Reading.next pushBit Reading.of
  by_cases hgap : (!bit && a.prevWasZero) = true
  · rw [if_pos hgap, if_pos hgap, toList_flush]
  · rw [if_neg hgap, if_neg hgap]
    dsimp only
    split <;> simp

theorem foldl_next (bits : List Bool) (out : List ℕ) (a : VaricodeAccumulator) :
    bits.foldl Reading.next (.of out a) = .of (out ++ (a.pushBits bits).1) (a.pushBits bits).2 := by
  induction bits generalizing out a with
  | nil => rw [pushBits, List.append_nil]; rfl
  | cons bit rest ih => rw [List.foldl_cons, next_of, ih, List.append_assoc]; rfl

/-- The decoder of a whole sequence also gives the character that the other one still holds. -/
theorem psk31DecodeBits_eq (bits : List Bool) :
    psk31DecodeBits bits = (new.pushBits bits).1 ++ (new.pushBits bits).2.pending := by
  have hfold := foldl_next bits [] new
  unfold psk31DecodeBits
  rw [show (⟨[], 0, 0, false⟩ : Reading) = .of [] new from rfl, hfold, List.nil_append]
  rfl

theorem pushBits_append (a : VaricodeAccumulator) (bits bits' : List Bool) :
    a.pushBits (bits ++ bits') =
      ((a.pushBits bits).1 ++ ((a.pushBits bits).2.pushBits bits').1,
        ((a.pushBits bits).2.pushBits bits').2) := by
  induction bits generalizing a with
  | nil => rfl
  | cons bit rest ih => simp only [List.cons_append, pushBits, ih, List.append_assoc]

/-! ### The accumulator is bounded -/

/-- The bits in the accumulator: as many as the longest codeword has, and one of its gap, so that
sixteen bits hold them; and a zero seen last is among them, unless they were given up. -/
structure VaricodeAccumulator.Sound (a : VaricodeAccumulator) : Prop where
  count_le : a.count ≤ MAX_VARICODE_BITS + 1
  acc_lt : a.acc < 2 ^ a.count
  even : a.prevWasZero = true → a.acc % 2 = 0

theorem sound_new : new.Sound := ⟨Nat.zero_le _, Nat.one_pos, nofun⟩

theorem VaricodeAccumulator.Sound.pushBit {a : VaricodeAccumulator} (h : a.Sound) (bit : Bool) :
    (a.pushBit bit).2.Sound := by
  unfold VaricodeAccumulator.pushBit
  split
  · exact ⟨Nat.zero_le _, Nat.one_pos, nofun⟩
  · dsimp only
    split
    · exact ⟨Nat.zero_le _, Nat.one_pos, fun _ => rfl⟩
    next hcount =>
      have hacc := h.acc_lt
      have hbit := bit.toNat_le
      refine ⟨Nat.not_lt.mp hcount, ?_, fun hzero => ?_⟩
      · rw [pow_succ]
        dsimp only
        omega
      · cases bit with
        | true => cases hzero
        | false => exact Nat.mul_mod_right 2 a.acc

theorem VaricodeAccumulator.Sound.pushBits {a : VaricodeAccumulator} (h : a.Sound)
    (bits : List Bool) : (a.pushBits bits).2.Sound := by
  induction bits generalizing a with
  | nil => exact h
  | cons bit rest ih => exact ih (h.pushBit bit)

/-- A codeword ends in a one and is not too long. -/
theorem codeToChar_eq_some {acc count c : ℕ} (h : codeToChar acc count = some c) :
    acc % 2 = 1 ∧ count ≤ MAX_VARICODE_BITS := by
  have hall : (VARICODE.all fun e => decide (e.1 % 2 = 1 ∧ e.2 ≤ MAX_VARICODE_BITS)) = true := by
    decide
  have hfound : (VARICODE[c]? == some (acc, count)) = true :=
    List.find?_some (p := fun i => VARICODE[i]? == some (acc, count)) h
  have hmem : VARICODE[c]? = some (acc, count) := beq_iff_eq.mp hfound
  exact of_decide_eq_true (List.all_eq_true.mp hall _ (List.mem_of_getElem? hmem))

/-- What is still held is given when its gap comes. -/
theorem pending_ended {a : VaricodeAccumulator} (h : a.Sound) (hpending : a.pending ≠ []) :
    (a.pushBits [false, false]).1 = a.pending := by
  unfold pending flush at hpending ⊢
  split at hpending
  next hcount =>
    obtain ⟨c, hc⟩ : ∃ c, codeToChar a.acc a.count = some c := by
      apply Option.ne_none_iff_exists'.mp
      intro hnone
      rw [hnone] at hpending
      exact hpending rfl
    obtain ⟨hodd, hle⟩ := codeToChar_eq_some hc
    -- a one came last: the two zeros are its gap
    have hone : a.prevWasZero = false := by
      cases hzero : a.prevWasZero with
      | false => rfl
      | true => exact absurd (h.even hzero) (by omega)
    have hkept : ¬ MAX_VARICODE_BITS + 1 < a.count + 1 := by omega
    rw [if_pos hcount, hc]
    simp only [VaricodeAccumulator.pushBits, VaricodeAccumulator.pushBit, hone, Bool.and_false,
      Bool.false_eq_true, if_false, if_neg hkept, Bool.not_false, Bool.and_true, if_true,
      Nat.succ_pos, Bool.toNat_false, Nat.add_zero, Nat.add_sub_cancel, if_pos hcount,
      Nat.mul_div_cancel_left a.acc Nat.two_pos, hc]
    rfl
  next => exact absurd rfl hpending

/-! ### A text on the air -/

def zeros (n : ℕ) : List Bool := List.replicate n false

/-- The bits of a text: some zeros, and each character with the zeros after it. -/
def sent (lead : ℕ) : List (ℕ × ℕ) → List Bool
  | [] => zeros lead
  | (c, gap) :: rest => zeros lead ++ (codeword c ++ sent gap rest)

/-- The characters are ASCII, and two zeros or more stand before and after each. -/
def Spaced (lead : ℕ) (text : List (ℕ × ℕ)) : Prop :=
  2 ≤ lead ∧ ∀ x ∈ text, x.1 < 128 ∧ 2 ≤ x.2

instance (lead : ℕ) (text : List (ℕ × ℕ)) : Decidable (Spaced lead text) := instDecidableAnd

/-- How many zeros stand before each character. -/
def gapsBefore (lead : ℕ) : List (ℕ × ℕ) → List ℕ
  | [] => []
  | (_, gap) :: rest => lead :: gapsBefore gap rest

/-- Both decoders give the text. -/
def Received (lead : ℕ) (text : List (ℕ × ℕ)) : Prop :=
  psk31DecodeBits (sent lead text) = text.map Prod.fst ∧
    (new.pushBits (sent lead text)).1 = text.map Prod.fst

instance (lead : ℕ) (text : List (ℕ × ℕ)) : Decidable (Received lead text) := instDecidableAnd

/-- The accumulator between two characters: it may hold one zero, which no gap has claimed. -/
def idle (late : Bool) : VaricodeAccumulator := ⟨0, late.toNat, late⟩

/-- What is heard of a text: a character is lost when a zero is held before it. -/
def heard : Bool → List (ℕ × ℕ) → List ℕ
  | _, [] => []
  | late, (c, gap) :: rest => (if late then [] else [c]) ++ heard gap.bodd rest

theorem pushBits_zeros (late : Bool) (n : ℕ) :
    (idle late).pushBits (zeros n) = ([], idle (late ^^ n.bodd)) := by
  induction n generalizing late with
  | zero => rw [Nat.bodd_zero, Bool.xor_false]; rfl
  | succ n ih =>
    -- zeros are taken in pairs
    have hbit : (idle late).pushBit false = (none, idle !late) := by
      cases late <;> rfl
    have hzeros : zeros (n + 1) = false :: zeros n := rfl
    rw [hzeros, pushBits, hbit, ih, Nat.bodd_succ]
    cases late <;> simp

theorem varicode_nodup : List.Nodup VARICODE := by
  have hcodes : Bits.distinct (VARICODE.map Prod.fst) = true := by decide +kernel
  exact (Bits.nodup_of_distinct hcodes).of_map Prod.fst

/-- A codeword stands for its character alone. -/
theorem codeToChar_of_getElem? {c code count : ℕ} (h : VARICODE[c]? = some (code, count)) :
    codeToChar code count = some c := by
  obtain ⟨hc, hentry⟩ := List.getElem?_eq_some_iff.mp h
  apply List.find?_range_eq_some.mpr
  refine ⟨beq_iff_eq.mpr h, List.mem_range.mpr hc, ?_⟩
  intro i hi
  have hne : VARICODE[i]? ≠ some (code, count) := by
    intro hsame
    obtain ⟨hlt, hother⟩ := List.getElem?_eq_some_iff.mp hsame
    exact Nat.ne_of_lt hi (varicode_nodup.getElem_inj_iff.mp (hother.trans hentry.symm))
  rw [Bool.not_eq_true']
  exact beq_eq_false_iff_ne.mpr hne

/-- The codewords, checked: each begins with a one, and is taken as it stands, after a zero too. -/
theorem pushBits_bitsOf {code count : ℕ} (h : (code, count) ∈ VARICODE) :
    (count ≤ MAX_VARICODE_BITS ∧ code < 2 ^ count ∧ 2 ^ count ≤ 2 * code) ∧
      ∀ late, (idle late).pushBits (bitsOf code count) =
        ([], ⟨code, late.toNat + count, false⟩) := by
  have hall : (VARICODE.all fun e => decide
      ((e.2 ≤ MAX_VARICODE_BITS ∧ e.1 < 2 ^ e.2 ∧ 2 ^ e.2 ≤ 2 * e.1) ∧
        ∀ late, (idle late).pushBits (bitsOf e.1 e.2) = ([], ⟨e.1, late.toNat + e.2, false⟩))) =
          true := by
    decide
  exact of_decide_eq_true (List.all_eq_true.mp hall _ h)

/-- Two zeros end what is in the accumulator, unless the first of them is a bit too many. -/
theorem pushBits_gap (acc : ℕ) {count : ℕ} (h : 0 < count) :
    (⟨acc, count, false⟩ : VaricodeAccumulator).pushBits (zeros 2) =
      (if count ≤ MAX_VARICODE_BITS then (codeToChar acc count).toList else [], idle false) := by
  have hhalf : 2 * acc / 2 = acc := Nat.mul_div_cancel_left acc Nat.two_pos
  have hzeros : zeros 2 = [false, false] := rfl
  rw [hzeros]
  by_cases hle : count ≤ MAX_VARICODE_BITS
  · have hkept : ¬MAX_VARICODE_BITS + 1 < count + 1 := by omega
    simp only [pushBits, VaricodeAccumulator.pushBit, Bool.and_false, Bool.false_eq_true, if_false,
      if_neg hkept, Bool.not_false, Bool.and_true, if_true, Nat.succ_pos, Bool.toNat_false,
      Nat.add_zero, Nat.add_sub_cancel, hhalf, if_pos h, if_pos hle, Option.toList_none,
      List.nil_append, List.append_nil]
    rfl
  · have hover : MAX_VARICODE_BITS + 1 < count + 1 := by omega
    simp only [pushBits, VaricodeAccumulator.pushBit, Bool.and_false, Bool.false_eq_true, if_false,
      if_pos hover, if_neg hle]
    rfl

/-- A zero held before a codeword spoils it. -/
theorem pushBits_codeword {c : ℕ} (hc : c < 128) (late : Bool) :
    (idle late).pushBits (codeword c ++ zeros 2) = (if late then [] else [c], idle false) := by
  obtain ⟨⟨code, count⟩, hentry⟩ : ∃ e, VARICODE[c]? = some e :=
    ⟨_, List.getElem?_eq_getElem (by exact hc)⟩
  obtain ⟨⟨hle, hlt, hlow⟩, hbits⟩ := pushBits_bitsOf (List.mem_of_getElem? hentry)
  have hcode : codeword c = bitsOf code count := by
    rw [codeword, charToCode, if_pos hc, hentry]
  have hpos : 0 < count := by
    rcases Nat.eq_zero_or_pos count with rfl | hpos
    · omega
    · exact hpos
  have hchar : codeToChar code count = some c := codeToChar_of_getElem? hentry
  rw [hcode, pushBits_append, hbits late, List.nil_append]
  cases late with
  | false =>
    dsimp only [Bool.toNat_false]
    rw [Nat.zero_add, pushBits_gap code hpos, if_pos hle, hchar]
    rfl
  | true =>
    dsimp only [Bool.toNat_true]
    rw [pushBits_gap code (Nat.add_pos_left Nat.one_pos count)]
    -- with a bit more, no codeword is that number
    have hnone : codeToChar code (1 + count) = none := by
      rw [Option.eq_none_iff_forall_ne_some]
      intro c' hother
      have hfound : (VARICODE[c']? == some (code, 1 + count)) = true :=
        List.find?_some (p := fun i => VARICODE[i]? == some (code, 1 + count)) hother
      have hmem := List.mem_of_getElem? (beq_iff_eq.mp hfound)
      have hlow' := (pushBits_bitsOf hmem).1.2.2
      rw [Nat.pow_add] at hlow'
      omega
    rw [hnone, Option.toList_none, ite_self]
    rfl

theorem sent_eq {gap : ℕ} (h : 2 ≤ gap) (text : List (ℕ × ℕ)) :
    sent gap text = zeros 2 ++ sent (gap - 2) text := by
  have hzeros : zeros gap = zeros 2 ++ zeros (gap - 2) := by
    unfold zeros
    rw [List.replicate_append_replicate, Nat.add_sub_cancel' h]
  cases text with
  | nil => exact hzeros
  | cons x rest =>
    rw [sent, sent, hzeros, List.append_assoc]

theorem bodd_sub_two {gap : ℕ} (h : 2 ≤ gap) : (gap - 2).bodd = gap.bodd := by
  obtain ⟨n, rfl⟩ := Nat.exists_eq_add_of_le h
  rw [Nat.add_sub_cancel_left, Nat.bodd_add]
  exact (Bool.false_xor _).symm

/-- A text is taken a character with its gap at a time. -/
theorem pushBits_sent (late : Bool) (lead : ℕ) {text : List (ℕ × ℕ)}
    (h : ∀ x ∈ text, x.1 < 128 ∧ 2 ≤ x.2) :
    ∃ late', (idle late).pushBits (sent lead text) =
      (heard (late ^^ lead.bodd) text, idle late') := by
  induction text generalizing late lead with
  | nil => exact ⟨_, pushBits_zeros late lead⟩
  | cons x rest ih =>
    obtain ⟨c, gap⟩ := x
    obtain ⟨hc, hgap⟩ := h (c, gap) List.mem_cons_self
    obtain ⟨late', hrest⟩ := ih false (gap - 2) fun x hx => h x (List.mem_cons_of_mem _ hx)
    rw [Bool.false_xor, bodd_sub_two hgap] at hrest
    refine ⟨late', ?_⟩
    rw [sent, sent_eq hgap, ← List.append_assoc (codeword c), pushBits_append, pushBits_zeros,
      pushBits_append, pushBits_codeword hc, hrest, List.nil_append]
    rfl

theorem length_heard_le (late : Bool) (text : List (ℕ × ℕ)) :
    (heard late text).length ≤ text.length := by
  induction text generalizing late with
  | nil => exact Nat.le_refl 0
  | cons x rest ih =>
    have hrest := ih x.2.bodd
    rw [heard, List.length_append, List.length_cons]
    cases late with
    | true =>
      rw [if_pos rfl, List.length_nil]
      omega
    | false =>
      rw [if_neg Bool.false_ne_true, List.length_singleton]
      omega

theorem even_iff_bodd (n : ℕ) : Even n ↔ n.bodd = false := by
  rw [Nat.even_iff, Nat.mod_two_of_bodd]
  cases n.bodd <;> simp

/-- All of a text is heard when no zero is held before any character. -/
theorem heard_eq_iff (lead : ℕ) (text : List (ℕ × ℕ)) :
    heard lead.bodd text = text.map Prod.fst ↔ ∀ gap ∈ gapsBefore lead text, Even gap := by
  induction text generalizing lead with
  | nil => exact iff_of_true rfl fun _ h => absurd h List.not_mem_nil
  | cons x rest ih =>
    obtain ⟨c, gap⟩ := x
    rw [gapsBefore, List.forall_mem_cons, ← ih gap, even_iff_bodd, heard, List.map_cons]
    cases lead.bodd with
    | false => simp
    | true =>
      -- a character is missing, and none can take its place
      refine iff_of_false ?_ (fun h => absurd h.1 nofun)
      intro heq
      have hlength := length_heard_le gap.bodd rest
      have hcount := congrArg List.length heq
      simp only [if_true, List.nil_append, List.length_cons, List.length_map] at hcount
      omega

/-- Both decoders give the text exactly when an even number of zeros stands before each character;
and on any bits they agree, up to a last character that the second one gives when its gap comes. -/
theorem received_iff {lead : ℕ} {text : List (ℕ × ℕ)} (h : Spaced lead text) (bits : List Bool) :
    (Received lead text ↔ ∀ gap ∈ gapsBefore lead text, Even gap) ∧
      ∃ last, psk31DecodeBits bits = (new.pushBits bits).1 ++ last ∧
        (last ≠ [] → (new.pushBits (bits ++ [false, false])).1 = psk31DecodeBits bits) := by
  constructor
  · have hnew : new = idle false := rfl
    obtain ⟨late, hsent⟩ := pushBits_sent false lead h.2
    have hnone : (idle late).pending = [] := by
      cases late <;> decide +kernel
    unfold Received
    rw [psk31DecodeBits_eq, hnew, hsent, hnone, List.append_nil, Bool.false_xor, and_self,
      heard_eq_iff]
  · refine ⟨_, psk31DecodeBits_eq bits, fun hpending => ?_⟩
    rw [pushBits_append, pending_ended (sound_new.pushBits bits) hpending, psk31DecodeBits_eq]

/-- A word of two characters, with idle time before and between them. -/
theorem received_iff_hi :
    (Received 4 [(104, 2), (105, 3)] ↔ ∀ gap ∈ gapsBefore 4 [(104, 2), (105, 3)], Even gap) ∧
      ∃ last, psk31DecodeBits [true, true] = (new.pushBits [true, true]).1 ++ last ∧
        (last ≠ [] →
          (new.pushBits ([true, true] ++ [false, false])).1 = psk31DecodeBits [true, true]) :=
  received_iff (by decide) [true, true]

/-- Three zeros, the letter e, and its gap: nothing is heard. -/
theorem e_lost : Spaced 3 [(101, 2)] ∧ ¬ Received 3 [(101, 2)] := by
  decide +kernel

end HamsOpen.Psk31
