import HamsOpen.Ambe.Fec
import HamsOpen.Ambe.Priority
import Mathlib

/-! # The wire layer

The eight vectors get their parity bits, six of them are scrambled with a sequence seeded by the
first one, and the 144 bits are spread over 72 symbols. The way back corrects the first vector
before it unscrambles the others. -/

namespace HamsOpen.Ambe

/-! ## Modulation -/

/-- `pseudo_random_sequence`, at one place. -/
def pseudoRandom (u0 : ℕ) : ℕ → ℕ
  | 0 => 16 * u0 % 65536
  | n + 1 => (173 * pseudoRandom u0 n + 13849) % 65536

/-- The top bits of the sequence from `lo` to `hi`, the first one highest. -/
def build (u0 lo hi : ℕ) : ℕ :=
  Bits.ofBits ((List.range' lo (hi + 1 - lo)).map fun n => decide (32768 ≤ pseudoRandom u0 n))

def modulationVectors (u0 : ℕ) : Fin 8 → ℕ :=
  ![0, build u0 1 23, build u0 24 46, build u0 47 69, build u0 70 84, build u0 85 99,
    build u0 100 114, 0]

def modulateCodeVectors (nu : Fin 8 → ℕ) (u0 : ℕ) : Fin 8 → ℕ :=
  let m := modulationVectors u0
  fun i => nu i ^^^ m i

/-! ## Code vectors -/

/-- The widths of the code vectors. -/
def WIDTHS : Fin 8 → ℕ := ![23, 23, 23, 23, 15, 15, 15, 7]

/-- `encode_code_vectors`. The encoders keep the bits they are for, so the casts lose nothing. -/
def encodeCodeVectors (u : Fin 8 → ℕ) : Fin 8 → ℕ :=
  let nu := ![golayEncode (u 0), golayEncode (u 1), golayEncode (u 2), golayEncode (u 3),
    hammingEncode (u 4), hammingEncode (u 5), hammingEncode (u 6), u 7]
  modulateCodeVectors nu (u 0)

/-- `decode_code_vectors`: the vectors, and the errors corrected in each of the first seven. -/
def decodeCodeVectors (c : Fin 8 → ℕ) : (Fin 8 → ℕ) × (Fin 7 → ℕ) :=
  let d0 := golayDecode (c 0)
  let m := modulationVectors d0.1
  let d1 := golayDecode (c 1 ^^^ m 1)
  let d2 := golayDecode (c 2 ^^^ m 2)
  let d3 := golayDecode (c 3 ^^^ m 3)
  let d4 := hammingDecode (c 4 ^^^ m 4)
  let d5 := hammingDecode (c 5 ^^^ m 5)
  let d6 := hammingDecode (c 6 ^^^ m 6)
  (![d0.1, d1.1, d2.1, d3.1, d4.1, d5.1, d6.1, c 7],
    ![d0.2, d1.2, d2.2, d3.2, d4.2, d5.2, d6.2])

/-! ## Interleaving -/

/-- A bit of a code vector. -/
abbrev BitSource := Fin 8 × ℕ

/-- The two bits of each symbol. -/
def BIT_FRAME_FORMAT : List (BitSource × BitSource) :=
  [((0, 22), (1, 21)), ((2, 20), (3, 19)), ((4, 10), (5, 1)), ((1, 20), (0, 21)),
   ((3, 18), (2, 19)), ((5, 0), (4, 9)), ((0, 20), (1, 19)), ((2, 18), (3, 17)),
   ((4, 8), (6, 14)), ((1, 18), (0, 19)), ((3, 16), (2, 17)), ((6, 13), (4, 7)),
   ((0, 18), (1, 17)), ((2, 16), (3, 15)), ((4, 6), (6, 12)), ((1, 16), (0, 17)),
   ((3, 14), (2, 15)), ((6, 11), (4, 5)), ((0, 16), (1, 15)), ((2, 14), (3, 13)),
   ((4, 4), (6, 10)), ((1, 14), (0, 15)), ((3, 12), (2, 13)), ((6, 9), (4, 3)),
   ((0, 14), (1, 13)), ((2, 12), (3, 11)), ((4, 2), (6, 8)), ((1, 12), (0, 13)),
   ((3, 10), (2, 11)), ((6, 7), (4, 1)), ((0, 12), (1, 11)), ((2, 10), (3, 9)), ((4, 0), (6, 6)),
   ((1, 10), (0, 11)), ((3, 8), (2, 9)), ((6, 5), (5, 14)), ((0, 10), (1, 9)), ((2, 8), (3, 7)),
   ((5, 13), (6, 4)), ((1, 8), (0, 9)), ((3, 6), (2, 7)), ((6, 3), (5, 12)), ((0, 8), (1, 7)),
   ((2, 6), (3, 5)), ((5, 11), (6, 2)), ((1, 6), (0, 7)), ((3, 4), (2, 5)), ((6, 1), (5, 10)),
   ((0, 6), (1, 5)), ((2, 4), (3, 3)), ((5, 9), (6, 0)), ((1, 4), (0, 5)), ((3, 2), (2, 3)),
   ((7, 6), (5, 8)), ((0, 4), (1, 3)), ((2, 2), (3, 1)), ((5, 7), (7, 5)), ((1, 2), (0, 3)),
   ((3, 0), (2, 1)), ((7, 4), (5, 6)), ((0, 2), (1, 1)), ((2, 0), (4, 14)), ((5, 5), (7, 3)),
   ((1, 0), (0, 1)), ((4, 13), (3, 22)), ((7, 2), (5, 4)), ((0, 0), (2, 22)), ((3, 21), (4, 12)),
   ((5, 3), (7, 1)), ((2, 21), (1, 22)), ((4, 11), (3, 20)), ((7, 0), (5, 2))]

/-- The two bits of a symbol, by its number. -/
def formatOf (i : Fin 72) : BitSource × BitSource := BIT_FRAME_FORMAT.get (Fin.cast rfl i)

abbrev Symbols := Fin 72 → Bool × Bool

def extractBit (c : Fin 8 → ℕ) (source : BitSource) : Bool := (c source.1).testBit source.2

def interleaveToDibitSymbols (c : Fin 8 → ℕ) : Symbols := fun i =>
  let (bit1Source, bit0Source) := formatOf i
  (extractBit c bit1Source, extractBit c bit0Source)

def setBit (c : Fin 8 → ℕ) (source : BitSource) (value : Bool) : Fin 8 → ℕ :=
  if value then Function.update c source.1 (c source.1 ||| 1 <<< source.2) else c

def deinterleaveFromDibitSymbols (symbols : Symbols) : Fin 8 → ℕ :=
  (List.finRange 72).foldl
    (fun c i =>
      let (bit1Source, bit0Source) := formatOf i
      setBit (setBit c bit1Source (symbols i).1) bit0Source (symbols i).2)
    fun _ => 0

/-- The receiver: the code vectors put together again, and decoded. -/
def receive (symbols : Symbols) : (Fin 8 → ℕ) × (Fin 7 → ℕ) :=
  decodeCodeVectors (deinterleaveFromDibitSymbols symbols)

/-- The parameters of a received frame. The widths come from the pitch it holds. -/
def parametersOf (u : Fin 8 → ℕ) : Option DeprioritizedBits := do
  let l := harmonicsCountFromB0 (extractFundamentalFrequencyQuantizer u)
  let gain ← gainVectorBits l
  let higher ← higherWidths l
  deprioritizeBits u (frequencyBandsCount l) gain higher

/-! ## Where the bits go

A slot is one bit of one symbol: the first one, or the second one. -/

abbrev Slot := Fin 72 × Bool

def sourceOf (slot : Slot) : BitSource :=
  if slot.2 then (formatOf slot.1).1 else (formatOf slot.1).2

def bitAt (symbols : Symbols) (slot : Slot) : Bool :=
  if slot.2 then (symbols slot.1).1 else (symbols slot.1).2

/-- All the slots, in order. -/
def slots : List Slot := (List.finRange 72).flatMap fun i => [(i, true), (i, false)]

theorem mem_slots (slot : Slot) : slot ∈ slots := by
  obtain ⟨i, first⟩ := slot
  apply List.mem_flatMap.mpr
  refine ⟨i, List.mem_finRange i, ?_⟩
  cases first
  · exact List.mem_cons_of_mem _ List.mem_cons_self
  · exact List.mem_cons_self

/-- The bits that are sent, in order. -/
theorem map_sourceOf_slots :
    slots.map sourceOf = BIT_FRAME_FORMAT.flatMap fun symbol => [symbol.1, symbol.2] := by
  have hformat : (List.finRange 72).map formatOf = BIT_FRAME_FORMAT :=
    List.map_get_finRange BIT_FRAME_FORMAT
  rw [← hformat, slots, List.map_flatMap, List.flatMap_map]
  rfl

/-- No bit is sent twice. -/
theorem sourceOf_injective : Function.Injective sourceOf := by
  have hnodup : (slots.map sourceOf).Nodup := by
    -- a code vector has less than 32 bits
    have hplaces : Bits.distinct ((BIT_FRAME_FORMAT.flatMap fun symbol => [symbol.1, symbol.2]).map
        fun source => 32 * source.1.val + source.2) = true := by decide +kernel
    rw [map_sourceOf_slots]
    exact (Bits.nodup_of_distinct hplaces).of_map _
  intro a b h
  exact List.inj_on_of_nodup_map hnodup (mem_slots a) (mem_slots b) h

/-- The slots of a code vector carry each of its bits once. -/
theorem places_perm (j : Fin 8) :
    ((slots.filter fun slot => (sourceOf slot).1 = j).map fun slot => (sourceOf slot).2).Perm
      (List.range (WIDTHS j)) := by
  have hall : ∀ j : Fin 8, (((BIT_FRAME_FORMAT.flatMap fun symbol => [symbol.1, symbol.2]).filter
      fun source => source.1 = j).map Prod.snd).Perm (List.range (WIDTHS j)) := by
    decide
  have hplaces := hall j
  rwa [← map_sourceOf_slots, List.filter_map, List.map_map] at hplaces

theorem sourceOf_lt (slot : Slot) : (sourceOf slot).2 < WIDTHS (sourceOf slot).1 := by
  apply List.mem_range.mp
  rw [← (places_perm (sourceOf slot).1).mem_iff]
  exact List.mem_map_of_mem (List.mem_filter.mpr ⟨mem_slots slot, decide_eq_true rfl⟩)

theorem exists_slot {j : Fin 8} {k : ℕ} (h : k < WIDTHS j) : ∃ slot, sourceOf slot = (j, k) := by
  have hk := (places_perm j).mem_iff.mpr (List.mem_range.mpr h)
  obtain ⟨slot, hslot, hplace⟩ := List.mem_map.mp hk
  exact ⟨slot, Prod.ext (of_decide_eq_true (List.mem_filter.mp hslot).2) hplace⟩

theorem testBit_setBit (c : Fin 8 → ℕ) (source : BitSource) (value : Bool) (j : Fin 8) (k : ℕ) :
    (setBit c source value j).testBit k =
      ((c j).testBit k || (decide (source = (j, k)) && value)) := by
  obtain ⟨vector, place⟩ := source
  unfold setBit
  cases value with
  | false => rw [if_neg Bool.false_ne_true, Bool.and_false, Bool.or_false]
  | true =>
    rw [if_pos rfl, Bool.and_true]
    by_cases hj : j = vector
    · subst hj
      rw [Function.update_self, Nat.testBit_or, Nat.one_shiftLeft, Nat.testBit_two_pow]
      congr 1
      exact decide_eq_decide.mpr ⟨congrArg (Prod.mk j), fun h => (Prod.mk.inj h).2⟩
    · have hother : (vector, place) ≠ (j, k) := fun h => hj (Prod.mk.inj h).1.symm
      rw [Function.update_of_ne hj, decide_eq_false hother, Bool.or_false]

/-- What a run over some of the symbols has set. -/
theorem testBit_foldl (symbols : Symbols) (c : Fin 8 → ℕ) (j : Fin 8) (k : ℕ)
    (list : List (Fin 72)) :
    ((list.foldl (fun c i => setBit (setBit c (formatOf i).1 (symbols i).1) (formatOf i).2
        (symbols i).2) c) j).testBit k =
      ((c j).testBit k || (list.flatMap fun i => [(i, true), (i, false)]).any fun slot =>
        decide (sourceOf slot = (j, k)) && bitAt symbols slot) := by
  induction list generalizing c with
  | nil => rw [List.foldl_nil, List.flatMap_nil, List.any_nil, Bool.or_false]
  | cons i list ih =>
    rw [List.foldl_cons, ih, testBit_setBit, testBit_setBit, List.flatMap_cons, List.any_append]
    simp only [List.any_cons, List.any_nil, Bool.or_false, Bool.or_assoc]
    rfl

theorem testBit_deinterleave (symbols : Symbols) (j : Fin 8) (k : ℕ) :
    (deinterleaveFromDibitSymbols symbols j).testBit k =
      slots.any fun slot => decide (sourceOf slot = (j, k)) && bitAt symbols slot := by
  unfold deinterleaveFromDibitSymbols
  exact (testBit_foldl symbols _ j k _).trans (by rw [Nat.zero_testBit, Bool.false_or]; rfl)

/-- The bit of a slot is put where it came from. -/
theorem testBit_deinterleave_source (symbols : Symbols) (slot : Slot) :
    (deinterleaveFromDibitSymbols symbols (sourceOf slot).1).testBit (sourceOf slot).2 =
      bitAt symbols slot := by
  rw [testBit_deinterleave, Bool.eq_iff_iff, List.any_eq_true]
  constructor
  · rintro ⟨other, -, hother⟩
    obtain ⟨hsource, hbit⟩ := (Bool.and_eq_true _ _).mp hother
    rwa [sourceOf_injective (of_decide_eq_true hsource)] at hbit
  · intro hbit
    exact ⟨slot, mem_slots slot, by rw [hbit, decide_eq_true rfl]; rfl⟩

theorem deinterleave_lt (symbols : Symbols) (j : Fin 8) :
    deinterleaveFromDibitSymbols symbols j < 2 ^ WIDTHS j := by
  apply Nat.lt_pow_two_of_testBit
  intro k hk
  rw [testBit_deinterleave, List.any_eq_false]
  intro slot _ h
  obtain ⟨hsource, -⟩ := (Bool.and_eq_true _ _).mp h
  have hlt := sourceOf_lt slot
  rw [of_decide_eq_true hsource] at hlt
  exact absurd hlt (Nat.not_lt.mpr hk)

/-! ## Errors -/

/-- The symbols with some of their bits flipped. -/
def flip (symbols errors : Symbols) : Symbols := fun i =>
  ((symbols i).1 ^^ (errors i).1, (symbols i).2 ^^ (errors i).2)

/-- How many of the flipped bits belong to the code vector `j`. -/
def errorsIn (errors : Symbols) (j : Fin 8) : ℕ :=
  (slots.filter fun slot => (sourceOf slot).1 = j).countP (bitAt errors)

/-- What each code vector can take: the last one has no parity. -/
def CAPACITY : Fin 8 → ℕ := ![3, 3, 3, 3, 1, 1, 1, 0]

def Correctable (errors : Symbols) : Prop := ∀ j, errorsIn errors j ≤ CAPACITY j

instance (errors : Symbols) : Decidable (Correctable errors) := Fintype.decidableForallFintype

theorem bitAt_flip (symbols errors : Symbols) (slot : Slot) :
    bitAt (flip symbols errors) slot = (bitAt symbols slot ^^ bitAt errors slot) := by
  unfold bitAt flip
  split <;> rfl

theorem bitAt_interleave (c : Fin 8 → ℕ) (slot : Slot) :
    bitAt (interleaveToDibitSymbols c) slot = (c (sourceOf slot).1).testBit (sourceOf slot).2 := by
  unfold bitAt sourceOf
  split <;> rfl

/-- The flipped bits are flipped in the vectors. -/
theorem deinterleave_flip {c : Fin 8 → ℕ} (hc : ∀ j, c j < 2 ^ WIDTHS j) (errors : Symbols)
    (j : Fin 8) :
    deinterleaveFromDibitSymbols (flip (interleaveToDibitSymbols c) errors) j =
      c j ^^^ deinterleaveFromDibitSymbols errors j := by
  apply Nat.eq_of_testBit_eq
  intro k
  rw [Nat.testBit_xor]
  by_cases hk : k < WIDTHS j
  · obtain ⟨slot, hslot⟩ := exists_slot hk
    have hown := testBit_deinterleave_source (flip (interleaveToDibitSymbols c) errors) slot
    have herror := testBit_deinterleave_source errors slot
    rw [bitAt_flip, bitAt_interleave] at hown
    rw [hslot] at hown herror
    rw [hown, herror]
  · have hpow : 2 ^ WIDTHS j ≤ 2 ^ k := Nat.pow_le_pow_right Nat.two_pos (Nat.not_lt.mp hk)
    rw [Nat.testBit_lt_two_pow ((deinterleave_lt _ j).trans_le hpow),
      Nat.testBit_lt_two_pow ((deinterleave_lt errors j).trans_le hpow),
      Nat.testBit_lt_two_pow ((hc j).trans_le hpow)]
    rfl

theorem WIDTHS_le (j : Fin 8) : WIDTHS j ≤ 32 := by
  fin_cases j <;> decide

/-- The errors of a vector are the flipped bits that belong to it. -/
theorem countOnes_deinterleave (errors : Symbols) (j : Fin 8) :
    countOnes (deinterleaveFromDibitSymbols errors j) = errorsIn errors j := by
  rw [countOnes_of_lt (deinterleave_lt errors j) (WIDTHS_le j), ← (places_perm j).countP_eq,
    List.countP_map]
  apply List.countP_congr
  intro slot hslot
  have hj : (sourceOf slot).1 = j := of_decide_eq_true (List.mem_filter.mp hslot).2
  subst hj
  rw [Function.comp_apply, testBit_deinterleave_source]

/-! ## Encoding and decoding -/

section Eight

variable {a0 a1 a2 a3 a4 a5 a6 a7 : ℕ}

/-- What holds of each of eight numbers holds of the vector. -/
theorem forall_eight {P : Fin 8 → ℕ → Prop} (h0 : P 0 a0) (h1 : P 1 a1) (h2 : P 2 a2)
    (h3 : P 3 a3) (h4 : P 4 a4) (h5 : P 5 a5) (h6 : P 6 a6) (h7 : P 7 a7) (j : Fin 8) :
    P j (![a0, a1, a2, a3, a4, a5, a6, a7] j) := by
  revert j
  simp only [Fin.forall_fin_succ]
  exact ⟨h0, h1, h2, h3, h4, h5, h6, h7, fun j => j.elim0⟩

theorem eight_eq {f : Fin 8 → ℕ} (h0 : f 0 = a0) (h1 : f 1 = a1) (h2 : f 2 = a2) (h3 : f 3 = a3)
    (h4 : f 4 = a4) (h5 : f 5 = a5) (h6 : f 6 = a6) (h7 : f 7 = a7) :
    ![a0, a1, a2, a3, a4, a5, a6, a7] = f :=
  funext (forall_eight (P := fun j a => a = f j) h0.symm h1.symm h2.symm h3.symm h4.symm h5.symm
    h6.symm h7.symm)

theorem seven_eq {f : Fin 7 → ℕ} (h0 : f 0 = a0) (h1 : f 1 = a1) (h2 : f 2 = a2) (h3 : f 3 = a3)
    (h4 : f 4 = a4) (h5 : f 5 = a5) (h6 : f 6 = a6) : ![a0, a1, a2, a3, a4, a5, a6] = f := by
  funext j
  revert j
  simp only [Fin.forall_fin_succ]
  exact ⟨h0.symm, h1.symm, h2.symm, h3.symm, h4.symm, h5.symm, h6.symm, fun j => j.elim0⟩

end Eight

theorem build_lt {lo hi w : ℕ} (u0 : ℕ) (h : hi + 1 - lo = w) : build u0 lo hi < 2 ^ w := by
  have hlt : build u0 lo hi < 2 ^ ((List.range' lo (hi + 1 - lo)).map fun n =>
      decide (32768 ≤ pseudoRandom u0 n)).length := Bits.ofBits_lt _
  rwa [List.length_map, List.length_range', h] at hlt

theorem modulationVectors_lt (u0 : ℕ) (j : Fin 8) : modulationVectors u0 j < 2 ^ WIDTHS j :=
  forall_eight (P := fun j m => m < 2 ^ WIDTHS j) (Nat.two_pow_pos _) (build_lt u0 rfl)
    (build_lt u0 rfl) (build_lt u0 rfl) (build_lt u0 rfl) (build_lt u0 rfl) (build_lt u0 rfl)
    (Nat.two_pow_pos _) j

/-- What is sent of each vector, before it is scrambled. -/
def plain (u : Fin 8 → ℕ) : Fin 8 → ℕ :=
  ![golayEncode (u 0), golayEncode (u 1), golayEncode (u 2), golayEncode (u 3),
    hammingEncode (u 4), hammingEncode (u 5), hammingEncode (u 6), u 7]

theorem encodeCodeVectors_eq (u : Fin 8 → ℕ) (j : Fin 8) :
    encodeCodeVectors u j = plain u j ^^^ modulationVectors (u 0) j := rfl

theorem plain_lt {u : Fin 8 → ℕ} (h : u 7 < 2 ^ 7) (j : Fin 8) : plain u j < 2 ^ WIDTHS j := by
  have hgolay (data : ℕ) : golayEncode data < 2 ^ 23 := Code.encode_lt data
  have hhamming (data : ℕ) : hammingEncode data < 2 ^ 15 := Code.encode_lt data
  exact forall_eight (P := fun j a => a < 2 ^ WIDTHS j) (hgolay _) (hgolay _) (hgolay _) (hgolay _)
    (hhamming _) (hhamming _) (hhamming _) h j

theorem encodeCodeVectors_lt {u : Fin 8 → ℕ} (h : u 7 < 2 ^ 7) (j : Fin 8) :
    encodeCodeVectors u j < 2 ^ WIDTHS j := by
  rw [encodeCodeVectors_eq]
  exact Nat.xor_lt_two_pow (plain_lt h j) (modulationVectors_lt (u 0) j)

/-- Scrambled, hit by an error and unscrambled: the error is left. -/
theorem unscramble (nu m error : ℕ) : nu ^^^ m ^^^ error ^^^ m = nu ^^^ error := by
  rw [Nat.xor_right_comm nu m error, Nat.xor_xor_cancel_right]

theorem golay_vector {u : Fin 8 → ℕ} {j : Fin 8} {error : ℕ} (hj : j < 4)
    (hu : u j < 2 ^ LENGTHS j) (hwidth : error < 2 ^ WIDTHS j)
    (hcount : countOnes error ≤ CAPACITY j) :
    golayDecode (plain u j ^^^ error) = (u j, countOnes error) := by
  have hfour : ∀ j : Fin 8, j < 4 → LENGTHS j = 12 ∧ WIDTHS j = 23 ∧ CAPACITY j = 3 := by decide
  obtain ⟨hlength, hw, hcapacity⟩ := hfour j hj
  rw [hlength] at hu
  rw [hw] at hwidth
  rw [hcapacity] at hcount
  have hplain : plain u j = golayEncode (u j) :=
    forall_eight (P := fun j a => j < 4 → a = golayEncode (u j)) (fun _ => rfl) (fun _ => rfl)
      (fun _ => rfl) (fun _ => rfl) (fun h => absurd h (by decide)) (fun h => absurd h (by decide))
      (fun h => absurd h (by decide)) (fun h => absurd h (by decide)) j hj
  rw [hplain]
  exact golayDecode_encode hu hwidth hcount

theorem hamming_vector {u : Fin 8 → ℕ} {j : Fin 8} {error : ℕ} (hj : 4 ≤ j ∧ j < 7)
    (hu : u j < 2 ^ LENGTHS j) (hwidth : error < 2 ^ WIDTHS j)
    (hcount : countOnes error ≤ CAPACITY j) :
    hammingDecode (plain u j ^^^ error) = (u j, countOnes error) := by
  have hthree : ∀ j : Fin 8, 4 ≤ j ∧ j < 7 → LENGTHS j = 11 ∧ WIDTHS j = 15 ∧ CAPACITY j = 1 := by
    decide
  obtain ⟨hlength, hw, hcapacity⟩ := hthree j hj
  rw [hlength] at hu
  rw [hw] at hwidth
  rw [hcapacity] at hcount
  have hplain : plain u j = hammingEncode (u j) :=
    forall_eight (P := fun j a => 4 ≤ j ∧ j < 7 → a = hammingEncode (u j))
      (fun h => absurd h (by decide)) (fun h => absurd h (by decide))
      (fun h => absurd h (by decide)) (fun h => absurd h (by decide)) (fun _ => rfl) (fun _ => rfl)
      (fun _ => rfl) (fun h => absurd h (by decide)) j hj
  rw [hplain]
  exact hammingDecode_encode hu hwidth hcount

theorem last_vector {u : Fin 8 → ℕ} {error : ℕ} (hwidth : error < 2 ^ WIDTHS 7)
    (hcount : countOnes error ≤ CAPACITY 7) : encodeCodeVectors u 7 ^^^ error = u 7 := by
  have hnone : error = 0 :=
    eq_zero_of_onesIn (hwidth.trans (by decide)) (Nat.le_zero.mp hcount)
  have hplain : encodeCodeVectors u 7 = u 7 := Nat.xor_zero _
  rw [hplain, hnone, Nat.xor_zero]

/-- Errors within the capacity of each vector are corrected and counted. -/
theorem decodeCodeVectors_encode {u errors : Fin 8 → ℕ} (hu : ∀ j, u j < 2 ^ LENGTHS j)
    (hwidth : ∀ j, errors j < 2 ^ WIDTHS j) (hcount : ∀ j, countOnes (errors j) ≤ CAPACITY j) :
    decodeCodeVectors (fun j => encodeCodeVectors u j ^^^ errors j) =
      (u, fun j => countOnes (errors j.castSucc)) := by
  -- the first vector is not scrambled, and seeds the others
  have hseed : golayDecode (encodeCodeVectors u 0 ^^^ errors 0) = (u 0, countOnes (errors 0)) := by
    have hplain : encodeCodeVectors u 0 = plain u 0 := Nat.xor_zero _
    rw [hplain]
    exact golay_vector (by decide) (hu 0) (hwidth 0) (hcount 0)
  have hplain (j : Fin 8) :
      encodeCodeVectors u j ^^^ errors j ^^^ modulationVectors (u 0) j = plain u j ^^^ errors j := by
    rw [encodeCodeVectors_eq, unscramble]
  unfold decodeCodeVectors
  simp only [hseed, hplain, last_vector (hwidth 7) (hcount 7),
    golay_vector (by decide) (hu 1) (hwidth 1) (hcount 1),
    golay_vector (by decide) (hu 2) (hwidth 2) (hcount 2),
    golay_vector (by decide) (hu 3) (hwidth 3) (hcount 3),
    hamming_vector (by decide) (hu 4) (hwidth 4) (hcount 4),
    hamming_vector (by decide) (hu 5) (hwidth 5) (hcount 5),
    hamming_vector (by decide) (hu 6) (hwidth 6) (hcount 6)]
  apply Prod.ext
  · exact eight_eq rfl rfl rfl rfl rfl rfl rfl rfl
  · exact seven_eq rfl rfl rfl rfl rfl rfl rfl

/-- A frame sent and received, with errors the parity bits can take. -/
theorem receive_flip {u : Fin 8 → ℕ} (hu : ∀ j, u j < 2 ^ LENGTHS j) {errors : Symbols}
    (h : Correctable errors) :
    receive (flip (interleaveToDibitSymbols (encodeCodeVectors u)) errors) =
      (u, fun j => errorsIn errors j.castSucc) := by
  have hsent (j : Fin 8) : encodeCodeVectors u j < 2 ^ WIDTHS j := encodeCodeVectors_lt (hu 7) j
  have hcount (j : Fin 8) : countOnes (deinterleaveFromDibitSymbols errors j) ≤ CAPACITY j := by
    rw [countOnes_deinterleave]
    exact h j
  have hreceived : deinterleaveFromDibitSymbols
      (flip (interleaveToDibitSymbols (encodeCodeVectors u)) errors) =
        fun j => encodeCodeVectors u j ^^^ deinterleaveFromDibitSymbols errors j := by
    funext j
    exact deinterleave_flip hsent errors j
  have hcounted : (fun j : Fin 7 => countOnes (deinterleaveFromDibitSymbols errors j.castSucc)) =
      fun j => errorsIn errors j.castSucc := by
    funext j
    exact countOnes_deinterleave errors j.castSucc
  have hdecoded := decodeCodeVectors_encode hu (deinterleave_lt errors) hcount
  rw [hcounted] at hdecoded
  unfold receive
  rw [hreceived]
  exact hdecoded

/-! ## The parameters of a frame -/

/-- Parameters a frame can hold: every value fits the width its pitch gives it. -/
structure DeprioritizedBits.Valid (p : DeprioritizedBits) : Prop where
  b0_le : p.b0 ≤ MAX_VALID_B0
  b1_lt : p.b1 < 2 ^ frequencyBandsCount (harmonicsCountFromB0 p.b0)
  b2_lt : p.b2 < 2 ^ 6
  gain_widths : gainVectorBits (harmonicsCountFromB0 p.b0) = some (p.gainVector.map Prod.snd)
  higher_widths : higherWidths (harmonicsCountFromB0 p.b0) = some (p.higherOrder.map Prod.snd)
  values_lt : ∀ c ∈ p.gainVector ++ p.higherOrder, c.1 < 2 ^ c.2

namespace DeprioritizedBits

variable {p : DeprioritizedBits} {layout : Layout}

theorem Valid.fits (hp : p.Valid) (hl : Layout.Of (harmonicsCountFromB0 p.b0) layout) :
    p.Fits layout where
  b0_lt := lt_of_le_of_lt hp.b0_le (by decide)
  b1_lt := by
    rw [hl.bands_eq]
    exact hp.b1_lt
  b2_lt := hp.b2_lt
  gain_widths := Option.some.inj (hp.gain_widths.symm.trans hl.gain_eq)
  higher_widths := Option.some.inj (hp.higher_widths.symm.trans hl.higher_eq)
  values_lt := hp.values_lt

/-- The widths of the frame are found from the pitch it holds. -/
theorem Fits.parametersOf_pack (hp : p.Fits layout)
    (hl : Layout.Of (harmonicsCountFromB0 p.b0) layout) :
    parametersOf (pack (p.prioritized layout.bands)) = some p := by
  unfold parametersOf
  simp only [Option.bind_eq_bind]
  rw [hp.extract_pack, hl.gain_eq, Option.bind_some, hl.higher_eq, Option.bind_some, ← hl.bands_eq]
  exact hp.deprioritizeBits_pack

end DeprioritizedBits

/-- What is sent in a frame is received, with up to three errors in each of the first four code
vectors, one in each of the next three and none in the last; and the errors are counted. -/
theorem parametersOf_receive {p : DeprioritizedBits} (hp : p.Valid) {errors : Symbols}
    (herrors : Correctable errors) :
    ∃ u v, prioritizeBits p.b0 p.b1 (frequencyBandsCount (harmonicsCountFromB0 p.b0)) p.b2
        p.gainVector p.higherOrder p.syncBit = some u ∧
      receive (flip (interleaveToDibitSymbols (encodeCodeVectors u)) errors) =
        (v, fun j => errorsIn errors j.castSucc) ∧
      extractFundamentalFrequencyQuantizer v = p.b0 ∧ parametersOf v = some p := by
  obtain ⟨layout, hl⟩ := exists_layout (harmonicsCountFromB0_mem p.b0)
  have hfits := hp.fits hl
  have hsent := hfits.prioritizeBits_eq
  rw [hl.bands_eq] at hsent
  -- the vectors come through as they were
  have hreceived := receive_flip (pack_lt (p.prioritized layout.bands)) herrors
  rw [hl.bands_eq] at hreceived
  refine ⟨_, _, hsent, hreceived, ?_, ?_⟩
  · rw [← hl.bands_eq]
    exact hfits.extract_pack
  · rw [← hl.bands_eq]
    exact hfits.parametersOf_pack hl

/-- The lowest pitch index, with three errors in the second code vector and one in the fifth. -/
theorem parametersOf_receive_lowest :
    ∃ u v, prioritizeBits 0 5 3 33 [(700, 10), (1, 9), (511, 9), (256, 9), (0, 9)]
        [(400, 9), (7, 8), (127, 7)] true = some u ∧
      receive (flip (interleaveToDibitSymbols (encodeCodeVectors u))
          fun i => (decide (i ∈ [2, 3, 9, 15]), false)) =
        (v, fun j => errorsIn (fun i => (decide (i ∈ [2, 3, 9, 15]), false)) j.castSucc) ∧
      extractFundamentalFrequencyQuantizer v = 0 ∧
      parametersOf v = some ⟨0, 5, 33, [(700, 10), (1, 9), (511, 9), (256, 9), (0, 9)],
        [(400, 9), (7, 8), (127, 7)], true⟩ :=
  have hvalid : DeprioritizedBits.Valid ⟨0, 5, 33, [(700, 10), (1, 9), (511, 9), (256, 9), (0, 9)],
      [(400, 9), (7, 8), (127, 7)], true⟩ :=
    ⟨by decide, by decide, by decide, by decide, by decide, by decide⟩
  parametersOf_receive hvalid (by decide +kernel)

end HamsOpen.Ambe
