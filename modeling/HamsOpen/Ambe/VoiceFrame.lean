import HamsOpen.Ambe.Fec
import HamsOpen.Lib.Bits
import HamsOpen.Lib.Fields

/-!
# D-STAR and AMBE+2 voice frames

A frame is 72 bits around 49 data bits: two Golay code words, the second one scrambled with a
sequence that the data of the first one start, and 25 bits as they are. On the wire its bits are
scattered by a table, one for each system.
-/

namespace HamsOpen.Ambe.VoiceFrame

open Fields

/-! ### The frame -/

/-- One step of the generator, and the bit of the mask it gives. -/
def whiteningStep (s : ℕ × ℕ) (i : ℕ) : ℕ × ℕ :=
  let p := (173 * s.1 + 13849) % 65536
  (p, s.2 ||| (if 32768 ≤ p then 1 else 0) <<< (22 - i))

def c1WhiteningMask (seed : ℕ) : ℕ :=
  ((List.range 23).foldl whiteningStep (16 * field seed 0 12, 0)).2

def whitenC1 (c1 c0Data : ℕ) : ℕ := field c1 0 23 ^^^ c1WhiteningMask c0Data

def buildFrame (d : ℕ) : ℕ :=
  let c0Data := field d 37 12
  let c0 := golayEncode c0Data
  let c1 := whitenC1 (golayEncode (field d 25 12)) c0Data
  -- the bit under the first code word makes its parity even
  let spare := field (countOnes c0) 0 1
  c0 <<< 49 ||| spare <<< 48 ||| c1 <<< 25 ||| field d 14 11 <<< 14 ||| field d 0 14

structure ParsedFrame where
  d : ℕ
  epsilonC0 : ℕ
  epsilonC1 : ℕ
  deriving DecidableEq

def parseFrame (frame : ℕ) : ParsedFrame :=
  let frame := field frame 0 72
  let c0 := golayDecode (field frame 48 24 >>> 1)
  let c1 := golayDecode (whitenC1 (field frame 25 23) c0.1)
  ⟨c0.1 <<< 37 ||| c1.1 <<< 25 ||| field frame 14 11 <<< 14 ||| field frame 0 14, c0.2, c1.2⟩

/-- Errors that the frame can take: three in each code word, none in the bits that have no parity.
The bit under the first code word is not looked at. -/
def Correctable (errors : ℕ) : Prop :=
  countOnes (field errors 49 23) ≤ 3 ∧ countOnes (field errors 25 23) ≤ 3 ∧
    field errors 14 11 = 0 ∧ field errors 0 14 = 0

instance (errors : ℕ) : Decidable (Correctable errors) :=
  inferInstanceAs (Decidable (_ ∧ _ ∧ _ ∧ _))

theorem c1WhiteningMask_lt (seed : ℕ) : c1WhiteningMask seed < 2 ^ 23 := by
  have hfold : ∀ (l : List ℕ) (s : ℕ × ℕ), s.2 < 2 ^ 23 → (l.foldl whiteningStep s).2 < 2 ^ 23 := by
    intro l
    induction l with
    | nil => exact fun _ h => h
    | cons i l ih =>
      intro s h
      apply ih
      apply Nat.or_lt_two_pow h
      -- a bit moved by at most 22 places
      have hbit : (if 32768 ≤ (173 * s.1 + 13849) % 65536 then 1 else 0) < 2 ^ 1 := by
        split <;> decide
      rw [Nat.shiftLeft_eq]
      calc _ < 2 ^ 1 * 2 ^ (22 - i) := Nat.mul_lt_mul_of_pos_right hbit (Nat.two_pow_pos _)
        _ ≤ 2 ^ 23 := by
          rw [← pow_add]
          exact Nat.pow_le_pow_right Nat.two_pos (by omega)
  exact hfold _ _ (Nat.two_pow_pos 23)

theorem whitenC1_lt (c1 c0Data : ℕ) : whitenC1 c1 c0Data < 2 ^ 23 :=
  Nat.xor_lt_two_pow (field_lt c1 0 23) (c1WhiteningMask_lt c0Data)

/-- Whitening takes itself back, whatever was flipped between. -/
theorem whitenC1_xor {c1 error : ℕ} (hc : c1 < 2 ^ 23) (he : error < 2 ^ 23) (c0Data : ℕ) :
    whitenC1 (whitenC1 c1 c0Data ^^^ error) c0Data = c1 ^^^ error := by
  have hlt := Nat.xor_lt_two_pow (whitenC1_lt c1 c0Data) he
  have hinner : whitenC1 c1 c0Data = c1 ^^^ c1WhiteningMask c0Data := by
    rw [whitenC1, field_of_lt hc]
  rw [whitenC1, field_of_lt hlt, hinner, Nat.xor_assoc, Nat.xor_assoc, Nat.xor_comm error,
    ← Nat.xor_assoc (c1WhiteningMask c0Data), Nat.xor_self, Nat.zero_xor]

theorem golayEncode_lt (data : ℕ) : golayEncode data < 2 ^ 23 := golay.encode_lt data

/-- The parts of a frame, one after the other. -/
theorem buildFrame_eq (d : ℕ) :
    buildFrame d =
      ((((golayEncode (field d 37 12) <<< 1 ||| field (countOnes (golayEncode (field d 37 12))) 0 1)
        <<< 23 ||| whitenC1 (golayEncode (field d 25 12)) (field d 37 12)) <<< 11 |||
          field d 14 11) <<< 14 ||| field d 0 14) := by
  unfold buildFrame
  simp only [Nat.shiftLeft_or_distrib, ← Nat.shiftLeft_add]

theorem buildFrame_lt (d : ℕ) : buildFrame d < 2 ^ 72 := by
  rw [buildFrame_eq]
  exact or_lt (or_lt (or_lt (or_lt (golayEncode_lt _) (field_lt _ 0 1)) (whitenC1_lt _ _))
    (field_lt d 14 11)) (field_lt d 0 14)

/-- The data bits from their parts. -/
theorem data_eq {d : ℕ} (hd : d < 2 ^ 49) :
    field d 37 12 <<< 37 ||| field d 25 12 <<< 25 ||| field d 14 11 <<< 14 ||| field d 0 14 =
      d := by
  have hnest : field d 37 12 <<< 37 ||| field d 25 12 <<< 25 ||| field d 14 11 <<< 14 |||
      field d 0 14 = (((field d 37 12 <<< 12 ||| field d 25 12) <<< 11 ||| field d 14 11) <<< 14 |||
        field d 0 14) := by
    simp only [Nat.shiftLeft_or_distrib, ← Nat.shiftLeft_add]
  rw [hnest, shiftLeft_or_field d 25 12 12, shiftLeft_or_field d 14 11 24,
    shiftLeft_or_field d 0 14 35, field_of_lt hd]

theorem field_shiftRight (value low width : ℕ) :
    field value low (width + 1) >>> 1 = field value (low + 1) width := by
  apply Nat.eq_of_testBit_eq
  intro i
  rw [Nat.testBit_shiftRight, testBit_field, testBit_field, Nat.add_assoc]
  congr 1
  exact decide_eq_decide.mpr (by omega)

/-- A frame with errors that it can take is parsed, and they are counted. -/
theorem parseFrame_xor {d errors : ℕ} (hd : d < 2 ^ 49) (he : Correctable errors) :
    parseFrame (buildFrame d ^^^ errors) =
      ⟨d, countOnes (field errors 49 23), countOnes (field errors 25 23)⟩ := by
  obtain ⟨hc0, hc1, hc2, hc3⟩ := he
  have hframe := buildFrame_eq d
  have hlow := field_lt d 0 14
  have hmid := or_lt (field_lt d 14 11) hlow
  have h0 : field (buildFrame d) 49 23 = golayEncode (field d 37 12) := by
    rw [hframe, field_shiftLeft_or hlow (by decide),
      field_shiftLeft_or (field_lt d 14 11) (by decide),
      field_shiftLeft_or (whitenC1_lt _ _) (by decide),
      field_shiftLeft_or (field_lt _ 0 1) (by decide)]
    exact field_of_lt (golayEncode_lt _)
  have h1 : field (buildFrame d) 25 23 =
      whitenC1 (golayEncode (field d 25 12)) (field d 37 12) := by
    rw [hframe, field_shiftLeft_or hlow (by decide),
      field_shiftLeft_or (field_lt d 14 11) (by decide), field_or_low (by decide)]
    exact field_of_lt (whitenC1_lt _ _)
  have h2 : field (buildFrame d) 14 11 = field d 14 11 := by
    rw [hframe, field_shiftLeft_or hlow (by decide), field_or_low (by decide)]
    exact field_of_lt (field_lt d 14 11)
  have h3 : field (buildFrame d) 0 14 = field d 0 14 := by
    rw [hframe, field_or_low (by decide)]
    exact field_of_lt hlow
  have hfirst : golayDecode (golayEncode (field d 37 12) ^^^ field errors 49 23) =
      (field d 37 12, countOnes (field errors 49 23)) :=
    golayDecode_encode (field_lt d 37 12) (field_lt errors 49 23) hc0
  have hsecond : golayDecode (golayEncode (field d 25 12) ^^^ field errors 25 23) =
      (field d 25 12, countOnes (field errors 25 23)) :=
    golayDecode_encode (field_lt d 25 12) (field_lt errors 25 23) hc1
  have hshift : ∀ value, field value 48 24 >>> 1 = field value 49 23 :=
    fun value => field_shiftRight value 48 23
  unfold parseFrame
  simp only [field_field (show 48 + 24 ≤ 72 by decide), field_field (show 25 + 23 ≤ 72 by decide),
    field_field (show 14 + 11 ≤ 72 by decide), field_field (show 0 + 14 ≤ 72 by decide),
    Nat.zero_add, field_xor, Nat.shiftRight_xor_distrib, hshift, h0, h1, h2, h3, hc2, hc3,
    Nat.xor_zero, hfirst,
    whitenC1_xor (golayEncode_lt _) (field_lt errors 25 23), hsecond, data_eq hd]

/-! ### The wire -/

/-- The bits put at their places. -/
def gather (bits : List (Bool × ℕ)) : ℕ := bits.foldl (fun v e => v ||| e.1.toNat <<< e.2) 0

theorem testBit_gather (bits : List (Bool × ℕ)) (i : ℕ) :
    (gather bits).testBit i = bits.any fun e => e.1 && decide (e.2 = i) := by
  have hfold : ∀ v : ℕ, (bits.foldl (fun v e => v ||| e.1.toNat <<< e.2) v).testBit i =
      (v.testBit i || bits.any fun e => e.1 && decide (e.2 = i)) := by
    induction bits with
    | nil => exact fun v => (Bool.or_false _).symm
    | cons e bits ih =>
      intro v
      have hbit : (e.1.toNat <<< e.2).testBit i = (e.1 && decide (e.2 = i)) := by
        cases e.1 with
        | false => rw [Bool.toNat_false, Nat.zero_shiftLeft, Nat.zero_testBit, Bool.false_and]
        | true => rw [Bool.toNat_true, Nat.one_shiftLeft, Nat.testBit_two_pow, Bool.true_and]
      rw [List.foldl_cons, ih, Nat.testBit_or, hbit, Bool.or_assoc, List.any_cons]
  exact (hfold 0).trans (by rw [Nat.zero_testBit, Bool.false_or])

/-- Bits that go to different places are found there. -/
theorem testBit_gather_map {ι : Type} {places : List ι} {place : ι → ℕ} (bit : ι → Bool)
    (hinj : ∀ a ∈ places, ∀ b ∈ places, place a = place b → a = b) {a : ι} (ha : a ∈ places) :
    (gather (places.map fun b => (bit b, place b))).testBit (place a) = bit a := by
  rw [testBit_gather, Bool.eq_iff_iff, List.any_eq_true]
  constructor
  · rintro ⟨e, he, hbit⟩
    obtain ⟨b, hb, rfl⟩ := List.mem_map.mp he
    obtain ⟨hset, hplace⟩ := Bool.and_eq_true_iff.mp hbit
    rwa [hinj b hb a ha (of_decide_eq_true hplace)] at hset
  · intro hbit
    exact ⟨_, List.mem_map_of_mem ha, by rw [hbit, decide_eq_true rfl]; rfl⟩

/-! ### The wire of D-STAR -/

def BLOCK_LENS : List ℕ := [24, 23, 11, 14]

def D_W : List ℕ :=
  [0, 0, 3, 2, 1, 1, 0, 0, 1, 1, 0, 0, 3, 2, 1, 1, 3, 2, 1, 1, 0, 0, 3, 2, 0, 0, 3, 2, 1, 1, 0, 0,
    1, 1, 0, 0, 3, 2, 1, 1, 3, 2, 1, 1, 0, 0, 3, 2, 0, 0, 3, 2, 1, 1, 0, 0, 1, 1, 0, 0, 3, 2, 1, 1,
    3, 3, 2, 1, 0, 0, 3, 3]

def D_X : List ℕ :=
  [10, 22, 11, 9, 10, 22, 11, 23, 8, 20, 9, 21, 10, 8, 9, 21, 8, 6, 7, 19, 8, 20, 9, 7, 6, 18, 7,
    5, 6, 18, 7, 19, 4, 16, 5, 17, 6, 4, 5, 17, 4, 2, 3, 15, 4, 16, 5, 3, 2, 14, 3, 1, 2, 14, 3,
    15, 0, 12, 1, 13, 2, 0, 1, 13, 0, 12, 10, 11, 0, 12, 1, 13]

/-- The block and the column of a bit of the wire. -/
def cellOf (i : Fin 72) : ℕ × ℕ := (D_W.getD i 0, D_X.getD i 0)

/-- The cells in the order of the frame, its first bit first. -/
def cells : List (ℕ × ℕ) :=
  BLOCK_LENS.zipIdx.flatMap fun block => (List.range block.1).reverse.map (Prod.mk block.2)

/-- The bit of the frame that a cell holds: below it are the rest of its block and the blocks after
it. -/
def placeOf (cell : ℕ × ℕ) : ℕ := (BLOCK_LENS.drop (cell.1 + 1)).sum + cell.2

/-- Nine bytes, each with its lowest bit first. -/
def wireBit (bytes : Fin 9 → ℕ) (i : Fin 72) : Bool :=
  (bytes ⟨i / 8, by omega⟩).testBit (i % 8)

/-- The cells filled from the wire, bit after bit. -/
def ambeFr (bytes : Fin 9 → ℕ) : ℕ × ℕ → Bool :=
  (List.finRange 72).foldl (fun fr i => Function.update fr (cellOf i) (wireBit bytes i))
    fun _ => false

def wireBytesToFrame (bytes : Fin 9 → ℕ) : ℕ := Bits.ofBits (cells.map (ambeFr bytes))

def frameToWireBytes (frame : ℕ) : Fin 9 → ℕ := fun k =>
  gather ((List.finRange 8).map fun j : Fin 8 =>
    ((field frame 0 72).testBit (placeOf (cellOf ⟨8 * k + j, by omega⟩)), (j : ℕ)))

/-- The bytes with some of their bits flipped. -/
def flip (bytes errors : Fin 9 → ℕ) : Fin 9 → ℕ := fun k => bytes k ^^^ errors k

theorem cellOf_injective : Function.Injective cellOf := by
  intro a b
  revert a b
  decide

theorem cells_place (i : Fin 72) : cells.reverse[placeOf (cellOf i)]? = some (cellOf i) := by
  revert i
  decide

theorem placeOf_lt (i : Fin 72) : placeOf (cellOf i) < 72 := by
  revert i
  decide

/-- Every bit of the frame is sent. -/
theorem exists_cell {p : ℕ} (h : p < 72) : ∃ i, placeOf (cellOf i) = p := by
  let place : Fin 72 → Fin 72 := fun i => ⟨placeOf (cellOf i), placeOf_lt i⟩
  have hplace : Function.Injective place := by
    intro a b hab
    have ha := cells_place a
    rw [show placeOf (cellOf a) = placeOf (cellOf b) from congrArg Fin.val hab, cells_place b] at ha
    exact cellOf_injective (Option.some.inj ha).symm
  obtain ⟨i, hi⟩ := Finite.injective_iff_surjective.mp hplace ⟨p, h⟩
  exact ⟨i, congrArg Fin.val hi⟩

/-- A cell holds the bit of the wire that goes there. -/
theorem ambeFr_cellOf (bytes : Fin 9 → ℕ) (i : Fin 72) :
    ambeFr bytes (cellOf i) = wireBit bytes i := by
  have hfold : ∀ (l : List (Fin 72)) (fr : ℕ × ℕ → Bool),
      (i ∈ l ∨ fr (cellOf i) = wireBit bytes i) →
      l.foldl (fun fr i => Function.update fr (cellOf i) (wireBit bytes i)) fr (cellOf i) =
        wireBit bytes i := by
    intro l
    induction l with
    | nil => exact fun fr h => h.resolve_left List.not_mem_nil
    | cons a l ih =>
      intro fr h
      apply ih
      by_cases ha : a = i
      · subst ha
        exact Or.inr (Function.update_self _ _ _)
      · change i ∈ l ∨ Function.update fr (cellOf a) (wireBit bytes a) (cellOf i) = _
        rw [Function.update_of_ne (fun heq => ha (cellOf_injective heq.symm))]
        exact h.imp_left fun hmem => (List.mem_cons.mp hmem).resolve_left fun heq => ha heq.symm
  exact hfold _ _ (Or.inl (List.mem_finRange i))

theorem testBit_wireBytesToFrame (bytes : Fin 9 → ℕ) (i : Fin 72) :
    (wireBytesToFrame bytes).testBit (placeOf (cellOf i)) = wireBit bytes i := by
  have hreverse : cells.map (ambeFr bytes) = (cells.reverse.map (ambeFr bytes)).reverse := by
    rw [List.map_reverse, List.reverse_reverse]
  unfold wireBytesToFrame
  rw [hreverse, Bits.testBit_ofBits_reverse, List.getElem?_map, cells_place]
  exact ambeFr_cellOf bytes i

theorem wireBytesToFrame_lt (bytes : Fin 9 → ℕ) : wireBytesToFrame bytes < 2 ^ 72 := by
  have hlt := Bits.ofBits_lt (cells.map (ambeFr bytes))
  have hlength : cells.length = 72 := by decide
  rwa [List.length_map, hlength] at hlt

theorem wireBit_frameToWireBytes (frame : ℕ) (i : Fin 72) :
    wireBit (frameToWireBytes frame) i = frame.testBit (placeOf (cellOf i)) := by
  have hplaces : ∀ a ∈ List.finRange 8, ∀ b ∈ List.finRange 8, a.val = b.val → a = b :=
    fun _ _ _ _ h => Fin.ext h
  have hbyte := testBit_gather_map
    (fun j : Fin 8 => (field frame 0 72).testBit (placeOf (cellOf ⟨8 * (i / 8 : ℕ) + j, by omega⟩)))
    hplaces (List.mem_finRange ⟨i % 8, by omega⟩)
  have hindex : (⟨8 * (i / 8 : ℕ) + i % 8, by omega⟩ : Fin 72) = i := Fin.ext (by dsimp; omega)
  unfold wireBit frameToWireBytes
  refine hbyte.trans ?_
  rw [hindex, testBit_field, decide_eq_true (placeOf_lt i), Bool.and_true, Nat.zero_add]

/-- What is flipped on the wire is flipped in the frame. -/
theorem wireBytesToFrame_flip {frame : ℕ} (hframe : frame < 2 ^ 72) (errors : Fin 9 → ℕ) :
    wireBytesToFrame (flip (frameToWireBytes frame) errors) =
      frame ^^^ wireBytesToFrame errors := by
  apply Nat.eq_of_testBit_eq
  intro p
  rw [Nat.testBit_xor]
  by_cases hp : p < 72
  · obtain ⟨i, rfl⟩ := exists_cell hp
    have hflip : wireBit (flip (frameToWireBytes frame) errors) i =
        (wireBit (frameToWireBytes frame) i ^^ wireBit errors i) := Nat.testBit_xor _ _ _
    rw [testBit_wireBytesToFrame, testBit_wireBytesToFrame, hflip, wireBit_frameToWireBytes]
  · have hout := Nat.not_lt.mp hp
    rw [testBit_of_lt (wireBytesToFrame_lt _) hout, testBit_of_lt (wireBytesToFrame_lt _) hout,
      testBit_of_lt hframe hout]
    rfl

/-! ### The wire of AMBE+2 -/

def ANNEX_H : List ((ℕ × ℕ) × ℕ × ℕ) :=
  [((0, 23), (0, 5)), ((1, 10), (2, 3)), ((0, 22), (0, 4)), ((1, 9), (2, 2)), ((0, 21), (0, 3)),
    ((1, 8), (2, 1)), ((0, 20), (0, 2)), ((1, 7), (2, 0)), ((0, 19), (0, 1)), ((1, 6), (3, 13)),
    ((0, 18), (0, 0)), ((1, 5), (3, 12)), ((0, 17), (1, 22)), ((1, 4), (3, 11)),
    ((0, 16), (1, 21)), ((1, 3), (3, 10)), ((0, 15), (1, 20)), ((1, 2), (3, 9)),
    ((0, 14), (1, 19)), ((1, 1), (3, 8)), ((0, 13), (1, 18)), ((1, 0), (3, 7)),
    ((0, 12), (1, 17)), ((2, 10), (3, 6)), ((0, 11), (1, 16)), ((2, 9), (3, 5)),
    ((0, 10), (1, 15)), ((2, 8), (3, 4)), ((0, 9), (1, 14)), ((2, 7), (3, 3)), ((0, 8), (1, 13)),
    ((2, 6), (3, 2)), ((0, 7), (1, 12)), ((2, 5), (3, 1)), ((0, 6), (1, 11)), ((2, 4), (3, 0))]

/-- The bit of the frame that a bit of a code word is. -/
def codewordFrameBit (bit : ℕ × ℕ) : ℕ := [48, 25, 14, 0].getD bit.1 0 + bit.2

/-- For each bit of a symbol the bit of the frame and the bit of the wire, the highest first. -/
def symbolPlaces : List (ℕ × ℕ) :=
  ANNEX_H.zipIdx.flatMap fun e =>
    [(codewordFrameBit e.1.1, 71 - 2 * e.2), (codewordFrameBit e.1.2, 71 - 2 * e.2 - 1)]

def frameToInterleaved (frame : ℕ) : ℕ :=
  gather (symbolPlaces.map fun e => (frame.testBit e.1, e.2))

def interleavedToFrame (wire : ℕ) : ℕ :=
  gather (symbolPlaces.map fun e => (wire.testBit e.2, e.1))

theorem symbolPlaces_fst {a b : ℕ × ℕ} (ha : a ∈ symbolPlaces) (hb : b ∈ symbolPlaces)
    (h : a.1 = b.1) : a = b := by
  have hnodup : (symbolPlaces.map Prod.fst).Nodup := by decide
  exact List.inj_on_of_nodup_map hnodup ha hb h

theorem symbolPlaces_snd {a b : ℕ × ℕ} (ha : a ∈ symbolPlaces) (hb : b ∈ symbolPlaces)
    (h : a.2 = b.2) : a = b := by
  have hnodup : (symbolPlaces.map Prod.snd).Nodup := by decide
  exact List.inj_on_of_nodup_map hnodup ha hb h

theorem exists_symbolPlace {p : ℕ} (h : p < 72) : ∃ e ∈ symbolPlaces, e.1 = p := by
  have hall : ∀ p : Fin 72, ∃ e ∈ symbolPlaces, e.1 = p := by decide +kernel
  exact hall ⟨p, h⟩

theorem interleavedToFrame_lt (wire : ℕ) : interleavedToFrame wire < 2 ^ 72 := by
  have hsmall : ∀ e ∈ symbolPlaces, e.1 < 72 := by decide
  apply Nat.lt_pow_two_of_testBit
  intro p hp
  unfold interleavedToFrame
  rw [testBit_gather, List.any_eq_false]
  intro e he hset
  obtain ⟨place, hplace, rfl⟩ := List.mem_map.mp he
  have hlt := hsmall place hplace
  have heq := of_decide_eq_true (Bool.and_eq_true_iff.mp hset).2
  dsimp only at heq
  omega

theorem testBit_interleavedToFrame (wire : ℕ) {e : ℕ × ℕ} (he : e ∈ symbolPlaces) :
    (interleavedToFrame wire).testBit e.1 = wire.testBit e.2 :=
  testBit_gather_map (fun e : ℕ × ℕ => wire.testBit e.2)
    (fun _ ha _ hb => symbolPlaces_fst ha hb) he

theorem testBit_frameToInterleaved (frame : ℕ) {e : ℕ × ℕ} (he : e ∈ symbolPlaces) :
    (frameToInterleaved frame).testBit e.2 = frame.testBit e.1 :=
  testBit_gather_map (fun e : ℕ × ℕ => frame.testBit e.1)
    (fun _ ha _ hb => symbolPlaces_snd ha hb) he

/-- What is flipped on the wire is flipped in the frame. -/
theorem interleavedToFrame_xor {frame : ℕ} (hframe : frame < 2 ^ 72) (errors : ℕ) :
    interleavedToFrame (frameToInterleaved frame ^^^ errors) =
      frame ^^^ interleavedToFrame errors := by
  apply Nat.eq_of_testBit_eq
  intro p
  rw [Nat.testBit_xor]
  by_cases hp : p < 72
  · obtain ⟨e, he, rfl⟩ := exists_symbolPlace hp
    rw [testBit_interleavedToFrame _ he, testBit_interleavedToFrame _ he, Nat.testBit_xor,
      testBit_frameToInterleaved _ he]
  · have hout := Nat.not_lt.mp hp
    rw [testBit_of_lt (interleavedToFrame_lt _) hout, testBit_of_lt (interleavedToFrame_lt _) hout,
      testBit_of_lt hframe hout]
    rfl

/-! ### The data bits -/

/-- So many of the 49 data bits, counted from the first. -/
def bits (d msbIndex width : ℕ) : ℕ := field d (49 - msbIndex - width) width

/-- Sets fields one after the other, each with its first bit, its width and its value. -/
def setAll (fields : List (ℕ × ℕ × ℕ)) : ℕ :=
  fields.foldl (fun d f => put d (49 - f.1 - f.2.1) f.2.1 f.2.2) 0

structure RawParameters where
  b0 : ℕ
  b1 : ℕ
  b2 : ℕ
  b3 : ℕ
  b4 : ℕ
  b5 : ℕ
  b6 : ℕ
  b7 : ℕ
  b8 : ℕ
  deriving DecidableEq

theorem setAll_lt {fields : List (ℕ × ℕ × ℕ)} (h : ∀ f ∈ fields, f.1 + f.2.1 ≤ 49) :
    setAll fields < 2 ^ 49 := by
  have hfold : ∀ (l : List (ℕ × ℕ × ℕ)) (d : ℕ), (∀ f ∈ l, f.1 + f.2.1 ≤ 49) → d < 2 ^ 49 →
      l.foldl (fun d f => put d (49 - f.1 - f.2.1) f.2.1 f.2.2) d < 2 ^ 49 := by
    intro l
    induction l with
    | nil => exact fun _ _ hd => hd
    | cons f l ih =>
      intro d hl hd
      have hf := hl f List.mem_cons_self
      exact ih _ (fun g hg => hl g (List.mem_cons_of_mem f hg))
        (put_lt (by omega) hd)
  exact hfold fields 0 h (Nat.two_pow_pos 49)

/-- A field of what a shift leaves. -/
theorem field_of_shiftRight (value k low width : ℕ) :
    field (value >>> k) low width = field value (k + low) width := by
  unfold field
  rw [Nat.shiftRight_add]

/-- A value from its upper and its lower part. -/
theorem join_field (k width : ℕ) {value : ℕ} (h : value < 2 ^ (width + k)) :
    field value k width <<< k ||| field value 0 k = value := by
  have hjoin := shiftLeft_or_field value 0 k width
  rw [Nat.zero_add] at hjoin
  rw [hjoin, field_of_lt h]

namespace DStar

/-- The widths of the parameters; the last one has no lowest bit. -/
structure Fits (raw : RawParameters) : Prop where
  b0 : raw.b0 < 2 ^ 7
  b1 : raw.b1 < 2 ^ 4
  b2 : raw.b2 < 2 ^ 6
  b3 : raw.b3 < 2 ^ 9
  b4 : raw.b4 < 2 ^ 7
  b5 : raw.b5 < 2 ^ 4
  b6 : raw.b6 < 2 ^ 4
  b7 : raw.b7 < 2 ^ 4
  b8 : raw.b8 < 2 ^ 4
  even : field raw.b8 0 1 = 0

def packRawParameters (raw : RawParameters) : ℕ :=
  setAll [(0, 6, raw.b0 >>> 1), (48, 1, field raw.b0 0 1), (38, 4, raw.b1), (6, 4, raw.b2 >>> 2),
    (42, 2, field raw.b2 0 2), (10, 2, raw.b3 >>> 7), (12, 5, field raw.b3 2 5),
    (44, 2, field raw.b3 0 2), (17, 5, raw.b4 >>> 2), (46, 2, field raw.b4 0 2),
    (22, 2, raw.b5 >>> 2), (25, 2, field raw.b5 0 2), (27, 4, raw.b6), (31, 4, raw.b7),
    (35, 3, raw.b8 >>> 1)]

def extractRawParameters (d : ℕ) : RawParameters where
  b0 := bits d 0 6 <<< 1 ||| bits d 48 1
  b1 := bits d 38 4
  b2 := bits d 6 4 <<< 2 ||| bits d 42 2
  b3 := bits d 10 2 <<< 7 ||| bits d 12 5 <<< 2 ||| bits d 44 2
  b4 := bits d 17 5 <<< 2 ||| bits d 46 2
  b5 := bits d 22 2 <<< 2 ||| bits d 25 2
  b6 := bits d 27 4
  b7 := bits d 31 4
  b8 := bits d 35 3 <<< 1

theorem packRawParameters_lt (raw : RawParameters) : packRawParameters raw < 2 ^ 49 := by
  apply setAll_lt
  simp only [List.forall_mem_cons, List.not_mem_nil, false_imp_iff, implies_true, and_true]
  decide

/-- The parameters that fit are read back from the data bits. -/
theorem extract_pack {raw : RawParameters} (h : Fits raw) :
    extractRawParameters (packRawParameters raw) = raw := by
  have h3 : field raw.b3 7 2 <<< 7 ||| field raw.b3 2 5 <<< 2 ||| field raw.b3 0 2 = raw.b3 := by
    have hupper := shiftLeft_or_field raw.b3 2 5 2
    have hnest : field raw.b3 7 2 <<< 7 ||| field raw.b3 2 5 <<< 2 =
        field raw.b3 2 7 <<< 2 := by
      rw [← hupper, Nat.shiftLeft_or_distrib, ← Nat.shiftLeft_add]
    rw [hnest]
    exact join_field 2 7 h.b3
  have h8 : field raw.b8 1 3 <<< 1 = raw.b8 := by
    have hjoin := join_field 1 3 h.b8
    rwa [h.even, Nat.or_zero] at hjoin
  unfold extractRawParameters packRawParameters setAll bits
  simp only [List.foldl_cons, List.foldl_nil]
  simp (disch := decide) only [field_put, field_put_of_disjoint, Nat.reduceSub, Nat.reduceAdd,
    field_of_shiftRight, field_field, h3, h8, field_of_lt h.b1, field_of_lt h.b6, field_of_lt h.b7,
    join_field 1 6 h.b0, join_field 2 4 h.b2, join_field 2 5 h.b4,
    join_field 2 2 h.b5]

/-! The tone index is looked up by its upper three bits. -/

def T7TAB : List ℕ := [1, 0, 0, 0, 0, 1, 1, 1]

def T6TAB : List ℕ := [0, 0, 0, 1, 1, 1, 1, 0]

def T5TAB : List ℕ := [0, 0, 1, 0, 1, 1, 0, 1]

/-- The row of the tables that has the upper three bits of the index. -/
def selectorOf (index : ℕ) : Option ℕ :=
  (List.range 8).find? fun s => T7TAB.getD s 0 = field index 7 1 ∧
    T6TAB.getD s 0 = field index 6 1 ∧ T5TAB.getD s 0 = field index 5 1

def packToneParameters (index volume : ℕ) : Option ℕ :=
  (selectorOf index).map fun sel =>
    setAll [(0, 6, 126 >>> 1), (6, 3, sel), (9, 1, field index 4 1), (42, 1, field index 3 1),
      (43, 1, field index 2 1), (10, 1, field index 1 1), (11, 1, field index 0 1),
      (12, 5, field volume 3 5), (44, 1, field volume 2 1), (45, 1, field volume 1 1),
      (17, 1, field volume 0 1)]

structure TonePayload where
  index : ℕ
  volume : ℕ
  deriving DecidableEq

def decodeTone (d : ℕ) : TonePayload :=
  let sel := bits d 6 1 <<< 2 ||| bits d 7 1 <<< 1 ||| bits d 8 1
  { index := T7TAB.getD sel 0 <<< 7 ||| T6TAB.getD sel 0 <<< 6 ||| T5TAB.getD sel 0 <<< 5 |||
      bits d 9 1 <<< 4 ||| bits d 42 1 <<< 3 ||| bits d 43 1 <<< 2 ||| bits d 10 1 <<< 1 |||
      bits d 11 1
    volume := bits d 12 1 <<< 7 ||| bits d 13 1 <<< 6 ||| bits d 14 1 <<< 5 |||
      bits d 15 1 <<< 4 ||| bits d 16 1 <<< 3 ||| bits d 44 1 <<< 2 ||| bits d 45 1 <<< 1 |||
      bits d 17 1 }

/-- A tone frame is told by its `b0`. -/
def isTone (b0 : ℕ) : Bool := b0 &&& 0x7E = 0x7E

/-- Every index has its row. -/
theorem selectorOf_spec {index : ℕ} (h : index < 2 ^ 8) :
    ∃ sel, selectorOf index = some sel ∧
      field sel 2 1 <<< 2 ||| field sel 1 1 <<< 1 ||| field sel 0 1 = sel ∧
      T7TAB.getD sel 0 <<< 7 ||| T6TAB.getD sel 0 <<< 6 ||| T5TAB.getD sel 0 <<< 5 |||
        field index 4 1 <<< 4 ||| field index 3 1 <<< 3 ||| field index 2 1 <<< 2 |||
        field index 1 1 <<< 1 ||| field index 0 1 = index := by
  have hall : ∀ index : Fin (2 ^ 8), ∃ sel : Fin 8, selectorOf index = some sel ∧
      field sel 2 1 <<< 2 ||| field sel 1 1 <<< 1 ||| field sel 0 1 = sel ∧
      T7TAB.getD sel 0 <<< 7 ||| T6TAB.getD sel 0 <<< 6 ||| T5TAB.getD sel 0 <<< 5 |||
        field index 4 1 <<< 4 ||| field index 3 1 <<< 3 ||| field index 2 1 <<< 2 |||
        field index 1 1 <<< 1 ||| field index 0 1 = index := by
    decide +kernel
  obtain ⟨sel, hsel⟩ := hall ⟨index, h⟩
  exact ⟨sel, hsel⟩

theorem volume_eq {volume : ℕ} (h : volume < 2 ^ 8) :
    field volume 7 1 <<< 7 ||| field volume 6 1 <<< 6 ||| field volume 5 1 <<< 5 |||
      field volume 4 1 <<< 4 ||| field volume 3 1 <<< 3 ||| field volume 2 1 <<< 2 |||
      field volume 1 1 <<< 1 ||| field volume 0 1 = volume := by
  have hall : ∀ volume : Fin (2 ^ 8),
      field volume 7 1 <<< 7 ||| field volume 6 1 <<< 6 ||| field volume 5 1 <<< 5 |||
        field volume 4 1 <<< 4 ||| field volume 3 1 <<< 3 ||| field volume 2 1 <<< 2 |||
        field volume 1 1 <<< 1 ||| field volume 0 1 = volume := by
    decide +kernel
  exact hall ⟨volume, h⟩

/-- A tone is packed, and read back with its index and its volume. -/
theorem decodeTone_pack {index volume : ℕ} (hindex : index < 2 ^ 8) (hvolume : volume < 2 ^ 8) :
    ∃ d, packToneParameters index volume = some d ∧ d < 2 ^ 49 ∧
      decodeTone d = ⟨index, volume⟩ ∧ isTone (extractRawParameters d).b0 = true := by
  obtain ⟨sel, hsel, hrow, hwhole⟩ := selectorOf_spec hindex
  refine ⟨_, by rw [packToneParameters, hsel, Option.map_some], ?_, ?_, ?_⟩
  · apply setAll_lt
    simp only [List.forall_mem_cons, List.not_mem_nil, false_imp_iff, implies_true, and_true]
    decide
  · unfold decodeTone setAll bits
    simp only [List.foldl_cons, List.foldl_nil]
    simp (disch := decide) only [field_put, field_put_of_disjoint, Nat.reduceSub, Nat.reduceAdd,
      field_field, hrow, hwhole, volume_eq hvolume]
  · unfold extractRawParameters setAll bits
    simp only [List.foldl_cons, List.foldl_nil]
    simp (disch := decide) only [field_put, field_put_of_disjoint, Nat.reduceSub]
    decide

end DStar

namespace AmbePlus2

/-- The widths of the parameters. -/
structure Fits (raw : RawParameters) : Prop where
  b0 : raw.b0 < 2 ^ 7
  b1 : raw.b1 < 2 ^ 5
  b2 : raw.b2 < 2 ^ 5
  b3 : raw.b3 < 2 ^ 9
  b4 : raw.b4 < 2 ^ 7
  b5 : raw.b5 < 2 ^ 5
  b6 : raw.b6 < 2 ^ 4
  b7 : raw.b7 < 2 ^ 4
  b8 : raw.b8 < 2 ^ 3

def packRawParameters (raw : RawParameters) : ℕ :=
  setAll [(0, 4, raw.b0 >>> 3), (37, 3, field raw.b0 0 3), (4, 4, raw.b1 >>> 1),
    (35, 1, field raw.b1 0 1), (8, 4, raw.b2 >>> 1), (36, 1, field raw.b2 0 1),
    (12, 8, raw.b3 >>> 1), (40, 1, field raw.b3 0 1), (20, 4, raw.b4 >>> 3),
    (41, 3, field raw.b4 0 3), (24, 4, raw.b5 >>> 1), (44, 1, field raw.b5 0 1),
    (28, 3, raw.b6 >>> 1), (45, 1, field raw.b6 0 1), (31, 3, raw.b7 >>> 1),
    (46, 1, field raw.b7 0 1), (34, 1, raw.b8 >>> 2), (47, 2, field raw.b8 0 2)]

def extractRawParameters (d : ℕ) : RawParameters where
  b0 := bits d 0 4 <<< 3 ||| bits d 37 3
  b1 := bits d 4 4 <<< 1 ||| bits d 35 1
  b2 := bits d 8 4 <<< 1 ||| bits d 36 1
  b3 := bits d 12 8 <<< 1 ||| bits d 40 1
  b4 := bits d 20 4 <<< 3 ||| bits d 41 3
  b5 := bits d 24 4 <<< 1 ||| bits d 44 1
  b6 := bits d 28 3 <<< 1 ||| bits d 45 1
  b7 := bits d 31 3 <<< 1 ||| bits d 46 1
  b8 := bits d 34 1 <<< 2 ||| bits d 47 2

theorem packRawParameters_lt (raw : RawParameters) : packRawParameters raw < 2 ^ 49 := by
  apply setAll_lt
  simp only [List.forall_mem_cons, List.not_mem_nil, false_imp_iff, implies_true, and_true]
  decide

/-- The parameters that fit are read back from the data bits. -/
theorem extract_pack {raw : RawParameters} (h : Fits raw) :
    extractRawParameters (packRawParameters raw) = raw := by
  unfold extractRawParameters packRawParameters setAll bits
  simp only [List.foldl_cons, List.foldl_nil]
  simp (disch := decide) only [field_put, field_put_of_disjoint, Nat.reduceSub, Nat.reduceAdd,
    field_of_shiftRight, field_field, join_field 3 4 h.b0, join_field 1 4 h.b1, join_field 1 4 h.b2,
    join_field 1 8 h.b3, join_field 3 4 h.b4, join_field 1 4 h.b5, join_field 1 3 h.b6,
    join_field 1 3 h.b7, join_field 2 1 h.b8]

def packToneParameters (toneIdx : ℕ) (callProgress : Bool) (amplitude : ℕ) : ℕ :=
  let low := field toneIdx 0 4
  let high := toneIdx >>> 4
  setAll [(0, 4, 0b1111), (37, 3, if callProgress then 0b010 else 0b000),
    (4, 12, field amplitude 0 12), (16, 4, low), (24, 4, low), (32, 4, low), (40, 4, low),
    (20, 4, high), (28, 4, high)]

/-- One bit of the lower half, by the majority of its four copies; there is none in a tie. -/
def voteBit (copies : List ℕ) (low bitIdx : ℕ) : Option ℕ :=
  let mask := 1 <<< (3 - bitIdx)
  let ones := copies.countP fun n => n &&& mask ≠ 0
  if ones = 2 then none else some (if 2 < ones then low ||| mask else low)

/-- The tone from the copies of its two halves. -/
def toneOf (lowCopies : List ℕ) (high high' : ℕ) : Option ℕ := do
  let low ← (List.range 4).foldlM (voteBit lowCopies) 0
  if high ≠ high' then none else some (high <<< 4 ||| low)

def decodeToneIdx (d : ℕ) : Option ℕ :=
  toneOf [bits d 16 4, bits d 24 4, bits d 32 4, bits d 40 4] (bits d 20 4) (bits d 28 4)

theorem packToneParameters_lt (toneIdx : ℕ) (callProgress : Bool) (amplitude : ℕ) :
    packToneParameters toneIdx callProgress amplitude < 2 ^ 49 := by
  apply setAll_lt
  simp only [List.forall_mem_cons, List.not_mem_nil, false_imp_iff, implies_true, and_true]
  decide

/-- A tone is read back from its copies. -/
theorem decodeToneIdx_pack {toneIdx : ℕ} (h : toneIdx < 2 ^ 8) (callProgress : Bool)
    (amplitude : ℕ) :
    decodeToneIdx (packToneParameters toneIdx callProgress amplitude) = some toneIdx := by
  have hvote : ∀ low : Fin (2 ^ 4), (List.range 4).foldlM
      (voteBit [low.val, low.val, low.val, low.val]) 0 = some low.val := by
    decide
  have hlow := hvote ⟨field toneIdx 0 4, field_lt toneIdx 0 4⟩
  unfold decodeToneIdx packToneParameters setAll bits
  simp only [List.foldl_cons, List.foldl_nil]
  simp (disch := decide) only [field_put, field_put_of_disjoint, Nat.reduceSub, Nat.reduceAdd,
    field_of_shiftRight, field_field]
  unfold toneOf
  rw [hlow]
  change (if field toneIdx 4 4 ≠ field toneIdx 4 4 then none else
    some (field toneIdx 4 4 <<< 4 ||| field toneIdx 0 4)) = some toneIdx
  rw [if_neg (not_not_intro rfl), join_field 4 4 h]

/-- A tone frame is told by its `b0`. -/
theorem packToneParameters_b0 (toneIdx : ℕ) (callProgress : Bool) (amplitude : ℕ) :
    (extractRawParameters (packToneParameters toneIdx callProgress amplitude)).b0 =
      if callProgress then 122 else 120 := by
  unfold extractRawParameters packToneParameters setAll bits
  simp only [List.foldl_cons, List.foldl_nil]
  simp (disch := decide) only [field_put, field_put_of_disjoint, Nat.reduceSub]
  cases callProgress <;> decide

end AmbePlus2

/-! ### Over the wire -/

/-- The data bits that a frame of D-STAR is parsed to, sent with these errors. -/
def dstarReceived (d : ℕ) (errors : Fin 9 → ℕ) : ParsedFrame :=
  parseFrame (wireBytesToFrame (flip (frameToWireBytes (buildFrame d)) errors))

/-- The same over the wire of AMBE+2. -/
def ambePlus2Received (d errors : ℕ) : ParsedFrame :=
  parseFrame (interleavedToFrame (frameToInterleaved (buildFrame d) ^^^ errors))

/-- The data bits, and the errors in each code word. -/
def counted (d errors : ℕ) : ParsedFrame :=
  ⟨d, countOnes (field errors 49 23), countOnes (field errors 25 23)⟩

theorem dstarReceived_eq {d : ℕ} (hd : d < 2 ^ 49) {errors : Fin 9 → ℕ}
    (he : Correctable (wireBytesToFrame errors)) :
    dstarReceived d errors = counted d (wireBytesToFrame errors) := by
  unfold dstarReceived
  rw [wireBytesToFrame_flip (buildFrame_lt d)]
  exact parseFrame_xor hd he

theorem ambePlus2Received_eq {d errors : ℕ} (hd : d < 2 ^ 49)
    (he : Correctable (interleavedToFrame errors)) :
    ambePlus2Received d errors = counted d (interleavedToFrame errors) := by
  unfold ambePlus2Received
  rw [interleavedToFrame_xor (buildFrame_lt d)]
  exact parseFrame_xor hd he

/-- Parameters and tones of both systems come back from the wire, with up to three errors in each
code word, which are counted. -/
theorem voice_frames_survive {errors : Fin 9 → ℕ} {errors' : ℕ}
    (he : Correctable (wireBytesToFrame errors)) (he' : Correctable (interleavedToFrame errors')) :
    (∀ raw, DStar.Fits raw →
      dstarReceived (DStar.packRawParameters raw) errors =
          counted (DStar.packRawParameters raw) (wireBytesToFrame errors) ∧
        DStar.extractRawParameters
          (dstarReceived (DStar.packRawParameters raw) errors).d = raw) ∧
    (∀ index < 2 ^ 8, ∀ volume < 2 ^ 8, ∃ d, DStar.packToneParameters index volume = some d ∧
      dstarReceived d errors = counted d (wireBytesToFrame errors) ∧
      DStar.decodeTone (dstarReceived d errors).d = ⟨index, volume⟩ ∧
      DStar.isTone (DStar.extractRawParameters (dstarReceived d errors).d).b0 = true) ∧
    (∀ raw, AmbePlus2.Fits raw →
      ambePlus2Received (AmbePlus2.packRawParameters raw) errors' =
          counted (AmbePlus2.packRawParameters raw) (interleavedToFrame errors') ∧
        AmbePlus2.extractRawParameters
          (ambePlus2Received (AmbePlus2.packRawParameters raw) errors').d = raw) ∧
    (∀ toneIdx < 2 ^ 8, ∀ callProgress amplitude,
      let d := AmbePlus2.packToneParameters toneIdx callProgress amplitude
      ambePlus2Received d errors' = counted d (interleavedToFrame errors') ∧
        AmbePlus2.decodeToneIdx (ambePlus2Received d errors').d = some toneIdx ∧
        (AmbePlus2.extractRawParameters (ambePlus2Received d errors').d).b0 =
          if callProgress then 122 else 120) := by
  refine ⟨?_, ?_, ?_, ?_⟩
  · intro raw hraw
    rw [dstarReceived_eq (DStar.packRawParameters_lt raw) he]
    exact ⟨rfl, DStar.extract_pack hraw⟩
  · intro index hindex volume hvolume
    obtain ⟨d, hpack, hd, htone, hkind⟩ := DStar.decodeTone_pack hindex hvolume
    refine ⟨d, hpack, ?_⟩
    rw [dstarReceived_eq hd he]
    exact ⟨rfl, htone, hkind⟩
  · intro raw hraw
    rw [ambePlus2Received_eq (AmbePlus2.packRawParameters_lt raw) he']
    exact ⟨rfl, AmbePlus2.extract_pack hraw⟩
  · intro toneIdx htone callProgress amplitude
    dsimp only
    rw [ambePlus2Received_eq (AmbePlus2.packToneParameters_lt _ _ _) he']
    exact ⟨rfl, AmbePlus2.decodeToneIdx_pack htone callProgress amplitude,
      AmbePlus2.packToneParameters_b0 toneIdx callProgress amplitude⟩

/-- Three errors in each code word. -/
def sixErrors : ℕ := 0b10101 <<< 49 ||| 0b1101 <<< 25

/-- Parameters come back with six errors. -/
theorem voice_frames_survive_six :
    DStar.extractRawParameters (dstarReceived
      (DStar.packRawParameters ⟨77, 9, 42, 300, 99, 7, 3, 12, 10⟩)
        (frameToWireBytes sixErrors)).d = ⟨77, 9, 42, 300, 99, 7, 3, 12, 10⟩ ∧
    AmbePlus2.decodeToneIdx (ambePlus2Received (AmbePlus2.packToneParameters 0xA1 true 900)
      (frameToInterleaved sixErrors)).d = some 0xA1 := by
  have hcorrectable : Correctable (wireBytesToFrame (frameToWireBytes sixErrors)) ∧
      Correctable (interleavedToFrame (frameToInterleaved sixErrors)) := by
    decide +kernel
  obtain ⟨hraw, -, -, htone⟩ := voice_frames_survive hcorrectable.1 hcorrectable.2
  exact ⟨(hraw _ (by constructor <;> decide)).2, (htone 0xA1 (by decide) true 900).2.1⟩

end HamsOpen.Ambe.VoiceFrame
