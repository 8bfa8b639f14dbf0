import HamsOpen.Lib.Nearest
import Mathlib.Algebra.Ring.Parity
import Mathlib.Data.Nat.Bitwise

/-! # Forward error correction

A code word is the data bits followed by their parity bits: twelve and eleven (Golay), eleven and
four (Hamming). Both decoders try every code word and keep the nearest one. -/

namespace HamsOpen.Ambe

/-- The ones among the low `n` bits. -/
def onesIn : ℕ → ℕ → ℕ
  | 0, _ => 0
  | n + 1, word => word % 2 + onesIn n (word / 2)

/-- `count_ones` of a 32-bit word. -/
def countOnes (word : ℕ) : ℕ := onesIn 32 word

/-- `u32::MAX`, the distance before the first candidate. -/
def MAX_DISTANCE : ℕ := 2 ^ 32 - 1

/-- A systematic code: the parity pattern of each data bit, the most significant one first. -/
structure Code where
  parity : List ℕ
  parityBits : ℕ
  parity_lt : ∀ row ∈ parity, row < 2 ^ parityBits

/-- The rows of the data bits that are set, added up. The first row belongs to the top bit. -/
def parityOf (data : ℕ) : List ℕ → ℕ
  | [] => 0
  | row :: rows => (if data.testBit rows.length then row else 0) ^^^ parityOf data rows

namespace Code

/-- The number of data bits. -/
def dataBits (c : Code) : ℕ := c.parity.length

def encode (c : Code) (data : ℕ) : ℕ :=
  let data := data % 2 ^ c.dataBits
  data <<< c.parityBits ||| parityOf data c.parity

/-- The data of the nearest code word, and its distance. -/
def decode (c : Code) (received : ℕ) : ℕ × ℕ :=
  let received := received % 2 ^ (c.dataBits + c.parityBits)
  Nearest.search (fun data => countOnes (c.encode data ^^^ received)) (0, MAX_DISTANCE)
    (List.range (2 ^ c.dataBits))

end Code

/-- `GOLAY_PARITY`. -/
def golay : Code where
  parity :=
    [0b11000111010, 0b01100011101, 0b11110110100, 0b01111011010, 0b00111101101, 0b11011001100,
     0b01101100110, 0b00110110011, 0b11011100011, 0b10101001011, 0b10010011111, 0b10001110101]
  parityBits := 11
  parity_lt := by decide

/-- `HAMMING_PARITY`. -/
def hamming : Code where
  parity :=
    [0b1111, 0b1110, 0b1101, 0b1100, 0b1011, 0b1010, 0b1001, 0b0111, 0b0110, 0b0101, 0b0011]
  parityBits := 4
  parity_lt := by decide

def golayEncode (data : ℕ) : ℕ := golay.encode data

def hammingEncode (data : ℕ) : ℕ := hamming.encode data

def golayDecode (received : ℕ) : ℕ × ℕ := golay.decode received

def hammingDecode (received : ℕ) : ℕ × ℕ := hamming.decode received

/-! ## Words and their distance -/

/-- The bits of a 32-bit word. -/
def word (x : ℕ) : Fin 32 → Bool := fun i => x.testBit i

theorem onesIn_eq_countP (n x : ℕ) : onesIn n x = (List.range n).countP x.testBit := by
  induction n generalizing x with
  | zero => rfl
  | succ n ih =>
    have hlow : x.testBit 0 = decide (x % 2 = 1) := Nat.testBit_zero x
    have hhigh : x.testBit ∘ Nat.succ = (x / 2).testBit := by
      funext i
      exact Nat.testBit_succ x i
    rw [onesIn, ih, List.range_succ_eq_map, List.countP_cons, List.countP_map, hhigh, hlow,
      Nat.add_comm]
    rcases Nat.mod_two_eq_zero_or_one x with heven | hodd
    · rw [heven]
      rfl
    · rw [hodd]
      rfl

theorem eq_zero_of_onesIn {n x : ℕ} (h : x < 2 ^ n) (hnone : onesIn n x = 0) : x = 0 := by
  induction n generalizing x with
  | zero => exact Nat.lt_one_iff.mp h
  | succ n ih =>
    rw [onesIn] at hnone
    have hhalf : x / 2 = 0 := ih (by rw [pow_succ] at h; omega) (by omega)
    omega

/-- Above its width a number has no ones. -/
theorem countOnes_of_lt {w x : ℕ} (h : x < 2 ^ w) (hw : w ≤ 32) :
    countOnes x = (List.range w).countP x.testBit := by
  unfold countOnes
  rw [onesIn_eq_countP]
  generalize 32 = n at hw ⊢
  induction hw with
  | refl => rfl
  | @step n hn ih =>
    have hclear : x.testBit n = false :=
      Nat.testBit_lt_two_pow (h.trans_le (Nat.pow_le_pow_right Nat.two_pos hn))
    rw [List.range_succ, List.countP_append, ih, List.countP_singleton, hclear]
    rfl

theorem countOnes_eq_card (x : ℕ) :
    countOnes x = (Finset.univ.filter fun i : Fin 32 => x.testBit i = true).card := by
  have hmap : List.range 32 = (List.finRange 32).map Fin.val := List.map_coe_finRange_eq_range.symm
  unfold countOnes
  rw [onesIn_eq_countP, hmap, List.countP_map, List.countP_eq_length_filter]
  simp only [Finset.card, Finset.filter, Finset.univ, Fintype.elems, Multiset.filter_coe,
    Multiset.coe_card, Bool.decide_eq_true]
  rfl

theorem hammingDist_word (x y : ℕ) : hammingDist (word x) (word y) = countOnes (x ^^^ y) := by
  rw [countOnes_eq_card]
  unfold hammingDist
  congr 1
  apply Finset.filter_congr
  intro i _
  rw [Nat.testBit_xor, Bool.xor_iff_ne]
  rfl

theorem countOnes_lt (x : ℕ) : countOnes x < MAX_DISTANCE := by
  have hle : countOnes x ≤ 32 := by
    unfold countOnes
    rw [onesIn_eq_countP]
    exact List.countP_le_length.trans_eq List.length_range
  exact lt_of_le_of_lt hle (by decide)

/-! ## The codes are linear -/

theorem parityOf_xor (data data' : ℕ) (rows : List ℕ) :
    parityOf (data ^^^ data') rows = parityOf data rows ^^^ parityOf data' rows := by
  induction rows with
  | nil => exact (Nat.xor_self 0).symm
  | cons row rows ih =>
    simp only [parityOf]
    rw [ih, Nat.testBit_xor]
    cases data.testBit rows.length <;> cases data'.testBit rows.length <;>
      simp [Nat.xor_assoc, Nat.xor_left_comm]

theorem parityOf_lt {n : ℕ} (data : ℕ) {rows : List ℕ} (h : ∀ row ∈ rows, row < 2 ^ n) :
    parityOf data rows < 2 ^ n := by
  induction rows with
  | nil => exact Nat.two_pow_pos n
  | cons row rows ih =>
    have hrest := ih fun r hr => h r (List.mem_cons_of_mem _ hr)
    simp only [parityOf]
    apply Nat.xor_lt_two_pow _ hrest
    split
    · exact h row List.mem_cons_self
    · exact Nat.two_pow_pos n

/-- Two parts that share no bits: putting them together is adding them up. -/
theorem shiftLeft_or_eq_xor (a : ℕ) {b n : ℕ} (h : b < 2 ^ n) : a <<< n ||| b = a <<< n ^^^ b := by
  apply Nat.eq_of_testBit_eq
  intro i
  rw [Nat.testBit_or, Nat.testBit_xor, Nat.testBit_shiftLeft]
  by_cases hi : n ≤ i
  · have hclear : b.testBit i = false :=
      Nat.testBit_lt_two_pow (h.trans_le (Nat.pow_le_pow_right Nat.two_pos hi))
    rw [hclear, Bool.or_false, Bool.xor_false]
  · rw [decide_eq_false hi, Bool.false_and, Bool.false_or, Bool.false_xor]

namespace Code

variable {c : Code} {data data' : ℕ}

theorem encode_eq (h : data < 2 ^ c.dataBits) :
    c.encode data = data <<< c.parityBits ^^^ parityOf data c.parity := by
  unfold encode
  rw [Nat.mod_eq_of_lt h]
  exact shiftLeft_or_eq_xor data (parityOf_lt data c.parity_lt)

theorem encode_xor (h : data < 2 ^ c.dataBits) (h' : data' < 2 ^ c.dataBits) :
    c.encode (data ^^^ data') = c.encode data ^^^ c.encode data' := by
  rw [encode_eq (Nat.xor_lt_two_pow h h'), encode_eq h, encode_eq h', parityOf_xor,
    Nat.shiftLeft_xor_distrib]
  ac_rfl

theorem encode_lt (data : ℕ) : c.encode data < 2 ^ (c.dataBits + c.parityBits) := by
  have hdata : data % 2 ^ c.dataBits < 2 ^ c.dataBits := Nat.mod_lt _ (Nat.two_pow_pos _)
  have hparity : parityOf (data % 2 ^ c.dataBits) c.parity < 2 ^ (c.dataBits + c.parityBits) :=
    (parityOf_lt _ c.parity_lt).trans_le
      (Nat.pow_le_pow_right Nat.two_pos (Nat.le_add_left _ _))
  apply Nat.or_lt_two_pow _ hparity
  rw [Nat.shiftLeft_eq, pow_add]
  exact Nat.mul_lt_mul_of_pos_right hdata (Nat.two_pow_pos _)

/-- The code corrects up to `t` errors: its words differ from one another at more than `2 t`
places, which for a linear code is a matter of the words alone. -/
def Corrects (c : Code) (t : ℕ) : Prop :=
  ∀ data < 2 ^ c.dataBits, data ≠ 0 → 2 * t < countOnes (c.encode data)

theorem Corrects.separated {t : ℕ} (hc : c.Corrects t) (m m' : Fin (2 ^ c.dataBits))
    (hne : m ≠ m') : 2 * t < hammingDist (word (c.encode m)) (word (c.encode m')) := by
  rw [hammingDist_word, ← encode_xor m.isLt m'.isLt]
  apply hc _ (Nat.xor_lt_two_pow m.isLt m'.isLt)
  intro hzero
  exact hne (Fin.ext (Nat.xor_eq_zero_iff.mp hzero))

/-- Up to `t` errors are corrected and counted. -/
theorem decode_encode {t error : ℕ} (hc : c.Corrects t) (hdata : data < 2 ^ c.dataBits)
    (herror : error < 2 ^ (c.dataBits + c.parityBits)) (ht : countOnes error ≤ t) :
    c.decode (c.encode data ^^^ error) = (data, countOnes error) := by
  have hreceived : (c.encode data ^^^ error) % 2 ^ (c.dataBits + c.parityBits) =
      c.encode data ^^^ error := Nat.mod_eq_of_lt (Nat.xor_lt_two_pow (encode_lt data) herror)
  have hown : countOnes (c.encode data ^^^ (c.encode data ^^^ error)) = countOnes error := by
    rw [Nat.xor_xor_cancel_left]
  have hnear : hammingDist (word (c.encode data)) (word (c.encode data ^^^ error)) ≤ t := by
    rw [hammingDist_word, hown]
    exact ht
  unfold decode
  rw [hreceived]
  rw [Nearest.search_eq (m := data) (List.mem_range.mpr hdata) (countOnes_lt _), hown]
  intro m' hm' hne
  have hfar := Nearest.lt_of_separated hc.separated (m := ⟨data, hdata⟩)
    (n := ⟨m', List.mem_range.mp hm'⟩) (r := word (c.encode data ^^^ error))
    (fun h => hne (Fin.mk.inj h)) hnear
  rwa [hammingDist_word, hammingDist_word] at hfar

end Code

/-! ## What the two codes correct

The words of a code are the sums of its generator rows. Walking through them as a tree, one row at
a level, each takes one addition. A word has more than `k` ones when something is left of it after
its lowest one was cleared `k` times. -/

/-- Whether something is left of a word after its lowest one was cleared `k` times. -/
def outlasts : ℕ → ℕ → Bool
  | 0, word => word != 0
  | k + 1, word => outlasts k (word &&& (word - 1))

/-- Clearing the lowest one takes one. -/
theorem onesIn_clear {n word : ℕ} (h : word < 2 ^ n) (hne : word ≠ 0) :
    onesIn n (word &&& (word - 1)) + 1 = onesIn n word := by
  induction n generalizing word with
  | zero => exact absurd (Nat.lt_one_iff.mp h) hne
  | succ n ih =>
    rw [pow_succ] at h
    rw [onesIn, onesIn, Nat.and_div_two]
    rcases Nat.even_or_odd' word with ⟨m, rfl | rfl⟩
    · -- an even word: its lowest one is that of its half
      have hhalf : 2 * m / 2 = m := Nat.mul_div_cancel_left m Nat.two_pos
      have hless : (2 * m - 1) / 2 = m - 1 := by omega
      have hlow : (2 * m &&& (2 * m - 1)) % 2 = 0 := by
        apply Nat.mod_two_ne_one.mp
        rw [Ne, Nat.and_mod_two_eq_one]
        omega
      have hrest : onesIn n (m &&& (m - 1)) + 1 = onesIn n m := ih (by omega) (by omega)
      rw [hhalf, hless, hlow]
      omega
    · have hhalf : (2 * m + 1) / 2 = m := by omega
      have hless : (2 * m + 1 - 1) / 2 = m := by omega
      have hlow : (2 * m + 1 &&& (2 * m + 1 - 1)) % 2 = 0 := by
        apply Nat.mod_two_ne_one.mp
        rw [Ne, Nat.and_mod_two_eq_one]
        omega
      rw [hhalf, hless, hlow, Nat.and_self]
      omega

theorem outlasts_zero (k : ℕ) : outlasts k 0 = false := by
  induction k with
  | zero => rfl
  | succ k ih => rw [outlasts, Nat.zero_and, ih]

theorem lt_countOnes_of_outlasts {k word : ℕ} (hword : word < 2 ^ 32)
    (h : outlasts k word = true) : k < countOnes word := by
  have hne : word ≠ 0 := by
    rintro rfl
    rw [outlasts_zero] at h
    cases h
  induction k generalizing word with
  | zero => exact Nat.pos_of_ne_zero fun hnone => hne (eq_zero_of_onesIn hword hnone)
  | succ k ih =>
    have hcleared : word &&& (word - 1) < 2 ^ 32 := Nat.and_lt_two_pow _ (by omega)
    have hrest : k < countOnes (word &&& (word - 1)) := by
      apply ih hcleared h
      intro hzero
      rw [outlasts, hzero, outlasts_zero] at h
      cases h
    have hclear := onesIn_clear hword hne
    unfold countOnes at hrest ⊢
    omega

/-- `p` holds of `acc` plus any sum of the rows. -/
def allSums (p : ℕ → Bool) : List ℕ → ℕ → Bool
  | [], acc => p acc
  | row :: rows, acc => allSums p rows acc && allSums p rows (acc ^^^ row)

theorem allSums_parityOf {p : ℕ → Bool} {rows : List ℕ} {acc : ℕ} (h : allSums p rows acc = true)
    (data : ℕ) : p (acc ^^^ parityOf data rows) = true := by
  induction rows generalizing acc with
  | nil => rwa [parityOf, Nat.xor_zero]
  | cons row rows ih =>
    obtain ⟨hwithout, hwith⟩ := (Bool.and_eq_true _ _).mp h
    rw [parityOf]
    split
    · rw [← Nat.xor_assoc]
      exact ih hwith
    · rw [Nat.zero_xor]
      exact ih hwithout

namespace Code

variable {c : Code}

/-- The code words of the single data bits. -/
def generator (n : ℕ) : List ℕ → List ℕ
  | [] => []
  | row :: rows => (2 ^ (n + rows.length) ^^^ row) :: generator n rows

theorem length_generator (n : ℕ) (rows : List ℕ) : (generator n rows).length = rows.length := by
  induction rows with
  | nil => rfl
  | cons row rows ih => rw [generator, List.length_cons, List.length_cons, ih]

theorem shiftLeft_mod_succ (data n k : ℕ) :
    (data % 2 ^ (k + 1)) <<< n =
      (if data.testBit k then 2 ^ (n + k) else 0) ^^^ (data % 2 ^ k) <<< n := by
  apply Nat.eq_of_testBit_eq
  intro i
  rw [Nat.testBit_shiftLeft, Nat.testBit_mod_two_pow, Nat.testBit_xor, Nat.testBit_shiftLeft,
    Nat.testBit_mod_two_pow]
  by_cases hi : i = n + k
  · subst hi
    rw [Nat.add_sub_cancel_left]
    split
    next hset => simp [hset]
    next hclear => simp [hclear]
  · have hother : (if data.testBit k then 2 ^ (n + k) else 0).testBit i = false := by
      split
      · exact Nat.testBit_two_pow_of_ne (Ne.symm hi)
      · exact Nat.zero_testBit i
    rw [hother, Bool.false_xor]
    by_cases hn : n ≤ i
    · have hiff : i - n < k + 1 ↔ i - n < k := by omega
      rw [decide_eq_decide.mpr hiff]
    · rw [decide_eq_false (show ¬ i ≥ n from hn), Bool.false_and, Bool.false_and]

theorem parityOf_generator (data n : ℕ) (rows : List ℕ) :
    parityOf data (generator n rows) = (data % 2 ^ rows.length) <<< n ^^^ parityOf data rows := by
  induction rows with
  | nil => simp [generator, parityOf, Nat.mod_one]
  | cons row rows ih =>
    rw [generator, parityOf, parityOf, length_generator, ih, List.length_cons,
      shiftLeft_mod_succ]
    split
    · ac_rfl
    · rw [Nat.zero_xor, Nat.zero_xor, Nat.zero_xor]

/-- A code corrects what the weights of its words let it. -/
theorem corrects_of_allSums {t : ℕ} (hwidth : c.dataBits + c.parityBits ≤ 32)
    (h : allSums (fun w => w == 0 || outlasts (2 * t) w)
      (generator c.parityBits c.parity) 0 = true) : c.Corrects t := by
  intro data hdata hne
  have hword : parityOf data (generator c.parityBits c.parity) = c.encode data := by
    rw [parityOf_generator, encode_eq hdata]
    exact congrArg (· <<< c.parityBits ^^^ _) (Nat.mod_eq_of_lt hdata)
  have hcheck := allSums_parityOf h data
  rw [Nat.zero_xor, hword, Bool.or_eq_true] at hcheck
  rcases hcheck with hzero | hweight
  · -- the data bits stand in the word
    have hdrop : c.encode data >>> c.parityBits = data := by
      rw [encode_eq hdata, Nat.shiftRight_xor_distrib, Nat.shiftLeft_shiftRight,
        Nat.shiftRight_eq_div_pow, Nat.div_eq_of_lt (parityOf_lt data c.parity_lt), Nat.xor_zero]
    rw [beq_iff_eq.mp hzero, Nat.zero_shiftRight] at hdrop
    exact absurd hdrop.symm hne
  · have hle := Nat.pow_le_pow_right Nat.two_pos hwidth
    exact lt_countOnes_of_outlasts ((encode_lt data).trans_le hle) hweight

end Code

theorem golay_corrects : golay.Corrects 3 :=
  Code.corrects_of_allSums (by decide) (by decide)

theorem hamming_corrects : hamming.Corrects 1 :=
  Code.corrects_of_allSums (by decide) (by decide)

theorem golayDecode_encode {data error : ℕ} (hdata : data < 2 ^ 12) (herror : error < 2 ^ 23)
    (ht : countOnes error ≤ 3) :
    golayDecode (golayEncode data ^^^ error) = (data, countOnes error) :=
  Code.decode_encode golay_corrects hdata herror ht

theorem hammingDecode_encode {data error : ℕ} (hdata : data < 2 ^ 11) (herror : error < 2 ^ 15)
    (ht : countOnes error ≤ 1) :
    hammingDecode (hammingEncode data ^^^ error) = (data, countOnes error) :=
  Code.decode_encode hamming_corrects hdata herror ht

end HamsOpen.Ambe
