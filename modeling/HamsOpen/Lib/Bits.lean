import Mathlib.Algebra.Order.Ring.Nat
import Mathlib.Tactic.Ring

/-! # Numbers as bits, the most significant first

A number written with a fixed number of bits is a list of bits, and fields written one after the
other are one list. Reading a field of known width back is a matter of its place. -/

namespace HamsOpen.Bits

/-- The value of a list of bits: each bit is shifted in at the low end. -/
def ofBits (bits : List Bool) : ℕ := bits.foldl (fun value bit => 2 * value + bit.toNat) 0

/-- The low `n` bits of a number. -/
def toBits (n value : ℕ) : List Bool := (List.range n).reverse.map value.testBit

@[simp]
theorem ofBits_nil : ofBits [] = 0 := rfl

@[simp]
theorem length_toBits (n value : ℕ) : (toBits n value).length = n := by
  simp [toBits]

@[simp]
theorem toBits_zero (value : ℕ) : toBits 0 value = [] := rfl

theorem toBits_succ (n value : ℕ) : toBits (n + 1) value = value.testBit n :: toBits n value := by
  simp [toBits, List.range_succ]

theorem foldl_shift (value : ℕ) (bits : List Bool) :
    bits.foldl (fun value bit => 2 * value + bit.toNat) value =
      value * 2 ^ bits.length + ofBits bits := by
  induction bits generalizing value with
  | nil => simp
  | cons bit bits ih =>
    have hrest : ofBits (bit :: bits) = bit.toNat * 2 ^ bits.length + ofBits bits := by
      unfold ofBits
      rw [List.foldl_cons, ih]
      rw [Nat.mul_zero, Nat.zero_add]
      rfl
    rw [List.foldl_cons, ih, hrest, List.length_cons, pow_succ]
    ring

theorem ofBits_cons (bit : Bool) (bits : List Bool) :
    ofBits (bit :: bits) = bit.toNat * 2 ^ bits.length + ofBits bits := by
  have hfold : ofBits (bit :: bits) =
      bits.foldl (fun value bit => 2 * value + bit.toNat) (2 * 0 + bit.toNat) := rfl
  rw [hfold, foldl_shift, Nat.mul_zero, Nat.zero_add]

/-- Fields side by side: the first one counts in units of the second one's range. -/
theorem ofBits_append (bits rest : List Bool) :
    ofBits (bits ++ rest) = ofBits bits * 2 ^ rest.length + ofBits rest := by
  unfold ofBits
  rw [List.foldl_append]
  exact foldl_shift _ _

theorem ofBits_lt (bits : List Bool) : ofBits bits < 2 ^ bits.length := by
  induction bits with
  | nil => exact Nat.one_pos
  | cons bit bits ih =>
    have hbit : bit.toNat * 2 ^ bits.length ≤ 2 ^ bits.length := by
      cases bit
      · rw [Bool.toNat_false, Nat.zero_mul]
        exact Nat.zero_le _
      · rw [Bool.toNat_true, Nat.one_mul]
    rw [ofBits_cons, List.length_cons, pow_succ]
    omega

theorem ofBits_toBits_mod (n value : ℕ) : ofBits (toBits n value) = value % 2 ^ n := by
  induction n with
  | zero => rw [toBits_zero, ofBits_nil, pow_zero, Nat.mod_one]
  | succ n ih =>
    rw [toBits_succ, ofBits_cons, length_toBits, ih, Nat.testBit_eq_decide_div_mod_eq]
    have hsplit : value % 2 ^ (n + 1) = value / 2 ^ n % 2 * 2 ^ n + value % 2 ^ n := by
      rw [pow_succ, Nat.mod_mul, Nat.mul_comm (2 ^ n), Nat.add_comm]
    rw [hsplit]
    congr 2
    rcases Nat.mod_two_eq_zero_or_one (value / 2 ^ n) with heven | hodd
    · rw [heven]
      rfl
    · rw [hodd]
      rfl

/-- A number that fits its width is read back. -/
theorem ofBits_toBits {n value : ℕ} (h : value < 2 ^ n) : ofBits (toBits n value) = value := by
  rw [ofBits_toBits_mod, Nat.mod_eq_of_lt h]

theorem testBit_ofBits_cons {bit : Bool} {bits : List Bool} {i : ℕ} (h : i < bits.length) :
    (ofBits (bit :: bits)).testBit i = (ofBits bits).testBit i := by
  rw [ofBits_cons, Nat.mul_comm]
  exact Nat.testBit_two_pow_mul_add _ (ofBits_lt bits) i |>.trans (if_pos h)

/-- A list of bits is the bits of its value. -/
theorem toBits_ofBits (bits : List Bool) : toBits bits.length (ofBits bits) = bits := by
  induction bits with
  | nil => rfl
  | cons bit bits ih =>
    rw [List.length_cons, toBits_succ]
    have hhead : (ofBits (bit :: bits)).testBit bits.length = bit := by
      rw [ofBits_cons, Nat.mul_comm,
        Nat.testBit_two_pow_mul_add _ (ofBits_lt bits), if_neg (Nat.lt_irrefl _), Nat.sub_self]
      cases bit <;> rfl
    have htail : toBits bits.length (ofBits (bit :: bits)) = toBits bits.length (ofBits bits) := by
      apply List.map_congr_left
      intro i hi
      exact testBit_ofBits_cons (List.mem_range.mp (List.mem_reverse.mp hi))
    rw [hhead, htail, ih]

/-- Only the low bits of a number are written. -/
theorem toBits_congr {n value value' : ℕ} (h : value % 2 ^ n = value' % 2 ^ n) :
    toBits n value = toBits n value' := by
  apply List.map_congr_left
  intro i hi
  have hlt := List.mem_range.mp (List.mem_reverse.mp hi)
  have hbit := congrArg (·.testBit i) h
  simpa only [Nat.testBit_mod_two_pow, hlt, decide_true, Bool.true_and] using hbit

/-- The high bits come first. -/
theorem toBits_add (n k value : ℕ) :
    toBits (n + k) value = toBits n (value / 2 ^ k) ++ toBits k value := by
  induction n with
  | zero => rw [Nat.zero_add, toBits_zero, List.nil_append]
  | succ n ih =>
    rw [Nat.succ_add, toBits_succ, ih, toBits_succ, List.cons_append, Nat.testBit_div_two_pow]

/-- With its first bit as the lowest, a number has the bits of the list in their order. -/
theorem testBit_ofBits_reverse (bits : List Bool) (i : ℕ) :
    (ofBits bits.reverse).testBit i = bits[i]?.getD false := by
  induction bits generalizing i with
  | nil => exact Nat.zero_testBit i
  | cons bit bits ih =>
    have hshift : ofBits (bit :: bits).reverse = 2 * ofBits bits.reverse + bit.toNat := by
      rw [List.reverse_cons, ofBits_append, ofBits_cons, List.length_singleton, pow_one,
        List.length_nil, pow_zero, Nat.mul_one, ofBits_nil, Nat.add_zero, Nat.mul_comm]
    rw [hshift]
    cases i with
    | zero =>
      rw [Nat.testBit_zero, Nat.mul_add_mod]
      cases bit <;> rfl
    | succ i =>
      have hhalf : (2 * ofBits bits.reverse + bit.toNat) / 2 = ofBits bits.reverse := by
        have hle := bit.toNat_le
        omega
      rw [Nat.testBit_succ, hhalf, ih]
      rfl

/-- A field in the middle: drop what stands after it, keep its width. -/
theorem ofBits_field (before field after : List Bool) :
    ofBits (before ++ (field ++ after)) / 2 ^ after.length % 2 ^ field.length = ofBits field := by
  have hafter := ofBits_lt after
  rw [ofBits_append, ofBits_append, List.length_append, pow_add, ← Nat.mul_assoc,
    ← Nat.add_assoc, ← Nat.add_mul, Nat.mul_comm, Nat.mul_add_div (Nat.two_pow_pos _),
    Nat.div_eq_of_lt hafter, Nat.add_zero, Nat.mul_comm, Nat.mul_add_mod,
    Nat.mod_eq_of_lt (ofBits_lt field)]

/-! ## Fields of a stream, by their place -/

section Stream

variable {bits field rest : List Bool} {idx : ℕ}

theorem drop_next {n : ℕ} (h : bits.drop idx = field ++ rest) (hn : field.length = n) :
    bits.drop (idx + n) = rest := by
  rw [← hn, ← List.drop_drop, h, List.drop_left]

theorem getElem?_next {bit : Bool} (h : bits.drop idx = bit :: rest) : bits[idx]? = some bit := by
  have hhead := congrArg (·[0]?) h
  rwa [List.getElem?_drop, Nat.add_zero] at hhead

/-- A piece and what follows it. -/
theorem take_drop_append_drop (bits : List Bool) {start len next : ℕ} (h : next = start + len) :
    (bits.drop start).take len ++ bits.drop next = bits.drop start := by
  rw [h, ← List.drop_drop, List.take_append_drop]

theorem toBits_piece {start len : ℕ} (h : start + len ≤ bits.length) :
    toBits len (ofBits ((bits.drop start).take len)) = (bits.drop start).take len := by
  have hlength : ((bits.drop start).take len).length = len := by
    rw [List.length_take, List.length_drop]
    omega
  have hbits := toBits_ofBits ((bits.drop start).take len)
  rwa [hlength] at hbits

end Stream

/-! ### Distinct numbers

The numbers seen so far are the bits of one number, so a list is looked through once. -/

section Distinct

/-- What was seen with one more number, and whether all of them were new. -/
def see (s : ℕ × Bool) (n : ℕ) : ℕ × Bool := (s.1 ||| 1 <<< n, s.2 && !s.1.testBit n)

def distinct (l : List ℕ) : Bool := (l.foldl see (0, true)).2

theorem nodup_of_distinct {l : List ℕ} (h : distinct l = true) : l.Nodup := by
  have hfold : ∀ (l : List ℕ) (s : ℕ × Bool), (l.foldl see s).2 = true →
      s.2 = true ∧ l.Nodup ∧ ∀ n ∈ l, s.1.testBit n = false := by
    intro l
    induction l with
    | nil => exact fun s h => ⟨h, .nil, nofun⟩
    | cons a l ih =>
      intro s h
      obtain ⟨hnew, hnodup, hfree⟩ := ih _ h
      obtain ⟨hs, ha⟩ := Bool.and_eq_true_iff.mp hnew
      -- a number that comes later was not seen before, and is not this one
      have hlater : ∀ n ∈ l, s.1.testBit n = false ∧ a ≠ n := by
        intro n hn
        have hbit : (s.1 ||| 1 <<< a).testBit n = false := hfree n hn
        rwa [Nat.testBit_or, Nat.one_shiftLeft, Nat.testBit_two_pow, Bool.or_eq_false_iff,
          decide_eq_false_iff_not] at hbit
      rw [Bool.not_eq_true'] at ha
      refine ⟨hs, List.nodup_cons.mpr ⟨fun hmem => (hlater a hmem).2 rfl, hnodup⟩, ?_⟩
      exact List.forall_mem_cons.mpr ⟨ha, fun n hn => (hlater n hn).1⟩
  exact (hfold l _ h).2.1

end Distinct

end HamsOpen.Bits
