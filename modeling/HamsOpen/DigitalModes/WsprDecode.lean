import HamsOpen.DigitalModes.WsprMessage
import HamsOpen.Lib.PriorityQueue
import Mathlib.Algebra.Order.Group.Defs
import Mathlib.Algebra.Order.Group.Int
import Mathlib.Data.List.Nodup

/-!
# The WSPR decoder

The stack decoder of `wspr_decode.rs`. It keeps the paths it has begun, takes a greatest one, and
goes on from it with either bit. The metric of a bit is left open, as an exact number. Both
polynomials have their lowest bit, so a wrong bit sends two wrong channel bits.
-/

namespace HamsOpen.Wspr

/-- Half the symbols: each input bit gives two. -/
abbrev DECODABLE_INPUT_BITS : ℕ := 81

/-- A path: its metric, how many bits it has, the encoder's register after them, and the bits. -/
structure StackNode (M : Type*) where
  metric : M
  depth : ℕ
  state : ℕ
  bits : ℕ
  depth_le : depth ≤ DECODABLE_INPUT_BITS

/-- What the decoder gives. The last one is the panic for an empty heap. -/
inductive Outcome (M : Type*)
  | ok (bits : ℕ) (metric : M)
  | gaveUp (cycles : ℕ)
  | unreachable

theorem reverseBits_lt (i : ℕ) : reverseBits i < 256 := by
  have hlt := Bits.ofBits_lt (Bits.toBits 8 i).reverse
  rwa [List.length_reverse, Bits.length_toBits] at hlt

/-- Reversed twice, a byte is as it was. -/
theorem reverseBits_reverseBits {i : ℕ} (h : i < 256) : reverseBits (reverseBits i) = i := by
  have hlength : (Bits.toBits 8 i).reverse.length = 8 := by
    rw [List.length_reverse, Bits.length_toBits]
  have hbits : Bits.toBits 8 (reverseBits i) = (Bits.toBits 8 i).reverse := by
    have hback := Bits.toBits_ofBits (Bits.toBits 8 i).reverse
    rwa [hlength] at hback
  calc reverseBits (reverseBits i)
      = Bits.ofBits (Bits.toBits 8 (reverseBits i)).reverse := rfl
    _ = Bits.ofBits (Bits.toBits 8 i) := by rw [hbits, List.reverse_reverse]
    _ = i := Bits.ofBits_toBits h

theorem map_reverseBits_nodup : ((List.range 256).map reverseBits).Nodup := by
  apply List.nodup_range.map_on
  intro i hi j hj heq
  rw [← reverseBits_reverseBits (List.mem_range.mp hi), heq,
    reverseBits_reverseBits (List.mem_range.mp hj)]

theorem interleavePermutation_nodup : interleavePermutation.Nodup :=
  map_reverseBits_nodup.filter _

/-- Every place is the reverse of one. -/
theorem interleavePermutation_perm : interleavePermutation.Perm (List.range NUM_SYMBOLS) := by
  apply (List.perm_ext_iff_of_nodup interleavePermutation_nodup List.nodup_range).mpr
  intro i
  rw [interleavePermutation, List.mem_filter, decide_eq_true_eq, List.mem_range]
  constructor
  · exact And.right
  · intro hi
    have hbyte : i < 256 := hi.trans (by decide)
    refine ⟨List.mem_map.mpr ⟨reverseBits i, ?_, reverseBits_reverseBits hbyte⟩, hi⟩
    exact List.mem_range.mpr (reverseBits_lt i)

theorem length_interleavePermutation : interleavePermutation.length = NUM_SYMBOLS := by
  rw [interleavePermutation_perm.length_eq, List.length_range]

theorem lt_of_mem_interleavePermutation {t : ℕ} (h : t ∈ interleavePermutation) :
    t < NUM_SYMBOLS := by
  have hkept := (List.mem_filter.mp h).2
  exact of_decide_eq_true hkept

/-- Where the `p`-th channel bit is sent. -/
def target (p : Fin NUM_SYMBOLS) : Fin NUM_SYMBOLS :=
  ⟨interleavePermutation.get (p.cast length_interleavePermutation.symm),
    lt_of_mem_interleavePermutation (List.get_mem _ _)⟩

/-- `deinterleave_symbol_values` -/
def deinterleave {M : Type*} (symbolValues : Fin NUM_SYMBOLS → M) : Fin NUM_SYMBOLS → M :=
  fun p => symbolValues (target p)

variable {M : Type*} [AddCommGroup M] [LinearOrder M]

section Decoder

variable (queue : PriorityQueue (StackNode.metric (M := M)))
  (fanoBitMetric : M → Bool → M → M → M)
  (channelBitValues amplitude noiseStddev : Fin NUM_SYMBOLS → M)

/-- The metric of a channel bit. -/
def score (p : Fin NUM_SYMBOLS) (bit : Bool) : M :=
  fanoBitMetric (channelBitValues p) bit (amplitude p) (noiseStddev p)

theorem first_lt {depth : ℕ} (h : depth < DECODABLE_INPUT_BITS) : 2 * depth < NUM_SYMBOLS := by
  unfold DECODABLE_INPUT_BITS at h
  unfold NUM_SYMBOLS
  omega

theorem second_lt {depth : ℕ} (h : depth < DECODABLE_INPUT_BITS) :
    2 * depth + 1 < NUM_SYMBOLS := by
  unfold DECODABLE_INPUT_BITS at h
  unfold NUM_SYMBOLS
  omega

/-- The path with one more bit. -/
def StackNode.child (node : StackNode M) (h : node.depth < DECODABLE_INPUT_BITS) (hypBit : Bool) :
    StackNode M where
  metric := node.metric +
    (score fanoBitMetric channelBitValues amplitude noiseStddev ⟨2 * node.depth, first_lt h⟩
        (parity (shiftIn node.state hypBit &&& POLY1)) +
      score fanoBitMetric channelBitValues amplitude noiseStddev ⟨2 * node.depth + 1, second_lt h⟩
        (parity (shiftIn node.state hypBit &&& POLY2)))
  depth := node.depth + 1
  state := shiftIn node.state hypBit
  bits := if hypBit then node.bits ||| 1 <<< node.depth else node.bits
  depth_le := h

/-- A path that has been taken comes before what is taken after it. -/
def visit (node : StackNode M) (after : List (StackNode M) × Outcome M) :
    List (StackNode M) × Outcome M := (node :: after.1, after.2)

/-- The loop, with the visits that are left: the paths that are taken, and what is given. -/
def search : ℕ → ℕ → List (StackNode M) → List (StackNode M) × Outcome M
  | 0, cycles, heap =>
    match queue.pop heap with
    | none => ([], .unreachable)
    | some _ => ([], .gaveUp (cycles + 1))
  | left + 1, cycles, heap =>
    match queue.pop heap with
    | none => ([], .unreachable)
    | some (node, rest) =>
      if h : node.depth < DECODABLE_INPUT_BITS then
        visit node (search left (cycles + 1)
          (node.child fanoBitMetric channelBitValues amplitude noiseStddev h true ::
            node.child fanoBitMetric channelBitValues amplitude noiseStddev h false :: rest))
      else ([node], .ok node.bits node.metric)

/-- The path without bits. -/
def root : StackNode M := ⟨0, 0, 0, 0, Nat.zero_le _⟩

def sequentialDecode (maxCycles : ℕ) : Outcome M :=
  (search queue fanoBitMetric channelBitValues amplitude noiseStddev maxCycles 0 [root]).2

/-- The paths that the decoder takes, in order. -/
def visited (maxCycles : ℕ) : List (StackNode M) :=
  (search queue fanoBitMetric channelBitValues amplitude noiseStddev maxCycles 0 [root]).1

end Decoder

/-! ### The two channel bits of an input bit -/

theorem foldl_xor (f : ℕ → Bool) (odd : Bool) (xs : List ℕ) :
    xs.foldl (fun odd i => odd ^^ f i) odd = (odd ^^ xs.foldl (fun odd i => odd ^^ f i) false) := by
  induction xs generalizing odd with
  | nil => rw [List.foldl_nil, List.foldl_nil, Bool.xor_false]
  | cons i xs ih => rw [List.foldl_cons, ih, List.foldl_cons, ih (false ^^ f i), Bool.false_xor,
      Bool.xor_assoc]

/-- The lowest bit, and the others. -/
theorem parity_eq (x : ℕ) : parity x =
    (x.testBit 0 ^^ (List.range 31).foldl (fun odd i => odd ^^ x.testBit (i + 1)) false) := by
  unfold parity
  rw [List.range_succ_eq_map, List.foldl_cons, foldl_xor, Bool.false_xor, List.foldl_map]

theorem testBit_zero_shiftIn (state : ℕ) (bit : Bool) : (shiftIn state bit).testBit 0 = bit := by
  unfold shiftIn
  rw [Nat.testBit_mod_two_pow, Nat.testBit_zero, Nat.mul_add_mod]
  cases bit <;> rfl

theorem testBit_succ_shiftIn (state : ℕ) (bit bit' : Bool) (i : ℕ) :
    (shiftIn state bit).testBit (i + 1) = (shiftIn state bit').testBit (i + 1) := by
  have hhalf : ∀ bit : Bool, (2 * state + bit.toNat) / 2 = state := by
    intro bit
    have hle := bit.toNat_le
    omega
  unfold shiftIn
  rw [Nat.testBit_mod_two_pow, Nat.testBit_mod_two_pow, Nat.testBit_succ, Nat.testBit_succ, hhalf,
    hhalf]

/-- With a polynomial that has its lowest bit, the other input bit gives the other channel bit. -/
theorem parity_shiftIn_not {poly : ℕ} (h : poly.testBit 0 = true) (state : ℕ) (bit : Bool) :
    parity (shiftIn state (!bit) &&& poly) = !parity (shiftIn state bit &&& poly) := by
  rw [parity_eq, parity_eq]
  simp only [Nat.testBit_and, testBit_zero_shiftIn, h, Bool.and_true,
    testBit_succ_shiftIn state (!bit) bit, Bool.not_xor]

theorem encodeFrom_cons (state : ℕ) (bit : Bool) (rest : List Bool) :
    encodeFrom state (bit :: rest) = parity (shiftIn state bit &&& POLY1) ::
      parity (shiftIn state bit &&& POLY2) :: encodeFrom (shiftIn state bit) rest := rfl

theorem encodeFrom_append (state : ℕ) (front back : List Bool) :
    encodeFrom state (front ++ back) =
      encodeFrom state front ++ encodeFrom (front.foldl shiftIn state) back := by
  induction front generalizing state with
  | nil => rfl
  | cons bit front ih =>
    rw [List.cons_append, List.foldl_cons, encodeFrom_cons, ih, encodeFrom_cons, List.cons_append,
      List.cons_append]

theorem length_encodeFrom (state : ℕ) (bits : List Bool) :
    (encodeFrom state bits).length = 2 * bits.length := by
  induction bits generalizing state with
  | nil => rfl
  | cons bit bits ih =>
    rw [encodeFrom_cons, List.length_cons, List.length_cons, ih, List.length_cons]
    omega

/-- The two channel bits that an input bit gives. -/
theorem encodeFrom_getElem? {bits : List Bool} {k : ℕ} {bit : Bool} (h : bits[k]? = some bit)
    (state : ℕ) :
    (encodeFrom state bits)[2 * k]? =
        some (parity (shiftIn ((bits.take k).foldl shiftIn state) bit &&& POLY1)) ∧
      (encodeFrom state bits)[2 * k + 1]? =
        some (parity (shiftIn ((bits.take k).foldl shiftIn state) bit &&& POLY2)) := by
  induction bits generalizing k state with
  | nil => cases h
  | cons first rest ih =>
    rw [encodeFrom_cons]
    cases k with
    | zero =>
      obtain rfl := Option.some.inj h
      exact ⟨rfl, rfl⟩
    | succ k => exact ih h (shiftIn state first)

/-! ### Interleaving -/

section Interleave

variable {α : Type*}

theorem foldl_set_of_notMem {pairs : List (ℕ × α)} {out : List α} {t : ℕ}
    (h : t ∉ pairs.map Prod.fst) :
    (pairs.foldl (fun out x => out.set x.1 x.2) out)[t]? = out[t]? := by
  induction pairs generalizing out with
  | nil => rfl
  | cons x pairs ih =>
    rw [List.map_cons, List.mem_cons, not_or] at h
    rw [List.foldl_cons, ih h.2, List.getElem?_set_ne (Ne.symm h.1)]

/-- What is put in one place is found there, when nothing else is put there. -/
theorem foldl_set_of_mem {pairs : List (ℕ × α)} {out : List α} {x : ℕ × α}
    (hnodup : (pairs.map Prod.fst).Nodup) (hx : x ∈ pairs) (hlt : x.1 < out.length) :
    (pairs.foldl (fun out x => out.set x.1 x.2) out)[x.1]? = some x.2 := by
  induction pairs generalizing out with
  | nil => cases hx
  | cons y pairs ih =>
    rw [List.map_cons, List.nodup_cons] at hnodup
    rw [List.foldl_cons]
    rcases List.mem_cons.mp hx with rfl | hin
    · rw [foldl_set_of_notMem hnodup.1, List.getElem?_set_self hlt]
    · exact ih hnodup.2 hin (hlt.trans_eq List.length_set.symm)

end Interleave

/-- Each channel bit is found where the permutation puts it. -/
theorem interleave_target {channelBits : List Bool} (h : NUM_SYMBOLS ≤ channelBits.length)
    (p : Fin NUM_SYMBOLS) : (interleave channelBits)[(target p).1]? = channelBits[p.1]? := by
  have hp : p.1 < channelBits.length := p.2.trans_le h
  have hperm : p.1 < interleavePermutation.length := p.2.trans_eq length_interleavePermutation.symm
  rw [List.getElem?_eq_getElem hp]
  refine foldl_set_of_mem (x := ((target p).1, channelBits[p.1])) ?_ ?_ ?_
  · rw [List.map_fst_zip (length_interleavePermutation.trans_le h)]
    exact interleavePermutation_nodup
  · have hzip : p.1 < (interleavePermutation.zip channelBits).length := by
      rw [List.length_zip]
      exact lt_min hperm hp
    have hmem := List.getElem_mem hzip
    rwa [List.getElem_zip] at hmem
  · rw [List.length_replicate]
    exact (target p).2

/-! ### The true path -/

/-- The depth, the register and the bits of a path that follows some bits. -/
def placeAt (bits : List Bool) (k : ℕ) : ℕ × ℕ × ℕ :=
  (k, (bits.take k).foldl shiftIn 0, decoded (bits.take k))

def StackNode.place (node : StackNode M) : ℕ × ℕ × ℕ := (node.depth, node.state, node.bits)

theorem decoded_concat (bits : List Bool) (bit : Bool) :
    decoded (bits ++ [bit]) =
      if bit then decoded bits ||| 1 <<< bits.length else decoded bits := by
  apply Nat.eq_of_testBit_eq
  intro i
  have hbit : ∀ bits : List Bool, (decoded bits).testBit i = bits[i]?.getD false := fun bits =>
    Bits.testBit_ofBits_reverse bits i
  have hone : (1 <<< bits.length).testBit i = decide (bits.length = i) := by
    rw [Nat.one_shiftLeft, Nat.testBit_two_pow]
  cases bit with
  | false =>
    rw [if_neg Bool.false_ne_true, hbit, hbit]
    rcases Nat.lt_or_ge i bits.length with hlt | hge
    · rw [List.getElem?_append_left hlt]
    · rw [List.getElem?_append_right hge, List.getElem?_eq_none hge]
      cases i - bits.length <;> rfl
  | true =>
    rw [if_pos rfl, Nat.testBit_or, hone, hbit, hbit]
    rcases Nat.lt_trichotomy i bits.length with hlt | rfl | hgt
    · rw [List.getElem?_append_left hlt, decide_eq_false (Nat.ne_of_gt hlt), Bool.or_false]
    · rw [List.getElem?_concat_length, decide_eq_true rfl, Bool.or_true]
      rfl
    · rw [List.getElem?_eq_none hgt.le, decide_eq_false (Nat.ne_of_lt hgt), List.getElem?_eq_none]
      · rfl
      · rw [List.length_append, List.length_singleton]
        exact hgt

section Path

variable (queue : PriorityQueue (StackNode.metric (M := M)))
  {fanoBitMetric : M → Bool → M → M → M}
  {channelBitValues amplitude noiseStddev : Fin NUM_SYMBOLS → M}
  {node : StackNode M} {bits : List Bool} {bit : Bool}

/-- A channel bit that scores, and that scores more than its opposite. -/
def Favors (fanoBitMetric : M → Bool → M → M → M)
    (channelBitValues amplitude noiseStddev : Fin NUM_SYMBOLS → M) (p : Fin NUM_SYMBOLS)
    (bit : Bool) : Prop :=
  0 < score fanoBitMetric channelBitValues amplitude noiseStddev p bit ∧
    score fanoBitMetric channelBitValues amplitude noiseStddev p (!bit) <
      score fanoBitMetric channelBitValues amplitude noiseStddev p bit

/-- All channel bits of some input bits are favoured. -/
def FavorsAll (fanoBitMetric : M → Bool → M → M → M)
    (channelBitValues amplitude noiseStddev : Fin NUM_SYMBOLS → M) (bits : List Bool) : Prop :=
  ∀ (p : Fin NUM_SYMBOLS) (bit : Bool), (encodeFrom 0 bits)[p.1]? = some bit →
    Favors fanoBitMetric channelBitValues amplitude noiseStddev p bit

omit [LinearOrder M] in
theorem StackNode.child_place (h : node.depth < DECODABLE_INPUT_BITS)
    (hon : node.place = placeAt bits node.depth) (hbit : bits[node.depth]? = some bit) :
    (node.child fanoBitMetric channelBitValues amplitude noiseStddev h bit).place =
      placeAt bits (node.depth + 1) := by
  obtain ⟨-, hrest⟩ := Prod.mk.inj hon
  obtain ⟨hstate, hbits⟩ := Prod.mk.inj hrest
  obtain ⟨hlt, -⟩ := List.getElem?_eq_some_iff.mp hbit
  have hlength : (bits.take node.depth).length = node.depth := by
    rw [List.length_take]
    omega
  unfold placeAt
  rw [List.take_add_one, hbit, Option.toList_some, List.foldl_append, decoded_concat, hlength,
    ← hstate, ← hbits]
  rfl

variable [IsOrderedAddMonoid M]

/-- The true bit makes a path better, and better than the other bit does. -/
theorem StackNode.child_metric (h : node.depth < DECODABLE_INPUT_BITS)
    (hon : node.place = placeAt bits node.depth) (hbit : bits[node.depth]? = some bit)
    (hall : FavorsAll fanoBitMetric channelBitValues amplitude noiseStddev bits) :
    node.metric < (node.child fanoBitMetric channelBitValues amplitude noiseStddev h bit).metric ∧
      (node.child fanoBitMetric channelBitValues amplitude noiseStddev h (!bit)).metric <
        (node.child fanoBitMetric channelBitValues amplitude noiseStddev h bit).metric := by
  obtain ⟨-, hrest⟩ := Prod.mk.inj hon
  obtain ⟨hstate, -⟩ := Prod.mk.inj hrest
  obtain ⟨hfirst, hsecond⟩ := encodeFrom_getElem? hbit 0
  rw [← hstate] at hfirst hsecond
  obtain ⟨hpos1, hlt1⟩ := hall ⟨2 * node.depth, first_lt h⟩ _ hfirst
  obtain ⟨hpos2, hlt2⟩ := hall ⟨2 * node.depth + 1, second_lt h⟩ _ hsecond
  constructor
  · exact lt_add_of_pos_right _ (add_pos hpos1 hpos2)
  · -- both polynomials have their lowest bit
    have hpoly1 : POLY1.testBit 0 = true := by decide
    have hpoly2 : POLY2.testBit 0 = true := by decide
    rw [← parity_shiftIn_not hpoly1] at hlt1
    rw [← parity_shiftIn_not hpoly2] at hlt2
    exact add_lt_add_right (add_lt_add hlt1 hlt2) _

/-- From a depth on, a run of the loop takes the path of some bits, and nothing else, until it is at
the end or has no visits left. -/
def Follows (bits : List Bool) (depth left cycles : ℕ) (r : List (StackNode M) × Outcome M) :
    Prop :=
  r.1.map StackNode.place =
      ((List.range' depth (DECODABLE_INPUT_BITS - depth + 1)).map (placeAt bits)).take left ∧
    if DECODABLE_INPUT_BITS - depth < left then ∃ metric, r.2 = .ok (decoded bits) metric
    else r.2 = .gaveUp (cycles + left + 1)

omit [AddCommGroup M] [LinearOrder M] [IsOrderedAddMonoid M] in
theorem Follows.visit {depth left cycles : ℕ} {r : List (StackNode M) × Outcome M}
    (hr : Follows bits (depth + 1) left (cycles + 1) r) (h : depth < DECODABLE_INPUT_BITS)
    (hon : node.place = placeAt bits depth) :
    Follows bits depth (left + 1) cycles (Wspr.visit node r) := by
  obtain ⟨hplaces, houtcome⟩ := hr
  have hsteps : DECODABLE_INPUT_BITS - depth = DECODABLE_INPUT_BITS - (depth + 1) + 1 := by
    omega
  unfold Follows
  rw [hsteps]
  constructor
  · rw [List.range'_succ, List.map_cons, List.take_succ_cons, ← hplaces, ← hon]
    exact rfl
  · simp only [Nat.add_lt_add_iff_right]
    rwa [← Nat.add_assoc, Nat.add_right_comm cycles left 1]

omit [AddCommGroup M] [LinearOrder M] [IsOrderedAddMonoid M] in
theorem Follows.finish {left cycles : ℕ} (hlength : bits.length = DECODABLE_INPUT_BITS)
    (hon : node.place = placeAt bits DECODABLE_INPUT_BITS) :
    Follows bits DECODABLE_INPUT_BITS (left + 1) cycles ([node], .ok node.bits node.metric) := by
  have hbits : node.bits = decoded bits := by
    have hall := (Prod.mk.inj (Prod.mk.inj hon).2).2
    rwa [← hlength, List.take_length] at hall
  constructor
  · rw [List.map_singleton, hon, Nat.sub_self, List.range'_one, List.map_singleton,
      List.take_succ_cons, List.take_nil]
  · rw [Nat.sub_self, if_pos (Nat.succ_pos left), hbits]
    exact ⟨_, rfl⟩

/-- A decoder whose best path is the true one stays on it. -/
theorem search_onPath (hlength : bits.length = DECODABLE_INPUT_BITS)
    (hall : FavorsAll fanoBitMetric channelBitValues amplitude noiseStddev bits) (left cycles : ℕ)
    {heap others : List (StackNode M)} (hon : node.place = placeAt bits node.depth)
    (hheap : heap.Perm (node :: others)) (hlow : ∀ x ∈ others, x.metric < node.metric) :
    Follows bits node.depth left cycles
      (search queue fanoBitMetric channelBitValues amplitude noiseStddev left cycles heap) := by
  induction left generalizing cycles heap others node with
  | zero =>
    obtain ⟨rest, hpop, -⟩ := queue.pop_best hheap hlow
    unfold search
    rw [hpop]
    exact ⟨rfl, rfl⟩
  | succ left ih =>
    obtain ⟨rest, hpop, hrest⟩ := queue.pop_best hheap hlow
    unfold search
    rw [hpop]
    dsimp only
    split
    next h =>
      obtain ⟨bit, hbit⟩ : ∃ bit, bits[node.depth]? = some bit :=
        ⟨_, List.getElem?_eq_getElem (h.trans_eq hlength.symm)⟩
      obtain ⟨hup, hsibling⟩ := StackNode.child_metric h hon hbit hall
      have hperm : (node.child fanoBitMetric channelBitValues amplitude noiseStddev h true ::
          node.child fanoBitMetric channelBitValues amplitude noiseStddev h false :: rest).Perm
          (node.child fanoBitMetric channelBitValues amplitude noiseStddev h bit ::
            node.child fanoBitMetric channelBitValues amplitude noiseStddev h (!bit) :: rest) := by
        cases bit with
        | false => exact .swap _ _ _
        | true => exact .refl _
      refine (ih (cycles + 1) (StackNode.child_place h hon hbit) hperm ?_).visit h hon
      -- the wrong bit and what was left behind are worse than the right bit
      intro x hx
      rcases List.mem_cons.mp hx with rfl | hin
      · exact hsibling
      · exact (hlow x (hrest.mem_iff.mp hin)).trans hup
    next h =>
      have hend : node.depth = DECODABLE_INPUT_BITS := le_antisymm node.depth_le (not_lt.mp h)
      rw [hend] at hon ⊢
      exact Follows.finish hlength hon

end Path

/-! ### The number of visits -/

section Visits

variable (queue : PriorityQueue (StackNode.metric (M := M)))
  (fanoBitMetric : M → Bool → M → M → M)
  (channelBitValues amplitude noiseStddev : Fin NUM_SYMBOLS → M)

/-- The loop stops in time, and never finds its heap empty. -/
theorem search_visits (left cycles : ℕ) {heap : List (StackNode M)} (hheap : heap ≠ []) :
    let r := search queue fanoBitMetric channelBitValues amplitude noiseStddev left cycles heap
    r.1.length ≤ left ∧ r.2 ≠ .unreachable := by
  induction left generalizing cycles heap with
  | zero =>
    obtain ⟨x, xs, rfl⟩ := List.exists_cons_of_ne_nil hheap
    obtain ⟨y, hpop⟩ := Option.isSome_iff_exists.mp (queue.pop_isSome x xs)
    unfold search
    rw [hpop]
    exact ⟨Nat.le_refl 0, nofun⟩
  | succ left ih =>
    obtain ⟨x, xs, rfl⟩ := List.exists_cons_of_ne_nil hheap
    obtain ⟨y, hpop⟩ := Option.isSome_iff_exists.mp (queue.pop_isSome x xs)
    unfold search
    rw [hpop]
    dsimp only
    split
    · obtain ⟨hlength, hreachable⟩ := ih (cycles + 1) (List.cons_ne_nil _ _)
      exact ⟨Nat.succ_le_succ hlength, hreachable⟩
    · exact ⟨Nat.succ_le_succ (Nat.zero_le left), nofun⟩

theorem visited_length_le (maxCycles : ℕ) :
    (visited queue fanoBitMetric channelBitValues amplitude noiseStddev maxCycles).length ≤
      maxCycles :=
  (search_visits queue fanoBitMetric channelBitValues amplitude noiseStddev maxCycles 0
    (List.cons_ne_nil root [])).1

end Visits

/-! ### A message without noise -/

/-- What a symbol's data bit is received as. -/
def level (bit : Bool) (amplitude : M) : M := if bit then amplitude else -amplitude

/-- The values of the symbols of some bytes. -/
def noiseFree (data : List ℕ) (amplitude : Fin NUM_SYMBOLS → M) : Fin NUM_SYMBOLS → M :=
  fun i => level ((interleave (convolutionalEncode data))[i.1]?.getD false) (amplitude i)

/-- The bits that the symbols tell: the data and its tail. -/
def dataAndTail (data : List ℕ) : List Bool := (bitsOfBytes data).take DECODABLE_INPUT_BITS

section NoiseFree

variable (queue : PriorityQueue (StackNode.metric (M := M)))
  {fanoBitMetric : M → Bool → M → M → M} {amplitude noiseStddev : Fin NUM_SYMBOLS → M}
  {data : List ℕ}

/-- A bit that matches what is received scores, and scores more than one that does not. -/
def Matching (fanoBitMetric : M → Bool → M → M → M) (amplitude noiseStddev : Fin NUM_SYMBOLS → M) :
    Prop :=
  ∀ (p : Fin NUM_SYMBOLS) (bit : Bool),
    0 < fanoBitMetric (level bit (amplitude p)) bit (amplitude p) (noiseStddev p) ∧
      fanoBitMetric (level bit (amplitude p)) (!bit) (amplitude p) (noiseStddev p) <
        fanoBitMetric (level bit (amplitude p)) bit (amplitude p) (noiseStddev p)

theorem length_bitsOfBytes (data : List ℕ) : (bitsOfBytes data).length = 8 * data.length := by
  induction data with
  | nil => rfl
  | cons byte data ih =>
    have hcons : bitsOfBytes (byte :: data) = Bits.toBits 8 byte ++ bitsOfBytes data := rfl
    rw [hcons, List.length_append, ih, Bits.length_toBits, List.length_cons]
    omega

theorem length_dataAndTail (h : data.length = 11) :
    (dataAndTail data).length = DECODABLE_INPUT_BITS := by
  unfold dataAndTail
  rw [List.length_take, length_bitsOfBytes, h]
  exact min_eq_left (by decide)

omit [LinearOrder M] in
/-- A symbol is received as its channel bit was sent. -/
theorem deinterleave_noiseFree (h : data.length = 11) (amplitude : Fin NUM_SYMBOLS → M)
    (p : Fin NUM_SYMBOLS) {bit : Bool} (hbit : (encodeFrom 0 (dataAndTail data))[p.1]? = some bit) :
    deinterleave (noiseFree data amplitude) p = level bit (deinterleave amplitude p) := by
  have hlength : NUM_SYMBOLS ≤ (convolutionalEncode data).length := by
    unfold convolutionalEncode NUM_SYMBOLS
    rw [length_encodeFrom, length_bitsOfBytes, h]
    decide
  have hchannel : (convolutionalEncode data)[p.1]? = some bit := by
    have hsplit := encodeFrom_append 0 (dataAndTail data) ((bitsOfBytes data).drop 81)
    rw [dataAndTail, List.take_append_drop] at hsplit
    unfold convolutionalEncode
    rw [hsplit]
    exact List.getElem?_append_left (List.getElem?_eq_some_iff.mp hbit).1 |>.trans hbit
  unfold deinterleave noiseFree
  rw [interleave_target hlength, hchannel]
  exact rfl

theorem favorsAll_noiseFree (h : data.length = 11)
    (hmetric : Matching fanoBitMetric (deinterleave amplitude) noiseStddev) :
    FavorsAll fanoBitMetric (deinterleave (noiseFree data amplitude)) (deinterleave amplitude)
      noiseStddev (dataAndTail data) := by
  intro p bit hbit
  unfold Favors score
  rw [deinterleave_noiseFree h amplitude p hbit]
  exact hmetric p bit

variable [IsOrderedAddMonoid M]

theorem follows_noiseFree (h : data.length = 11)
    (hmetric : Matching fanoBitMetric (deinterleave amplitude) noiseStddev) (maxCycles : ℕ) :
    Follows (dataAndTail data) 0 maxCycles 0
      (search queue fanoBitMetric (deinterleave (noiseFree data amplitude)) (deinterleave amplitude)
        noiseStddev maxCycles 0 [root]) := by
  have hroot : (root : StackNode M).place = placeAt (dataAndTail data) (root : StackNode M).depth :=
    rfl
  exact search_onPath queue (length_dataAndTail h) (favorsAll_noiseFree h hmetric) maxCycles 0 hroot
    (.refl _) nofun

/-- With fewer paths than there are along it, a message without noise is given up. -/
theorem sequentialDecode_gaveUp (h : data.length = 11)
    (hmetric : Matching fanoBitMetric (deinterleave amplitude) noiseStddev) {maxCycles : ℕ}
    (hfew : maxCycles ≤ DECODABLE_INPUT_BITS) :
    sequentialDecode queue fanoBitMetric (deinterleave (noiseFree data amplitude))
      (deinterleave amplitude) noiseStddev maxCycles = .gaveUp (maxCycles + 1) := by
  have houtcome := (follows_noiseFree queue h hmetric maxCycles).2
  rwa [Nat.sub_zero, if_neg (Nat.not_lt.mpr hfew), Nat.zero_add] at houtcome

/-- A message without noise is decoded, if the decoder may take all 82 paths along it, and the
decoder takes no other path. Whatever is received, it takes no more paths than it may. -/
theorem sequentialDecode_noiseFree (h : data.length = 11)
    (hmetric : Matching fanoBitMetric (deinterleave amplitude) noiseStddev) (maxCycles : ℕ) :
    (if DECODABLE_INPUT_BITS < maxCycles then
      ∃ metric, sequentialDecode queue fanoBitMetric (deinterleave (noiseFree data amplitude))
        (deinterleave amplitude) noiseStddev maxCycles = .ok (decoded (dataAndTail data)) metric
    else sequentialDecode queue fanoBitMetric (deinterleave (noiseFree data amplitude))
        (deinterleave amplitude) noiseStddev maxCycles = .gaveUp (maxCycles + 1)) ∧
      (visited queue fanoBitMetric (deinterleave (noiseFree data amplitude))
        (deinterleave amplitude) noiseStddev maxCycles).map StackNode.place =
        ((List.range (DECODABLE_INPUT_BITS + 1)).map (placeAt (dataAndTail data))).take maxCycles ∧
      ∀ (anyMetric : M → Bool → M → M → M) (values scale noise : Fin NUM_SYMBOLS → M) (limit : ℕ),
        (visited queue anyMetric values scale noise limit).length ≤ limit := by
  obtain ⟨hplaces, houtcome⟩ := follows_noiseFree queue h hmetric maxCycles
  refine ⟨?_, ?_, visited_length_le queue⟩
  · rwa [Nat.sub_zero, Nat.zero_add] at houtcome
  · rw [List.range_eq_range']
    exact hplaces

end NoiseFree

/-- A metric that counts matching signs. -/
def signMetric (r : ℤ) (hypBit : Bool) (_ _ : ℤ) : ℤ := if decide (0 < r) = hypBit then 1 else -5

theorem matching_signMetric : Matching signMetric (deinterleave fun _ => 1) fun _ => 1 := by
  have hbit : ∀ bit, 0 < signMetric (level bit 1) bit 1 1 ∧
      signMetric (level bit 1) (!bit) 1 1 < signMetric (level bit 1) bit 1 1 := by
    decide
  intro p bit
  exact hbit bit

theorem sequentialDecode_noiseFree_zeros :
    (if DECODABLE_INPUT_BITS < 82 then
      ∃ metric, sequentialDecode (.first _) signMetric
        (deinterleave (noiseFree (List.replicate 11 0) fun _ => 1)) (deinterleave fun _ => 1)
        (fun _ => 1) 82 = .ok (decoded (dataAndTail (List.replicate 11 0))) metric
    else sequentialDecode (.first _) signMetric
        (deinterleave (noiseFree (List.replicate 11 0) fun _ => 1)) (deinterleave fun _ => 1)
        (fun _ => 1) 82 = .gaveUp 83) ∧
      (visited (.first _) signMetric
        (deinterleave (noiseFree (List.replicate 11 0) fun _ => 1)) (deinterleave fun _ => 1)
        (fun _ => 1) 82).map StackNode.place =
        ((List.range 82).map (placeAt (dataAndTail (List.replicate 11 0)))).take 82 ∧
      ∀ (anyMetric : ℤ → Bool → ℤ → ℤ → ℤ) (values scale noise : Fin NUM_SYMBOLS → ℤ) (limit : ℕ),
        (visited (.first _) anyMetric values scale noise limit).length ≤ limit :=
  sequentialDecode_noiseFree (.first _) List.length_replicate matching_signMetric 82

/-- With one visit too few, a message without noise is not decoded. -/
theorem gives_up_early : ¬ ∃ metric, sequentialDecode (.first _) signMetric
    (deinterleave (noiseFree (List.replicate 11 0) fun _ => 1)) (deinterleave fun _ => 1)
    (fun _ => 1) 81 = .ok (decoded (dataAndTail (List.replicate 11 0))) metric := by
  rintro ⟨metric, hdecoded⟩
  revert hdecoded
  rw [sequentialDecode_gaveUp _ List.length_replicate matching_signMetric le_rfl]
  exact nofun

end HamsOpen.Wspr
