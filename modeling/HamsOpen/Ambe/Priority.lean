import HamsOpen.Ambe.Layout
import Mathlib.Algebra.BigOperators.Group.List.Basic

/-! # Bit prioritization

The quantizer values of a frame are spread over eight vectors by how much a wrong bit would hurt:
first the top bits of the pitch and of the gain, then a scan through the other values level by
level, the voicing decisions, the rest of the scan, and last what is left of the first two. -/

namespace HamsOpen.Ambe

/-! ## The raster scan -/

/-- A column of the scan: a value and its width. -/
abbrev Column := ℕ × ℕ

/-- The width of the tallest column. -/
def maxWidth (columns : List Column) : ℕ := (columns.map Prod.snd).foldr max 0

/-- One level of the scan: the bits of the columns tall enough to have one. -/
def scanLevel (columns : List Column) (level : ℕ) : List Bool :=
  columns.filterMap fun (value, width) => if width > level then some (value.testBit level) else none

/-- `raster_scan_bits`. -/
def rasterScanBits (columns : List Column) : List Bool :=
  (List.range (maxWidth columns)).reverse.flatMap (scanLevel columns)

/-- One level of the way back: each column that has a bit at this level takes the next one. -/
def unscanLevel (bits : List Bool) (level : ℕ) : List Column → ℕ → Option (List Column × ℕ)
  | [], idx => some ([], idx)
  | (value, width) :: columns, idx =>
    if width > level then do
      let bit ← bits[idx]?
      let (columns, idx) ← unscanLevel bits level columns (idx + 1)
      some ((if bit then value ||| 1 <<< level else value, width) :: columns, idx)
    else do
      let (columns, idx) ← unscanLevel bits level columns idx
      some ((value, width) :: columns, idx)

/-- `raster_unscan_bits`: nothing, if the bits are too few or too many. -/
def rasterUnscanBits (bits : List Bool) (widths : List ℕ) : Option (List ℕ) := do
  let empty : List Column := widths.map (0, ·)
  let (columns, idx) ← (List.range (maxWidth empty)).reverse.foldlM
    (fun (columns, idx) level => unscanLevel bits level columns idx) (empty, 0)
  if idx = bits.length then some (columns.map Prod.fst) else none

/-! ## The eight vectors -/

/-- The widths of the vectors. -/
def LENGTHS : Fin 8 → ℕ := ![12, 12, 12, 12, 11, 11, 11, 7]

/-- Where each vector begins. -/
def STARTS : Fin 8 → ℕ := ![0, 12, 24, 36, 48, 59, 70, 81]

/-- The bits `lo` to `hi - 1` of a value, the high one first. -/
def bitRange (lo hi value : ℕ) : List Bool :=
  (List.range' lo (hi - lo)).reverse.map value.testBit

/-- The bits of a frame, in the order of their priority. -/
def prioritizedBits (b0 b1 kHat b2 : ℕ) (gainVector higherOrder : List Column) (syncBit : Bool) :
    List Bool :=
  let scan := rasterScanBits (gainVector ++ higherOrder)
  let firstScanLen := min scan.length 39
  bitRange 2 8 b0 ++ bitRange 3 6 b2 ++ scan.take firstScanLen ++ bitRange 0 kHat b1 ++
    bitRange 1 3 b2 ++ scan.drop firstScanLen ++ bitRange 0 1 b2 ++ bitRange 0 2 b0 ++ [syncBit]

/-- The bits cut into the eight vectors. -/
def pack (bits : List Bool) : Fin 8 → ℕ := fun i =>
  Bits.ofBits ((bits.drop (STARTS i)).take (LENGTHS i))

/-- The bits of the eight vectors. -/
def unpack (u : Fin 8 → ℕ) : List Bool :=
  (List.finRange 8).flatMap fun i => Bits.toBits (LENGTHS i) (u i)

/-- `prioritize_bits`. -/
def prioritizeBits (b0 b1 kHat b2 : ℕ) (gainVector higherOrder : List Column) (syncBit : Bool) :
    Option (Fin 8 → ℕ) :=
  let bits := prioritizedBits b0 b1 kHat b2 gainVector higherOrder syncBit
  if bits.length = 88 then some (pack bits) else none

/-- `extract_fundamental_frequency_quantizer`. -/
def extractFundamentalFrequencyQuantizer (u : Fin 8 → ℕ) : ℕ :=
  let top6 := u 0 >>> 6 % 64
  let bottom2 := u 7 >>> 1 % 4
  top6 <<< 2 ||| bottom2

/-- `read_bits`: the next `n` bits, and the place after them. -/
def readBits (bits : List Bool) (idx : ℕ) : ℕ → Option (ℕ × ℕ) := go idx 0
where
  go (idx value : ℕ) : ℕ → Option (ℕ × ℕ)
    | 0 => some (value, idx)
    | n + 1 => do
      let bit ← bits[idx]?
      go (idx + 1) (2 * value + bit.toNat) n

/-- The bits from `idx` to `idx + len`, if there are so many. -/
def slice (bits : List Bool) (idx len : ℕ) : Option (List Bool) :=
  if idx + len ≤ bits.length then some ((bits.drop idx).take len) else none

/-- The decoded parameters of a frame. -/
structure DeprioritizedBits where
  b0 : ℕ
  b1 : ℕ
  b2 : ℕ
  gainVector : List Column
  higherOrder : List Column
  syncBit : Bool
  deriving DecidableEq

/-- `deprioritize_bits`. -/
def deprioritizeBits (u : Fin 8 → ℕ) (kHat : ℕ) (gainWidths higherWidths : List ℕ) :
    Option DeprioritizedBits := do
  let bits := unpack u
  let totalScanLen := gainWidths.sum + higherWidths.sum
  let firstScanLen := min totalScanLen 39
  let restLen := totalScanLen - firstScanLen
  let (b0Top, idx) ← readBits bits 0 6
  let (b2Top, idx) ← readBits bits idx 3
  let first ← slice bits idx firstScanLen
  let idx := idx + firstScanLen
  let (b1, idx) ← readBits bits idx kHat
  let (b2Mid, idx) ← readBits bits idx 2
  let rest ← slice bits idx restLen
  let idx := idx + restLen
  let (b2Lsb, idx) ← readBits bits idx 1
  let (b0Bottom, idx) ← readBits bits idx 2
  let syncBit ← bits[idx]?
  let idx := idx + 1
  guard (idx = 88)
  let values ← rasterUnscanBits (first ++ rest) (gainWidths ++ higherWidths)
  some {
    b0 := b0Top <<< 2 ||| b0Bottom
    b1 := b1
    b2 := b2Top <<< 3 ||| b2Mid <<< 1 ||| b2Lsb
    gainVector := (values.take 5).zip gainWidths
    higherOrder := (values.drop 5).zip higherWidths
    syncBit := syncBit }

/-! ## The scan, undone

After the levels down to `level`, a column has the bits of its value from there up. -/

def kept (level : ℕ) (columns : List Column) : List Column :=
  columns.map fun (value, width) => (value >>> level <<< level, width)

theorem testBit_kept (value level i : ℕ) :
    (value >>> level <<< level).testBit i = (decide (level ≤ i) && value.testBit i) := by
  rw [Nat.testBit_shiftLeft, Nat.testBit_shiftRight]
  by_cases hi : level ≤ i
  · rw [Nat.add_sub_cancel' hi]
  · rw [decide_eq_false hi, Bool.false_and, Bool.false_and]

/-- The bit of one level, put back. -/
theorem kept_level (value level : ℕ) :
    (if value.testBit level then value >>> (level + 1) <<< (level + 1) ||| 1 <<< level
      else value >>> (level + 1) <<< (level + 1)) = value >>> level <<< level := by
  have hone (i : ℕ) : (1 <<< level).testBit i = decide (level = i) := by
    rw [Nat.one_shiftLeft, Nat.testBit_two_pow]
  apply Nat.eq_of_testBit_eq
  intro i
  rw [testBit_kept]
  rcases Nat.lt_trichotomy i level with hlt | heq | hgt
  · have hbelow : decide (level ≤ i) = false := decide_eq_false (Nat.not_le.mpr hlt)
    have hsucc : decide (level + 1 ≤ i) = false := decide_eq_false (by omega)
    split
    · rw [Nat.testBit_or, testBit_kept, hone, hbelow, hsucc, decide_eq_false (by omega)]
      rfl
    · rw [testBit_kept, hbelow, hsucc]
  · subst heq
    have hsucc : decide (i + 1 ≤ i) = false := decide_eq_false (by omega)
    split
    next hset =>
      rw [Nat.testBit_or, testBit_kept, hone, hsucc, hset, decide_eq_true rfl, decide_eq_true le_rfl]
      rfl
    next hclear =>
      rw [testBit_kept, hsucc, Bool.eq_false_iff.mpr hclear, Bool.and_false, Bool.and_false]
  · have habove : decide (level ≤ i) = true := decide_eq_true hgt.le
    have hsucc : decide (level + 1 ≤ i) = true := decide_eq_true hgt
    split
    · rw [Nat.testBit_or, testBit_kept, hone, habove, hsucc, decide_eq_false (by omega),
        Bool.or_false]
    · rw [testBit_kept, habove, hsucc]

/-- Above its width a value has nothing. -/
theorem shiftRight_of_width_le {value width level : ℕ} (h : value < 2 ^ width)
    (hle : width ≤ level) : value >>> level = 0 := by
  rw [Nat.shiftRight_eq_div_pow]
  exact Nat.div_eq_of_lt (h.trans_le (Nat.pow_le_pow_right Nat.two_pos hle))

variable {bits rest : List Bool} {columns : List Column}

theorem scanLevel_cons_tall {value width level : ℕ} (h : width > level) :
    scanLevel ((value, width) :: columns) level = value.testBit level :: scanLevel columns level :=
  List.filterMap_cons_some (if_pos h)

theorem scanLevel_cons_low {value width level : ℕ} (h : ¬ width > level) :
    scanLevel ((value, width) :: columns) level = scanLevel columns level :=
  List.filterMap_cons_none (if_neg h)

theorem unscanLevel_scanLevel {idx level : ℕ} (hfit : ∀ c ∈ columns, c.1 < 2 ^ c.2)
    (h : bits.drop idx = scanLevel columns level ++ rest) :
    unscanLevel bits level (kept (level + 1) columns) idx =
      some (kept level columns, idx + (scanLevel columns level).length) := by
  induction columns generalizing idx with
  | nil => rfl
  | cons column columns ih =>
    obtain ⟨value, width⟩ := column
    have hrest : ∀ c ∈ columns, c.1 < 2 ^ c.2 := fun c hc => hfit c (List.mem_cons_of_mem _ hc)
    have hkept (n : ℕ) : kept n ((value, width) :: columns) =
        (value >>> n <<< n, width) :: kept n columns := rfl
    rw [hkept, hkept, unscanLevel]
    by_cases htall : width > level
    · -- the column takes the bit at hand
      rw [scanLevel_cons_tall htall, List.cons_append] at h
      have hcons : bits.drop idx =
          [value.testBit level] ++ (scanLevel columns level ++ rest) := h
      have hnext : bits.drop (idx + 1) = scanLevel columns level ++ rest := Bits.drop_next hcons rfl
      rw [if_pos htall, Bits.getElem?_next h, scanLevel_cons_tall htall, List.length_cons]
      simp only [Option.bind_eq_bind, Option.bind_some]
      rw [ih hrest hnext, Option.bind_some, kept_level]
      congr 2
      omega
    · -- the column is too low: both sides are as they were
      have hvalue : value < 2 ^ width := hfit _ List.mem_cons_self
      have hlow : width ≤ level := Nat.not_lt.mp htall
      rw [scanLevel_cons_low htall] at h ⊢
      rw [if_neg htall, ih hrest h, shiftRight_of_width_le hvalue hlow,
        shiftRight_of_width_le hvalue (Nat.le_succ_of_le hlow), Nat.zero_shiftLeft,
        Nat.zero_shiftLeft]
      rfl

theorem unscanLevels {n idx : ℕ} (hfit : ∀ c ∈ columns, c.1 < 2 ^ c.2)
    (h : bits.drop idx = (List.range n).reverse.flatMap (scanLevel columns) ++ rest) :
    (List.range n).reverse.foldlM
        (fun (s : List Column × ℕ) level => unscanLevel bits level s.1 s.2) (kept n columns, idx) =
      some (kept 0 columns,
        idx + ((List.range n).reverse.flatMap (scanLevel columns)).length) := by
  induction n generalizing idx with
  | zero => rfl
  | succ n ih =>
    have hrange : (List.range (n + 1)).reverse = n :: (List.range n).reverse := by
      rw [List.range_succ, List.reverse_append, List.reverse_singleton, List.singleton_append]
    rw [hrange, List.flatMap_cons, List.append_assoc] at h
    rw [hrange, List.foldlM_cons, unscanLevel_scanLevel hfit h, List.flatMap_cons,
      List.length_append, ← Nat.add_assoc]
    exact ih (Bits.drop_next h rfl)

theorem kept_zero (columns : List Column) : kept 0 columns = columns := by
  unfold kept
  simp

theorem le_maxWidth {c : Column} (h : c ∈ columns) : c.2 ≤ maxWidth columns := by
  induction columns with
  | nil => exact absurd h List.not_mem_nil
  | cons column columns ih =>
    have hmax : maxWidth (column :: columns) = max column.2 (maxWidth columns) := rfl
    rw [hmax]
    rcases List.mem_cons.mp h with rfl | hc
    · exact Nat.le_max_left _ _
    · exact (ih hc).trans (Nat.le_max_right _ _)

/-- The values of a scan are read back from it. -/
theorem rasterUnscanBits_rasterScanBits (hfit : ∀ c ∈ columns, c.1 < 2 ^ c.2) :
    rasterUnscanBits (rasterScanBits columns) (columns.map Prod.snd) =
      some (columns.map Prod.fst) := by
  have hwidths : (columns.map Prod.snd).map (0, ·) = kept (maxWidth columns) columns := by
    unfold kept
    rw [List.map_map]
    apply List.map_congr_left
    intro c hc
    have hzero := shiftRight_of_width_le (hfit c hc) (le_maxWidth hc)
    simp only [Function.comp_apply, hzero, Nat.zero_shiftLeft]
  have hmax : maxWidth (kept (maxWidth columns) columns) = maxWidth columns := by
    have hsnd : (kept (maxWidth columns) columns).map Prod.snd = columns.map Prod.snd := by
      unfold kept
      rw [List.map_map]
      rfl
    unfold maxWidth at hsnd ⊢
    rw [hsnd]
  have hall : (rasterScanBits columns).drop 0 =
      (List.range (maxWidth columns)).reverse.flatMap (scanLevel columns) ++ [] :=
    (List.append_nil _).symm
  unfold rasterUnscanBits
  simp only [hwidths, hmax]
  rw [Option.bind_eq_bind, unscanLevels hfit hall, Option.bind_some, kept_zero, Nat.zero_add]
  exact if_pos rfl

/-! ### How long a scan is -/

theorem length_scanLevel_cons (column : Column) (columns : List Column) (level : ℕ) :
    (scanLevel (column :: columns) level).length =
      (if level < column.2 then 1 else 0) + (scanLevel columns level).length := by
  by_cases hlevel : level < column.2
  · rw [scanLevel_cons_tall hlevel, if_pos hlevel, List.length_cons, Nat.add_comm]
  · rw [scanLevel_cons_low hlevel, if_neg hlevel, Nat.zero_add]

theorem sum_levels (width n : ℕ) :
    ((List.range n).map fun level => if level < width then 1 else 0).sum = min width n := by
  induction n with
  | zero => rw [Nat.min_zero]; rfl
  | succ n ih =>
    rw [List.range_succ, List.map_append, List.sum_append, ih]
    simp only [List.map_cons, List.map_nil, List.sum_cons, List.sum_nil]
    split <;> omega

theorem length_levels {n : ℕ} (h : ∀ c ∈ columns, c.2 ≤ n) :
    ((List.range n).map fun level => (scanLevel columns level).length).sum =
      (columns.map Prod.snd).sum := by
  induction columns with
  | nil => exact List.sum_eq_zero fun _ h => (List.mem_map.mp h).choose_spec.2.symm
  | cons column columns ih =>
    have hcolumn : min column.2 n = column.2 := Nat.min_eq_left (h _ List.mem_cons_self)
    simp only [length_scanLevel_cons]
    rw [List.sum_map_add, sum_levels, hcolumn, ih fun c hc => h c (List.mem_cons_of_mem _ hc)]
    rfl

theorem length_rasterScanBits (columns : List Column) :
    (rasterScanBits columns).length = (columns.map Prod.snd).sum := by
  unfold rasterScanBits
  rw [List.length_flatMap, List.map_reverse, List.sum_reverse]
  exact length_levels fun c hc => le_maxWidth hc

/-! ## The vectors, cut and joined -/

theorem unpack_pack (h : bits.length = 88) : unpack (pack bits) = bits := by
  have hpieces : unpack (pack bits) =
      (bits.drop 0).take 12 ++ ((bits.drop 12).take 12 ++ ((bits.drop 24).take 12 ++
        ((bits.drop 36).take 12 ++ ((bits.drop 48).take 11 ++ ((bits.drop 59).take 11 ++
          ((bits.drop 70).take 11 ++ ((bits.drop 81).take 7 ++ bits.drop 88))))))) := by
    rw [List.drop_of_length_le (Nat.le_of_eq h), ← Bits.toBits_piece (by omega : 0 + 12 ≤ _),
      ← Bits.toBits_piece (by omega : 12 + 12 ≤ _), ← Bits.toBits_piece (by omega : 24 + 12 ≤ _),
      ← Bits.toBits_piece (by omega : 36 + 12 ≤ _), ← Bits.toBits_piece (by omega : 48 + 11 ≤ _),
      ← Bits.toBits_piece (by omega : 59 + 11 ≤ _), ← Bits.toBits_piece (by omega : 70 + 11 ≤ _),
      ← Bits.toBits_piece (by omega : 81 + 7 ≤ _)]
    rfl
  rw [hpieces, Bits.take_drop_append_drop bits rfl, Bits.take_drop_append_drop bits rfl,
    Bits.take_drop_append_drop bits rfl, Bits.take_drop_append_drop bits rfl,
    Bits.take_drop_append_drop bits rfl, Bits.take_drop_append_drop bits rfl,
    Bits.take_drop_append_drop bits rfl, Bits.take_drop_append_drop bits rfl]
  rfl

/-- Each vector fits its width. -/
theorem pack_lt (bits : List Bool) (i : Fin 8) : pack bits i < 2 ^ LENGTHS i :=
  (Bits.ofBits_lt _).trans_le
    (Nat.pow_le_pow_right Nat.two_pos (List.length_take_le _ _))

/-! ## The fields -/

theorem bitRange_eq (lo hi value : ℕ) :
    bitRange lo hi value = Bits.toBits (hi - lo) (value >>> lo) := by
  unfold bitRange Bits.toBits
  rw [List.range'_eq_map_range, ← List.map_reverse, List.map_map]
  apply List.map_congr_left
  intro i _
  exact (Nat.testBit_shiftRight value).symm

@[simp]
theorem length_bitRange (lo hi value : ℕ) : (bitRange lo hi value).length = hi - lo := by
  rw [bitRange_eq, Bits.length_toBits]

theorem ofBits_bitRange (lo hi value : ℕ) :
    Bits.ofBits (bitRange lo hi value) = value >>> lo % 2 ^ (hi - lo) := by
  rw [bitRange_eq, Bits.ofBits_toBits_mod]

theorem go_eq {field : List Bool} {idx : ℕ} (value : ℕ) (h : bits.drop idx = field ++ rest) :
    readBits.go bits idx value field.length =
      some (value * 2 ^ field.length + Bits.ofBits field, idx + field.length) := by
  induction field generalizing idx value with
  | nil => simp [readBits.go]
  | cons bit field ih =>
    have hcons : bits.drop idx = [bit] ++ (field ++ rest) := h
    have hnext : bits.drop (idx + 1) = field ++ rest := Bits.drop_next hcons rfl
    rw [List.length_cons, readBits.go, Bits.getElem?_next h]
    rw [Option.bind_eq_bind, Option.bind_some, ih _ hnext, Bits.ofBits_cons, pow_succ]
    congr 2
    · ring
    · omega

/-- A field is read at its place. -/
theorem readBits_eq {field : List Bool} {idx n : ℕ} (h : bits.drop idx = field ++ rest)
    (hn : field.length = n) : readBits bits idx n = some (Bits.ofBits field, idx + n) := by
  subst hn
  unfold readBits
  rw [go_eq 0 h, Nat.zero_mul, Nat.zero_add]

theorem slice_eq {field : List Bool} {idx n : ℕ} (h : bits.drop idx = field ++ rest)
    (hn : field.length = n) (hidx : idx ≤ bits.length) : slice bits idx n = some field := by
  subst hn
  have hlength := congrArg List.length h
  rw [List.length_drop, List.length_append] at hlength
  unfold slice
  rw [if_pos (by omega), h, List.take_left]

/-- The top bits of a value and the ones below them. -/
theorem join_b0 : ∀ b0 < 256, (b0 >>> 2 % 2 ^ 6) <<< 2 ||| b0 >>> 0 % 2 ^ 2 = b0 := by
  decide +kernel

theorem join_b2 :
    ∀ b2 < 64, (b2 >>> 3 % 2 ^ 3) <<< 3 ||| (b2 >>> 1 % 2 ^ 2) <<< 1 ||| b2 >>> 0 % 2 ^ 1 = b2 := by
  decide

/-- Parameters that fit a layout. -/
structure DeprioritizedBits.Fits (p : DeprioritizedBits) (layout : Layout) : Prop where
  b0_lt : p.b0 < 2 ^ 8
  b1_lt : p.b1 < 2 ^ layout.bands
  b2_lt : p.b2 < 2 ^ 6
  gain_widths : p.gainVector.map Prod.snd = layout.gain
  higher_widths : p.higherOrder.map Prod.snd = layout.higher
  values_lt : ∀ c ∈ p.gainVector ++ p.higherOrder, c.1 < 2 ^ c.2

namespace DeprioritizedBits

variable {p : DeprioritizedBits} {layout : Layout}

/-- The scan of the values. -/
def scan (p : DeprioritizedBits) : List Bool := rasterScanBits (p.gainVector ++ p.higherOrder)

/-- The bits of these parameters, in the order of their priority. -/
def prioritized (p : DeprioritizedBits) (kHat : ℕ) : List Bool :=
  prioritizedBits p.b0 p.b1 kHat p.b2 p.gainVector p.higherOrder p.syncBit

theorem Fits.length_scan (hp : p.Fits layout) :
    p.scan.length = layout.gain.sum + layout.higher.sum := by
  unfold scan
  rw [length_rasterScanBits, List.map_append, List.sum_append, hp.gain_widths, hp.higher_widths]

/-- The nine fields, one after the other. -/
theorem prioritized_eq (p : DeprioritizedBits) (kHat : ℕ) :
    p.prioritized kHat =
      bitRange 2 8 p.b0 ++ (bitRange 3 6 p.b2 ++ (p.scan.take (min p.scan.length 39) ++
        (bitRange 0 kHat p.b1 ++ (bitRange 1 3 p.b2 ++ (p.scan.drop (min p.scan.length 39) ++
          (bitRange 0 1 p.b2 ++ (bitRange 0 2 p.b0 ++ ([p.syncBit] ++ [])))))))) := by
  unfold prioritized prioritizedBits
  simp only [List.append_assoc, List.append_nil]
  rfl

theorem Fits.length_prioritized (hp : p.Fits layout) :
    (p.prioritized layout.bands).length = 88 := by
  have hscan := hp.length_scan
  have hbudget := layout.budget
  rw [prioritized_eq]
  simp only [List.length_append, length_bitRange, List.length_take, List.length_drop,
    List.length_cons, List.length_nil]
  omega

theorem Fits.rasterUnscanBits_scan (hp : p.Fits layout) :
    rasterUnscanBits p.scan (layout.gain ++ layout.higher) =
      some ((p.gainVector ++ p.higherOrder).map Prod.fst) := by
  rw [← hp.gain_widths, ← hp.higher_widths, ← List.map_append]
  exact rasterUnscanBits_rasterScanBits hp.values_lt

theorem Fits.length_gainVector (hp : p.Fits layout) :
    (p.gainVector.map Prod.fst).length = 5 := by
  rw [← layout.length_gain, ← hp.gain_widths, List.length_map, List.length_map]

theorem Fits.gainVector_zip (hp : p.Fits layout) :
    (((p.gainVector ++ p.higherOrder).map Prod.fst).take 5).zip layout.gain = p.gainVector := by
  rw [List.map_append, ← hp.length_gainVector, List.take_left]
  exact (List.zip_of_prod rfl hp.gain_widths).symm

theorem Fits.higherOrder_zip (hp : p.Fits layout) :
    (((p.gainVector ++ p.higherOrder).map Prod.fst).drop 5).zip layout.higher =
      p.higherOrder := by
  rw [List.map_append, ← hp.length_gainVector, List.drop_left]
  exact (List.zip_of_prod rfl hp.higher_widths).symm

/-- The parameters are read back from the bits. -/
theorem Fits.deprioritizeBits_pack (hp : p.Fits layout) :
    deprioritizeBits (pack (p.prioritized layout.bands)) layout.bands layout.gain layout.higher =
      some p := by
  have hbits := p.prioritized_eq layout.bands
  have hlength := hp.length_prioritized
  have hscan := hp.length_scan
  have hbudget := layout.budget
  have hfirst : (p.scan.take (min p.scan.length 39)).length =
      min (layout.gain.sum + layout.higher.sum) 39 := by
    rw [List.length_take, hscan]
    omega
  have hrest : (p.scan.drop (min p.scan.length 39)).length =
      layout.gain.sum + layout.higher.sum - min (layout.gain.sum + layout.higher.sum) 39 := by
    rw [List.length_drop, hscan]
  have hbands : (bitRange 0 layout.bands p.b1).length = layout.bands := length_bitRange _ _ _
  have hlast (n : ℕ) : (bitRange 0 n p.b2).length = n := length_bitRange _ _ _
  have hend (n : ℕ) : (bitRange 0 n p.b0).length = n := length_bitRange _ _ _
  -- each field stands where the ones before it end
  have h0 := (List.drop_zero (l := p.prioritized layout.bands)).trans hbits
  have h1 := Bits.drop_next h0 (length_bitRange 2 8 p.b0)
  have h2 := Bits.drop_next h1 (length_bitRange 3 6 p.b2)
  have h3 := Bits.drop_next h2 hfirst
  have h4 := Bits.drop_next h3 hbands
  have h5 := Bits.drop_next h4 (length_bitRange 1 3 p.b2)
  have h6 := Bits.drop_next h5 hrest
  have h7 := Bits.drop_next h6 (hlast 1)
  have h8 := Bits.drop_next h7 (hend 2)
  unfold deprioritizeBits
  rw [unpack_pack hlength]
  simp only [Option.bind_eq_bind]
  rw [readBits_eq h0 (length_bitRange _ _ _), Option.bind_some]
  dsimp only
  rw [readBits_eq h1 (length_bitRange _ _ _), Option.bind_some]
  dsimp only
  rw [slice_eq h2 hfirst (by omega), Option.bind_some]
  rw [readBits_eq h3 hbands, Option.bind_some]
  dsimp only
  rw [readBits_eq h4 (length_bitRange _ _ _), Option.bind_some]
  dsimp only
  rw [slice_eq h5 hrest (by omega), Option.bind_some]
  rw [readBits_eq h6 (hlast 1), Option.bind_some]
  dsimp only
  rw [readBits_eq h7 (hend 2), Option.bind_some]
  dsimp only
  rw [Bits.getElem?_next h8, Option.bind_some, guard, if_pos (by omega), Option.pure_def,
    Option.bind_some, List.take_append_drop, hp.rasterUnscanBits_scan, Option.bind_some,
    hp.gainVector_zip, hp.higherOrder_zip]
  simp only [ofBits_bitRange]
  rw [join_b0 p.b0 hp.b0_lt, join_b2 p.b2 hp.b2_lt, Nat.shiftRight_zero, Nat.sub_zero,
    Nat.mod_eq_of_lt hp.b1_lt]

/-- The first six bits of a frame and the last three but one have a fixed place. -/
theorem extract_of_ends {top middle bottom last : List Bool} (htop : top.length = 6)
    (hmiddle : middle.length = 79) (hbottom : bottom.length = 2) (hlast : last.length = 1) :
    extractFundamentalFrequencyQuantizer (pack (top ++ (middle ++ (bottom ++ last)))) =
      Bits.ofBits top <<< 2 ||| Bits.ofBits bottom := by
  have hfirst : pack (top ++ (middle ++ (bottom ++ last))) 0 =
      Bits.ofBits ([] ++ (top ++ middle.take 6)) := by
    have htake : (top ++ (middle ++ (bottom ++ last))).take 12 = top ++ middle.take 6 := by
      rw [List.take_append, List.take_of_length_le (by omega), htop,
        List.take_append_of_le_length (by omega)]
    exact congrArg Bits.ofBits htake
  have hseventh : pack (top ++ (middle ++ (bottom ++ last))) 7 =
      Bits.ofBits (middle.drop 75 ++ (bottom ++ last)) := by
    have hdrop : (top ++ (middle ++ (bottom ++ last))).drop 81 =
        middle.drop 75 ++ (bottom ++ last) := by
      rw [List.drop_append, List.drop_of_length_le (by omega), htop, List.nil_append,
        List.drop_append_of_le_length (by omega)]
    have htake : ((top ++ (middle ++ (bottom ++ last))).drop 81).take 7 =
        middle.drop 75 ++ (bottom ++ last) := by
      rw [hdrop, List.take_of_length_le]
      simp only [List.length_append, List.length_drop]
      omega
    exact congrArg Bits.ofBits htake
  have hrest : (middle.take 6).length = 6 := by
    rw [List.length_take]
    omega
  have hsix := Bits.ofBits_field [] top (middle.take 6)
  have htwo := Bits.ofBits_field (middle.drop 75) bottom last
  rw [hrest, htop] at hsix
  rw [hlast, hbottom] at htwo
  unfold extractFundamentalFrequencyQuantizer
  rw [hfirst, hseventh, Nat.shiftRight_eq_div_pow, Nat.shiftRight_eq_div_pow]
  exact congrArg₂ (· <<< 2 ||| ·) hsix htwo

/-- The pitch is read back without the widths. -/
theorem Fits.extract_pack (hp : p.Fits layout) :
    extractFundamentalFrequencyQuantizer (pack (p.prioritized layout.bands)) = p.b0 := by
  have hlength := hp.length_prioritized
  obtain ⟨middle, hmiddle⟩ : ∃ middle, p.prioritized layout.bands =
      bitRange 2 8 p.b0 ++ (middle ++ (bitRange 0 2 p.b0 ++ [p.syncBit])) := by
    refine ⟨bitRange 3 6 p.b2 ++ (p.scan.take (min p.scan.length 39) ++
      (bitRange 0 layout.bands p.b1 ++ (bitRange 1 3 p.b2 ++
        (p.scan.drop (min p.scan.length 39) ++ bitRange 0 1 p.b2)))), ?_⟩
    rw [prioritized_eq]
    simp only [List.append_assoc, List.append_nil]
  have hcount : middle.length = 79 := by
    rw [hmiddle] at hlength
    simp only [List.length_append, length_bitRange, List.length_singleton] at hlength
    omega
  rw [hmiddle, extract_of_ends (length_bitRange _ _ _) hcount (length_bitRange _ _ _) rfl,
    ofBits_bitRange, ofBits_bitRange]
  exact join_b0 p.b0 hp.b0_lt

/-- The parameters fill a frame. -/
theorem Fits.prioritizeBits_eq (hp : p.Fits layout) :
    prioritizeBits p.b0 p.b1 layout.bands p.b2 p.gainVector p.higherOrder p.syncBit =
      some (pack (p.prioritized layout.bands)) := by
  have hlength := hp.length_prioritized
  unfold prioritized at hlength ⊢
  unfold prioritizeBits
  exact if_pos hlength

end DeprioritizedBits

end HamsOpen.Ambe
