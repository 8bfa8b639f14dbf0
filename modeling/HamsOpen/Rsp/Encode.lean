import HamsOpen.Lib.Tiles
import Mathlib.Algebra.Order.Field.Rat
import Mathlib.Tactic.Linarith
import Mathlib.Tactic.Positivity
import Mathlib.Tactic.Ring

/-!
# Tuning and clock words

The words that set a receiver (`encode.rs`): the band of a frequency gives the plan of the first
oscillator and its divider, the oscillator is a quotient split over two tuner words, and the clock of
the converter one split over two registers. What a word stands for is an exact rational here, so the
floats that are returned beside the words are left out.
-/

namespace HamsOpen.Rsp

/-- Why a setting is refused. -/
inductive Error
  | invalidArgument (text : String)
  | unsupported (text : String)
  deriving DecidableEq

/-! ### Bands -/

inductive IfMode
  | zero | low450k | low1620k | low2048k
  deriving DecidableEq

/-- The only clock that a low intermediate frequency was seen with. -/
def IfMode.requiredAdcHz : IfMode → Option ℕ
  | .zero => none
  | .low450k => some 2000000
  | .low1620k => some 6000000
  | .low2048k => some 8192000

/-- As it stands in a message. -/
def IfMode.debug : IfMode → String
  | .zero => "Zero"
  | .low450k => "Low450k"
  | .low1620k => "Low1620k"
  | .low2048k => "Low2048k"

inductive TunerMode
  | am | vhf | b3 | b45 | l
  deriving DecidableEq

/-- The divider of the oscillator. -/
def TunerMode.loDiv : TunerMode → ℕ
  | .am => 16
  | .vhf => 32
  | .b3 => 16
  | .b45 => 4
  | .l => 2

inductive LoPlan
  | direct | upBy120M | downBy120M | downBy144M | downBy168M
  deriving DecidableEq

inductive GainTable
  | am | amDown | vhf | uhf | l | hiZ
  deriving DecidableEq

/-- What depends on the band alone. The upper edge is not part of it. -/
structure Band where
  loHz : ℕ
  hiHz : ℕ
  mode : TunerMode
  loPlan : LoPlan
  filter : ℕ
  gainTable : GainTable
  deriving DecidableEq

def RF_MIN_HZ : ℕ := 1000
def RF_MAX_HZ : ℕ := 2000000000
def M : ℕ := 1000000

def BANDS : List Band := [
  ⟨RF_MIN_HZ, 12 * M, .am, .upBy120M, 0b000, .am⟩,
  ⟨12 * M, 30 * M, .am, .upBy120M, 0b100, .am⟩,
  ⟨30 * M, 60 * M, .am, .upBy120M, 0b010, .am⟩,
  ⟨60 * M, 120 * M, .vhf, .direct, 0b011, .vhf⟩,
  ⟨120 * M, 250 * M, .b3, .direct, 0b111, .vhf⟩,
  ⟨250 * M, 300 * M, .am, .downBy120M, 0b110, .am⟩,
  ⟨300 * M, 375 * M, .am, .downBy120M, 0b001, .am⟩,
  ⟨375 * M, 380 * M, .am, .downBy144M, 0b001, .am⟩,
  ⟨380 * M, 395 * M, .am, .downBy144M, 0b101, .am⟩,
  ⟨395 * M, 420 * M, .am, .downBy168M, 0b101, .am⟩,
  ⟨420 * M, 1000 * M, .b45, .direct, 0b011, .uhf⟩,
  ⟨1000 * M, RF_MAX_HZ + 1, .l, .direct, 0b111, .l⟩,
  -- a sentinel that has no frequency
  ⟨2 ^ 64 - 1, 2 ^ 64 - 1, .l, .direct, 0, .l⟩]

def bandIn (bands : List Band) (rfHz : ℕ) : Except Error Band :=
  if ¬ (RF_MIN_HZ ≤ rfHz ∧ rfHz ≤ RF_MAX_HZ) then
    .error (.invalidArgument s!"frequency {rfHz} Hz outside {RF_MIN_HZ}..={RF_MAX_HZ} Hz")
  else match bands.find? (Tiles.covers Band.loHz Band.hiHz rfHz) with
    | some b => .ok b
    | none => .error (.invalidArgument s!"no band for {rfHz} Hz")

/-! ### The first oscillator -/

/-- A difference, unless it underflows. -/
def checkedSub (a b : ℕ) : Option ℕ := if b ≤ a then some (a - b) else none

/-- The frequency of the first oscillator; nothing if the subtraction underflows. -/
def loHz (band : Band) (rfHz : ℕ) : Option ℕ :=
  match band.loPlan with
  | .direct => some rfHz
  | .upBy120M => some (rfHz + 120 * M)
  | .downBy120M => checkedSub rfHz (120 * M)
  | .downBy144M => checkedSub rfHz (144 * M)
  | .downBy168M => checkedSub rfHz (168 * M)

def tunerWord (addr payload : ℕ) : ℕ := ((payload &&& 0xFFFFF) <<< 4) ||| (addr &&& 0xF)

def PLL_MOD : ℕ := 3000
def PLL_SUB : ℕ := 4096

/-- What the oscillator is set to, and its two words. -/
structure Pll where
  n : ℕ
  frac : ℕ
  sub : ℕ
  r2 : ℕ
  r3 : ℕ
  deriving DecidableEq

/-- The words of an oscillator: the largest number below the exact quotient. The frequency and the
divider are not zero. -/
def pll (loHz div : ℕ) (ppb : ℤ) : Except Error Pll :=
  let num := loHz * div * (PLL_MOD * PLL_SUB) * 1000000000
  let denI : ℤ := 96000000 * (1000000000 + ppb)
  if denI ≤ 0 then .error (.invalidArgument "ppm correction out of range")
  else
    let den := denI.toNat
    let q := (num + den - 1) / den - 1
    let units := q / PLL_SUB
    let sub := q % PLL_SUB
    let n := units / PLL_MOD % 2 ^ 32
    let frac := units % PLL_MOD
    if ¬ (1 ≤ n ∧ n ≤ 0xFF) then .error (.invalidArgument s!"PLL integer {n} out of range")
    else .ok ⟨n, frac, sub, tunerWord 2 ((n <<< 12) ||| frac), tunerWord 3 sub⟩

/-! ### The converter -/

inductive SampleFormat
  | s14 | s12 | s10x384 | s8
  deriving DecidableEq

structure StreamConfig where
  alt : ℕ
  format : SampleFormat
  reg07 : ℕ
  decim2 : Bool
  deriving DecidableEq

def ADC_MIN_HZ : ℕ := 2000000
def ADC_MAX_HZ : ℕ := 10000000

/-- The alternate setting and the sample format of a clock. -/
def streamConfig (adcHz : ℕ) (ifMode : IfMode) : Except Error StreamConfig :=
  if ¬ (ADC_MIN_HZ ≤ adcHz ∧ adcHz ≤ ADC_MAX_HZ) then
    .error (.invalidArgument s!"ADC clock {adcHz} Hz outside {ADC_MIN_HZ}..={ADC_MAX_HZ} Hz")
  else match ifMode.requiredAdcHz with
    | some req =>
      if req ≠ adcHz then
        .error (.unsupported s!"{ifMode.debug} was only observed with a {req} Hz ADC clock")
      else if adcHz < 3000000 then .ok ⟨2, .s14, 0x000414, true⟩
      else .ok ⟨1, .s14, 0x000494, true⟩
    | none =>
      let fits (pairs blocksPerS : ℕ) : Bool := adcHz ≤ pairs * blocksPerS
      if fits 252 8000 then .ok ⟨2, .s14, 0x000014, false⟩
      else if fits 336 8000 then .ok ⟨2, .s12, 0x000005, false⟩
      else if adcHz < 3000000 then
        .error (.unsupported s!"ADC clock {adcHz} Hz between 2.688 and 3 MHz was not observed")
      else if fits 252 24000 then .ok ⟨1, .s14, 0x000094, false⟩
      else if fits 336 24000 then .ok ⟨1, .s12, 0x000085, false⟩
      else if fits 384 24000 then .ok ⟨1, .s10x384, 0x0000A5, false⟩
      else .ok ⟨1, .s8, 0x000C94, false⟩

/-- The words of the clock. -/
structure AdcClock where
  reg03 : ℕ
  reg04 : ℕ
  deriving DecidableEq

/-- The largest even divider up to 16 that brings the clock between 32 MHz and a limit. -/
def pick (f hi : ℕ) : Option ℕ :=
  ([1, 2, 3, 4, 5, 6, 7, 8].reverse.map (2 * ·)).find? fun div =>
    32 * M ≤ f * div && f * div ≤ hi

def adcClock (adcHz : ℕ) (ppb : ℤ) (flag12 : Bool) : Except Error AdcClock :=
  if ¬ (ADC_MIN_HZ ≤ adcHz ∧ adcHz ≤ ADC_MAX_HZ) then
    .error (.invalidArgument s!"ADC clock {adcHz} Hz out of range")
  else match (pick adcHz (40 * M)).or (pick adcHz (42 * M)) with
    | none => .error (.unsupported s!"no ADC clock divider for {adcHz} Hz")
    | some div =>
      let d := div / 2 - 1
      let num := adcHz * div * 2 ^ 21 * 1000000000
      let den := 4 * M * ((1000000000 + ppb) % 2 ^ 128).toNat
      let q := num / den
      let n := (q >>> 21) % 2 ^ 32
      let frac := q &&& 0x1FFFFF
      if ¬ (1 ≤ n ∧ n ≤ 15) then .error (.invalidArgument "ADC synthesiser out of range")
      else
        let range := if adcHz < 6000000 then 0 else if adcHz < 7000000 then 1
          else if adcHz ≤ 8000000 then 2 else 3
        .ok {
          reg03 := (0x01 <<< 16) ||| (range <<< 14) ||| (flag12.toNat <<< 12) ||| (n <<< 8) |||
            (((frac >>> 20) &&& 1) <<< 7) ||| (d <<< 2) ||| 3
          reg04 := frac &&& 0xFFFFF }

/-- Words as they were captured. -/
example : (adcClock 2000000 10000 true).toOption = some ⟨0x01179F, 0x0FFF58⟩ ∧
    (adcClock 7000000 0 false).toOption = some ⟨0x018A8B, 0⟩ := by decide

/-! ### Every frequency has its band -/

theorem joined_bands :
    Tiles.joined Band.loHz Band.hiHz RF_MIN_HZ (BANDS.take 12) (RF_MAX_HZ + 1) = true := by decide

/-- Every frequency in the range is in exactly one band, which is not the sentinel. -/
theorem band_unique {rf : ℕ} (hmin : RF_MIN_HZ ≤ rf) (hmax : rf ≤ RF_MAX_HZ) :
    ∃ b ∈ BANDS.take 12, BANDS.filter (Tiles.covers Band.loHz Band.hiHz rf) = [b] := by
  obtain ⟨b, hb⟩ := Tiles.filter_covers joined_bands hmin (Nat.lt_succ_of_le hmax)
  have hmem : b ∈ (BANDS.take 12).filter (Tiles.covers Band.loHz Band.hiHz rf) := by
    rw [hb]
    exact List.mem_singleton_self b
  have hsentinel : (BANDS.drop 12).filter (Tiles.covers Band.loHz Band.hiHz rf) = [] := by
    apply List.filter_cons_of_neg
    simp only [Tiles.covers, Bool.and_eq_true, decide_eq_true_eq]
    omega
  refine ⟨b, List.mem_of_mem_filter hmem, ?_⟩
  rw [← List.take_append_drop 12 BANDS, List.filter_append, hb, hsentinel, List.append_nil]

theorem bandIn_eq {rf : ℕ} {b : Band} (hmin : RF_MIN_HZ ≤ rf) (hmax : rf ≤ RF_MAX_HZ)
    (hb : BANDS.filter (Tiles.covers Band.loHz Band.hiHz rf) = [b]) : bandIn BANDS rf = .ok b := by
  rw [bandIn, if_neg (not_not.mpr ⟨hmin, hmax⟩), Tiles.find_of_filter hb]

/-- The oscillator moves with the frequency. -/
theorem loHz_add {b : Band} {rf lo : ℕ} (h : loHz b rf = some lo) (k : ℕ) :
    loHz b (rf + k) = some (lo + k) := by
  have hsub {off : ℕ} (hoff : checkedSub rf off = some lo) :
      checkedSub (rf + k) off = some (lo + k) := by
    unfold checkedSub at hoff ⊢
    split at hoff
    · rw [if_pos (by omega)]
      have hlo := Option.some.inj hoff
      congr 1
      omega
    · cases hoff
  unfold loHz at h ⊢
  cases hplan : b.loPlan with
  | direct =>
    rw [hplan] at h
    obtain rfl := Option.some.inj h
    rfl
  | upBy120M =>
    rw [hplan] at h
    obtain rfl := Option.some.inj h
    simp only [Nat.add_right_comm]
  | downBy120M | downBy144M | downBy168M =>
    rw [hplan] at h
    exact hsub h

/-- Over a band the oscillator times its divider stays where the synthesiser can go. -/
def inReach (b : Band) : Bool :=
  match loHz b b.loHz, loHz b b.hiHz with
  | some l, some h => 1600000000 ≤ l * b.mode.loDiv && h * b.mode.loDiv ≤ 4200000000
  | _, _ => false

theorem inReach_bands : (BANDS.take 12).all inReach = true := by decide

/-- In its band no subtraction underflows, and the synthesiser stays in reach. -/
theorem loHz_inReach {b : Band} {rf : ℕ} (hb : b ∈ BANDS.take 12) (hlo : b.loHz ≤ rf)
    (hhi : rf < b.hiHz) : ∃ lo, loHz b rf = some lo ∧
      1600000000 ≤ lo * b.mode.loDiv ∧ lo * b.mode.loDiv ≤ 4200000000 := by
  have hreach := List.all_eq_true.mp inReach_bands b hb
  unfold inReach at hreach
  split at hreach
  next l h hl hh =>
    have hends := loHz_add hl (b.hiHz - b.loHz)
    rw [Nat.add_sub_cancel' (by omega), hh] at hends
    obtain rfl := Option.some.inj hends
    have hrf := loHz_add hl (rf - b.loHz)
    rw [Nat.add_sub_cancel' hlo] at hrf
    simp only [Bool.and_eq_true, decide_eq_true_eq] at hreach
    refine ⟨_, hrf, ?_, ?_⟩
    · exact hreach.1.trans (Nat.mul_le_mul_right _ (Nat.le_add_right ..))
    · exact (Nat.mul_le_mul_right _ (by omega)).trans hreach.2
  · cases hreach

/-! ### The words of the oscillator -/

/-- A nominal frequency with the correction of the reference, in parts per billion. -/
def corrected (hz : ℚ) (ppb : ℤ) : ℚ := hz * (1 + ppb / 1000000000)

namespace Pll

/-- The frequency that the words stand for, over the divider. -/
def hz (p : Pll) (div : ℕ) (ppb : ℤ) : ℚ :=
  corrected (96000000 * (p.n + (p.frac + (p.sub + 1) / 4096) / 3000)) ppb / div

/-- What one more in the last field makes. -/
def subStep (div : ℕ) (ppb : ℤ) : ℚ := corrected (96000000 * (1 / 4096 / 3000)) ppb / div

/-- The fields fit, the words hold them, and stand for the least frequency from the wanted one on. -/
structure Tunes (p : Pll) (lo div : ℕ) (ppb : ℤ) : Prop where
  n_pos : 1 ≤ p.n
  n_le : p.n ≤ 0xFF
  frac_lt : p.frac < 3000
  sub_lt : p.sub < 4096
  r2_eq : p.r2 = p.n * 2 ^ 16 + p.frac * 2 ^ 4 + 2
  r3_eq : p.r3 = p.sub * 2 ^ 4 + 3
  least : (lo : ℚ) ≤ p.hz div ppb
  next : p.hz div ppb < lo + subStep div ppb

end Pll

/-- A field beside lower ones is a sum. -/
theorem shift_or {i low : ℕ} (h : low < 2 ^ i) (v : ℕ) : (v <<< i) ||| low = v * 2 ^ i + low := by
  rw [← Nat.shiftLeft_add_eq_or_of_lt h, Nat.shiftLeft_eq]

theorem tunerWord_eq {addr payload : ℕ} (ha : addr < 2 ^ 4) (hp : payload < 2 ^ 20) :
    tunerWord addr payload = payload * 2 ^ 4 + addr := by
  have hpayload : payload &&& 0xFFFFF = payload := by
    rw [Nat.and_two_pow_sub_one_eq_mod payload 20, Nat.mod_eq_of_lt hp]
  have haddr : addr &&& 0xF = addr := by
    rw [Nat.and_two_pow_sub_one_eq_mod addr 4, Nat.mod_eq_of_lt ha]
  rw [tunerWord, hpayload, haddr, shift_or ha]

/-- A quotient rounded up. -/
theorem div_ceil_bounds (num : ℕ) {den : ℕ} (hden : 0 < den) :
    num ≤ (num + den - 1) / den * den ∧ (num + den - 1) / den * den < num + den := by
  have hmod := Nat.mod_lt (num + den - 1) hden
  have hdiv := Nat.div_add_mod (num + den - 1) den
  rw [Nat.mul_comm] at hdiv
  omega

/-- The correction as a factor of parts per billion. -/
theorem corrected_eq {ppb : ℤ} {c : ℕ} (hc : (c : ℤ) = 1000000000 + ppb) (hz : ℚ) :
    corrected hz ppb = hz * c / 1000000000 := by
  have hcast : (c : ℚ) = 1000000000 + ppb := by exact_mod_cast congrArg (Int.cast (R := ℚ)) hc
  rw [corrected, hcast]
  ring

/-- The words stand for their last field and one more, in units of it. -/
theorem Pll.hz_eq {n frac sub r2 r3 div c q : ℕ} {ppb : ℤ} (hc : (c : ℤ) = 1000000000 + ppb)
    (hq : n * 12288000 + frac * 4096 + sub = q) :
    Pll.hz ⟨n, frac, sub, r2, r3⟩ div ppb =
      ((q + 1) * (96000000 * c) : ℚ) / (12288000 * 1000000000 * div) := by
  have hcast : (q : ℚ) = n * 12288000 + frac * 4096 + sub := by exact_mod_cast hq.symm
  rw [Pll.hz, corrected_eq hc, hcast]
  ring

theorem Pll.subStep_eq {div c : ℕ} {ppb : ℤ} (hc : (c : ℤ) = 1000000000 + ppb) :
    Pll.subStep div ppb = (96000000 * c : ℚ) / (12288000 * 1000000000 * div) := by
  rw [Pll.subStep, corrected_eq hc]
  ring

/-- The fields of a quotient in reach. -/
theorem fields_of_quotient {q : ℕ} (hlo : 200000000 ≤ q) (hhi : q ≤ 540000000) :
    1 ≤ q / PLL_SUB / PLL_MOD % 2 ^ 32 ∧ q / PLL_SUB / PLL_MOD % 2 ^ 32 ≤ 0xFF ∧
      q / PLL_SUB / PLL_MOD % 2 ^ 32 * 12288000 + q / PLL_SUB % PLL_MOD * 4096 + q % PLL_SUB =
        q := by
  rw [PLL_SUB, PLL_MOD]
  omega

/-- The words of an oscillator that the synthesiser can reach. -/
theorem pll_tunes {lo div : ℕ} {ppb : ℤ} (hlo : 1600000000 ≤ lo * div)
    (hhi : lo * div ≤ 4200000000) (hneg : -1000000 ≤ ppb) (hpos : ppb ≤ 1000000) :
    ∃ p, pll lo div ppb = .ok p ∧ p.Tunes lo div ppb := by
  obtain ⟨c, hc⟩ : ∃ c : ℕ, (c : ℤ) = 1000000000 + ppb := ⟨(1000000000 + ppb).toNat, by omega⟩
  have hden : (96000000 * (1000000000 + ppb)).toNat = 96000000 * c := by omega
  obtain ⟨hge, hlt⟩ := div_ceil_bounds (lo * div * (PLL_MOD * PLL_SUB) * 1000000000)
    (by omega : 0 < 96000000 * c)
  obtain ⟨q, hq⟩ : ∃ q, (lo * div * (PLL_MOD * PLL_SUB) * 1000000000 + 96000000 * c - 1) /
      (96000000 * c) = q + 1 := by
    refine Nat.exists_eq_succ_of_ne_zero fun hzero => ?_
    rw [hzero, Nat.zero_mul, PLL_MOD, PLL_SUB] at hge
    omega
  have hcomm : (q + 1) * (96000000 * c) = 96000000 * ((q + 1) * c) := Nat.mul_left_comm ..
  rw [hq, hcomm, PLL_MOD, PLL_SUB] at hge hlt
  -- the correction moves the quotient by a thousandth at most
  have hleast : (q + 1) * c ≤ (q + 1) * 1001000000 := Nat.mul_le_mul_left _ (by omega)
  have hmost : (q + 1) * 999000000 ≤ (q + 1) * c := Nat.mul_le_mul_left _ (by omega)
  obtain ⟨hn, hn', hsum⟩ := fields_of_quotient (q := q) (by omega) (by omega)
  have hfrac : q / PLL_SUB % PLL_MOD < 3000 := Nat.mod_lt _ (by decide)
  have hsub : q % PLL_SUB < 4096 := Nat.mod_lt _ (by decide)
  generalize hN : q / PLL_SUB / PLL_MOD % 2 ^ 32 = n at hn hn' hsum
  generalize hF : q / PLL_SUB % PLL_MOD = frac at hfrac hsum
  generalize hS : q % PLL_SUB = sub at hsub hsum
  have hdiv : 0 < div := Nat.pos_of_ne_zero fun h => by
    rw [h] at hlo
    omega
  have hword : (n <<< 12) ||| frac = n * 2 ^ 12 + frac := shift_or (by omega) n
  refine ⟨⟨n, frac, sub, tunerWord 2 ((n <<< 12) ||| frac), tunerWord 3 sub⟩, ?_, hn, hn', hfrac,
    hsub, ?_, ?_, ?_, ?_⟩
  · unfold pll
    simp only [hden, hq, Nat.add_sub_cancel, hN, hF, hS]
    rw [if_neg (by omega), if_neg (not_not.mpr ⟨hn, hn'⟩)]
  · change tunerWord 2 ((n <<< 12) ||| frac) = n * 2 ^ 16 + frac * 2 ^ 4 + 2
    rw [hword, tunerWord_eq (by decide) (by omega)]
    omega
  · exact tunerWord_eq (by decide) (by omega)
  · rw [Pll.hz_eq hc hsum, le_div_iff₀ (by positivity)]
    have hcast : (lo * div * (3000 * 4096) * 1000000000 : ℚ) ≤ 96000000 * ((q + 1) * c) := by
      exact_mod_cast hge
    linarith
  · rw [Pll.hz_eq hc hsum, Pll.subStep_eq hc, ← sub_lt_iff_lt_add,
      ← sub_div, div_lt_iff₀ (by positivity)]
    have hcast : (96000000 * ((q + 1) * c) : ℚ) <
        lo * div * (3000 * 4096) * 1000000000 + 96000000 * c := by
      exact_mod_cast hlt
    linarith

/-! ### The words of the clock -/

namespace AdcClock

variable (c : AdcClock)

/-- The fields as they stand in the two registers. -/
def n : ℕ := c.reg03 / 2 ^ 8 % 2 ^ 4
def frac : ℕ := c.reg03 / 2 ^ 7 % 2 * 2 ^ 20 + c.reg04 % 2 ^ 20
def d : ℕ := c.reg03 / 2 ^ 2 % 2 ^ 3

/-- The clock that the words stand for. -/
def hz (ppb : ℤ) : ℚ := corrected (4000000 * (c.n + c.frac / 2 ^ 21)) ppb / (2 * (c.d + 1))

/-- What one more in the fraction makes. -/
def fracStep (ppb : ℤ) : ℚ := corrected (4000000 * (1 / 2 ^ 21)) ppb / (2 * (c.d + 1))

end AdcClock

/-- The parts of the words of a clock. -/
structure ClockParts where
  range : ℕ
  n : ℕ
  frac : ℕ
  d : ℕ
  range_lt : range < 2 ^ 2
  n_pos : 1 ≤ n
  n_lt : n < 2 ^ 4
  frac_lt : frac < 2 ^ 21
  d_lt : d < 2 ^ 3

/-- The two registers with the parts in their fields. -/
def ClockParts.words (t : ClockParts) (flag12 : Bool) : AdcClock where
  reg03 := 2 ^ 16 + t.range * 2 ^ 14 + flag12.toNat * 2 ^ 12 + t.n * 2 ^ 8 +
    t.frac / 2 ^ 20 * 2 ^ 7 + t.d * 2 ^ 2 + 3
  reg04 := t.frac % 2 ^ 20

/-- Every part of the words fits its field, and they stand for the greatest clock up to the wanted
one. -/
structure AdcClock.Clocks (c : AdcClock) (adcHz : ℕ) (ppb : ℤ) (flag12 : Bool) : Prop where
  fits : ∃ t : ClockParts, c = t.words flag12
  most : c.hz ppb ≤ adcHz
  next : adcHz < c.hz ppb + c.fracStep ppb

/-- The clocks for which no divider is in reach. -/
def InGap (adcHz : ℕ) : Prop :=
  5250000 < adcHz ∧ 3 * adcHz < 16000000 ∨ 7000000 < adcHz ∧ adcHz < 8000000

instance (adcHz : ℕ) : Decidable (InGap adcHz) := inferInstanceAs (Decidable (_ ∨ _))

/-- The parts are read back from the words. -/
theorem ClockParts.read (t : ClockParts) (flag12 : Bool) :
    (t.words flag12).n = t.n ∧ (t.words flag12).frac = t.frac ∧ (t.words flag12).d = t.d := by
  obtain ⟨range, n, frac, d, range_lt, n_pos, n_lt, frac_lt, d_lt⟩ := t
  have hflag : flag12.toNat < 2 := by cases flag12 <;> decide
  simp only [words, AdcClock.n, AdcClock.frac, AdcClock.d]
  omega

theorem ClockParts.reg03_eq (t : ClockParts) (flag12 : Bool) :
    (0x01 <<< 16) ||| (t.range <<< 14) ||| (flag12.toNat <<< 12) ||| (t.n <<< 8) |||
      (((t.frac >>> 20) &&& 1) <<< 7) ||| (t.d <<< 2) ||| 3 = (t.words flag12).reg03 := by
  obtain ⟨range, n, frac, d, range_lt, n_pos, n_lt, frac_lt, d_lt⟩ := t
  have hflag : flag12.toNat < 2 := by cases flag12 <;> decide
  have htop : (frac >>> 20) &&& 1 = frac / 2 ^ 20 := by
    rw [Nat.and_one_is_mod, Nat.shiftRight_eq_div_pow]
    omega
  simp only [words, htop, Nat.or_assoc]
  -- from the low end on, each part is below the place of the next
  rw [shift_or (v := d), shift_or (v := frac / 2 ^ 20), shift_or (v := n),
    shift_or (v := flag12.toNat), shift_or (v := range), shift_or (v := 0x01)]
  all_goals omega

/-- A divider that is picked is even, 16 at most, and brings the clock in reach. -/
theorem pick_spec {f hi div : ℕ} (h : pick f hi = some div) :
    (∃ k, div = 2 * (k + 1) ∧ k < 8) ∧ 32 * M ≤ f * div ∧ f * div ≤ hi := by
  have hin := List.find?_some h
  have hmem := List.mem_of_find?_eq_some h
  simp only [Bool.and_eq_true, decide_eq_true_eq] at hin
  obtain ⟨k, hk, rfl⟩ := List.mem_map.mp hmem
  have hrange : 1 ≤ k ∧ k ≤ 8 := by
    simp only [List.mem_reverse, List.mem_cons, List.not_mem_nil, or_false] at hk
    omega
  exact ⟨⟨k - 1, by omega, by omega⟩, hin⟩

theorem pick_eq_none {f hi : ℕ} :
    pick f hi = none ↔ ∀ k, 1 ≤ k → k ≤ 8 → 32 * M ≤ f * (2 * k) → hi < f * (2 * k) := by
  unfold pick
  rw [List.find?_eq_none]
  constructor
  · intro h k hone hmax hlo
    have hmem : 2 * k ∈ [1, 2, 3, 4, 5, 6, 7, 8].reverse.map (2 * ·) := by
      apply List.mem_map_of_mem
      simp only [List.mem_reverse, List.mem_cons, List.not_mem_nil, or_false]
      omega
    have hout := h _ hmem
    simp only [Bool.and_eq_true, decide_eq_true_eq] at hout
    omega
  · intro h div hmem hin
    obtain ⟨k, hk, rfl⟩ := List.mem_map.mp hmem
    simp only [Bool.and_eq_true, decide_eq_true_eq] at hin
    have hrange : 1 ≤ k ∧ k ≤ 8 := by
      simp only [List.mem_reverse, List.mem_cons, List.not_mem_nil, or_false] at hk
      omega
    have hout := h k hrange.1 hrange.2 hin.1
    omega

/-- In a gap no divider is in reach, elsewhere one is. -/
theorem pick_eq_none_iff {f : ℕ}
    (hf : 2000000 ≤ f ∧ f ≤ 2688000 ∨ 3000000 ≤ f ∧ f ≤ 10000000) :
    (pick f (40 * M)).or (pick f (42 * M)) = none ↔ InGap f := by
  rw [Option.or_eq_none_iff, pick_eq_none, pick_eq_none, M, InGap]
  constructor
  · rintro ⟨-, h⟩
    have h2 := h 2 (by decide) (by decide)
    have h3 := h 3 (by decide) (by decide)
    have h4 := h 4 (by decide) (by decide)
    have h5 := h 5 (by decide) (by decide)
    have h6 := h 6 (by decide) (by decide)
    have h7 := h 7 (by decide) (by decide)
    have h8 := h 8 (by decide) (by decide)
    omega
  · intro hgap
    have hall (k : ℕ) (hone : 1 ≤ k) (hmax : k ≤ 8) (hlo : 32 * 1000000 ≤ f * (2 * k)) :
        42 * 1000000 < f * (2 * k) := by
      obtain rfl | rfl | rfl | rfl | rfl | rfl | rfl | rfl : k = 1 ∨ k = 2 ∨ k = 3 ∨ k = 4 ∨
        k = 5 ∨ k = 6 ∨ k = 7 ∨ k = 8 := by omega
      all_goals omega
    refine ⟨fun k hone hmax hlo => ?_, hall⟩
    have hk := hall k hone hmax hlo
    omega

/-- What is accepted without an intermediate frequency. -/
theorem accepted_of_streamConfig {f : ℕ} {c : StreamConfig} (h : streamConfig f .zero = .ok c) :
    2000000 ≤ f ∧ f ≤ 2688000 ∨ 3000000 ≤ f ∧ f ≤ 10000000 := by
  unfold streamConfig at h
  simp only [IfMode.requiredAdcHz, ADC_MIN_HZ, ADC_MAX_HZ, decide_eq_true_eq] at h
  split at h
  · cases h
  · split at h
    · omega
    · split at h
      · omega
      · split at h
        · cases h
        · omega

/-- Where no divider is in reach, the clock is refused. -/
theorem adcClock_refused {f : ℕ} {ppb : ℤ} {flag12 : Bool}
    (hf : 2000000 ≤ f ∧ f ≤ 2688000 ∨ 3000000 ≤ f ∧ f ≤ 10000000) (hgap : InGap f) :
    adcClock f ppb flag12 = .error (.unsupported s!"no ADC clock divider for {f} Hz") := by
  unfold adcClock
  rw [if_neg (by rw [ADC_MIN_HZ, ADC_MAX_HZ]; omega), (pick_eq_none_iff hf).mpr hgap]

/-- The parts of a quotient in reach. -/
theorem parts_of_quotient {q : ℕ} (hlo : 7 * 2 ^ 21 ≤ q) (hhi : q < 11 * 2 ^ 21) :
    (q >>> 21) % 2 ^ 32 = q / 2 ^ 21 ∧ q &&& 0x1FFFFF = q % 2 ^ 21 ∧ 1 ≤ q / 2 ^ 21 ∧
      q / 2 ^ 21 ≤ 15 := by
  refine ⟨?_, Nat.and_two_pow_sub_one_eq_mod q 21, by omega, by omega⟩
  rw [Nat.shiftRight_eq_div_pow]
  omega

/-- The correction moves the quotient by a thousandth at most. -/
theorem quotient_inReach {v c q r : ℕ} (hlo : 32 * 1000000 ≤ v) (hhi : v ≤ 42 * 1000000)
    (hc : 999000000 ≤ c) (hc' : c ≤ 1001000000) (hr : r < 4 * 1000000 * c)
    (hq : 4 * 1000000 * (q * c) + r = v * 2 ^ 21 * 1000000000) :
    7 * 2 ^ 21 ≤ q ∧ q < 11 * 2 ^ 21 := by
  have hleast : q * c ≤ q * 1001000000 := Nat.mul_le_mul_left _ hc'
  have hmost : q * 999000000 ≤ q * c := Nat.mul_le_mul_left _ hc
  omega

/-- The clock of words with their parts. -/
theorem ClockParts.hz_eq (t : ClockParts) (flag12 : Bool) {c q div : ℕ} {ppb : ℤ}
    (hc : (c : ℤ) = 1000000000 + ppb) (hq : t.n * 2 ^ 21 + t.frac = q)
    (hd : div = 2 * (t.d + 1)) :
    (t.words flag12).hz ppb = (q * (4000000 * c) : ℚ) / (2 ^ 21 * 1000000000 * div) ∧
      (t.words flag12).fracStep ppb = (4000000 * c : ℚ) / (2 ^ 21 * 1000000000 * div) := by
  obtain ⟨hn, hfrac, hdiv⟩ := t.read flag12
  have hcast : (q : ℚ) = t.n * 2 ^ 21 + t.frac := by exact_mod_cast hq.symm
  have hcastd : (div : ℚ) = 2 * (t.d + 1) := by exact_mod_cast hd
  rw [AdcClock.hz, AdcClock.fracStep, corrected_eq hc, corrected_eq hc, hn, hfrac, hdiv, hcast,
    ← hcastd]
  constructor <;> ring

/-- Where a divider is in reach, the words stand for the clock. -/
theorem adcClock_clocks {f : ℕ} {ppb : ℤ} (flag12 : Bool)
    (hf : 2000000 ≤ f ∧ f ≤ 2688000 ∨ 3000000 ≤ f ∧ f ≤ 10000000) (hgap : ¬ InGap f)
    (hneg : -1000000 ≤ ppb) (hpos : ppb ≤ 1000000) :
    ∃ c, adcClock f ppb flag12 = .ok c ∧ c.Clocks f ppb flag12 := by
  obtain ⟨c, hc⟩ : ∃ c : ℕ, (c : ℤ) = 1000000000 + ppb := ⟨(1000000000 + ppb).toNat, by omega⟩
  have hcast : ((1000000000 + ppb) % 2 ^ 128).toNat = c := by
    rw [Int.emod_eq_of_lt (by omega) (by omega), ← hc]
    rfl
  obtain ⟨div, hdiv⟩ := Option.ne_none_iff_exists'.mp (mt (pick_eq_none_iff hf).mp hgap)
  have hpicked : (∃ k, div = 2 * (k + 1) ∧ k < 8) ∧ 32 * M ≤ f * div ∧ f * div ≤ 42 * M := by
    rcases Option.or_eq_some_iff.mp hdiv with h | ⟨-, h⟩
    · obtain ⟨heven, hlo, hhi⟩ := pick_spec h
      exact ⟨heven, hlo, hhi.trans (Nat.mul_le_mul_right _ (by decide))⟩
    · exact pick_spec h
  obtain ⟨⟨d, hd, hd8⟩, hlo, hhi⟩ := hpicked
  rw [M] at hlo hhi
  have hmod := Nat.mod_lt (f * div * 2 ^ 21 * 1000000000) (y := 4 * M * c) (by rw [M]; omega)
  have hquot := Nat.div_add_mod (f * div * 2 ^ 21 * 1000000000) (4 * M * c)
  generalize hq : f * div * 2 ^ 21 * 1000000000 / (4 * M * c) = q at hquot
  generalize f * div * 2 ^ 21 * 1000000000 % (4 * M * c) = r at hmod hquot
  have hcomm : 4 * M * c * q = 4 * M * (q * c) := by rw [Nat.mul_assoc, Nat.mul_comm c]
  rw [hcomm, M] at hquot
  rw [M] at hmod
  obtain ⟨hqlo, hqhi⟩ := quotient_inReach hlo hhi (by omega) (by omega) hmod hquot
  obtain ⟨hn, hfrac, hone, hmax⟩ := parts_of_quotient hqlo hqhi
  obtain ⟨range, hrange, hrange4⟩ : ∃ range, (if f < 6000000 then 0 else if f < 7000000 then 1
      else if f ≤ 8000000 then 2 else 3) = range ∧ range < 2 ^ 2 := by
    refine ⟨_, rfl, ?_⟩
    split_ifs <;> decide
  have hd2 : div / 2 - 1 = d := by omega
  let t : ClockParts := ⟨range, q / 2 ^ 21, q % 2 ^ 21, d, hrange4, hone, by omega,
    Nat.mod_lt _ (by decide), hd8⟩
  have ht : t.n * 2 ^ 21 + t.frac = q := Nat.div_add_mod' q (2 ^ 21)
  obtain ⟨hhz, hstep⟩ := t.hz_eq flag12 hc ht hd
  have hdivpos : 0 < div := by omega
  refine ⟨t.words flag12, ?_, ⟨t, rfl⟩, ?_, ?_⟩
  · have hwords := t.reg03_eq flag12
    unfold adcClock
    rw [if_neg (by rw [ADC_MIN_HZ, ADC_MAX_HZ]; omega), hdiv]
    simp only [hcast, hq, hn, hfrac, hd2, hrange]
    rw [if_neg (not_not.mpr ⟨hone, hmax⟩)]
    refine congrArg Except.ok ?_
    rw [AdcClock.mk.injEq]
    exact ⟨hwords, Nat.and_two_pow_sub_one_eq_mod _ 20⟩
  · rw [hhz, div_le_iff₀ (by positivity)]
    have hle : q * (4000000 * c) ≤ f * div * 2 ^ 21 * 1000000000 := by
      rw [← hquot, Nat.mul_left_comm]
      exact Nat.le_add_right ..
    have hcastle : (q * (4000000 * c) : ℚ) ≤ f * div * 2 ^ 21 * 1000000000 := by
      exact_mod_cast hle
    linarith
  · rw [hhz, hstep, ← add_div, lt_div_iff₀ (by positivity)]
    have hlt : f * div * 2 ^ 21 * 1000000000 < q * (4000000 * c) + 4000000 * c := by
      rw [← hquot, Nat.mul_left_comm]
      exact Nat.add_lt_add_left hmod _
    have hcastlt : (f * div * 2 ^ 21 * 1000000000 : ℚ) < q * (4000000 * c) + 4000000 * c := by
      exact_mod_cast hlt
    linarith

/-! ### Every frequency and every clock -/

end HamsOpen.Rsp
