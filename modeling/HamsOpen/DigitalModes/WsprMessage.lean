import HamsOpen.DigitalModes.WsprCallsign

/-!
# WSPR messages, packed and unpacked

A square and a power share a number, and the power is its low digit: one that is out of range runs
into the square. The two numbers of a message stand side by side in its bits.
-/

namespace HamsOpen.Wspr

/-! ### Grid squares and powers -/

/-- Two letters up to R and two digits. -/
inductive Square : List ℕ → ℕ → ℕ → ℕ → ℕ → Prop
  | mk {g0 g1 g2 g3 : ℕ} (h0 : g0 < 18) (h1 : g1 < 18) (h2 : g2 < 10) (h3 : g3 < 10) :
      Square [65 + g0, 65 + g1, 48 + g2, 48 + g3] g0 g1 g2 g3

/-- A square and a power, in mixed radix. -/
def gridNumber (g0 g1 g2 g3 : ℕ) (powerDbm : ℤ) : ℤ :=
  ((179 - 10 * g0 - g2) * 180 + 10 * g1 + g3) * 128 + powerDbm + 64

/-- The number of a square and a power is one of 22 bits. -/
def Fits (grid4 : List ℕ) (powerDbm : ℤ) : Prop :=
  ∃ g0 g1 g2 g3, Square grid4 g0 g1 g2 g3 ∧
    0 ≤ gridNumber g0 g1 g2 g3 powerDbm ∧ gridNumber g0 g1 g2 g3 powerDbm < 2 ^ 22

variable {callsign grid4 : List ℕ} {powerDbm : ℤ} {g0 g1 g2 g3 n m : ℕ}

theorem packGrid4Power_square (h : Square (grid4.map toAsciiUppercase) g0 g1 g2 g3) :
    packGrid4Power grid4 powerDbm =
      if 0 ≤ gridNumber g0 g1 g2 g3 powerDbm ∧ gridNumber g0 g1 g2 g3 powerDbm < 2 ^ 22 then
        some (gridNumber g0 g1 g2 g3 powerDbm).toNat else none := by
  unfold packGrid4Power
  generalize grid4.map toAsciiUppercase = bytes at h
  cases h with
  | mk h0 h1 h2 h3 =>
    have hletters : ¬ (¬ (65 ≤ 65 + g0 ∧ 65 + g0 ≤ 82) ∨ ¬ (65 ≤ 65 + g1 ∧ 65 + g1 ≤ 82)) := by
      omega
    have hdigit : ∀ g < 10, isAsciiDigit (48 + g) = true := by
      intro g hg
      exact (Bool.and_eq_true _ _).mpr ⟨decide_eq_true (by omega), decide_eq_true (by omega)⟩
    have hletter : ∀ g < 18, gridCharCode (65 + g) = some g := by
      intro g hg
      rw [gridCharCode, if_neg (by omega), if_neg (by unfold SPACE; omega), if_pos (by omega),
        Nat.add_sub_cancel_left]
    have hnumber : ∀ g < 10, gridCharCode (48 + g) = some g := by
      intro g hg
      rw [gridCharCode, if_pos (by omega), Nat.add_sub_cancel_left]
    simp only [if_neg hletters, hdigit g2 h2, hdigit g3 h3, hletter g0 h0, hletter g1 h1,
      hnumber g2 h2, hnumber g3 h3, Option.bind_eq_bind, Option.bind_some, Bool.not_true,
      Bool.or_self, Bool.false_eq_true, if_false]
    rfl

theorem square_of_packs (h : packGrid4Power grid4 powerDbm = some m) :
    ∃ g0 g1 g2 g3, Square (grid4.map toAsciiUppercase) g0 g1 g2 g3 := by
  unfold packGrid4Power at h
  split at h
  next b0 b1 b2 b3 heq =>
    obtain ⟨hletters, hrest⟩ := Option.ite_none_left_eq_some.mp h
    obtain ⟨hdigits, -⟩ := Option.ite_none_left_eq_some.mp hrest
    rw [Bool.or_eq_true, not_or, Bool.not_eq_true', Bool.not_eq_false, Bool.not_eq_true',
      Bool.not_eq_false] at hdigits
    obtain ⟨h2, h3⟩ := hdigits
    obtain ⟨h2l, h2h⟩ := (Bool.and_eq_true _ _).mp h2
    obtain ⟨h3l, h3h⟩ := (Bool.and_eq_true _ _).mp h3
    rw [decide_eq_true_iff] at h2l h2h h3l h3h
    have hsquare : Square [65 + (b0 - 65), 65 + (b1 - 65), 48 + (b2 - 48), 48 + (b3 - 48)]
        (b0 - 65) (b1 - 65) (b2 - 48) (b3 - 48) :=
      .mk (by omega) (by omega) (by omega) (by omega)
    rw [Nat.add_sub_cancel' (by omega), Nat.add_sub_cancel' (by omega), Nat.add_sub_cancel' h2l,
      Nat.add_sub_cancel' h3l] at hsquare
    rw [heq]
    exact ⟨_, _, _, _, hsquare⟩
  next => cases h

/-- The encoder takes a square and a power exactly when their number fits. -/
theorem fits_iff :
    Fits (grid4.map toAsciiUppercase) powerDbm ↔ ∃ m, packGrid4Power grid4 powerDbm = some m := by
  constructor
  · rintro ⟨g0, g1, g2, g3, hsquare, hfits⟩
    exact ⟨_, (packGrid4Power_square hsquare).trans (if_pos hfits)⟩
  · rintro ⟨m, h⟩
    obtain ⟨g0, g1, g2, g3, hsquare⟩ := square_of_packs h
    rw [packGrid4Power_square hsquare] at h
    exact ⟨g0, g1, g2, g3, hsquare, (Option.ite_none_right_eq_some.mp h).1⟩

/-- What a number was made of is read from it, when each part is in range. -/
theorem unpackGrid4Power_number (h0 : g0 < 18) (h1 : g1 < 18) (h2 : g2 < 10) (h3 : g3 < 10)
    (hpower : 0 ≤ powerDbm ∧ powerDbm ≤ 60) (hm : (m : ℤ) = gridNumber g0 g1 g2 g3 powerDbm) :
    unpackGrid4Power m = some ([65 + g0, 65 + g1, 48 + g2, 48 + g3], powerDbm) := by
  unfold gridNumber at hm
  have hmod : (m : ℤ).tmod 128 - 64 = powerDbm := by
    rw [Int.tmod_eq_emod_of_nonneg (by omega)]
    omega
  have hgv : (m : ℤ).tdiv 128 = (179 - 10 * g0 - g2) * 180 + 10 * g1 + g3 := by
    rw [Int.tdiv_eq_ediv_of_nonneg (by omega)]
    omega
  have hsum : 179 - ((179 - 10 * (g0 : ℤ) - g2) * 180 + 10 * g1 + g3).tdiv 180 = 10 * g0 + g2 := by
    rw [Int.tdiv_eq_ediv_of_nonneg (by omega)]
    omega
  have hrest : ((179 - 10 * (g0 : ℤ) - g2) * 180 + 10 * g1 + g3).tmod 180 = 10 * g1 + g3 := by
    rw [Int.tmod_eq_emod_of_nonneg (by omega)]
    omega
  have hten : ∀ g r : ℕ, r < 10 →
      (10 * (g : ℤ) + r).tdiv 10 = g ∧ (10 * (g : ℤ) + r).tmod 10 = r := by
    intro g r hr
    rw [Int.tdiv_eq_ediv_of_nonneg (by omega), Int.tmod_eq_emod_of_nonneg (by omega)]
    omega
  unfold unpackGrid4Power
  dsimp only
  rw [hmod, hgv, hsum, hrest, (hten g0 g2 h2).1, (hten g0 g2 h2).2, (hten g1 g3 h3).1,
    (hten g1 g3 h3).2, if_neg (not_not_intro hpower), if_neg (by omega)]
  rfl

/-- What is read from a number makes up the number. -/
theorem unpackGrid4Power_eq_some (h : unpackGrid4Power m = some (grid4, powerDbm)) :
    (0 ≤ powerDbm ∧ powerDbm ≤ 60) ∧ ∃ g0 g1 g2 g3, Square grid4 g0 g1 g2 g3 ∧
      (m : ℤ) = gridNumber g0 g1 g2 g3 powerDbm := by
  obtain ⟨hpower, hrest⟩ := Option.ite_none_left_eq_some.mp h
  obtain ⟨hin, heq⟩ := Option.ite_none_left_eq_some.mp hrest
  simp only [not_or, not_not] at hpower hin
  obtain ⟨h0, h1, h2, h3⟩ := hin
  obtain ⟨rfl, rfl⟩ := Prod.mk.inj (Option.some.inj heq)
  have hm := Int.mul_tdiv_add_tmod m 128
  have hgv := Int.mul_tdiv_add_tmod ((m : ℤ).tdiv 128) 180
  have hsum := Int.mul_tdiv_add_tmod (179 - ((m : ℤ).tdiv 128).tdiv 180) 10
  have hlow := Int.mul_tdiv_add_tmod (((m : ℤ).tdiv 128).tmod 180) 10
  refine ⟨hpower, _, _, _, _, .mk ?_ ?_ ?_ ?_, ?_⟩
  · omega
  · omega
  · omega
  · omega
  · unfold gridNumber
    rw [Int.toNat_of_nonneg h0.1, Int.toNat_of_nonneg h1.1, Int.toNat_of_nonneg h2.1,
      Int.toNat_of_nonneg h3.1]
    omega

/-- A square and a power that the encoder takes are read back when the power is one of those that
are sent. -/
theorem unpackGrid4Power_packed (h : packGrid4Power grid4 powerDbm = some m) :
    unpackGrid4Power m = some (grid4.map toAsciiUppercase, powerDbm) ↔
      0 ≤ powerDbm ∧ powerDbm ≤ 60 := by
  constructor
  · intro hread
    exact (unpackGrid4Power_eq_some hread).1
  · intro hpower
    obtain ⟨g0, g1, g2, g3, hsquare⟩ := square_of_packs h
    rw [packGrid4Power_square hsquare] at h
    obtain ⟨hfits, heq⟩ := Option.ite_none_right_eq_some.mp h
    have hm : (m : ℤ) = gridNumber g0 g1 g2 g3 powerDbm := by
      rw [← Option.some.inj heq, Int.toNat_of_nonneg hfits.1]
    generalize grid4.map toAsciiUppercase = bytes at hsquare
    cases hsquare with
    | mk h0 h1 h2 h3 => exact unpackGrid4Power_number h0 h1 h2 h3 hpower hm

theorem packGrid4Power_unpacked (hlt : m < 2 ^ 22)
    (h : unpackGrid4Power m = some (grid4, powerDbm)) : packGrid4Power grid4 powerDbm = some m := by
  obtain ⟨-, g0, g1, g2, g3, hsquare, hm⟩ := unpackGrid4Power_eq_some h
  have hupper : grid4.map toAsciiUppercase = grid4 := by
    cases hsquare with
    | mk h0 h1 h2 h3 =>
      have hfixed : ∀ b, ¬ (97 ≤ b ∧ b ≤ 122) → toAsciiUppercase b = b := fun b hb => if_neg hb
      simp only [List.map_cons, List.map_nil]
      rw [hfixed _ (by omega), hfixed _ (by omega), hfixed _ (by omega), hfixed _ (by omega)]
  rw [← hupper] at hsquare
  rw [packGrid4Power_square hsquare, ← hm, Int.toNat_natCast]
  exact if_pos ⟨Int.natCast_nonneg m, by omega⟩

/-! ### The bits of a message -/

/-- The bits of a message's two fields. -/
def dataBits (data : List ℕ) : List Bool := (bitsOfBytes data).take 50

/-- The decoder's word: its lowest bit is the first one. -/
def decoded (bits : List Bool) : ℕ := Bits.ofBits bits.reverse

/-- The fields stand side by side, the highest bits first. -/
theorem dataBits_packBytes (n m : ℕ) :
    dataBits (packBytes n m) = Bits.toBits 28 n ++ Bits.toBits 22 m := by
  have hbyte : ∀ v, Bits.toBits 8 (v % 256) = Bits.toBits 8 v := fun v =>
    Bits.toBits_congr (Nat.mod_mod v 256)
  -- the byte that both fields share
  have hshared : Bits.toBits 8 (n % 16 * 2 ^ 4 + m / 2 ^ 18 % 16) =
      Bits.toBits 4 n ++ Bits.toBits 4 (m / 2 ^ 18) := by
    rw [Bits.toBits_add 4 4]
    congr 1
    · exact Bits.toBits_congr (by omega)
    · exact Bits.toBits_congr (by omega)
  have hlast : Bits.toBits 8 (m % 4 * 2 ^ 6) =
      Bits.toBits 2 m ++ Bits.toBits 6 (m % 4 * 2 ^ 6) := by
    rw [Bits.toBits_add 2 6]
    congr 1
    exact Bits.toBits_congr (by omega)
  have hn : Bits.toBits 28 n = Bits.toBits 8 (n / 2 ^ 20) ++ (Bits.toBits 8 (n / 2 ^ 12) ++
      (Bits.toBits 8 (n / 2 ^ 4) ++ Bits.toBits 4 n)) := by
    rw [Bits.toBits_add 8 20, Bits.toBits_add 8 12, Bits.toBits_add 8 4]
  have hm : Bits.toBits 22 m = Bits.toBits 4 (m / 2 ^ 18) ++ (Bits.toBits 8 (m / 2 ^ 10) ++
      (Bits.toBits 8 (m / 2 ^ 2) ++ Bits.toBits 2 m)) := by
    rw [Bits.toBits_add 4 18, Bits.toBits_add 8 10, Bits.toBits_add 8 2]
  have hall : bitsOfBytes (packBytes n m) = (Bits.toBits 28 n ++ Bits.toBits 22 m) ++
      (Bits.toBits 6 (m % 4 * 2 ^ 6) ++ bitsOfBytes [0, 0, 0, 0]) := by
    unfold packBytes bitsOfBytes
    simp only [List.flatMap_cons, Nat.shiftRight_eq_div_pow, Nat.shiftLeft_eq, hbyte, hshared,
      hlast, hn, hm, List.append_assoc]
  unfold dataBits
  rw [hall]
  apply List.take_left'
  rw [List.length_append, Bits.length_toBits, Bits.length_toBits]

theorem readField_eq (word start len : ℕ) :
    readField word start len = Bits.ofBits ((List.range' start len).map word.testBit) := by
  unfold readField Bits.ofBits
  rw [List.foldl_map]

theorem readField_lt (word start len : ℕ) : readField word start len < 2 ^ len := by
  have hlt := Bits.ofBits_lt ((List.range' start len).map word.testBit)
  rwa [List.length_map, List.length_range', ← readField_eq] at hlt

/-- The field that begins at a place of the decoder's word. -/
theorem readField_decoded {start value width : ℕ} {before after : List Bool}
    (hstart : before.length = start) (hlt : value < 2 ^ width) :
    readField (decoded (before ++ (Bits.toBits width value ++ after))) start width = value := by
  have hbits : (List.range' start width).map
      (decoded (before ++ (Bits.toBits width value ++ after))).testBit =
        Bits.toBits width value := by
    apply List.ext_getElem
    · rw [List.length_map, List.length_range', Bits.length_toBits]
    · intro i hi hi'
      rw [List.getElem_map, List.getElem_range', Nat.one_mul, decoded, Bits.testBit_ofBits_reverse,
        List.getElem?_append_right (by omega), hstart, Nat.add_sub_cancel_left,
        List.getElem?_append_left hi', List.getElem?_eq_getElem hi']
      rfl
  rw [readField_eq, hbits, Bits.ofBits_toBits hlt]

/-- What is read from the bits of two numbers is read from the numbers. -/
theorem unpackWsprMessage_packed (hn : n < 2 ^ 28) (hm : m < 2 ^ 22) :
    unpackWsprMessage (decoded (dataBits (packBytes n m))) = (unpackCall n).bind fun call =>
      (unpackGrid4Power m).map fun x => (call, x.1, x.2) := by
  have hcall : readField (decoded (dataBits (packBytes n m))) 0 28 = n := by
    rw [dataBits_packBytes, ← List.nil_append (Bits.toBits 28 n ++ Bits.toBits 22 m)]
    exact readField_decoded List.length_nil hn
  have hgrid : readField (decoded (dataBits (packBytes n m))) 28 22 = m := by
    rw [dataBits_packBytes, ← List.append_nil (Bits.toBits 22 m)]
    exact readField_decoded (Bits.length_toBits 28 n) hm
  unfold unpackWsprMessage
  dsimp only
  rw [hcall, hgrid]
  cases unpackCall n with
  | none => rfl
  | some call =>
    cases unpackGrid4Power m with
    | none => rfl
    | some x => rfl

/-! ### Messages, packed and unpacked -/

/-- The encoder does not end the program, and what it takes is read back, in capital letters. -/
def Survives (callsign grid4 : List ℕ) (powerDbm : ℤ) : Prop :=
  ∃ out, messageData callsign grid4 powerDbm = .ok out ∧ ∀ data ∈ out,
    unpackWsprMessage (decoded (dataBits data)) =
      some (callsign.map toAsciiUppercase, grid4.map toAsciiUppercase, powerDbm)

/-- Bits that are read as a message are the bits of that message. -/
def Repacks (word : ℕ) : Prop :=
  ∀ call grid4 powerDbm, unpackWsprMessage word = some (call, grid4, powerDbm) →
    ∃ data, messageData call grid4 powerDbm = .ok (some data) ∧
      dataBits data = (List.range 50).map word.testBit

theorem repacks (word : ℕ) : Repacks word := by
  intro call grid4 powerDbm h
  obtain ⟨call', hcall, hrest⟩ := Option.bind_eq_some_iff.mp h
  obtain ⟨⟨grid', power'⟩, hgrid, heq⟩ := Option.bind_eq_some_iff.mp hrest
  obtain ⟨rfl, rfl, rfl⟩ : call' = call ∧ grid' = grid4 ∧ power' = powerDbm := by
    have hfields := Option.some.inj heq
    exact ⟨(Prod.mk.inj hfields).1, Prod.mk.inj (Prod.mk.inj hfields).2⟩
  refine ⟨packBytes (readField word 0 28) (readField word 28 22), ?_, ?_⟩
  · unfold messageData
    rw [packCall_unpackCall hcall]
    have hpack := packGrid4Power_unpacked (readField_lt word 28 22) hgrid
    exact congrArg Except.ok (congrArg (Option.map _) hpack)
  · have hfield : ∀ start width, Bits.toBits width (readField word start width) =
        (List.range' start width).map word.testBit := by
      intro start width
      have hbits := Bits.toBits_ofBits ((List.range' start width).map word.testBit)
      rwa [List.length_map, List.length_range', ← readField_eq] at hbits
    rw [dataBits_packBytes, hfield, hfield, ← List.map_append, List.range_eq_range']
    rfl

/-- Only a callsign that does not fit once it is moved ends the program. -/
theorem packCall_ok (hover : ¬ Overlong (callsign.map toAsciiUppercase)) :
    ∃ out, packCall callsign = .ok out := by
  by_cases hplaced : ∃ x y d tail, Placed (callsign.map toAsciiUppercase) x y d tail
  · obtain ⟨x, y, d, tail, hplaced⟩ := hplaced
    exact ⟨_, packCall_placed hplaced⟩
  · exact ⟨none, packCall_unplaced hover fun x y d tail hp => hplaced ⟨x, y, d, tail, hp⟩⟩

theorem packCall_lt (h : packCall callsign = .ok (some n)) : n < 2 ^ 28 := by
  obtain ⟨x, y, d, tail, hplaced, hpacks⟩ := packCall_eq_some_iff.mp h
  have hdigit := hplaced.digit
  generalize padded tail = rest at hpacks
  cases hpacks with
  | six hx hy hd ha hb hc h3 h4 h5 =>
    have hx := (callsignChar_of_code hx).2
    have hy := (callsignChar_of_code hy).2
    have hd := (isAsciiDigit_iff hd).mp hdigit
    have ha := (callsignChar_of_code ha).2
    have hb := (callsignChar_of_code hb).2
    have hc := (callsignChar_of_code hc).2
    unfold number
    omega

theorem packGrid4Power_lt (h : packGrid4Power grid4 powerDbm = some m) : m < 2 ^ 22 := by
  obtain ⟨g0, g1, g2, g3, hsquare⟩ := square_of_packs h
  rw [packGrid4Power_square hsquare] at h
  obtain ⟨hfits, heq⟩ := Option.ite_none_right_eq_some.mp h
  have hlt := hfits.2
  rw [← Option.some.inj heq]
  omega

/-- A message that the encoder takes is read back when its two parts are. -/
theorem unpackWsprMessage_packed_iff (hcall : packCall callsign = .ok (some n))
    (hgrid : packGrid4Power grid4 powerDbm = some m) :
    unpackWsprMessage (decoded (dataBits (packBytes n m))) =
        some (callsign.map toAsciiUppercase, grid4.map toAsciiUppercase, powerDbm) ↔
      Plain (callsign.map toAsciiUppercase) ∧ 0 ≤ powerDbm ∧ powerDbm ≤ 60 := by
  obtain ⟨x, y, d, tail, hplaced, hpacks⟩ := packCall_eq_some_iff.mp hcall
  rw [unpackWsprMessage_packed (packCall_lt hcall) (packGrid4Power_lt hgrid),
    ← unpackCall_packed hplaced hpacks, ← unpackGrid4Power_packed hgrid]
  constructor
  · intro h
    obtain ⟨call, hread, hrest⟩ := Option.bind_eq_some_iff.mp h
    obtain ⟨⟨square, power⟩, hsquare, heq⟩ := Option.map_eq_some_iff.mp hrest
    obtain ⟨rfl, hfields⟩ := Prod.mk.inj heq
    exact ⟨hread, hsquare.trans (congrArg some hfields)⟩
  · rintro ⟨hread, hsquare⟩
    rw [hread, hsquare]
    rfl

/-- A message survives exactly when its callsign can be moved into place and, where the encoder
takes it, has no space in the way and goes with a power that is sent; bits that are read as a
message are always the bits of that message. -/
theorem survives_iff (callsign grid4 : List ℕ) (powerDbm : ℤ) (word : ℕ) :
    (Survives callsign grid4 powerDbm ↔
      ¬ Overlong (callsign.map toAsciiUppercase) ∧
        (Standard (callsign.map toAsciiUppercase) → Fits (grid4.map toAsciiUppercase) powerDbm →
          Plain (callsign.map toAsciiUppercase) ∧ 0 ≤ powerDbm ∧ powerDbm ≤ 60)) ∧
      Repacks word := by
  refine ⟨?_, repacks word⟩
  by_cases hover : Overlong (callsign.map toAsciiUppercase)
  · refine iff_of_false ?_ fun h => h.1 hover
    rintro ⟨out, hout, -⟩
    unfold messageData at hout
    rw [packCall_overlong hover] at hout
    cases hout
  · obtain ⟨out, hout⟩ := packCall_ok hover
    unfold Survives messageData
    rw [hout, standard_iff, fits_iff, hout]
    cases out with
    | none =>
      refine iff_of_true ⟨none, rfl, nofun⟩ ⟨hover, ?_⟩
      rintro ⟨n, hn⟩
      cases hn
    | some n =>
      cases hgrid : packGrid4Power grid4 powerDbm with
      | none =>
        refine iff_of_true ⟨none, rfl, nofun⟩ ⟨hover, ?_⟩
        rintro - ⟨m, hm⟩
        cases hm
      | some m =>
        have hread := unpackWsprMessage_packed_iff hout hgrid
        constructor
        · rintro ⟨out, hmessage, hall⟩
          obtain rfl := Except.ok.inj hmessage
          exact ⟨hover, fun _ _ => hread.mp (hall _ rfl)⟩
        · rintro ⟨-, hcond⟩
          refine ⟨some (packBytes n m), rfl, ?_⟩
          intro data hmem
          obtain rfl := Option.some.inj hmem
          exact hread.mpr (hcond ⟨n, rfl⟩ ⟨m, rfl⟩)

/-- Six characters with the digit second, and a power that runs into the square. -/
theorem lost_messages :
    ¬ Survives [65, 49, 66, 67, 68, 69] [70, 78, 50, 48] 30 ∧
      ¬ Survives [75, 54, 66, 80] [70, 78, 50, 48] 128 := by
  constructor
  · rintro ⟨out, hout, -⟩
    cases hout
  · rintro ⟨out, hout, hread⟩
    obtain rfl := Except.ok.inj hout
    exact absurd (hread _ rfl) (by decide +kernel)

end HamsOpen.Wspr
