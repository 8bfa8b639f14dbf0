import HamsOpen.Lib.Decimal
import Mathlib.Data.List.Forall2

/-!
# The dummy-load check

The decision of `load.rs` on what was heard through the supposed dummy load, against what was heard
when the owner attested it. Levels are exact numbers, so the source's question whether one is finite
does not come up. What a report only shows of a reading is left out.
-/

namespace HamsOpen.Hamlib

/-! ### Readings -/

structure AudioObs where
  rmsDbfs : ℚ
  allZero : Bool
  timeStation : Bool
  beatsHz : List ℚ
  deriving DecidableEq

/-- Everything measured at one frequency. -/
structure Reading where
  /-- The station's id, or `tx` for the transmit frequency. -/
  id : String
  frequencyHz : ℚ
  /-- The mean signal strength, and its spread. -/
  meanDb : ℚ
  spreadDb : ℚ
  squelchOpen : Option Bool
  audio : Option AudioObs
  deriving DecidableEq

/-- What was recorded when the owner attested the load, with the settings of the rig. -/
structure Baseline (σ : Type) where
  settings : σ
  readings : List Reading

/-- The margins of the check. -/
structure LoadCheck where
  marginDb : ℚ
  audioMarginDb : ℚ
  maxSpreadDb : ℚ
  deriving DecidableEq

inductive Verdict
  | consistent | refuse | noBaseline
  deriving DecidableEq

structure Decision where
  verdict : Verdict
  reasons : List String
  /-- How many readings were compared with the baseline. -/
  compared : ℕ
  deriving DecidableEq

/-! ### The decision -/

/-- A number with one decimal place. -/
def tenths (x : ℚ) : String := .ofList (Decimal.format 1 x)

/-- A frequency in whole hertz. -/
def hertz (x : ℚ) : String := .ofList (Decimal.format 0 x)

/-- A reason, if there is one. -/
def reason (p : Prop) [Decidable p] (text : String) : List String := if p then [text] else []

/-- A steady note that has no counterpart in the baseline. -/
def newBeat (now base : List ℚ) (tol : ℚ) : Option ℚ :=
  now.find? fun n => !base.any fun b => |n - b| ≤ tol

/-- What speaks against a reading by itself. -/
def evidence (r : Reading) : List String :=
  match r.audio with
  | none => []
  | some a =>
    reason a.allZero (r.id ++ ": the audio input recorded only zeros (muted, unplugged or dead)" ++
      ", so the audio evidence is missing") ++
    reason a.timeStation (r.id ++ " at " ++ hertz r.frequencyHz ++ " Hz: a time station's ticks " ++
      "or tones were heard through the supposed dummy-load path: the path is antenna-like")

/-- What speaks against the audio of a reading. -/
def compareAudio (th : LoadCheck) (id : String) (ra ba : AudioObs) : List String :=
  reason (ra.allZero = false ∧ th.audioMarginDb < ra.rmsDbfs - ba.rmsDbfs)
    (id ++ ": the audio is " ++ tenths (ra.rmsDbfs - ba.rmsDbfs) ++ " dB louder than at the " ++
      "baseline (allowed " ++ tenths th.audioMarginDb ++ " dB)") ++
  match newBeat ra.beatsHz ba.beatsHz 15 with
  | some n => [id ++ ": a steady note at " ++ hertz n ++ " Hz that was not at the baseline: a " ++
      "carrier is being received"]
  | none => []

/-- What speaks against a reading beside its baseline. -/
def compare (th : LoadCheck) (r b : Reading) : List String :=
  let spread := max r.spreadDb b.spreadDb
  if th.maxSpreadDb < spread then
    [r.id ++ ": the readings vary by " ++ tenths spread ++ " dB, more than " ++
      tenths th.maxSpreadDb ++ " dB: too unsteady to tell a load from a signal"]
  else
    let excess := r.meanDb - b.meanDb - th.marginDb - spread
    reason (0 < excess) (r.id ++ " at " ++ hertz r.frequencyHz ++ " Hz: " ++
      tenths (r.meanDb - b.meanDb) ++ " dB over the baseline (allowed " ++ tenths th.marginDb ++
      " dB plus the spread " ++ tenths spread ++ " dB): a signal or noise that a load would not " ++
      "give") ++
    reason (r.squelchOpen = some true ∧ b.squelchOpen ≠ some true)
      (r.id ++ ": the squelch is open and it was closed at the baseline") ++
    match r.audio, b.audio with
    | some ra, some ba => compareAudio th r.id ra ba
    | _, _ => []

/-- The reading that the baseline has for this one. -/
def baselineOf (base : List Reading) (r : Reading) : Option Reading := base.find? (·.id = r.id)

/-- The reasons that the baseline gives, and how many readings it has. -/
def compareAll (th : LoadCheck) (base : List Reading) : List Reading → List String × ℕ
  | [] => ([], 0)
  | r :: now =>
    let rest := compareAll th base now
    match baselineOf base r with
    | none => rest
    | some b => (compare th r b ++ rest.1, rest.2 + 1)

/-- The decision, on readings alone. -/
def Load.decide {σ : Type} [DecidableEq σ] (base : Option (Baseline σ)) (now : List Reading)
    (th : LoadCheck) (settings : σ) : Decision :=
  if now = [] then ⟨.refuse, ["no readings were taken"], 0⟩
  else
    let reasons := now.flatMap evidence
    match base with
    | none =>
      ⟨if reasons = [] then .noBaseline else .refuse,
        reasons ++ ["there is no baseline for this frequency range: the readings are reported " ++
          "only, and the transmit tools need the owner to record a baseline first"], 0⟩
    | some base =>
      let (above, compared) := compareAll th base.readings now
      let reasons := reasons ++
        reason (base.settings ≠ settings)
          ("the baseline was recorded with other rig or check " ++
            "settings: record it again") ++ above ++
        reason (compared < 2) ("only " ++ toString compared ++ " of the " ++ toString now.length ++
          " readings are in the baseline: it does not cover this set of frequencies; record a " ++
          "new baseline")
      if reasons = [] then
        ⟨.consistent, ["the readings match the baseline; that is consistent with a dummy load " ++
          "and is not proof of one"], compared⟩
      else ⟨.refuse, reasons, compared⟩

/-! ### What the reasons say -/

/-- The audio is no louder than the baseline allows, and has no note that is not in it. -/
structure AudioWithin (th : LoadCheck) (ra ba : AudioObs) : Prop where
  level : ra.allZero = true ∨ ra.rmsDbfs - ba.rmsDbfs ≤ th.audioMarginDb
  beats : ∀ n ∈ ra.beatsHz, ∃ b ∈ ba.beatsHz, |n - b| ≤ 15

/-- A reading is no more than its baseline allows. Audio counts where both have it. -/
structure Within (th : LoadCheck) (r b : Reading) : Prop where
  steady : max r.spreadDb b.spreadDb ≤ th.maxSpreadDb
  level : r.meanDb ≤ b.meanDb + th.marginDb + max r.spreadDb b.spreadDb
  squelch : r.squelchOpen = some true → b.squelchOpen = some true
  audio : ∀ ra ∈ r.audio, ∀ ba ∈ b.audio, AudioWithin th ra ba

/-- The audio input works, and no time station was heard in it. -/
def Quiet (r : Reading) : Prop := ∀ a ∈ r.audio, a.allZero = false ∧ a.timeStation = false

@[simp]
theorem reason_eq_nil {p : Prop} [Decidable p] {text : String} : reason p text = [] ↔ ¬ p := by
  unfold reason
  split
  next h => exact iff_of_false (List.cons_ne_nil _ _) (not_not_intro h)
  next h => exact iff_of_true rfl h

theorem newBeat_eq_none {now base : List ℚ} {tol : ℚ} :
    newBeat now base tol = none ↔ ∀ n ∈ now, ∃ b ∈ base, |n - b| ≤ tol := by
  rw [newBeat, List.find?_eq_none]
  apply forall₂_congr
  intro n _
  simp

theorem evidence_eq_nil {r : Reading} : evidence r = [] ↔ Quiet r := by
  unfold evidence Quiet
  cases r.audio with
  | none => exact iff_of_true rfl nofun
  | some a => simp

theorem compareAudio_eq_nil {th : LoadCheck} {id : String} {ra ba : AudioObs} :
    compareAudio th id ra ba = [] ↔ AudioWithin th ra ba := by
  have hlevel : ¬ (ra.allZero = false ∧ th.audioMarginDb < ra.rmsDbfs - ba.rmsDbfs) ↔
      ra.allZero = true ∨ ra.rmsDbfs - ba.rmsDbfs ≤ th.audioMarginDb := by
    rw [not_and_or, Bool.not_eq_false, not_lt]
  rw [compareAudio, List.append_eq_nil_iff, reason_eq_nil, hlevel]
  cases hbeat : newBeat ra.beatsHz ba.beatsHz 15 with
  | none => exact ⟨fun h => ⟨h.1, newBeat_eq_none.mp hbeat⟩, fun h => ⟨h.level, rfl⟩⟩
  | some n =>
    refine iff_of_false (fun h => List.cons_ne_nil _ _ h.2) fun h => ?_
    rw [newBeat_eq_none.mpr h.beats] at hbeat
    cases hbeat

theorem compare_eq_nil {th : LoadCheck} {r b : Reading} : compare th r b = [] ↔ Within th r b := by
  unfold compare
  by_cases hspread : th.maxSpreadDb < max r.spreadDb b.spreadDb
  · -- unsteady readings are not looked at further
    rw [if_pos hspread]
    exact iff_of_false (List.cons_ne_nil _ _) fun h => absurd h.steady (not_le.mpr hspread)
  · have hlevel : ¬ 0 < r.meanDb - b.meanDb - th.marginDb - max r.spreadDb b.spreadDb ↔
        r.meanDb ≤ b.meanDb + th.marginDb + max r.spreadDb b.spreadDb := by
      rw [not_lt, sub_nonpos, sub_le_iff_le_add, sub_le_iff_le_add]
      constructor <;> intro h <;> linarith
    have hsquelch : ¬ (r.squelchOpen = some true ∧ b.squelchOpen ≠ some true) ↔
        (r.squelchOpen = some true → b.squelchOpen = some true) := by
      rw [not_and_not_right]
    have haudio : (match r.audio, b.audio with
        | some ra, some ba => compareAudio th r.id ra ba
        | _, _ => []) = [] ↔ ∀ ra ∈ r.audio, ∀ ba ∈ b.audio, AudioWithin th ra ba := by
      cases r.audio with
      | none => exact iff_of_true rfl nofun
      | some ra =>
        cases b.audio with
        | none => exact iff_of_true rfl fun _ _ => nofun
        | some ba => simp [compareAudio_eq_nil]
    rw [if_neg hspread, List.append_eq_nil_iff, List.append_eq_nil_iff, reason_eq_nil,
      reason_eq_nil, hlevel, hsquelch, haudio]
    constructor
    · rintro ⟨⟨h₁, h₂⟩, h₃⟩
      exact ⟨not_lt.mp hspread, h₁, h₂, h₃⟩
    · intro h
      exact ⟨⟨h.level, h.squelch⟩, h.audio⟩

/-- The baseline speaks against none of the readings that it has. -/
theorem compareAll_eq_nil {th : LoadCheck} {base now : List Reading} :
    (compareAll th base now).1 = [] ↔
      ∀ r ∈ now, ∀ b ∈ baselineOf base r, Within th r b := by
  induction now with
  | nil => exact iff_of_true rfl nofun
  | cons r now ih =>
    rw [List.forall_mem_cons, ← ih, compareAll]
    cases baselineOf base r with
    | none => simp
    | some b => simp [compare_eq_nil]

theorem compareAll_snd {th : LoadCheck} {base now : List Reading} :
    (compareAll th base now).2 = now.countP fun r => (baselineOf base r).isSome := by
  induction now with
  | nil => rfl
  | cons r now ih =>
    rw [compareAll, List.countP_cons]
    cases baselineOf base r with
    | none => simpa using ih
    | some b => simpa using ih

/-! ### When a load is believed -/

section Decide

variable {σ : Type} [DecidableEq σ] {base : Option (Baseline σ)} {now now' : List Reading}
  {th : LoadCheck} {settings : σ}

/-- Readings are consistent with a load exactly when no reading speaks against it by itself, no
reading that the baseline has is above it, and the baseline has two of them at least and is one of
these settings. -/
theorem Load.decide_eq_consistent : (Load.decide base now th settings).verdict = .consistent ↔
    ∃ b, base = some b ∧ (∀ r ∈ now, Quiet r) ∧ b.settings = settings ∧
      (∀ r ∈ now, ∀ was ∈ baselineOf b.readings r, Within th r was) ∧
      2 ≤ now.countP fun r => (baselineOf b.readings r).isSome := by
  unfold Load.decide
  by_cases hnone : now = []
  · -- without readings nothing was compared
    subst hnone
    refine iff_of_false nofun ?_
    rintro ⟨b, -, -, -, -, hcount⟩
    exact absurd hcount (by simp)
  · rw [if_neg hnone]
    cases base with
    | none =>
      refine iff_of_false ?_ (by simp)
      dsimp only
      split <;> nofun
    | some b =>
      have hquiet : now.flatMap evidence = [] ↔ ∀ r ∈ now, Quiet r := by
        rw [List.flatMap_eq_nil_iff]
        exact forall₂_congr fun r _ => evidence_eq_nil
      simp only [Option.some.injEq, exists_eq_left']
      rw [← hquiet, ← compareAll_eq_nil, ← compareAll_snd]
      -- the verdict is that there is no reason
      split
      next h =>
        simp only [List.append_eq_nil_iff, reason_eq_nil, not_not, not_lt] at h
        exact iff_of_true rfl ⟨h.1.1.1, h.1.1.2, h.1.2, h.2⟩
      next h =>
        refine iff_of_false nofun fun hall => h ?_
        simp only [List.append_eq_nil_iff, reason_eq_nil, not_not, not_lt]
        exact ⟨⟨⟨hall.1, hall.2.1⟩, hall.2.2.1⟩, hall.2.2.2⟩

/-- The audio is the same but for being louder or having further notes. -/
structure RaisedAudio (a a' : AudioObs) : Prop where
  allZero : a'.allZero = a.allZero
  timeStation : a'.timeStation = a.timeStation
  level : a.rmsDbfs ≤ a'.rmsDbfs
  beats : ∀ n ∈ a.beatsHz, n ∈ a'.beatsHz

/-- A reading is the same but for more level and for its audio. -/
structure Raised (r r' : Reading) : Prop where
  id : r'.id = r.id
  spread : r'.spreadDb = r.spreadDb
  squelch : r'.squelchOpen = r.squelchOpen
  level : r.meanDb ≤ r'.meanDb
  audio : Option.Rel RaisedAudio r.audio r'.audio

theorem AudioWithin.of_raised {ra ra' ba : AudioObs} (h : AudioWithin th ra' ba)
    (hraised : RaisedAudio ra ra') : AudioWithin th ra ba where
  level := by
    rcases h.level with hzero | hlevel
    · exact .inl (hraised.allZero ▸ hzero)
    · exact .inr ((sub_le_sub_right hraised.level _).trans hlevel)
  beats n hn := h.beats n (hraised.beats n hn)

theorem Within.of_raised {r r' b : Reading} (h : Within th r' b) (hraised : Raised r r') :
    Within th r b where
  steady := hraised.spread ▸ h.steady
  level := by
    have hlevel := h.level
    rw [hraised.spread] at hlevel
    exact hraised.level.trans hlevel
  squelch := hraised.squelch ▸ h.squelch
  audio := by
    intro ra hra ba hba
    have hrel := hraised.audio
    rw [Option.mem_def.mp hra] at hrel
    cases hra' : r'.audio with
    | none =>
      rw [hra'] at hrel
      cases hrel
    | some ra' =>
      rw [hra'] at hrel
      cases hrel with
      | some hrel => exact (h.audio ra' hra' ba hba).of_raised hrel

theorem Quiet.of_raised {r r' : Reading} (h : Quiet r') (hraised : Raised r r') : Quiet r := by
  intro a ha
  have hrel := hraised.audio
  rw [Option.mem_def.mp ha] at hrel
  cases ha' : r'.audio with
  | none =>
    rw [ha'] at hrel
    cases hrel
  | some a' =>
    rw [ha'] at hrel
    cases hrel with
    | some hrel => exact ⟨hrel.allZero ▸ (h a' ha').1, hrel.timeStation ▸ (h a' ha').2⟩

theorem baselineOf_raised {was : List Reading} {r r' : Reading} (h : Raised r r') :
    baselineOf was r' = baselineOf was r := by
  unfold baselineOf
  rw [h.id]

/-- A property of readings passes from raised ones to the ones that were raised. -/
theorem forall_of_raised {P : Reading → Prop} (h : List.Forall₂ Raised now now')
    (hP : ∀ r r', Raised r r' → P r' → P r) (hall : ∀ r ∈ now', P r) : ∀ r ∈ now, P r := by
  induction h with
  | nil => exact nofun
  | cons hraised _ ih =>
    rw [List.forall_mem_cons] at hall ⊢
    exact ⟨hP _ _ hraised hall.1, ih hall.2⟩

theorem countP_raised {was : List Reading} (h : List.Forall₂ Raised now now') :
    (now'.countP fun r => (baselineOf was r).isSome) =
      now.countP fun r => (baselineOf was r).isSome := by
  induction h with
  | nil => rfl
  | cons hraised _ ih => rw [List.countP_cons, List.countP_cons, ih, baselineOf_raised hraised]

/-- More signal never turns a refusal into a pass. -/
theorem Load.consistent_of_raised (h : List.Forall₂ Raised now now')
    (hpass : (Load.decide base now' th settings).verdict = .consistent) :
    (Load.decide base now th settings).verdict = .consistent := by
  obtain ⟨b, hbase, hquiet, hsettings, hwithin, hcount⟩ := Load.decide_eq_consistent.mp hpass
  refine Load.decide_eq_consistent.mpr ⟨b, hbase, ?_, hsettings, ?_, ?_⟩
  · exact forall_of_raised h (fun r r' hraised hr => hr.of_raised hraised) hquiet
  · refine forall_of_raised h (fun r r' hraised hr was hwas => ?_) hwithin
    rw [← baselineOf_raised hraised] at hwas
    exact (hr was hwas).of_raised hraised
  · rwa [← countP_raised h]

end Decide

/-- A load is believed only with a baseline of the same settings, when every reading that it has is
within its limits, two at least were compared, and no reading, with a baseline or without, has a
time station or a dead input; and raised readings pass only where the readings themselves do. -/
theorem Load.sound_and_monotone {σ : Type} [DecidableEq σ] (base : Option (Baseline σ))
    (now : List Reading) (th : LoadCheck) (settings : σ) :
    ((Load.decide base now th settings).verdict = .consistent →
      ∃ b, base = some b ∧ b.settings = settings ∧
        (∀ r ∈ now, ∀ was ∈ baselineOf b.readings r, Within th r was) ∧
        (Load.decide base now th settings).compared =
          (now.countP fun r => (baselineOf b.readings r).isSome) ∧
        2 ≤ (Load.decide base now th settings).compared ∧ ∀ r ∈ now, Quiet r) ∧
    ∀ now', List.Forall₂ Raised now now' →
      (Load.decide base now th settings).verdict ≠ .consistent →
      (Load.decide base now' th settings).verdict ≠ .consistent := by
  constructor
  · intro hpass
    obtain ⟨b, rfl, hquiet, hsettings, hwithin, hcount⟩ := Load.decide_eq_consistent.mp hpass
    have hcompared : (Load.decide (some b) now th settings).compared =
        now.countP fun r => (baselineOf b.readings r).isSome := by
      have hne : now ≠ [] := by
        rintro rfl
        exact absurd hcount (by simp)
      unfold Load.decide
      have hcount : (compareAll th b.readings now).2 =
          now.countP fun r => (baselineOf b.readings r).isSome := compareAll_snd
      rw [if_neg hne, ← hcount]
      dsimp only
      split <;> rfl
    exact ⟨b, rfl, hsettings, hwithin, hcompared, hcompared ▸ hcount, hquiet⟩
  · intro now' hraised hrefused hpass
    exact hrefused (Load.consistent_of_raised hraised hpass)

/-- A signal is heard: the squelch is open, or there is a steady note. -/
def ShowsSignal (r : Reading) : Prop :=
  r.squelchOpen = some true ∨ ∃ a ∈ r.audio, a.beatsHz ≠ []

/-- A silent frequency. -/
def silent (id : String) : Reading := ⟨id, 5000000, -54, 1, some false, none⟩

/-- A strong carrier. -/
def carrier : Reading := ⟨"wwv-10", 10000000, 30, 1, some true, some ⟨-10, false, false, [1000]⟩⟩

theorem within_silent (id : String) : Within ⟨6, 6, 6⟩ (silent id) (silent id) where
  steady := by rw [max_self]; norm_num [silent]
  level := by rw [max_self]; norm_num [silent]
  squelch := nofun
  audio := nofun

theorem quiet_carrier : Quiet carrier := by
  rintro _ ⟨rfl⟩
  exact ⟨rfl, rfl⟩

/-- A strong carrier at a frequency that the baseline does not have passes. -/
theorem Load.unlisted_passes : ¬ ∀ (base : Baseline Unit) (now : List Reading) (th : LoadCheck)
    (settings : Unit), (Load.decide (some base) now th settings).verdict = .consistent →
      (∀ r ∈ now, ∀ was ∈ baselineOf base.readings r, Within th r was) ∧
        ∀ r ∈ now, ShowsSignal r → ∃ was ∈ base.readings, was.id = r.id := by
  intro h
  have hpass : (Load.decide (some ⟨(), [silent "tx", silent "wwv-5"]⟩)
      [silent "tx", silent "wwv-5", carrier] ⟨6, 6, 6⟩ ()).verdict = .consistent := by
    refine Load.decide_eq_consistent.mpr ⟨_, rfl, ?_, rfl, ?_, by decide⟩
    · rw [List.forall_mem_cons, List.forall_mem_cons, List.forall_mem_singleton]
      exact ⟨nofun, nofun, quiet_carrier⟩
    · rw [List.forall_mem_cons, List.forall_mem_cons, List.forall_mem_singleton]
      refine ⟨?_, ?_, nofun⟩
      · rintro _ ⟨rfl⟩
        exact within_silent "tx"
      · rintro _ ⟨rfl⟩
        exact within_silent "wwv-5"
  obtain ⟨was, hwas, hid⟩ := (h _ _ _ _ hpass).2 carrier (by simp) (.inl rfl)
  rw [List.mem_cons, List.mem_singleton] at hwas
  rcases hwas with rfl | rfl
  · exact absurd hid (by decide)
  · exact absurd hid (by decide)

end HamsOpen.Hamlib
