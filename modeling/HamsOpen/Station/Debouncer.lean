import HamsOpen.Station.Model
import Mathlib.Data.List.Chain
import Mathlib.Data.List.Induction

/-!
# The debouncer of an input

The sans-IO half of a debounced input (`channel.rs`): a level is believed only after the samples
have shown it for the debounce time. Times are counted from any fixed start.
-/

namespace HamsOpen.Station

/-- A raw sample of an input. -/
structure Sample where
  now : Duration
  raw : Bool
  deriving DecidableEq

/-- The latest samples, all of one level, span a time. -/
def Shown (wait : Duration) (level : Bool) (samples : List Sample) : Prop :=
  ∃ earlier first held last, samples = earlier ++ first :: held ∧
    (∀ s ∈ first :: held, s.raw = level) ∧ (first :: held).getLast? = some last ∧
    wait ≤ last.now - first.now

/-- A new level is believed only after it has held for the debounce time. -/
structure Debouncer where
  debounce : Duration
  candidate : Option Bool
  /-- When the candidate was first seen. -/
  since : Duration
  /-- The level that is believed. -/
  stable : Option Bool
  deriving DecidableEq

namespace Debouncer

/-- A debouncer with nothing believed yet. -/
def new (debounce : Duration) : Debouncer := ⟨debounce, none, 0, none⟩

/-- The candidate after a sample. -/
def consider (d : Debouncer) (s : Sample) : Debouncer :=
  if d.candidate ≠ some s.raw then { d with candidate := some s.raw, since := s.now } else d

/-- Feeds one raw sample, and gives the new level that is believed when this sample made one. -/
def sample (d : Debouncer) (s : Sample) : Option Bool × Debouncer :=
  let d := d.consider s
  if d.stable ≠ some s.raw ∧ d.debounce ≤ s.now - d.since then
    (some s.raw, { d with stable := some s.raw })
  else (none, d)

/-- The debouncer after samples. -/
def after (d : Debouncer) (samples : List Sample) : Debouncer :=
  samples.foldl (fun d s => (d.sample s).2) d

/-- What is reported of samples. -/
def reports (d : Debouncer) : List Sample → List Bool
  | [] => []
  | s :: samples => (d.sample s).1.toList ++ (d.sample s).2.reports samples

variable {d : Debouncer} {s : Sample} {samples : List Sample} {level : Bool} {wait : Duration}

@[simp] theorem after_nil (d : Debouncer) : d.after [] = d := rfl

theorem after_concat (d : Debouncer) (samples : List Sample) (s : Sample) :
    d.after (samples ++ [s]) = ((d.after samples).sample s).2 := by
  unfold after
  rw [List.foldl_append]
  rfl

theorem reports_concat (d : Debouncer) (samples : List Sample) (s : Sample) :
    d.reports (samples ++ [s]) = d.reports samples ++ ((d.after samples).sample s).1.toList := by
  induction samples generalizing d with
  | nil => exact List.append_nil _
  | cons s' samples ih =>
    calc d.reports (s' :: samples ++ [s])
        = (d.sample s').1.toList ++ (d.sample s').2.reports (samples ++ [s]) := rfl
      _ = (d.sample s').1.toList ++ ((d.sample s').2.reports samples ++
            (((d.sample s').2.after samples).sample s).1.toList) := by rw [ih]
      _ = d.reports (s' :: samples) ++ ((d.after (s' :: samples)).sample s).1.toList :=
          (List.append_assoc ..).symm

/-- What a sample does: it reports its level when that is new and was held, and it is the candidate
from then on. -/
theorem sample_cases (d : Debouncer) (s : Sample) :
    (d.sample s).2.debounce = d.debounce ∧ (d.sample s).2.candidate = some s.raw ∧
      (d.sample s).2.since = (if d.candidate = some s.raw then d.since else s.now) ∧
      ((d.sample s).1 = some s.raw ∧ (d.sample s).2.stable = some s.raw ∧
          d.stable ≠ some s.raw ∧ d.debounce ≤ s.now - (d.sample s).2.since ∨
        (d.sample s).1 = none ∧ (d.sample s).2.stable = d.stable ∧
          (d.stable = some s.raw ∨ s.now - (d.sample s).2.since < d.debounce)) := by
  have hconsider : (d.consider s).debounce = d.debounce ∧ (d.consider s).candidate = some s.raw ∧
      (d.consider s).stable = d.stable ∧
      (d.consider s).since = if d.candidate = some s.raw then d.since else s.now := by
    unfold consider
    by_cases h : d.candidate = some s.raw
    · simp [h]
    · simp [h]
  obtain ⟨hdebounce, hcandidate, hstable, hsince⟩ := hconsider
  unfold sample
  dsimp only
  split
  next h =>
    rw [hstable, hdebounce] at h
    exact ⟨hdebounce, hcandidate, hsince, .inl ⟨rfl, rfl, h.1, h.2⟩⟩
  next h =>
    rw [hstable, hdebounce, not_and_or, not_not, Nat.not_le] at h
    exact ⟨hdebounce, hcandidate, hsince, .inr ⟨rfl, hstable, h⟩⟩

@[simp] theorem debounce_after : (d.after samples).debounce = d.debounce := by
  induction samples using List.reverseRecOn with
  | nil => rfl
  | append_singleton samples s ih =>
    rw [after_concat]
    exact (sample_cases _ s).1.trans ih

/-- The level that is believed is the last report. -/
theorem stable_after (debounce : Duration) (samples : List Sample) :
    ((new debounce).after samples).stable = ((new debounce).reports samples).getLast? := by
  induction samples using List.reverseRecOn with
  | nil => rfl
  | append_singleton samples s ih =>
    rw [after_concat, reports_concat]
    obtain ⟨-, -, -, ⟨hreport, hstable, -⟩ | ⟨hreport, hstable, -⟩⟩ :=
      sample_cases ((new debounce).after samples) s
    · rw [hreport, hstable]
      exact (List.getLast?_concat ..).symm
    · rw [hreport, hstable, ih]
      exact congrArg List.getLast? (List.append_nil _).symm

/-- The reports alternate. -/
theorem isChain_reports (debounce : Duration) (samples : List Sample) :
    ((new debounce).reports samples).IsChain (· ≠ ·) := by
  induction samples using List.reverseRecOn with
  | nil => exact .nil
  | append_singleton samples s ih =>
    rw [reports_concat]
    obtain ⟨-, -, -, ⟨hreport, -, hnew, -⟩ | ⟨hreport, -⟩⟩ :=
      sample_cases ((new debounce).after samples) s
    · rw [hreport]
      refine List.isChain_append.mpr ⟨ih, .singleton _, fun x hx y hy => ?_⟩
      obtain rfl : s.raw = y := by simpa using hy
      rw [stable_after] at hnew
      rintro rfl
      exact hnew hx
    · rw [hreport]
      exact (List.append_nil ((new debounce).reports samples)).symm ▸ ih

/-- The candidate is what the latest samples show, from when it was first seen. -/
theorem candidate_after (debounce : Duration) (samples : List Sample) {level : Bool}
    (h : ((new debounce).after samples).candidate = some level) :
    ∃ earlier first held, samples = earlier ++ first :: held ∧
      (∀ s ∈ first :: held, s.raw = level) ∧
      ((new debounce).after samples).since = first.now := by
  induction samples using List.reverseRecOn with
  | nil => cases h
  | append_singleton samples s ih =>
    rw [after_concat] at h ⊢
    obtain ⟨-, hcandidate, hsince, -⟩ := sample_cases ((new debounce).after samples) s
    obtain rfl : s.raw = level := Option.some.inj (hcandidate.symm.trans h)
    by_cases hsame : ((new debounce).after samples).candidate = some s.raw
    · obtain ⟨earlier, first, held, rfl, hheld, hfirst⟩ := ih hsame
      refine ⟨earlier, first, held ++ [s], List.append_assoc .., ?_, ?_⟩
      · intro s' hs'
        rw [← List.cons_append] at hs'
        rcases List.mem_append.mp hs' with hs' | hs'
        · exact hheld s' hs'
        · exact congrArg Sample.raw (List.mem_singleton.mp hs')
      · rw [hsince, if_pos hsame]
        exact hfirst
    · -- another level begins anew
      refine ⟨samples, s, [], rfl, ?_, ?_⟩
      · exact fun s' hs' => congrArg Sample.raw (List.mem_singleton.mp hs')
      · rw [hsince, if_neg hsame]

/-- What a sample reports was shown for the debounce time. -/
theorem sample_shown (debounce : Duration)
    (h : (((new debounce).after samples).sample s).1 = some level) :
    Shown debounce level (samples ++ [s]) := by
  obtain ⟨-, hcandidate, -, ⟨hreport, -, -, hheld⟩ | ⟨hreport, -⟩⟩ :=
    sample_cases ((new debounce).after samples) s
  swap
  · cases hreport.symm.trans h
  obtain rfl : s.raw = level := Option.some.inj (hreport.symm.trans h)
  rw [← after_concat] at hcandidate hheld
  rw [debounce_after] at hheld
  obtain ⟨earlier, first, held, hsamples, hraw, hsince⟩ := candidate_after debounce _ hcandidate
  refine ⟨earlier, first, held, s, hsamples, hraw, ?_, ?_⟩
  · have hlast := congrArg List.getLast? hsamples
    rw [List.getLast?_concat, List.getLast?_append_cons] at hlast
    exact hlast.symm
  · rw [← hsince]
    exact hheld

/-- The candidate was first seen no later than the samples end. -/
theorem since_le (debounce : Duration) {t : Duration} (h : ∀ s ∈ samples, s.now ≤ t) :
    ((new debounce).after samples).since ≤ t := by
  induction samples using List.reverseRecOn with
  | nil => exact Nat.zero_le t
  | append_singleton samples s ih =>
    obtain ⟨-, -, hsince, -⟩ := sample_cases ((new debounce).after samples) s
    rw [after_concat, hsince]
    split
    · exact ih fun s' hs' => h s' (List.mem_append_left _ hs')
    · exact h s (List.mem_append_right _ (.head _))

/-- A level that is held stays the candidate from its first sample on. -/
theorem candidate_of_held (debounce : Duration) {earlier held : List Sample} {first : Sample}
    (hearlier : ∀ s ∈ earlier, s.now ≤ first.now) (hraw : ∀ s ∈ first :: held, s.raw = level) :
    ((new debounce).after (earlier ++ first :: held)).candidate = some level ∧
      ((new debounce).after (earlier ++ first :: held)).since ≤ first.now := by
  induction held using List.reverseRecOn with
  | nil =>
    obtain ⟨-, hcandidate, hsince, -⟩ := sample_cases ((new debounce).after earlier) first
    rw [after_concat]
    refine ⟨hcandidate.trans (congrArg some (hraw first (.head _))), ?_⟩
    rw [hsince]
    split
    · exact since_le debounce hearlier
    · exact Nat.le_refl _
  | append_singleton held s ih =>
    obtain ⟨ihcandidate, ihsince⟩ := ih fun s' hs' =>
      hraw s' (List.mem_append_left [s] hs')
    have hs : s.raw = level := hraw s (List.mem_append_right (first :: held) (.head _))
    obtain ⟨-, hcandidate, hsince, -⟩ :=
      sample_cases ((new debounce).after (earlier ++ first :: held)) s
    have hconcat : earlier ++ first :: (held ++ [s]) = earlier ++ first :: held ++ [s] := by
      rw [List.append_assoc, List.cons_append]
    rw [hconcat, after_concat]
    refine ⟨hcandidate.trans (congrArg some hs), ?_⟩
    rw [hsince, hs, if_pos ihcandidate]
    exact ihsince

/-- What is shown for the debounce time is the last report. -/
theorem reports_of_shown (debounce : Duration) (h : samples.Pairwise fun s s' => s.now ≤ s'.now)
    (hshown : Shown debounce level samples) :
    ((new debounce).reports samples).getLast? = some level := by
  obtain ⟨earlier, first, held, last, rfl, hraw, hlast, hwait⟩ := hshown
  obtain ⟨-, -, hbefore⟩ := List.pairwise_append.mp h
  obtain ⟨-, hsince⟩ := candidate_of_held debounce (fun s hs => hbefore s hs first (.head _)) hraw
  obtain ⟨l, hl⟩ := List.getLast?_eq_some_iff.mp hlast
  have hlevel : last.raw = level :=
    hraw last (hl ▸ List.mem_append_right _ (.head _))
  rw [← stable_after, hl, ← List.append_assoc, after_concat]
  rw [hl, ← List.append_assoc, after_concat] at hsince
  obtain ⟨-, -, -, ⟨-, hstable, -⟩ | ⟨-, hstable, hstill⟩⟩ :=
    sample_cases ((new debounce).after (earlier ++ l)) last
  · exact hstable.trans (congrArg some hlevel)
  · rcases hstill with hbelieved | hshort
    · exact hstable.trans (hbelieved.trans (congrArg some hlevel))
    · -- it has been the candidate for at least as long as it was shown
      rw [debounce_after] at hshort
      have hlong : debounce ≤ last.now - first.now := hwait
      exact absurd (hlong.trans (Nat.sub_le_sub_left hsince last.now)) (Nat.not_le.mpr hshort)

/-- Of samples in the order of their times, a level is reported only when it was shown for the
debounce time, the reports alternate, and a level that was shown that long is the last report. -/
theorem reports_exactly (debounce : Duration) (samples : List Sample)
    (h : samples.Pairwise fun s s' => s.now ≤ s'.now) :
    (∀ earlier s, earlier ++ [s] <+: samples → ∀ level,
      (((new debounce).after earlier).sample s).1 = some level →
        Shown debounce level (earlier ++ [s])) ∧
    ((new debounce).reports samples).IsChain (· ≠ ·) ∧
    ∀ earlier, earlier <+: samples → ∀ level, Shown debounce level earlier →
      ((new debounce).reports earlier).getLast? = some level :=
  ⟨fun _ _ _ _ hreport => sample_shown debounce hreport, isChain_reports debounce samples,
    fun _ hprefix _ hshown => reports_of_shown debounce (h.sublist hprefix.sublist) hshown⟩

theorem reports_exactly_glitch :
    (∀ earlier s, earlier ++ [s] <+: [⟨0, true⟩, ⟨15, false⟩, ⟨20, true⟩, ⟨41, true⟩] →
      ∀ level, (((new 20).after earlier).sample s).1 = some level →
        Shown 20 level (earlier ++ [s])) ∧
    ((new 20).reports [⟨0, true⟩, ⟨15, false⟩, ⟨20, true⟩, ⟨41, true⟩]).IsChain (· ≠ ·) ∧
    ∀ earlier, earlier <+: [⟨0, true⟩, ⟨15, false⟩, ⟨20, true⟩, ⟨41, true⟩] →
      ∀ level, Shown 20 level earlier →
        ((new 20).reports earlier).getLast? = some level :=
  reports_exactly 20 [⟨0, true⟩, ⟨15, false⟩, ⟨20, true⟩, ⟨41, true⟩] (by decide)

end Debouncer

end HamsOpen.Station
