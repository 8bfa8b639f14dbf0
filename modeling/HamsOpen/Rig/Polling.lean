import HamsOpen.Lib.Machine
import HamsOpen.Rig.Step
import Mathlib

/-!
# The order of the polls

A pass of `poll_once` reads at most one field: the one that has been due the longest. While the rig
transmits, fields other than the transmit state and the power are pushed back by their interval and
the loop goes on. What was read is due again after its new interval.
-/

namespace HamsOpen.Rig

namespace PollSchedule

/-- A turn of the loop of `poll_once`: the loop goes on, or breaks with an entry to read or none. -/
def pollTurn (s : PollSchedule) (now : Instant) (transmitting : Bool) :
    PollSchedule ⊕ Option PollEntry :=
  if s.nextDue.any (· ≤ now) then
    match s.takeDue now transmitting with
    | (some entry, _) => .inr (some entry)
    | (none, poll) => .inl poll
  else .inr none

/-- The loop of `poll_once`, when it ends within `n` turns. -/
def pollOnce (now : Instant) (transmitting : Bool) :
    ℕ → PollSchedule → Option (Option PollEntry × PollSchedule)
  | 0, _ => none
  | n + 1, s => match s.pollTurn now transmitting with
    | .inl poll => pollOnce now transmitting n poll
    | .inr entry => some (entry, s)

/-- The fields that are polled while the rig transmits, or all of them while it does not. -/
def Polled (transmitting : Bool) (field : Field) : Prop :=
  transmitting = true → field = .ptt ∨ field = .power

instance (transmitting : Bool) (field : Field) : Decidable (Polled transmitting field) := by
  unfold Polled
  infer_instance

end PollSchedule

/-- The turns are those of the actor. -/
theorem State.pollStep_eq {σ : Type} (cfg : Setup σ) (s : State σ) (now : Instant)
    (transmitting : Bool) :
    s.pollStep cfg now transmitting = match s.memory.poll.pollTurn now transmitting with
      | .inl poll => s.setMemory { s.memory with poll }
      | .inr (some entry) => s.pollEntry cfg entry none
      | .inr none => s.toSelect cfg := by
  unfold State.pollStep PollSchedule.pollTurn
  split
  · generalize s.memory.poll.takeDue now transmitting = taken
    obtain ⟨_ | entry, poll⟩ := taken <;> rfl
  · rfl

/-- A schedule as the actor runs it, with what was read. -/
structure Polling where
  schedule : PollSchedule
  now : Instant
  transmitting : Bool
  /-- The fields that were read, the latest first. -/
  reads : List Field
  /-- How often `poll_once` was run. -/
  passes : ℕ
  deriving DecidableEq

/-- What happens to a schedule. -/
inductive PollAct
  /-- Time passes, and commands are served. -/
  | tick (d : Duration)
  /-- The cached transmit state. -/
  | key (on : Bool)
  | noteTransceive
  /-- `poll_reserved`, before a command is served: how the read ends, and how long it takes. -/
  | reserved (changed failed : Bool) (d : Duration)
  /-- `poll_once`. -/
  | pass (changed failed : Bool) (d : Duration)
  deriving DecidableEq

namespace Polling

/-- `poll_entry`: a field is read, and the schedule is told how that went. -/
def read (p : Polling) (field : Field) (changed failed : Bool) (d : Duration) : Polling :=
  { p with
    schedule := p.schedule.report field changed failed (p.now + d)
    now := p.now + d
    reads := field :: p.reads }

/-- One step. A pass that does not end is none. -/
def step (c : PollConfig) (p : Polling) : PollAct → Option Polling
  | .tick d => some { p with now := p.now + d }
  | .key on => some { p with transmitting := on }
  | .noteTransceive => some { p with schedule := p.schedule.noteTransceive }
  | .reserved changed failed d =>
    match p.schedule.takeStarved .ptt p.now c.pttReserve with
    | some entry => some (p.read entry.field changed failed d)
    | none => some p
  | .pass changed failed d =>
    match p.schedule.pollOnce p.now p.transmitting (p.schedule.entries.length + 1) with
    | some (some entry, schedule) =>
      some { { p with schedule }.read entry.field changed failed d with passes := p.passes + 1 }
    | some (none, schedule) => some { p with schedule, passes := p.passes + 1 }
    | none => none

end Polling

/-- The polls of a rig with these capabilities, from any moment on. -/
def polling (caps : CapabilitySet) (c : PollConfig) : Machine Polling PollAct where
  init p := ∃ now transmitting, p = ⟨.forCapabilities caps c now, now, transmitting, [], 0⟩
  step p a := p.step c a

/-! ### Entries of one field each -/

namespace PollSchedule

/-- No field has two entries. -/
def Distinct (s : PollSchedule) : Prop := (s.entries.map PollEntry.field).Nodup

variable {s s' : PollSchedule} {field : Field} {f : PollEntry → PollEntry} {now : Instant}
  {transmitting : Bool} {e g : PollEntry}

theorem update_entries (h : s.Distinct) (field : Field) (f : PollEntry → PollEntry) :
    (s.update field f).entries = s.entries.map fun e => if e.field = field then f e else e := by
  unfold Distinct at h
  unfold update
  generalize s.entries = entries at h ⊢
  dsimp only
  induction entries with
  | nil => rfl
  | cons e entries ih =>
    rw [List.map_cons, List.nodup_cons] at h
    rw [List.findIdx?_cons, List.map_cons]
    by_cases he : e.field = field
    · have hrest : entries.map (fun e => if e.field = field then f e else e) = entries := by
        apply List.map_congr_left (g := id) _ |>.trans (List.map_id _)
        intro g hg
        exact if_neg fun hgf => h.1 (List.mem_map.mpr ⟨g, hg, hgf.trans he.symm⟩)
      simp [he, hrest]
    · have hih := ih h.2
      rw [if_neg he]
      simp only [beq_eq_false_iff_ne.mpr he, Bool.false_eq_true, if_false]
      cases hfind : entries.findIdx? fun e => e.field == field with
      | none =>
        rw [hfind] at hih
        exact congrArg (e :: ·) hih
      | some i =>
        rw [hfind] at hih
        exact congrArg (e :: ·) hih

/-- The entries of other fields are left as they are. -/
theorem mem_update_of_ne (h : s.Distinct) (he : e ∈ s.entries) (hne : e.field ≠ field) :
    e ∈ (s.update field f).entries := by
  rw [update_entries h]
  exact List.mem_map.mpr ⟨e, he, if_neg hne⟩

theorem mem_update (h : s.Distinct) (he : e ∈ (s.update field f).entries) :
    e ∈ s.entries ∨ ∃ g ∈ s.entries, e = f g := by
  rw [update_entries h] at he
  obtain ⟨g, hg, rfl⟩ := List.mem_map.mp he
  split
  · exact .inr ⟨g, hg, rfl⟩
  · exact .inl hg

theorem update_fields (h : s.Distinct) (hf : ∀ e, (f e).field = e.field) :
    (s.update field f).entries.map PollEntry.field = s.entries.map PollEntry.field := by
  rw [update_entries h, List.map_map]
  apply List.map_congr_left
  intro e _
  dsimp only [Function.comp]
  split
  · exact hf e
  · rfl

theorem update_length (s : PollSchedule) (field : Field) (f : PollEntry → PollEntry) :
    (s.update field f).entries.length = s.entries.length := by
  unfold update
  dsimp only
  split
  · exact List.length_modify ..
  · rfl

theorem Distinct.update (h : s.Distinct) (hf : ∀ e, (f e).field = e.field) :
    (s.update field f).Distinct := by
  unfold Distinct
  rw [update_fields h hf]
  exact h

/-- What an update takes out of a count. -/
theorem countP_update_le (h : s.Distinct) {P : PollEntry → Bool}
    (hf : ∀ e ∈ s.entries, e.field = field → P (f e) = false) :
    (s.update field f).entries.countP P ≤ s.entries.countP P := by
  rw [update_entries h, List.countP_map]
  apply List.countP_mono_left
  intro e hmem he
  dsimp only [Function.comp] at he
  split at he
  next hfield =>
    rw [hf e hmem hfield] at he
    cases he
  · exact he

theorem countP_update_lt (h : s.Distinct) {P : PollEntry → Bool} (hg : g ∈ s.entries)
    (hP : P g = true) (hf : ∀ e ∈ s.entries, e.field = g.field → P (f e) = false) :
    (s.update g.field f).entries.countP P < s.entries.countP P := by
  have hgone (e : PollEntry) (hmem : e ∈ s.entries)
      (he : P (if e.field = g.field then f e else e) = true) :
      (decide (e.field ≠ g.field) && P e) = true := by
    split at he
    next hfield =>
      rw [hf e hmem hfield] at he
      cases he
    next hfield => simp [he, hfield]
  rw [update_entries h, List.countP_map]
  calc s.entries.countP (P ∘ fun e => if e.field = g.field then f e else e)
      ≤ s.entries.countP fun e => decide (e.field ≠ g.field) && P e :=
        List.countP_mono_left hgone
    _ = (s.entries.filter P).countP fun e => decide (e.field ≠ g.field) := List.countP_filter.symm
    _ < (s.entries.filter P).length :=
        List.countP_lt_length_iff.mpr ⟨g, List.mem_filter.mpr ⟨hg, hP⟩, by simp⟩
    _ = s.entries.countP P := List.countP_eq_length_filter.symm

/-! ### Turns -/

/-- The entry is due, and none has been due for longer. -/
structure Longest (s : PollSchedule) (now : Instant) (g : PollEntry) : Prop where
  mem : g ∈ s.entries
  due : g.due ≤ now
  first : ∀ e ∈ s.entries, e.due ≤ now → g.due ≤ e.due

theorem earliestDue_some (h : s.earliestDue now = some g) : s.Longest now g := by
  have hfirst := List.find?_some h
  have hmem := List.mem_of_find?_eq_some h
  rw [List.mem_filter, decide_eq_true_eq] at hmem
  refine ⟨hmem.1, hmem.2, fun e he hdue => ?_⟩
  have hall := List.all_eq_true.mp hfirst e (List.mem_filter.mpr ⟨he, decide_eq_true hdue⟩)
  exact of_decide_eq_true hall

theorem nextDue_any : s.nextDue.any (· ≤ now) = true ↔ ∃ e ∈ s.entries, e.due ≤ now := by
  unfold nextDue
  constructor
  · intro h
    obtain ⟨due, hdue, hle⟩ := (Option.any_eq_true _ _).mp h
    obtain ⟨e, he, rfl⟩ := List.mem_map.mp (List.min?_mem hdue)
    exact ⟨e, he, of_decide_eq_true hle⟩
  · rintro ⟨e, he, hle⟩
    have hmem : e.due ∈ s.entries.map PollEntry.due := List.mem_map_of_mem he
    obtain ⟨due, hdue⟩ := Option.isSome_iff_exists.mp (List.isSome_min?_of_mem hmem)
    have hmin : due ≤ e.due := (List.min?_eq_some_iff.mp hdue).2 _ hmem
    rw [hdue]
    exact decide_eq_true (Nat.le_trans hmin hle)

theorem earliestDue_isSome (h : ∃ e ∈ s.entries, e.due ≤ now) :
    ∃ g, s.earliestDue now = some g := by
  rw [← nextDue_any] at h
  obtain ⟨due, hdue, hle⟩ := (Option.any_eq_true _ _).mp h
  obtain ⟨hmem, hmin⟩ := List.min?_eq_some_iff.mp hdue
  obtain ⟨g, hg, rfl⟩ := List.mem_map.mp hmem
  rw [← Option.isSome_iff_exists]
  unfold earliestDue
  rw [List.find?_isSome]
  refine ⟨g, List.mem_filter.mpr ⟨hg, hle⟩, List.all_eq_true.mpr fun e he => ?_⟩
  exact decide_eq_true (hmin _ (List.mem_map_of_mem (List.mem_filter.mp he).1))

/-- An entry is pushed back. -/
def push (s : PollSchedule) (now : Instant) (g : PollEntry) : PollSchedule :=
  s.update g.field fun e => { e with due := now + e.interval }

/-- A turn ends the loop when nothing is due or with the entry that is due the longest, or pushes
that back. -/
theorem pollTurn_cases (s : PollSchedule) (now : Instant) (transmitting : Bool) :
    (s.pollTurn now transmitting = .inr none ∧ ∀ e ∈ s.entries, now < e.due) ∨
      ∃ g, s.Longest now g ∧
        (Polled transmitting g.field ∧ s.pollTurn now transmitting = .inr (some g) ∨
          ¬ Polled transmitting g.field ∧ s.pollTurn now transmitting = .inl (s.push now g)) := by
  unfold pollTurn
  by_cases hdue : ∃ e ∈ s.entries, e.due ≤ now
  · right
    obtain ⟨g, hg⟩ := earliestDue_isSome hdue
    refine ⟨g, earliestDue_some hg, ?_⟩
    rw [if_pos (nextDue_any.mpr hdue), takeDue, hg]
    have hpolled : (transmitting && !(g.field == .ptt || g.field == .power)) = true ↔
        ¬ Polled transmitting g.field := by
      simp [Polled]
    dsimp only
    by_cases hp : Polled transmitting g.field
    · left
      rw [if_neg (mt hpolled.mp (not_not_intro hp))]
      exact ⟨hp, rfl⟩
    · right
      rw [if_pos (hpolled.mpr hp)]
      exact ⟨hp, rfl⟩
  · left
    rw [if_neg (mt nextDue_any.mp hdue)]
    refine ⟨rfl, fun e he => ?_⟩
    exact Nat.not_le.mp fun hle => hdue ⟨e, he, hle⟩

/-- What every push keeps holds where the loop breaks. -/
theorem pollOnce_induct {P : PollSchedule → Prop} {n : ℕ} {r : Option PollEntry}
    (hpush : ∀ s g, P s → s.Longest now g → ¬ Polled transmitting g.field → P (s.push now g))
    (h : P s) (hrun : pollOnce now transmitting n s = some (r, s')) :
    P s' ∧ s'.pollTurn now transmitting = .inr r := by
  induction n generalizing s with
  | zero => cases hrun
  | succ n ih =>
    unfold pollOnce at hrun
    obtain ⟨hturn, -⟩ | ⟨g, hg, ⟨-, hturn⟩ | ⟨hp, hturn⟩⟩ := pollTurn_cases s now transmitting
    · rw [hturn] at hrun
      obtain ⟨rfl, rfl⟩ := Prod.mk.inj (Option.some.inj hrun)
      exact ⟨h, hturn⟩
    · rw [hturn] at hrun
      obtain ⟨rfl, rfl⟩ := Prod.mk.inj (Option.some.inj hrun)
      exact ⟨h, hturn⟩
    · rw [hturn] at hrun
      exact ih (hpush s g h hg hp) hrun

/-- The loop ends, within a turn for each entry that is due and one more, when no entry that is not
polled has an interval of zero. -/
theorem pollOnce_ends (h : s.Distinct) {n : ℕ}
    (hpos : ∀ e ∈ s.entries, ¬ Polled transmitting e.field → 0 < e.interval)
    (hn : s.entries.countP (fun e => decide (e.due ≤ now)) < n) :
    ∃ r, pollOnce now transmitting n s = some r := by
  induction n generalizing s with
  | zero => exact absurd hn (Nat.not_lt_zero _)
  | succ n ih =>
    unfold pollOnce
    obtain ⟨hturn, -⟩ | ⟨g, hg, ⟨-, hturn⟩ | ⟨hp, hturn⟩⟩ := pollTurn_cases s now transmitting
    · exact ⟨(none, s), by rw [hturn]⟩
    · exact ⟨(some g, s), by rw [hturn]⟩
    · rw [hturn]
      apply ih
      · exact h.update fun _ => rfl
      · intro e he hpolled
        obtain hold | ⟨e', he', rfl⟩ := mem_update h he
        · exact hpos e hold hpolled
        · exact hpos e' he' hpolled
      · apply Nat.lt_of_lt_of_le _ (Nat.lt_succ_iff.mp hn)
        refine countP_update_lt h hg.mem (decide_eq_true hg.due) fun e he hfield => ?_
        have hinterval : 0 < e.interval := hpos e he (by rwa [hfield])
        have hlater : now < now + e.interval := Nat.lt_add_of_pos_right hinterval
        exact decide_eq_false (Nat.not_le.mpr hlater)

/-! ### The entries that come first -/

/-- How many entries of other fields have been due as long as this one. -/
def ahead (s : PollSchedule) (e : PollEntry) : ℕ :=
  s.entries.countP fun g => decide (g.field ≠ e.field ∧ g.due ≤ e.due)

theorem ahead_lt_length (he : e ∈ s.entries) : s.ahead e < s.entries.length :=
  List.countP_lt_length_iff.mpr ⟨e, he, by simp⟩

/-- What is due later does not come first. -/
theorem ahead_update_le (h : s.Distinct)
    (hlater : ∀ g ∈ s.entries, g.field = field → e.due < (f g).due) :
    (s.update field f).ahead e ≤ s.ahead e := by
  apply countP_update_le h
  intro g hg hfield
  apply decide_eq_false
  have hdue := hlater g hg hfield
  exact fun hboth => Nat.not_le.mpr hdue hboth.2

theorem ahead_update_lt (h : s.Distinct) (hg : g ∈ s.entries) (hne : g.field ≠ e.field)
    (hdue : g.due ≤ e.due)
    (hlater : ∀ g' ∈ s.entries, g'.field = g.field → e.due < (f g').due) :
    (s.update g.field f).ahead e < s.ahead e := by
  refine countP_update_lt h hg (decide_eq_true ⟨hne, hdue⟩) fun g' hg' hfield => ?_
  apply decide_eq_false
  have hlate := hlater g' hg' hfield
  exact fun hboth => Nat.not_le.mpr hlate hboth.2

end PollSchedule

/-! ### Intervals -/

/-- No interval is zero. -/
structure PollConfig.Positive (c : PollConfig) : Prop where
  fastMin : 0 < c.fastMin
  fastMax : 0 < c.fastMax
  slowMin : 0 < c.slowMin
  slowMax : 0 < c.slowMax

namespace PollEntry

variable {c : PollConfig} {e : PollEntry} {now now' : Instant} {changed failed transceive : Bool}

/-- An entry after it was read. -/
def reported (transceive changed failed : Bool) (now : Instant) (e : PollEntry) : PollEntry :=
  let interval :=
    if failed || transceive then e.max
    else if changed then e.min
    else Nat.min (e.interval * 2) e.max
  { e with interval, due := now + interval, polledAt := now }

/-- The interval of an entry is within those of its kind of field, and it is due by then. -/
structure Kept (c : PollConfig) (now : Instant) (e : PollEntry) : Prop where
  range : e.min = c.fastMin ∧ e.max = c.fastMax ∨ e.min = c.slowMin ∧ e.max = c.slowMax
  interval : e.interval ≤ Nat.max e.min e.max
  pos : 0 < e.min → 0 < e.max → 0 < e.interval
  due : e.due ≤ now + e.interval

theorem Kept.mono (h : e.Kept c now) (hle : now ≤ now') : e.Kept c now' :=
  { h with due := Nat.le_trans h.due (Nat.add_le_add_right hle _) }

theorem Kept.interval_pos (h : e.Kept c now) (hc : c.Positive) : 0 < e.interval := by
  obtain ⟨hmin, hmax⟩ | ⟨hmin, hmax⟩ := h.range
  · exact h.pos (hmin ▸ hc.fastMin) (hmax ▸ hc.fastMax)
  · exact h.pos (hmin ▸ hc.slowMin) (hmax ▸ hc.slowMax)

theorem Kept.push (h : e.Kept c now) : Kept c now { e with due := now + e.interval } :=
  { h with due := Nat.le_refl _ }

theorem Kept.reported (h : e.Kept c now) (now' : Instant) :
    (e.reported transceive changed failed now').Kept c now' where
  range := h.range
  interval := by
    unfold PollEntry.reported
    dsimp only
    split
    · exact Nat.le_max_right _ _
    · split
      · exact Nat.le_max_left _ _
      · exact Nat.le_trans (Nat.min_le_right _ _) (Nat.le_max_right _ _)
  pos hmin hmax := by
    have hinterval := h.pos hmin hmax
    unfold PollEntry.reported
    dsimp only
    split
    · exact hmax
    · split
      · exact hmin
      · exact Nat.lt_min.mpr ⟨Nat.mul_pos hinterval (by decide), hmax⟩
  due := Nat.le_refl _

end PollEntry

namespace PollSchedule

theorem report_eq (s : PollSchedule) (field : Field) (changed failed : Bool) (now : Instant) :
    s.report field changed failed now =
      s.update field (PollEntry.reported s.transceiveActive changed failed now) := rfl

/-- The fields of the table are distinct. -/
theorem distinct_forCapabilities (caps : CapabilitySet) (c : PollConfig) (now : Instant) :
    (forCapabilities caps c now).Distinct := by
  unfold Distinct forCapabilities
  dsimp only
  split
  · rw [List.map_map]
    have hsub : ((table.filter fun row => caps.has row.1).map fun row => row.2.1).Sublist
        (table.map fun row => row.2.1) := List.filter_sublist.map _
    exact List.Nodup.sublist hsub (by decide)
  · exact List.nodup_nil

theorem kept_forCapabilities (caps : CapabilitySet) (c : PollConfig) (now : Instant) :
    ∀ e ∈ (forCapabilities caps c now).entries, e.Kept c now := by
  intro e he
  unfold forCapabilities at he
  dsimp only at he
  split at he
  · obtain ⟨⟨capability, field, op, fast⟩, -, rfl⟩ := List.mem_map.mp he
    cases fast with
    | true => exact ⟨.inl ⟨rfl, rfl⟩, Nat.le_max_left _ _, fun h _ => h, Nat.le_add_right _ _⟩
    | false => exact ⟨.inr ⟨rfl, rfl⟩, Nat.le_max_left _ _, fun h _ => h, Nat.le_add_right _ _⟩
  · cases he

end PollSchedule

namespace Polling

variable {c : PollConfig} {p p' : Polling} {a : PollAct} {field : Field} {e : PollEntry}

/-- Every field has one entry, and its interval is one of its kind. -/
structure Scheduled (c : PollConfig) (p : Polling) : Prop where
  distinct : p.schedule.Distinct
  kept : ∀ e ∈ p.schedule.entries, e.Kept c p.now

theorem Scheduled.read (h : p.Scheduled c) (field : Field) (changed failed : Bool) (d : Duration) :
    (p.read field changed failed d).Scheduled c where
  distinct := by
    simp only [Polling.read, PollSchedule.report_eq]
    exact h.distinct.update fun _ => rfl
  kept := by
    simp only [Polling.read, PollSchedule.report_eq]
    intro e he
    obtain hold | ⟨g, hg, rfl⟩ := PollSchedule.mem_update h.distinct he
    · exact (h.kept e hold).mono (Nat.le_add_right _ _)
    · exact (h.kept g hg).reported _

theorem Scheduled.push {s : PollSchedule} (h : Scheduled c { p with schedule := s })
    (g : PollEntry) : Scheduled c { p with schedule := s.push p.now g } where
  distinct := h.distinct.update fun _ => rfl
  kept := by
    intro e he
    obtain hold | ⟨e', he', rfl⟩ := PollSchedule.mem_update h.distinct he
    · exact h.kept e hold
    · exact (h.kept e' he').push

/-- The loop of a pass keeps the schedule. -/
theorem Scheduled.pollOnce (h : p.Scheduled c) {n : ℕ} {r : Option PollEntry} {s : PollSchedule}
    (hrun : p.schedule.pollOnce p.now p.transmitting n = some (r, s)) :
    Scheduled c { p with schedule := s } :=
  (PollSchedule.pollOnce_induct (P := fun s => Scheduled c { p with schedule := s })
    (fun _ g hs _ _ => hs.push g) h hrun).1

theorem Scheduled.step (h : p.Scheduled c) (hstep : p.step c a = some p') : p'.Scheduled c := by
  cases a with
  | tick d =>
    obtain rfl := Option.some.inj hstep
    exact ⟨h.distinct, fun e he => (h.kept e he).mono (Nat.le_add_right _ _)⟩
  | key on =>
    obtain rfl := Option.some.inj hstep
    exact ⟨h.distinct, h.kept⟩
  | noteTransceive =>
    obtain rfl := Option.some.inj hstep
    exact ⟨h.distinct, h.kept⟩
  | reserved changed failed d =>
    simp only [Polling.step] at hstep
    split at hstep
    · obtain rfl := Option.some.inj hstep
      exact h.read _ changed failed d
    · obtain rfl := Option.some.inj hstep
      exact h
  | pass changed failed d =>
    simp only [Polling.step] at hstep
    split at hstep
    next entry schedule hrun =>
      obtain rfl := Option.some.inj hstep
      have hread := (h.pollOnce hrun).read entry.field changed failed d
      exact ⟨hread.distinct, hread.kept⟩
    next schedule hrun =>
      obtain rfl := Option.some.inj hstep
      have hkept := h.pollOnce hrun
      exact ⟨hkept.distinct, hkept.kept⟩
    · cases hstep

end Polling

theorem reachable_scheduled {caps : CapabilitySet} {c : PollConfig} {p : Polling}
    (h : (polling caps c).Reachable p) : p.Scheduled c := by
  refine Machine.Reachable.invariant ?_ (fun p a p' hp hstep => hp.step hstep) h
  rintro p ⟨now, transmitting, rfl⟩
  exact ⟨PollSchedule.distinct_forCapabilities caps c now,
    PollSchedule.kept_forCapabilities caps c now⟩

/-! ### What one step does for a field -/

namespace Polling

variable {c : PollConfig} {p p' : Polling} {a : PollAct} {field : Field} {e g : PollEntry}
  {changed failed : Bool} {d : Duration}

/-- Time passes while a field is read, or what is read is due later. A pass while the rig transmits
pushes fields back, and they are due later too. -/
def Paced (c : PollConfig) (p : Polling) : PollAct → Prop
  | .pass _ _ d => c.Positive ∨ p.transmitting = false ∧ 0 < d
  | .reserved _ _ d => c.Positive ∨ 0 < d
  | _ => True

/-- What is read is due after every entry that was due before. -/
theorem reported_due (h : p.Scheduled c) (hpaced : c.Positive ∨ 0 < d) (hg : g ∈ p.schedule.entries)
    (hdue : e.due ≤ p.now) :
    e.due < (g.reported p.schedule.transceiveActive changed failed (p.now + d)).due := by
  have hkept : (g.reported p.schedule.transceiveActive changed failed (p.now + d)).Kept c
      (p.now + d) := (h.kept g hg).reported (p.now + d)
  have hlater : (g.reported p.schedule.transceiveActive changed failed (p.now + d)).due = p.now + d +
      (g.reported p.schedule.transceiveActive changed failed (p.now + d)).interval := rfl
  rw [hlater]
  obtain hc | hd := hpaced
  · have hread : e.due ≤ p.now + d := Nat.le_trans hdue (Nat.le_add_right _ _)
    exact Nat.lt_of_le_of_lt hread (Nat.lt_add_of_pos_right (hkept.interval_pos hc))
  · have hread : e.due < p.now + d := Nat.lt_of_le_of_lt hdue (Nat.lt_add_of_pos_right hd)
    exact Nat.lt_of_lt_of_le hread (Nat.le_add_right _ _)

/-- Another field was read: the entry is left as it is, and no more entries come before it. -/
theorem read_other (changed failed : Bool) (h : p.Scheduled c) (hpaced : c.Positive ∨ 0 < d)
    (he : e ∈ p.schedule.entries) (hg : g ∈ p.schedule.entries) (hne : g.field ≠ e.field) :
    e ∈ (p.read g.field changed failed d).schedule.entries ∧
      (e.due ≤ p.now →
        (p.read g.field changed failed d).schedule.ahead e ≤ p.schedule.ahead e) ∧
      (e.due ≤ p.now → g.due ≤ e.due →
        (p.read g.field changed failed d).schedule.ahead e < p.schedule.ahead e) := by
  simp only [read, PollSchedule.report_eq]
  refine ⟨PollSchedule.mem_update_of_ne h.distinct he hne.symm, fun hdue => ?_,
    fun hdue hfirst => ?_⟩
  · exact PollSchedule.ahead_update_le h.distinct fun g' hg' _ => reported_due h hpaced hg' hdue
  · exact PollSchedule.ahead_update_lt h.distinct hg hne hfirst
      fun g' hg' _ => reported_due h hpaced hg' hdue

/-- The entries that are pushed back come after the entry of a field that is polled. -/
theorem pollOnce_other (h : p.Scheduled c) (hpos : p.transmitting = true → c.Positive)
    (he : e ∈ p.schedule.entries) (hpolled : PollSchedule.Polled p.transmitting e.field) {n : ℕ}
    {r : Option PollEntry} {s : PollSchedule}
    (hrun : p.schedule.pollOnce p.now p.transmitting n = some (r, s)) :
    e ∈ s.entries ∧ (e.due ≤ p.now → s.ahead e ≤ p.schedule.ahead e) ∧
      s.pollTurn p.now p.transmitting = .inr r := by
  have hpush (s : PollSchedule) (g : PollEntry)
      (hs : Scheduled c { p with schedule := s } ∧ e ∈ s.entries ∧
        (e.due ≤ p.now → s.ahead e ≤ p.schedule.ahead e)) (_ : s.Longest p.now g)
      (hnot : ¬ PollSchedule.Polled p.transmitting g.field) :
      Scheduled c { p with schedule := s.push p.now g } ∧ e ∈ (s.push p.now g).entries ∧
        (e.due ≤ p.now → (s.push p.now g).ahead e ≤ p.schedule.ahead e) := by
    obtain ⟨hs, hmem, hahead⟩ := hs
    have hne : e.field ≠ g.field := fun heq => hnot (heq ▸ hpolled)
    have hkeyed : p.transmitting = true := by
      by_contra hoff
      exact hnot fun hon => absurd hon hoff
    refine ⟨hs.push g, PollSchedule.mem_update_of_ne hs.distinct hmem hne, fun hdue => ?_⟩
    apply Nat.le_trans (PollSchedule.ahead_update_le hs.distinct _) (hahead hdue)
    intro g' hg' _
    have hinterval : 0 < g'.interval := (hs.kept g' hg').interval_pos (hpos hkeyed)
    exact Nat.lt_of_le_of_lt hdue (Nat.lt_add_of_pos_right hinterval)
  obtain ⟨⟨-, hmem, hahead⟩, hturn⟩ :=
    PollSchedule.pollOnce_induct hpush ⟨h, he, fun _ => Nat.le_refl _⟩ hrun
  exact ⟨hmem, hahead, hturn⟩

/-- The entry has not been read, and when it is due, each pass brings it nearer to its turn. -/
structure Waits (e : PollEntry) (p p' : Polling) : Prop where
  mem : e ∈ p'.schedule.entries
  now : p.now ≤ p'.now
  rank : e.due ≤ p.now →
    p'.passes + p'.schedule.ahead e ≤ p.passes + p.schedule.ahead e

theorem pass_waits (h : p.Scheduled c) (hpaced : c.Positive ∨ p.transmitting = false ∧ 0 < d)
    (he : e ∈ p.schedule.entries) (hpolled : PollSchedule.Polled p.transmitting e.field)
    (hstep : p.step c (.pass changed failed d) = some p') :
    p'.reads = e.field :: p.reads ∨ Waits e p p' := by
  have hpos : p.transmitting = true → c.Positive := by
    intro hon
    obtain hc | ⟨hoff, -⟩ := hpaced
    · exact hc
    · exact absurd hon (by rw [hoff]; decide)
  have hread : c.Positive ∨ 0 < d := hpaced.imp_right And.right
  simp only [step] at hstep
  split at hstep
  next g s hrun =>
    obtain rfl := Option.some.inj hstep
    obtain ⟨hmem, hahead, hturn⟩ := pollOnce_other h hpos he hpolled hrun
    have hs := h.pollOnce hrun
    obtain ⟨hnone, -⟩ | ⟨g', hg, ⟨-, hsome⟩ | ⟨-, hpush⟩⟩ :=
      PollSchedule.pollTurn_cases s p.now p.transmitting
    · cases hturn.symm.trans hnone
    · obtain rfl := Option.some.inj (Sum.inr.inj (hturn.symm.trans hsome))
      by_cases hfield : g.field = e.field
      · exact .inl (congrArg (· :: p.reads) hfield)
      · obtain ⟨hmem', -, hlt⟩ := read_other changed failed hs hread hmem hg.mem hfield
        refine .inr ⟨hmem', Nat.le_add_right _ _, fun hdue => ?_⟩
        have hbefore := hahead hdue
        have hafter := hlt hdue (hg.first e hmem hdue)
        dsimp only at hafter ⊢
        omega
    · cases hturn.symm.trans hpush
  next s hrun =>
    obtain rfl := Option.some.inj hstep
    obtain ⟨hmem, hahead, hturn⟩ := pollOnce_other h hpos he hpolled hrun
    refine .inr ⟨hmem, Nat.le_refl _, fun hdue => ?_⟩
    obtain ⟨-, hlate⟩ | ⟨g, -, ⟨-, hsome⟩ | ⟨-, hpush⟩⟩ :=
      PollSchedule.pollTurn_cases s p.now p.transmitting
    · exact absurd hdue (Nat.not_le.mpr (hlate e hmem))
    · cases hturn.symm.trans hsome
    · cases hturn.symm.trans hpush
  · cases hstep

theorem step_waits (h : p.Scheduled c) (hpaced : Paced c p a) (he : e ∈ p.schedule.entries)
    (hpolled : PollSchedule.Polled p.transmitting e.field) (hstep : p.step c a = some p') :
    p'.reads = e.field :: p.reads ∨ Waits e p p' := by
  cases a with
  | tick d =>
    obtain rfl := Option.some.inj hstep
    exact .inr ⟨he, Nat.le_add_right _ _, fun _ => Nat.le_refl _⟩
  | key on =>
    obtain rfl := Option.some.inj hstep
    exact .inr ⟨he, Nat.le_refl _, fun _ => Nat.le_refl _⟩
  | noteTransceive =>
    obtain rfl := Option.some.inj hstep
    exact .inr ⟨he, Nat.le_refl _, fun _ => Nat.le_refl _⟩
  | reserved changed failed d =>
    simp only [step] at hstep
    split at hstep
    next g hstarved =>
      obtain rfl := Option.some.inj hstep
      by_cases hfield : g.field = e.field
      · exact .inl (congrArg (· :: p.reads) hfield)
      · have hg : g ∈ p.schedule.entries := List.mem_of_find?_eq_some hstarved
        obtain ⟨hmem, hle, -⟩ := read_other changed failed h hpaced he hg hfield
        refine .inr ⟨hmem, Nat.le_add_right _ _, fun hdue => ?_⟩
        exact Nat.add_le_add_left (hle hdue) _
    · obtain rfl := Option.some.inj hstep
      exact .inr ⟨he, Nat.le_refl _, fun _ => Nat.le_refl _⟩
  | pass changed failed d => exact pass_waits h hpaced he hpolled hstep

/-- What every step leaves as it is: the number of entries, what was read before, and the transmit
state unless that changes. -/
theorem step_frame (hstep : p.step c a = some p') :
    p'.schedule.entries.length = p.schedule.entries.length ∧
      (∃ more, p'.reads = more ++ p.reads) ∧
      (p'.transmitting = p.transmitting ∨ ∃ on, a = .key on ∧ p'.transmitting = on) := by
  cases a with
  | tick | noteTransceive =>
    obtain rfl := Option.some.inj hstep
    exact ⟨rfl, ⟨[], rfl⟩, .inl rfl⟩
  | key on =>
    obtain rfl := Option.some.inj hstep
    exact ⟨rfl, ⟨[], rfl⟩, .inr ⟨on, rfl, rfl⟩⟩
  | reserved changed failed d =>
    simp only [step] at hstep
    split at hstep
    next g _ =>
      obtain rfl := Option.some.inj hstep
      exact ⟨PollSchedule.update_length .., ⟨[g.field], rfl⟩, .inl rfl⟩
    · obtain rfl := Option.some.inj hstep
      exact ⟨rfl, ⟨[], rfl⟩, .inl rfl⟩
  | pass changed failed d =>
    have hloop {n : ℕ} {r : Option PollEntry} {s : PollSchedule}
        (hrun : p.schedule.pollOnce p.now p.transmitting n = some (r, s)) :
        s.entries.length = p.schedule.entries.length :=
      (PollSchedule.pollOnce_induct (P := fun s => s.entries.length = p.schedule.entries.length)
        (fun _ _ hs _ _ => (PollSchedule.update_length ..).trans hs) rfl hrun).1
    simp only [step] at hstep
    split at hstep
    next g s hrun =>
      obtain rfl := Option.some.inj hstep
      exact ⟨(PollSchedule.update_length ..).trans (hloop hrun), ⟨[g.field], rfl⟩, .inl rfl⟩
    next s hrun =>
      obtain rfl := Option.some.inj hstep
      exact ⟨hloop hrun, ⟨[], rfl⟩, .inl rfl⟩
    · cases hstep

theorem pass_now (hstep : p.step c (.pass changed failed d) = some p') :
    p'.now ≤ p.now + d ∧ p'.passes = p.passes + 1 := by
  simp only [step] at hstep
  split at hstep
  · obtain rfl := Option.some.inj hstep
    exact ⟨Nat.le_refl _, rfl⟩
  · obtain rfl := Option.some.inj hstep
    exact ⟨Nat.le_add_right _ _, rfl⟩
  · cases hstep

/-! ### Runs -/

/-- The field was read since. -/
def ReadSince (p₀ : Polling) (field : Field) (p : Polling) : Prop :=
  ∃ new, p.reads = new ++ p₀.reads ∧ field ∈ new

/-- The rig does not come to transmit, unless the field is polled then too. -/
def Fairly (c : PollConfig) (field : Field) (p : Polling) (a : PollAct) : Prop :=
  Paced c p a ∧ ∀ on, a = .key on → PollSchedule.Polled on field

/-- Besides, no command comes before a poll that is due, and a read takes no longer than
`longest`. -/
def Unhindered (c : PollConfig) (field : Field) (longest : Duration) (p : Polling) (a : PollAct) :
    Prop :=
  Fairly c field p a ∧ match a with
    | .tick d => d = 0 ∨ ∀ e ∈ p.schedule.entries, p.now + d ≤ e.due
    | .reserved _ _ _ => False
    | .pass _ _ d => d ≤ longest
    | _ => True

/-- As long as the field is not read, its entry is left as it is, and what steps past it keep
holds. -/
theorem run_waits {caps : CapabilitySet} {p₀ : Polling} {R : Polling → Prop}
    {ok : Polling → PollAct → Prop} (h₀ : p₀.Scheduled c) (he : e ∈ p₀.schedule.entries)
    (hpolled : PollSchedule.Polled p₀.transmitting e.field) (hR₀ : R p₀)
    (hok : ∀ p a, ok p a → Fairly c e.field p a)
    (hR : ∀ p a p', ok p a → e ∈ p.schedule.entries → p.step c a = some p' → Waits e p p' →
      R p → R p')
    (hrun : ((polling caps c).startedIn p₀).Reach ok p) :
    p.Scheduled c ∧ (ReadSince p₀ e.field p ∨
      e ∈ p.schedule.entries ∧ PollSchedule.Polled p.transmitting e.field ∧ R p) := by
  suffices hall : p.Scheduled c ∧ ∃ new, p.reads = new ++ p₀.reads ∧ (e.field ∈ new ∨
      e ∈ p.schedule.entries ∧ PollSchedule.Polled p.transmitting e.field ∧ R p) by
    obtain ⟨hs, new, hnew, hread | hwaits⟩ := hall
    · exact ⟨hs, .inl ⟨new, hnew, hread⟩⟩
    · exact ⟨hs, .inr hwaits⟩
  induction hrun with
  | init hs =>
    obtain rfl := hs
    exact ⟨h₀, [], rfl, .inr ⟨he, hpolled, hR₀⟩⟩
  | @step p p' a _ hallowed hstep ih =>
    obtain ⟨-, ⟨more, hmore⟩, htransmitting⟩ := step_frame hstep
    obtain ⟨hs, new, hnew, hread | ⟨hmem, hpolled, hRp⟩⟩ := ih
    · exact ⟨hs.step hstep, more ++ new, by rw [hmore, hnew, List.append_assoc],
        .inl (List.mem_append_right _ hread)⟩
    · obtain ⟨hpaced, hkey⟩ := hok p a hallowed
      refine ⟨hs.step hstep, ?_⟩
      obtain hread | hwaits := step_waits hs hpaced hmem hpolled hstep
      · exact ⟨e.field :: new, by rw [hread, hnew]; rfl, .inl (.head _)⟩
      · refine ⟨more ++ new, by rw [hmore, hnew, List.append_assoc],
          .inr ⟨hwaits.mem, ?_, hR p a p' hallowed hmem hstep hwaits hRp⟩⟩
        obtain hsame | ⟨on, rfl, hon⟩ := htransmitting
        · rw [hsame]
          exact hpolled
        · rw [hon]
          exact hkey on rfl

section Again

variable {caps : CapabilitySet} {p₀ : Polling}

/-- A field that is due is read within as many passes as there are entries. -/
theorem read_by_passes (h₀ : p₀.Scheduled c) (he : e ∈ p₀.schedule.entries)
    (hpolled : PollSchedule.Polled p₀.transmitting e.field) (hdue : e.due ≤ p₀.now)
    (hrun : ((polling caps c).startedIn p₀).Reach (Fairly c e.field) p)
    (hpasses : p₀.passes + p₀.schedule.entries.length ≤ p.passes) : ReadSince p₀ e.field p := by
  obtain ⟨-, hread | ⟨-, -, -, hrank⟩⟩ := run_waits
    (R := fun p => e.due ≤ p.now ∧
      p.passes + p.schedule.ahead e ≤ p₀.passes + p₀.schedule.ahead e)
    h₀ he hpolled ⟨hdue, Nat.le_refl _⟩ (fun _ _ h => h)
    (fun p _ p' _ _ _ hwaits ⟨hdue, hrank⟩ =>
      ⟨Nat.le_trans hdue hwaits.now, Nat.le_trans (hwaits.rank hdue) hrank⟩) hrun
  · exact hread
  · have hahead := PollSchedule.ahead_lt_length he
    omega

/-- Where a field may be when it has not been read: it is not due yet, or the reads before its own
have room before the bound. -/
def InTime (p₀ : Polling) (e : PollEntry) (longest : Duration) (p : Polling) : Prop :=
  p.now ≤ e.due ∨ p.now + p.schedule.ahead e * longest ≤
    p₀.now + e.interval + p₀.schedule.entries.length * longest

theorem InTime.step {longest : Duration} (h : InTime p₀ e longest p)
    (hdue : e.due ≤ p₀.now + e.interval)
    (hlength : p.schedule.entries.length = p₀.schedule.entries.length)
    (hok : Unhindered c e.field longest p a) (he : e ∈ p.schedule.entries)
    (hstep : p.step c a = some p') (hwaits : Waits e p p') : InTime p₀ e longest p' := by
  obtain ⟨-, hunhindered⟩ := hok
  cases a with
  | tick d =>
    obtain rfl := Option.some.inj hstep
    obtain rfl | hbefore := hunhindered
    · exact h
    · exact .inl (hbefore e he)
  | key | noteTransceive =>
    obtain rfl := Option.some.inj hstep
    exact h
  | reserved => exact hunhindered.elim
  | pass changed failed d =>
    obtain ⟨hnow, hpasses⟩ := pass_now hstep
    have hread : d ≤ longest := hunhindered
    by_cases hlater : p'.now ≤ e.due
    · exact .inl hlater
    right
    have hnext (k : ℕ) (hk : p'.schedule.ahead e + 1 ≤ k) :
        longest + p'.schedule.ahead e * longest ≤ k * longest := by
      have hmul := Nat.mul_le_mul_right longest hk
      rwa [Nat.succ_mul, Nat.add_comm] at hmul
    obtain hearly | hbound := h
    · -- The entry came to be due while another field was read.
      have hfirst := hnext _ (PollSchedule.ahead_lt_length hwaits.mem)
      rw [(step_frame hstep).1, hlength] at hfirst
      simp only [Instant, Duration] at *
      omega
    · by_cases hearly : p.now ≤ e.due
      · have hfirst := hnext _ (PollSchedule.ahead_lt_length hwaits.mem)
        rw [(step_frame hstep).1, hlength] at hfirst
        simp only [Instant, Duration] at *
        omega
      · have hrank := hwaits.rank (Nat.le_of_not_le hearly)
        have hfewer := hnext (p.schedule.ahead e) (by omega)
        simp only [Instant, Duration] at *
        omega

/-- A field is read when it is due and as many reads have passed as there are entries. -/
theorem read_by_time (h₀ : p₀.Scheduled c) (he : e ∈ p₀.schedule.entries)
    (hpolled : PollSchedule.Polled p₀.transmitting e.field) {longest : Duration}
    (hrun : ((polling caps c).startedIn p₀).Reach (Unhindered c e.field longest) p)
    (hlate : p₀.now + e.interval + p₀.schedule.entries.length * longest < p.now) :
    ReadSince p₀ e.field p := by
  have hdue : e.due ≤ p₀.now + e.interval := (h₀.kept e he).due
  have hstart : InTime p₀ e longest p₀ := by
    have hroom := Nat.mul_le_mul_right longest (Nat.le_of_lt (PollSchedule.ahead_lt_length he))
    exact .inr (Nat.add_le_add (Nat.le_add_right _ _) hroom)
  obtain ⟨-, hread | ⟨-, -, -, hearly | hbound⟩⟩ := run_waits
    (R := fun p => p.schedule.entries.length = p₀.schedule.entries.length ∧ InTime p₀ e longest p)
    h₀ he hpolled ⟨rfl, hstart⟩ (fun _ _ h => h.1)
    (fun p a p' hok hmem hstep hwaits ⟨hlength, h⟩ =>
      ⟨(step_frame hstep).1.trans hlength, h.step hdue hlength hok hmem hstep hwaits⟩) hrun
  · exact hread
  · simp only [Instant, Duration] at *
    omega
  · simp only [Instant, Duration] at *
    omega

end Again

end Polling

/-- In every state that is reached a pass ends, within a turn for each entry and one more, with at
most one field to read: one that is polled then and has been due for the longest. While the rig
transmits this asks for intervals that are not zero. Every interval is at most the larger one of its
kind of field, and a field is due within its interval. As long as the rig does not come to transmit,
or the field is polled then too, a field that is due is read within as many passes as there are
entries, whatever the intervals of the others; and when no command comes before a poll that is due,
it is read before its interval and as many reads as there are entries have passed. -/
theorem poll_pass (caps : CapabilitySet) (c : PollConfig) {p₀ : Polling}
    (h : (polling caps c).Reachable p₀) :
    (∀ now transmitting, (transmitting = true → c.Positive) →
      ∃ r s, p₀.schedule.pollOnce now transmitting (p₀.schedule.entries.length + 1) = some (r, s) ∧
        ∀ g, r = some g → s.Longest now g ∧ PollSchedule.Polled transmitting g.field) ∧
    ∀ e ∈ p₀.schedule.entries,
      (e.min = c.fastMin ∧ e.max = c.fastMax ∨ e.min = c.slowMin ∧ e.max = c.slowMax) ∧
      e.interval ≤ Nat.max e.min e.max ∧ e.due ≤ p₀.now + e.interval ∧
      (PollSchedule.Polled p₀.transmitting e.field →
        (e.due ≤ p₀.now → ∀ p, ((polling caps c).startedIn p₀).Reach (Polling.Fairly c e.field) p →
          p₀.passes + p₀.schedule.entries.length ≤ p.passes → p₀.ReadSince e.field p) ∧
        ∀ longest p,
          ((polling caps c).startedIn p₀).Reach (Polling.Unhindered c e.field longest) p →
          p₀.now + e.interval + p₀.schedule.entries.length * longest < p.now →
          p₀.ReadSince e.field p) := by
  have h₀ := reachable_scheduled h
  constructor
  · intro now transmitting hpos
    have hinterval (e : PollEntry) (he : e ∈ p₀.schedule.entries)
        (hnot : ¬ PollSchedule.Polled transmitting e.field) : 0 < e.interval := by
      apply (h₀.kept e he).interval_pos
      apply hpos
      by_contra hoff
      exact hnot fun hon => absurd hon hoff
    have hturns : p₀.schedule.entries.countP (fun e => decide (e.due ≤ now)) <
        p₀.schedule.entries.length + 1 := Nat.lt_succ_of_le List.countP_le_length
    obtain ⟨⟨r, s⟩, hrun⟩ := PollSchedule.pollOnce_ends h₀.distinct hinterval hturns
    refine ⟨r, s, hrun, ?_⟩
    rintro g rfl
    obtain ⟨-, hturn⟩ := PollSchedule.pollOnce_induct (P := fun _ => True)
      (fun _ _ _ _ _ => trivial) trivial hrun
    obtain ⟨hnone, -⟩ | ⟨g', hg, ⟨hpolled, hsome⟩ | ⟨-, hpush⟩⟩ :=
      PollSchedule.pollTurn_cases s now transmitting
    · cases hturn.symm.trans hnone
    · obtain rfl := Option.some.inj (Sum.inr.inj (hturn.symm.trans hsome))
      exact ⟨hg, hpolled⟩
    · cases hturn.symm.trans hpush
  · intro e he
    have hkept := h₀.kept e he
    refine ⟨hkept.range, hkept.interval, hkept.due, fun hpolled => ⟨?passes, ?time⟩⟩
    case passes =>
      intro hdue p hrun hpasses
      exact Polling.read_by_passes h₀ he hpolled hdue hrun hpasses
    case time =>
      intro longest p hrun hlate
      exact Polling.read_by_time h₀ he hpolled hrun hlate

/-- The intervals that a rig is polled at by default. -/
def PollConfig.default : PollConfig := ⟨true, 250, 2000, 1000, 5000, 2000⟩

/-- The polls of a rig that reads its mode and transmit state. -/
def polledFromStart : Polling :=
  ⟨.forCapabilities [.readMode, .readPtt] .default 0, 0, false, [], 0⟩

theorem polledFromStart_reachable :
    (polling [.readMode, .readPtt] .default).Reachable polledFromStart := .init ⟨0, false, rfl⟩

/-- The mode is due at the start, and is read by one of two passes. -/
theorem poll_pass_mode : (∃ e ∈ polledFromStart.schedule.entries, e.field = .mode ∧ e.due = 0) ∧
    ∀ p, ((polling [.readMode, .readPtt] .default).startedIn polledFromStart).Reach
      (Polling.Fairly .default .mode) p → 2 ≤ p.passes → polledFromStart.ReadSince .mode p :=
  ⟨⟨⟨.mode, .getMode, 250, 2000, 250, 0, 0⟩, by decide, rfl, rfl⟩, fun p hrun hpasses =>
    (((poll_pass _ _ polledFromStart_reachable).2 ⟨.mode, .getMode, 250, 2000, 250, 0, 0⟩
      (by decide)).2.2.2 (by decide)).1 (by decide) p hrun hpasses⟩

/-- While the rig transmits the mode is not read, however long that takes: two passes read the mode
and the transmit state, and from then on three intervals pass with nothing but polls that take no
time. -/
theorem mode_unread : ∃ (before after : List PollAct) (p₀ p : Polling) (e : PollEntry),
    (polling [.readMode, .readPtt] .default).run before polledFromStart = some p₀ ∧
      (polling [.readMode, .readPtt] .default).run after p₀ = some p ∧
      e ∈ p₀.schedule.entries ∧ e.field = .mode ∧ e.interval = 500 ∧
      (∀ a ∈ after, a = .tick 500 ∨ a = .pass false false 0) ∧
      p₀.now + (2 * e.interval + 0) < p.now ∧ p.reads.count .mode = p₀.reads.count .mode := by
  obtain ⟨⟨p₀, p⟩, hruns, hholds⟩ := (Option.any_eq_true _ _).mp (show
    (((polling [.readMode, .readPtt] .default).run
        [.pass false false 0, .pass false false 0, .key true] polledFromStart).bind fun p₀ =>
      ((polling [.readMode, .readPtt] .default).run [.tick 500, .pass false false 0, .tick 500,
        .pass false false 0, .tick 500, .pass false false 0] p₀).map fun p => (p₀, p)).any
      (fun q => decide ((⟨.mode, .getMode, 250, 2000, 500, 500, 0⟩ : PollEntry) ∈
          q.1.schedule.entries ∧ q.1.now + (2 * 500 + 0) < q.2.now ∧
        q.2.reads.count .mode = q.1.reads.count .mode)) = true by decide +kernel)
  obtain ⟨p₀', hbefore, hmap⟩ := Option.bind_eq_some_iff.mp hruns
  obtain ⟨p', hafter, hpair⟩ := Option.map_eq_some_iff.mp hmap
  obtain ⟨rfl, rfl⟩ := Prod.mk.inj hpair
  obtain ⟨hmem, hlate, hcount⟩ := of_decide_eq_true hholds
  exact ⟨_, _, p₀', p', _, hbefore, hafter, hmem, rfl, rfl, by decide, hlate, hcount⟩

end HamsOpen.Rig
