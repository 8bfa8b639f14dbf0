import HamsOpen.Lib.Machine
import HamsOpen.Rig.Op
import Mathlib

/-!
# Setting a mode and a width

When a rig refuses the width, `set_mode` puts the mode back that it read before (`service.rs`). It
waits for every operation, and between two of them other clients and the panel may change the mode.
Who changed it, and when, is kept here beside the rig; the service does not know it.
-/

namespace HamsOpen.Radioctld.SetMode

open Rig (Mode ErrorKind)

/-- A change of the rig's mode, by the `M` of that number or by somebody else. -/
structure Change where
  author : Option ℕ
  mode : Mode
  deriving DecidableEq

/-- The mode after changes. -/
def modeAfter (first : Mode) (changes : List Change) : Mode :=
  (changes.getLast?.map Change.mode).getD first

/-- What became of an `M`: it is done, or answered with the error of one of its operations. -/
inductive Answer
  | done
  | invalid
  | notSet (error : ErrorKind)
  | widthRefused (error : ErrorKind)
  deriving DecidableEq

/-- Which answer an `M` waits for. -/
inductive Stage
  | reading
  | setting
  | widening
  | restoring (error : ErrorKind)
  | answered (answer : Answer)
  deriving DecidableEq

structure Task where
  mode : Mode
  passband : ℤ
  stage : Stage
  /-- The mode that it read, and how many changes there were before that was so. -/
  before : Option Mode
  seen : ℕ
  /-- The mode that it has asked for, and whether the rig has taken it. -/
  asked : Option Mode
  carried : Bool
  deriving DecidableEq

namespace Task

/-- Asks for the mode. -/
def set (t : Task) : Task := { t with stage := .setting, asked := some t.mode, carried := false }

/-- A new command. A mode is read only when a width is to follow. -/
def start (filter : Bool) (mode : Mode) (passband : ℤ) : Task :=
  let t : Task := ⟨mode, passband, .reading, none, 0, none, false⟩
  if passband < -1 ∨ 1000000 < passband then { t with stage := .answered .invalid }
  else if 0 < passband ∧ filter = true then t
  else t.set

def finish (t : Task) (answer : Answer) : Task := { t with stage := .answered answer }

/-- The width is refused: another mode that was there before is put back. -/
def giveUp (t : Task) (error : ErrorKind) : Task :=
  match t.before.filter (· ≠ t.mode) with
  | some old => { t with stage := .restoring error, asked := some old, carried := false }
  | none => t.finish (.widthRefused error)

/-- The operation that the command waits for ends, well or with an error. It ends well only when it
was carried out; how a restoring one ends does not matter. -/
def answer (filter : Bool) (t : Task) (outcome : Option ErrorKind) : Option Task :=
  match t.stage, outcome with
  | .setting, none =>
    if t.carried = false then none
    else if 0 < t.passband ∧ filter = true then
      some { t with stage := .widening, asked := none, carried := false }
    else some (t.finish .done)
  | .setting, some error => some (t.finish (.notSet error))
  | .widening, none => some (t.finish .done)
  | .widening, some error => some (t.giveUp error)
  | .restoring error, outcome =>
    if outcome = none ∧ t.carried = false then none else some (t.finish (.widthRefused error))
  | .reading, _ | .answered _, _ => none

end Task

structure World where
  first : Mode
  changes : List Change
  /-- The last mode that the service heard of, and how many changes there were before that. -/
  cache : Option (Mode × ℕ)
  tasks : List Task
  deriving DecidableEq

inductive Act
  | call (mode : Mode) (passband : ℤ)
  /-- Somebody else changes the mode. -/
  | other (mode : Mode)
  /-- An observation gets to the cache, from when there had been so many changes. -/
  | observe (k : ℕ)
  /-- The mode is read from the cache. -/
  | readCached (i : ℕ)
  /-- The rig tells the mode that it had after so many changes, or none is told. -/
  | told (i k : ℕ)
  | untold (i : ℕ)
  /-- The rig takes the mode that was asked for. It may be asked again, and late. -/
  | carry (i : ℕ)
  | answer (i : ℕ) (outcome : Option ErrorKind)
  deriving DecidableEq

namespace World

variable (w : World)

def mode : Mode := modeAfter w.first w.changes

/-- The mode after the first changes. -/
def modeAt (k : ℕ) : Mode := modeAfter w.first (w.changes.take k)

def change (author : Option ℕ) (mode : Mode) : World :=
  { w with changes := w.changes ++ [⟨author, mode⟩] }

def put (i : ℕ) (t : Task) : World := { w with tasks := w.tasks.set i t }

/-- A command that reads the mode goes on with what it read. -/
def read (i : ℕ) (before : Option Mode) (k : ℕ) : Option World :=
  w.tasks[i]?.bind fun t =>
    if t.stage = .reading ∧ k ≤ w.changes.length then
      some (w.put i { t with before := before, seen := k }.set)
    else none

def step (filter : Bool) : Act → Option World
  | .call mode passband => some { w with tasks := w.tasks ++ [.start filter mode passband] }
  | .other mode => some (w.change none mode)
  | .observe k =>
    if k ≤ w.changes.length then some { w with cache := some (w.modeAt k, k) } else none
  | .readCached i => w.cache.bind fun c => w.read i (some c.1) c.2
  | .told i k => w.read i (some (w.modeAt k)) k
  | .untold i => w.read i none 0
  | .carry i => w.tasks[i]?.bind fun t => t.asked.map fun mode =>
      (w.change (some i) mode).put i { t with carried := true }
  | .answer i outcome => w.tasks[i]?.bind fun t => (t.answer filter outcome).map (w.put i)

/-- The modes that a command has set. -/
def own (i : ℕ) : List Mode := (w.changes.filter (·.author = some i)).map Change.mode

/-- From what it read to its last change of the mode, nobody but the command changes it. -/
def Alone (i k : ℕ) : Prop :=
  ∃ own others, w.changes.drop k = own ++ others ∧ (∀ c ∈ own, c.author = some i) ∧
    ∀ c ∈ others, c.author ≠ some i

/-- The mode before the command first changed it. -/
def modeBefore (i : ℕ) : Mode := modeAfter w.first (w.changes.takeWhile (·.author ≠ some i))

/-- The rig is in the mode that it had before the command changed it, or in one that somebody else
set afterwards. -/
def Kept (i : ℕ) : Prop :=
  w.mode = w.modeBefore i ∨ ∃ c, w.changes.getLast? = some c ∧ c.author ≠ some i

end World

def machine (filter : Bool) : Machine World Act where
  init w := w.changes = [] ∧ w.cache = none ∧ w.tasks = []
  step := fun w => w.step filter

/-! ### What a command has set -/

/-- At every stage the modes that a command has set are first the new one, then the old one. -/
def Task.Owns (t : Task) (own : List Mode) : Prop :=
  match t.stage with
  | .reading => t.asked = none ∧ own = []
  | .setting => t.asked = some t.mode ∧ (∀ m ∈ own, m = t.mode) ∧ (t.carried = true → own ≠ [])
  | .widening =>
    t.asked = none ∧ t.carried = false ∧ (∀ m ∈ own, m = t.mode) ∧ own ≠ []
  | .restoring _ | .answered (.widthRefused _) =>
    ∃ new old, own = new ++ old ∧ new ≠ [] ∧ (∀ m ∈ new, m = t.mode) ∧
      (∀ m ∈ old, t.asked = some m) ∧ (t.asked = none → ∀ m, t.before = some m → m = t.mode) ∧
      (∀ m, t.asked = some m → t.before = some m) ∧ (t.carried = true → old ≠ [])
  | .answered _ => True

/-- A command's own changes come after what it read, which the rig had then. -/
structure World.Sound (w : World) (i : ℕ) (t : Task) : Prop where
  seen : t.seen ≤ w.changes.length
  early : ∀ c ∈ w.changes.take t.seen, c.author ≠ some i
  read : ∀ m, t.before = some m → m = w.modeAt t.seen
  owns : t.Owns (w.own i)

structure World.Valid (w : World) : Prop where
  authors : ∀ c ∈ w.changes, ∀ i, c.author = some i → i < w.tasks.length
  cache : ∀ m k, w.cache = some (m, k) → k ≤ w.changes.length ∧ m = w.modeAt k
  tasks : ∀ i t, w.tasks[i]? = some t → w.Sound i t

section Changes

variable {w : World} {i j : ℕ} {t : Task} {author : Option ℕ} {mode : Mode} {k : ℕ}

theorem modeAfter_append_of_ne_nil {first : Mode} {cs : List Change} (ds : List Change)
    (h : cs ≠ []) : modeAfter first (ds ++ cs) = modeAfter first cs := by
  unfold modeAfter
  rw [List.getLast?_append_of_ne_nil _ h]

theorem World.modeAt_change (h : k ≤ w.changes.length) :
    (w.change author mode).modeAt k = w.modeAt k := by
  unfold World.modeAt
  change modeAfter w.first ((w.changes ++ [_]).take k) = _
  rw [List.take_append_of_le_length h]

theorem World.length_change : w.changes.length ≤ (w.change author mode).changes.length := by
  change _ ≤ (w.changes ++ [_]).length
  rw [List.length_append]
  exact Nat.le_add_right _ _

theorem World.own_change :
    (w.change author mode).own i = w.own i ++ if author = some i then [mode] else [] := by
  unfold World.own
  change (((w.changes ++ [_]).filter _).map _) = _
  rw [List.filter_append, List.map_append]
  by_cases h : author = some i <;> simp [h]

theorem World.own_eq_nil : w.own i = [] ↔ ∀ c ∈ w.changes, c.author ≠ some i := by
  unfold World.own
  rw [List.map_eq_nil_iff, List.filter_eq_nil_iff]
  simp only [decide_eq_true_eq]

/-- A change of the mode keeps a command sound when its own part of the changes stays right. -/
theorem World.Sound.change (h : w.Sound i t) {t' : Task} (hseen : t'.seen = t.seen)
    (hbefore : t'.before = t.before) (howns : t'.Owns ((w.change author mode).own i)) :
    (w.change author mode).Sound i t' where
  seen := by
    rw [hseen]
    exact Nat.le_trans h.seen World.length_change
  early := by
    have htake : (w.change author mode).changes.take t.seen = w.changes.take t.seen :=
      List.take_append_of_le_length h.seen
    rw [hseen, htake]
    exact h.early
  read := by
    rw [hbefore, hseen, World.modeAt_change h.seen]
    exact h.read
  owns := howns

theorem World.Sound.change_other (h : w.Sound i t) (hne : author ≠ some i) :
    (w.change author mode).Sound i t := by
  apply h.change rfl rfl
  rw [World.own_change, if_neg hne, List.append_nil]
  exact h.owns

end Changes

/-- What was set of the old mode goes on with it. -/
theorem owns_restored {own new old : List Mode} {t : Task} {mode : Mode}
    (h : own = new ++ old ∧ new ≠ [] ∧ (∀ m ∈ new, m = t.mode) ∧
      (∀ m ∈ old, t.asked = some m) ∧ (t.asked = none → ∀ m, t.before = some m → m = t.mode) ∧
      (∀ m, t.asked = some m → t.before = some m) ∧ (t.carried = true → old ≠ []))
    (hasked : t.asked = some mode) :
    ∃ new old, own ++ [mode] = new ++ old ∧ new ≠ [] ∧ (∀ m ∈ new, m = t.mode) ∧
      (∀ m ∈ old, t.asked = some m) ∧ (t.asked = none → ∀ m, t.before = some m → m = t.mode) ∧
      (∀ m, t.asked = some m → t.before = some m) ∧ (true = true → old ≠ []) := by
  obtain ⟨rfl, hne, hnew, hold, hnone, hbefore, -⟩ := h
  refine ⟨new, old ++ [mode], List.append_assoc _ _ _, hne, hnew, ?_, hnone, hbefore, ?_⟩
  · refine List.forall_mem_append.mpr ⟨hold, fun m hm => ?_⟩
    rw [List.mem_singleton.mp hm]
    exact hasked
  · exact fun _ => List.append_ne_nil_of_right_ne_nil _ (List.cons_ne_nil _ _)

section Steps

variable {filter : Bool} {w w' : World} {i k : ℕ} {t t' : Task} {mode : Mode}

theorem World.Sound.start (h : ∀ c ∈ w.changes, c.author ≠ some i) (passband : ℤ) :
    w.Sound i (.start filter mode passband) := by
  have hown := World.own_eq_nil.mpr h
  unfold Task.start
  split_ifs
  · exact ⟨Nat.zero_le _, by rintro _ ⟨⟩, by rintro _ ⟨⟩, trivial⟩
  · exact ⟨Nat.zero_le _, by rintro _ ⟨⟩, by rintro _ ⟨⟩, rfl, hown⟩
  · refine ⟨Nat.zero_le _, by rintro _ ⟨⟩, by rintro _ ⟨⟩, rfl, ?_, by rintro ⟨⟩⟩
    rw [hown]
    rintro _ ⟨⟩

/-- Whatever a command waits for ends, it stays sound. -/
theorem World.Sound.answer (h : w.Sound i t) {outcome : Option ErrorKind}
    (ht : t.answer filter outcome = some t') : w.Sound i t' := by
  obtain ⟨hseen, hearly, hread, howns⟩ := h
  unfold Task.answer at ht
  unfold Task.Owns at howns
  split at ht
  next hstage =>
    rw [hstage] at howns
    split_ifs at ht with hcarried
    · cases ht
      exact ⟨hseen, hearly, hread, rfl, rfl, howns.2.1, howns.2.2 (by simpa using hcarried)⟩
    · cases ht
      exact ⟨hseen, hearly, hread, trivial⟩
  next =>
    cases ht
    exact ⟨hseen, hearly, hread, trivial⟩
  next =>
    cases ht
    exact ⟨hseen, hearly, hread, trivial⟩
  next error hstage =>
    rw [hstage] at howns
    obtain ⟨hasked, hcarried, hnew, hne⟩ := howns
    cases ht
    unfold Task.giveUp
    split
    next old hold =>
      have hbefore := (Option.filter_eq_some_iff.mp hold).1
      refine ⟨hseen, hearly, hread, w.own i, [], (List.append_nil _).symm, hne, hnew,
        by rintro _ ⟨⟩, by rintro ⟨⟩, ?_, by rintro ⟨⟩⟩
      intro m hm
      cases hm
      exact hbefore
    next hnone =>
      refine ⟨hseen, hearly, hread, w.own i, [], (List.append_nil _).symm, hne, hnew,
        by rintro _ ⟨⟩, ?_, ?_, ?_⟩
      · intro _ m hm
        change t.before = some m at hm
        rw [hm] at hnone
        change m = t.mode
        simpa using hnone
      · intro m hm
        change t.asked = some m at hm
        rw [hasked] at hm
        cases hm
      · intro hc
        change t.carried = true at hc
        rw [hcarried] at hc
        cases hc
  next error outcome hstage =>
    rw [hstage] at howns
    split_ifs at ht
    cases ht
    exact ⟨hseen, hearly, hread, howns⟩
  all_goals cases ht

/-- A command that has read the mode asks for the new one. -/
theorem World.Sound.goOn (h : w.Sound i t) {before : Option Mode} (hstage : t.stage = .reading)
    (hk : k ≤ w.changes.length) (hbefore : ∀ m, before = some m → m = w.modeAt k) :
    w.Sound i ({ t with before := before, seen := k } : Task).set := by
  have howns := h.owns
  unfold Task.Owns at howns
  rw [hstage] at howns
  have hnone := World.own_eq_nil.mp howns.2
  refine ⟨hk, fun c hc => hnone c (List.mem_of_mem_take hc), hbefore, rfl, ?_, by rintro ⟨⟩⟩
  rw [howns.2]
  rintro _ ⟨⟩

/-- The rig takes the mode that a command asked for. -/
theorem World.Sound.carry (h : w.Sound i t) (hasked : t.asked = some mode) :
    (w.change (some i) mode).Sound i { t with carried := true } := by
  refine h.change (by rfl) (by rfl) ?_
  have howns := h.owns
  rw [World.own_change, if_pos rfl]
  unfold Task.Owns at howns ⊢
  dsimp only
  cases hstage : t.stage with
  | reading =>
    rw [hstage, hasked] at howns
    cases howns.1
  | setting =>
    rw [hstage, hasked] at howns
    obtain ⟨hmode, hall, -⟩ := howns
    refine ⟨hasked.trans hmode, ?_, fun _ => List.append_ne_nil_of_right_ne_nil _ (by simp)⟩
    rw [Option.some.inj hmode]
    exact List.forall_mem_append.mpr ⟨hall, fun m hm => List.mem_singleton.mp hm⟩
  | widening =>
    rw [hstage, hasked] at howns
    cases howns.1
  | restoring error =>
    rw [hstage] at howns
    exact howns.elim fun new howns => howns.elim fun old howns => owns_restored howns hasked
  | answered answer =>
    rw [hstage] at howns
    cases answer with
    | widthRefused error =>
      exact howns.elim fun new howns => howns.elim fun old howns => owns_restored howns hasked
    | done | invalid | notSet _ => trivial

end Steps

/-! ### What every step keeps -/

section Valid

variable {filter : Bool} {w w' : World} {i : ℕ} {t : Task}

/-- What a command has set and read is told by the changes alone. -/
theorem World.Sound.copy (h : w.Sound i t) (cache : Option (Mode × ℕ)) (tasks : List Task) :
    World.Sound ⟨w.first, w.changes, cache, tasks⟩ i t :=
  ⟨h.seen, h.early, h.read, h.owns⟩

theorem World.Valid.put (h : w.Valid) (ht : w.Sound i t) : (w.put i t).Valid where
  authors c hc j hj := by
    change j < (w.tasks.set i t).length
    rw [List.length_set]
    exact h.authors c hc j hj
  cache := h.cache
  tasks j t' ht' := by
    change (w.tasks.set i t)[j]? = some t' at ht'
    have hsound : w.Sound j t' := by
      rw [List.getElem?_set] at ht'
      split_ifs at ht' with heq hlt
      · subst heq
        cases ht'
        exact ht
      · exact h.tasks j t' ht'
    exact hsound.copy _ _

theorem World.Valid.read {before : Option Mode} {k : ℕ} (h : w.Valid)
    (hread : w.read i before k = some w') (hbefore : ∀ m, before = some m → m = w.modeAt k) :
    w'.Valid := by
  obtain ⟨t, ht, hgo⟩ := Option.bind_eq_some_iff.mp hread
  obtain ⟨⟨hstage, hk⟩, heq⟩ := Option.ite_none_right_eq_some.mp hgo
  cases heq
  exact h.put ((h.tasks i t ht).goOn hstage hk hbefore)

theorem World.Valid.change {author : Option ℕ} {mode : Mode} (h : w.Valid)
    (hauthor : ∀ i, author = some i → i < w.tasks.length)
    (htask : ∀ i t, author = some i → w.tasks[i]? = some t →
      (w.change author mode).Sound i t) : (w.change author mode).Valid where
  authors c hc j hj := by
    obtain hc | hc := List.mem_append.mp hc
    · exact h.authors c hc j hj
    · rw [List.mem_singleton.mp hc] at hj
      exact hauthor j hj
  cache m k hcache := by
    obtain ⟨hk, hm⟩ := h.cache m k hcache
    exact ⟨Nat.le_trans hk World.length_change, by rw [World.modeAt_change hk]; exact hm⟩
  tasks j t ht := by
    by_cases hj : author = some j
    · exact htask j t hj ht
    · exact (h.tasks j t ht).change_other hj

theorem World.Valid.step (h : w.Valid) {act : Act} (hstep : w.step filter act = some w') :
    w'.Valid := by
  cases act with
  | call mode passband =>
    cases hstep
    refine ⟨fun c hc i hi => ?_, h.cache, fun i t ht => ?_⟩
    · rw [List.length_append]
      exact Nat.lt_add_right _ (h.authors c hc i hi)
    · by_cases hi : i < w.tasks.length
      · rw [List.getElem?_append_left hi] at ht
        exact (h.tasks i t ht).copy _ _
      · -- nobody has set anything in the name of the new command
        obtain ⟨hlt, heq⟩ := List.getElem?_eq_some_iff.mp ht
        rw [List.length_append, List.length_singleton] at hlt
        obtain rfl : i = w.tasks.length := by omega
        rw [List.getElem_append_right (Nat.le_refl _)] at heq
        simp only [Nat.sub_self, List.getElem_cons_zero] at heq
        rw [← heq]
        have hnone : ∀ c ∈ w.changes, c.author ≠ some w.tasks.length :=
          fun c hc hi => absurd (h.authors c hc _ hi) (Nat.lt_irrefl _)
        exact (World.Sound.start hnone passband).copy _ _
  | other mode =>
    cases hstep
    exact h.change (fun i hi => by cases hi) fun i t hi => by cases hi
  | observe k =>
    obtain ⟨hk, heq⟩ := Option.ite_none_right_eq_some.mp hstep
    cases heq
    refine ⟨h.authors, ?_, fun i t ht => (h.tasks i t ht).copy _ _⟩
    rintro m j ⟨⟩
    exact ⟨hk, rfl⟩
  | readCached i =>
    obtain ⟨c, hcache, hread⟩ := Option.bind_eq_some_iff.mp hstep
    exact h.read hread fun m hm => by
      cases hm
      exact (h.cache c.1 c.2 hcache).2
  | told i k =>
    exact h.read hstep fun m hm => by
      cases hm
      rfl
  | untold i => exact h.read hstep (by rintro _ ⟨⟩)
  | carry i =>
    obtain ⟨t, ht, hcarry⟩ := Option.bind_eq_some_iff.mp hstep
    obtain ⟨mode, hasked, rfl⟩ := Option.map_eq_some_iff.mp hcarry
    have hsound := (h.tasks i t ht).carry hasked
    have hi := (List.getElem?_eq_some_iff.mp ht).1
    -- the command itself is put anew, the others are not touched
    refine ⟨?_, ?_, ?_⟩
    · intro c hc j hj
      change j < (w.tasks.set i _).length
      rw [List.length_set]
      obtain hc | hc := List.mem_append.mp hc
      · exact h.authors c hc j hj
      · rw [List.mem_singleton.mp hc] at hj
        exact Option.some.inj hj ▸ hi
    · intro m k hcache
      obtain ⟨hk, hm⟩ := h.cache m k hcache
      exact ⟨Nat.le_trans hk World.length_change, by
        rw [hm]
        exact (World.modeAt_change hk).symm⟩
    · intro j t' ht'
      change (w.tasks.set i _)[j]? = some t' at ht'
      rw [List.getElem?_set] at ht'
      split_ifs at ht' with heq
      · subst heq
        cases ht'
        exact hsound.copy _ _
      · have hne : some i ≠ some j := fun hsame => heq (Option.some.inj hsame)
        have hother : (w.change (some i) mode).Sound j t' := (h.tasks j t' ht').change_other hne
        exact hother.copy _ _
  | answer i outcome =>
    obtain ⟨t, ht, hanswer⟩ := Option.bind_eq_some_iff.mp hstep
    obtain ⟨t', ht', rfl⟩ := Option.map_eq_some_iff.mp hanswer
    exact h.put ((h.tasks i t ht).answer ht')

theorem valid_of_reachable (h : (machine filter).Reachable w) : w.Valid := by
  refine Machine.Reachable.invariant ?_ (fun _ _ _ hvalid hstep => hvalid.step hstep) h
  rintro w ⟨hchanges, hcache, htasks⟩
  refine ⟨?_, ?_, ?_⟩
  · intro c hc
    rw [hchanges] at hc
    cases hc
  · intro m k hk
    rw [hcache] at hk
    cases hk
  · intro i t ht
    rw [htasks] at ht
    cases ht

end Valid

/-! ### What a refused width leaves -/

section Refused

variable {filter : Bool} {w : World} {i : ℕ} {t : Task} {error : ErrorKind}

/-- **An `M` whose width is refused leaves the rig in the mode that it had before, or in one that
somebody else set afterwards**, when it could read the mode, nobody else changed it from then to the
command's last change, and the rig took the mode that was asked for last. -/
theorem kept_of_alone (h : (machine filter).Reachable w) (ht : w.tasks[i]? = some t)
    (hstage : t.stage = .answered (.widthRefused error)) (hread : t.before ≠ none)
    (halone : w.Alone i t.seen) (hcarried : t.asked = none ∨ t.carried = true) : w.Kept i := by
  obtain ⟨-, hearly, hbefore, howns⟩ := (valid_of_reachable h).tasks i t ht
  obtain ⟨own, others, hdrop, hown, hothers⟩ := halone
  obtain ⟨m, hm⟩ := Option.ne_none_iff_exists'.mp hread
  have hchanges : w.changes = w.changes.take t.seen ++ (own ++ others) := by
    rw [← hdrop, List.take_append_drop]
  unfold Task.Owns at howns
  rw [hstage] at howns
  obtain ⟨new, old, hmodes, hne, hnew, hold, hnone, hasked, hput⟩ := howns
  have hownModes : w.own i = own.map Change.mode := by
    have hearly' : (w.changes.take t.seen).filter (·.author = some i) = [] :=
      List.filter_eq_nil_iff.mpr fun c hc => by simpa using hearly c hc
    have hothers' : others.filter (·.author = some i) = [] :=
      List.filter_eq_nil_iff.mpr fun c hc => by simpa using hothers c hc
    have hown' : own.filter (·.author = some i) = own :=
      List.filter_eq_self.mpr fun c hc => by simpa using hown c hc
    rw [World.own, hchanges, List.filter_append, List.filter_append, hearly', hothers', hown',
      List.nil_append, List.append_nil]
  by_cases hlast : others = []
  · left
    have hownNe : own ≠ [] := by
      rintro rfl
      rw [hownModes] at hmodes
      exact hne (List.append_eq_nil_iff.mp hmodes.symm).1
    rw [hlast, List.append_nil] at hchanges
    have hfirst : w.modeBefore i = m := by
      obtain ⟨c, rest, rfl⟩ := List.exists_cons_of_ne_nil hownNe
      have hc : decide (c.author ≠ some i) = false :=
        decide_eq_false (not_not_intro (hown c List.mem_cons_self))
      have hall : ∀ d ∈ w.changes.take t.seen, decide (d.author ≠ some i) = true :=
        fun d hd => decide_eq_true (hearly d hd)
      rw [hbefore m hm, World.modeBefore, hchanges, List.takeWhile_append_of_pos hall,
        List.takeWhile_cons_of_neg (by rw [hc]; decide), List.append_nil]
      rfl
    -- the last mode that the command set is the one it had read
    have hmode : ∀ d ∈ (new ++ old).getLast?, d = m := by
      intro d hd
      by_cases hback : old = []
      · rw [hback, List.append_nil] at hd
        have hno : t.asked = none := hcarried.resolve_right fun hc => hput hc hback
        rw [hnew d (List.mem_of_mem_getLast? hd), hnone hno m hm]
      · rw [List.getLast?_append_of_ne_nil _ hback] at hd
        have hd' := hasked d (hold d (List.mem_of_mem_getLast? hd))
        exact Option.some.inj (hd'.symm.trans hm)
    rw [hfirst, World.mode, hchanges, modeAfter_append_of_ne_nil _ hownNe]
    have hlast' : (own.map Change.mode).getLast? = (new ++ old).getLast? := by
      rw [← hownModes, hmodes]
    rw [List.getLast?_map] at hlast'
    unfold modeAfter
    rw [hlast']
    obtain ⟨d, hd⟩ := Option.ne_none_iff_exists'.mp fun hnil =>
      hne (List.append_eq_nil_iff.mp (List.getLast?_eq_none_iff.mp hnil)).1
    rw [hd]
    exact hmode d hd
  · right
    obtain ⟨c, hc⟩ := Option.ne_none_iff_exists'.mp (mt List.getLast?_eq_none_iff.mp hlast)
    refine ⟨c, ?_, hothers c (List.mem_of_mem_getLast? hc)⟩
    rw [hchanges, List.getLast?_append_of_ne_nil _ (by simp [hlast]),
      List.getLast?_append_of_ne_nil _ hlast, hc]

/-- A rig in upper sideband that takes one of two commands for FM and refuses its width. -/
def refusal : List Act :=
  [.call .fm 15000, .told 0 0, .carry 0, .answer 0 none, .answer 0 (some .rejected), .carry 0,
    .answer 0 none, .call .am 0, .carry 1]

theorem kept_of_refusal :
    ∃ w, (machine true).run refusal ⟨.usb, [], none, []⟩ = some w ∧ w.Kept 0 := by
  have hinit : (machine true).Reachable ⟨.usb, [], none, []⟩ := .init ⟨rfl, rfl, rfl⟩
  have hreach := Machine.Reachable.of_run hinit (show (machine true).run refusal _ = _ from rfl)
  exact ⟨_, rfl, kept_of_alone (t := ⟨.fm, 15000, .answered (.widthRefused .rejected), some .usb, 0,
    some .usb, true⟩) hreach rfl rfl (by rintro ⟨⟩)
      ⟨[⟨some 0, .fm⟩, ⟨some 0, .usb⟩], [⟨some 1, .am⟩], rfl, by decide, by decide⟩ (.inr rfl)⟩

/-- The mode in the cache was changed at the panel before the command came, or it is changed between
the command's two changes: the mode that is put back is neither the one before nor a later one, or
it takes the panel's away. -/
theorem refused_not_kept :
    (∃ w, (machine true).Reachable w ∧
      (w.tasks[0]?.map Task.stage) = some (.answered (.widthRefused .rejected)) ∧
      w.modeBefore 0 = .cw ∧ w.mode = .usb ∧
      (w.changes.getLast?.map Change.author) = some (some 0)) ∧
    ∃ w, (machine true).Reachable w ∧
      (w.tasks[0]?.map Task.stage) = some (.answered (.widthRefused .rejected)) ∧
      w.changes = [⟨some 0, .fm⟩, ⟨none, .cw⟩, ⟨some 0, .usb⟩] := by
  have hinit : (machine true).Reachable ⟨.usb, [], none, []⟩ := .init ⟨rfl, rfl, rfl⟩
  constructor
  · exact Machine.Reachable.exists_of_run hinit [.observe 0, .other .cw, .call .fm 15000,
      .readCached 0, .carry 0, .answer 0 none, .answer 0 (some .rejected), .carry 0,
      .answer 0 none] (by decide)
  · exact Machine.Reachable.exists_of_run hinit [.call .fm 15000, .told 0 0, .carry 0,
      .answer 0 none, .other .cw, .answer 0 (some .rejected), .carry 0, .answer 0 none] (by decide)

end Refused

end HamsOpen.Radioctld.SetMode
