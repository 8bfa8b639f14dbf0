import HamsOpen.Runner.Run

/-!
# Reservations

What a run reserves is its own: the lock files that it has are those of the instruments that it
reserved or is reserving, and every lock file is had by one run at a time. This is so whatever the
runs do.
-/

namespace HamsOpen.Runner

/-! ### Lock files -/

namespace Run

variable {bench : Bench} {r : Nat} {run run' : Run} {locked locked' : Locks}

/-- The instruments whose lock files a run has: those it reserved, and those a worker got. -/
def names (run : Run) : List String := run.held ++ run.hold.elim [] Hold.got

def files (run : Run) : List LockPath := run.names.map (lockPath run.root)

/-- The lock files that the run has are those of the instruments, each once. -/
structure Owns (r : Nat) (run : Run) (locked : Locks) : Prop where
  locked_iff : ∀ p, locked p = some r ↔ p ∈ run.files
  nodup : run.files.Nodup

/-- A run that takes a step keeps its lock files, and leaves those of others alone. -/
structure Keeps (r : Nat) (run' : Run) (locked locked' : Locks) : Prop where
  owns : run'.Owns r locked'
  others : ∀ p j, j ≠ r → (locked' p = some j ↔ locked p = some j)

/-- Nothing happens to the lock files. -/
theorem Owns.same (h : run.Owns r locked) (hfiles : run'.files = run.files) :
    run'.Keeps r locked locked where
  owns := ⟨by rw [hfiles]; exact h.locked_iff, by rw [hfiles]; exact h.nodup⟩
  others _ _ _ := .rfl

/-- A lock file is taken. -/
theorem Owns.lock (h : run.Owns r locked) {p : LockPath} (hfree : locked p = none)
    (hfiles : run'.files = run.files ++ [p]) :
    run'.Keeps r locked (Function.update locked p (some r)) where
  owns := by
    constructor
    · intro q
      rw [hfiles, List.mem_append, List.mem_singleton, ← h.locked_iff q]
      by_cases hq : q = p
      · simp [hq]
      · rw [Function.update_of_ne hq, or_iff_left hq]
    · rw [hfiles]
      apply h.nodup.append (List.nodup_singleton p)
      intro q hq hp
      obtain rfl := List.mem_singleton.mp hp
      rw [(h.locked_iff q).mpr hq] at hfree
      cases hfree
  others q j hj := by
    by_cases hq : q = p
    · subst hq
      rw [Function.update_self, hfree]
      constructor
      · intro heq
        exact absurd (Option.some.inj heq).symm hj
      · nofun
    · rw [Function.update_of_ne hq]

/-- Lock files are given up. -/
theorem Owns.unlock (h : run.Owns r locked) {gone : List String}
    (hfiles : ∀ p, p ∈ run'.files ↔ p ∈ run.files ∧ p ∉ gone.map (lockPath run.root))
    (hgone : ∀ p ∈ gone.map (lockPath run.root), p ∈ run.files) (hnodup : run'.files.Nodup) :
    run'.Keeps r locked (Runner.unlock run.root gone locked) where
  owns := by
    refine ⟨?_, hnodup⟩
    intro p
    rw [hfiles p, ← h.locked_iff p, Runner.unlock]
    by_cases hp : p ∈ gone.map (lockPath run.root)
    · simp [hp]
    · rw [if_neg hp, and_iff_left hp]
  others p j hj := by
    rw [Runner.unlock]
    by_cases hp : p ∈ gone.map (lockPath run.root)
    · -- what is given up was the run's own
      rw [if_pos hp, (h.locked_iff p).mpr (hgone p hp)]
      constructor
      · nofun
      · intro heq
        exact absurd (Option.some.inj heq).symm hj
    · rw [if_neg hp]

/-- Two instruments that the run has do not share a lock file. -/
theorem Owns.inj (h : run.Owns r locked) {m n : String} (hm : m ∈ run.names) (hn : n ∈ run.names)
    (heq : lockPath run.root m = lockPath run.root n) : m = n :=
  List.inj_on_of_nodup_map h.nodup hm hn heq

theorem Owns.giveUp (h : run.Owns r locked) {i : Nat} {todo got : List String}
    {call : Option ToolCall} (hhold : run.hold = some ⟨i, todo, got, call⟩)
    (hfiles : run'.files = run.held.map (lockPath run.root)) :
    run'.Keeps r locked (Runner.unlock run.root got locked) := by
  have hall : run.files = run.held.map (lockPath run.root) ++ got.map (lockPath run.root) := by
    rw [Run.files, names, hhold, List.map_append]
    rfl
  have hnodup := h.nodup
  rw [hall] at hnodup
  obtain ⟨hheld, -, hdisjoint⟩ := List.nodup_append'.mp hnodup
  apply h.unlock
  · intro p
    rw [hfiles, hall, List.mem_append]
    constructor
    · intro hp
      exact ⟨.inl hp, hdisjoint hp⟩
    · rintro ⟨hp | hp, hnot⟩
      · exact hp
      · exact absurd hp hnot
  · intro p hp
    rw [hall]
    exact List.mem_append_right _ hp
  · rw [hfiles]
    exact hheld

theorem Owns.release (h : run.Owns r locked) (hhold : run.hold = none) (rest : List String)
    {gone : List String} (hgone : ∀ n ∈ gone, n ∈ run.held)
    (hrest : rest.Sublist run.held ∧ ∀ n, n ∈ rest ↔ n ∈ run.held ∧ n ∉ gone)
    (hfiles : run'.files = rest.map (lockPath run.root)) :
    run'.Keeps r locked (Runner.unlock run.root gone locked) := by
  have hnames : run.names = run.held := by
    rw [names, hhold]
    exact List.append_nil _
  have hall : run.files = run.held.map (lockPath run.root) := by rw [Run.files, hnames]
  apply h.unlock
  · intro p
    rw [hfiles, hall]
    constructor
    · intro hp
      obtain ⟨n, hn, rfl⟩ := List.mem_map.mp hp
      obtain ⟨hheld, hkept⟩ := (hrest.2 n).mp hn
      refine ⟨List.mem_map_of_mem hheld, ?_⟩
      intro hlost
      obtain ⟨m, hm, heq⟩ := List.mem_map.mp hlost
      have hmn := h.inj (hnames ▸ hgone m hm) (hnames ▸ hheld) heq
      exact hkept (hmn ▸ hm)
    · rintro ⟨hp, hnot⟩
      obtain ⟨n, hn, rfl⟩ := List.mem_map.mp hp
      apply List.mem_map_of_mem
      exact (hrest.2 n).mpr ⟨hn, fun hlost => hnot (List.mem_map_of_mem hlost)⟩
  · intro p hp
    obtain ⟨n, hn, rfl⟩ := List.mem_map.mp hp
    rw [hall]
    exact List.mem_map_of_mem (hgone n hn)
  · rw [hfiles]
    have hnodup := h.nodup
    rw [hall] at hnodup
    exact hnodup.sublist (hrest.1.map _)

/-- A step that keeps the root, the reservations and the worker that has them. -/
theorem files_congr (hroot : run'.root = run.root) (hheld : run'.held = run.held)
    (hhold : run'.hold = run.hold) : run'.files = run.files := by
  rw [files, names, hroot, hheld, hhold, files, names]

theorem files_grant (i : Nat) (call : Option ToolCall) :
    (run.grant bench i call).files = run.files := by
  cases call <;> exact files_congr rfl rfl rfl

theorem Owns.work (h : run.Owns r locked) {i : Nat} {ok : Bool}
    (hstep : run.work bench i ok locked = some (run', locked')) : run'.Keeps r locked locked' := by
  unfold Run.work at hstep
  split at hstep
  next call hw =>
    cases hstep
    exact h.same (files_congr rfl rfl rfl)
  next call limit hw =>
    split at hstep
    · cases hstep
      exact h.same (files_congr rfl rfl rfl)
    · cases hstep
      exact h.same (files_congr rfl rfl rfl)
  next call hw =>
    split at hstep
    · cases hstep
      exact h.same (files_congr rfl rfl rfl)
    · cases hstep
      exact h.same (files_congr rfl rfl rfl)
  next call tier hw =>
    dsimp only at hstep
    split at hstep
    · cases hstep
      exact h.same (files_congr rfl rfl rfl)
    · cases hstep
      exact h.same (files_congr rfl rfl rfl)
  next names call hw =>
    split at hstep
    · cases hstep
    next hfree =>
      have hnone : run.hold = none := by simpa using hfree
      dsimp only at hstep
      split at hstep
      · cases hstep
        exact h.same (files_grant i call)
      · cases hstep
        apply h.same
        rw [files, Run.names, files, Run.names, hnone]
        rfl
  next call inst hw =>
    cases hstep
    exact h.same (files_congr rfl rfl rfl)
  next hw =>
    cases hstep
    exact h.same (files_congr rfl rfl rfl)
  next names hw =>
    split at hstep
    · cases hstep
    next hfree =>
      have hnone : run.hold = none := by simpa using hfree
      cases hstep
      have hheld : run.held.Nodup := by
        have hnodup := h.nodup.of_map
        rw [Run.names, hnone] at hnodup
        simpa using hnodup
      apply h.release hnone (run.held.diff names)
      · intro n hn
        simpa using (List.mem_filter.mp hn).2
      · refine ⟨List.diff_sublist _ _, ?_⟩
        intro n
        rw [hheld.mem_sdiff_iff, List.mem_filter]
        simp +contextual
      · rw [files, Run.names]
        dsimp only [Run.set]
        rw [hnone]
        simp
  next => cases hstep

theorem Owns.take (h : run.Owns r locked) (hstep : run.take bench r locked = some (run', locked')) :
    run'.Keeps r locked locked' := by
  unfold Run.take at hstep
  split at hstep
  next i got call hhold =>
    cases hstep
    apply h.same
    rw [files_grant, files, Run.names, files, Run.names, hhold]
    simp
  next i n todo got call hhold =>
    split at hstep
    next hfree =>
      cases hstep
      apply h.lock hfree
      rw [files, Run.names, files, Run.names, hhold]
      simp
    next => cases hstep
  next => cases hstep

theorem Owns.abandon (h : run.Owns r locked) (hstep : run.giveUp locked = some (run', locked')) :
    run'.Keeps r locked locked' := by
  unfold Run.giveUp at hstep
  split at hstep
  next i n todo got call hhold =>
    cases hstep
    apply h.giveUp hhold
    rw [files, Run.names]
    simp [Run.set]
  next => cases hstep

theorem Owns.finish (h : run.Owns r locked) {ok : Bool}
    (hstep : run.finish ok locked = some (run', locked')) : run'.Keeps r locked locked' := by
  unfold Run.finish at hstep
  split at hstep
  next ended killed =>
    cases hstep
    exact h.same (files_congr rfl rfl rfl)
  next =>
    cases hstep
    exact h.same (files_congr rfl rfl rfl)
  next =>
    cases hstep
    exact h.same (files_congr rfl rfl rfl)
  next =>
    split at hstep
    · cases hstep
      exact h.same (files_congr rfl rfl rfl)
    · cases hstep
      exact h.same (files_congr rfl rfl rfl)
  next =>
    split at hstep
    · cases hstep
    next hfree =>
      have hnone : run.hold = none := by simpa using hfree
      cases hstep
      apply h.release hnone []
      · exact fun n hn => hn
      · exact ⟨List.nil_sublist _, by simp⟩
      · rw [files, Run.names, hnone]
        rfl
  next =>
    cases hstep
    exact h.same (files_congr rfl rfl rfl)
  next => cases hstep

theorem files_handle (m : Message) (cancelSent : Bool) :
    (run.handle bench m cancelSent).files = run.files := by
  unfold Run.handle
  split
  · exact files_congr rfl rfl rfl
  · split
    · exact files_congr rfl rfl rfl
    · rfl
  · split
    · exact files_congr rfl rfl rfl
    · rfl
  · split
    · rfl
    · exact files_congr rfl rfl rfl
  · exact files_congr rfl rfl rfl

theorem Owns.step (h : run.Owns r locked) {a : Act}
    (hstep : run.step bench r locked a = some (run', locked')) : run'.Keeps r locked locked' := by
  cases a <;> simp only [Run.step] at hstep
  case requestCancel reason =>
    cases hstep
    exact h.same (files_congr rfl rfl rfl)
  case work i ok => exact h.work hstep
  case take => exact h.take hstep
  case giveUp => exact h.abandon hstep
  case finish ok => exact h.finish hstep
  case message m =>
    split at hstep
    · cases hstep
      exact h.same (files_handle m _)
    · cases hstep
  case sendCancel | answer =>
    split at hstep
    · split at hstep
      · cases hstep
        exact h.same (files_congr rfl rfl rfl)
      · cases hstep
    · cases hstep
  case start | kill | late | closed =>
    split at hstep
    · cases hstep
      exact h.same (files_congr rfl rfl rfl)
    · cases hstep

end Run

/-! ### Runs -/

namespace State

variable {bench : Bench} {s t : State}

/-- What a step does: one run takes it, and the others stand still. -/
theorem step_cases {e : Nat × Act} (h : s.step bench e = some t) :
    ∃ run locked, (s.runs e.1).step bench e.1 s.locked e.2 = some (run, locked) ∧
      t = ⟨Function.update s.runs e.1 run, locked⟩ := by
  obtain ⟨⟨run, locked⟩, hrun, rfl⟩ := Option.map_eq_some_iff.mp h
  exact ⟨run, locked, hrun, rfl⟩

/-- Every run owns its lock files. -/
def Owned (s : State) : Prop := ∀ r, (s.runs r).Owns r s.locked

theorem Owned.step (h : s.Owned) {e : Nat × Act} (hstep : s.step bench e = some t) : t.Owned := by
  obtain ⟨run, locked, hrun, rfl⟩ := step_cases hstep
  have hkeeps := (h e.1).step hrun
  intro j
  by_cases hj : j = e.1
  · subst hj
    dsimp only
    rw [Function.update_self]
    exact hkeeps.owns
  · dsimp only
    rw [Function.update_of_ne hj]
    refine ⟨fun p => ?_, (h j).nodup⟩
    rw [hkeeps.others p j hj]
    exact (h j).locked_iff p

theorem owned_of_reach {ok : State → Nat × Act → Prop} (h : (machine bench).Reach ok s) :
    s.Owned := by
  apply h.invariant
  · rintro s ⟨hruns, hlocked⟩ r
    obtain ⟨root, cap, maxCalls, psuOff, hrun⟩ := hruns r
    rw [hrun]
    constructor
    · intro p
      rw [hlocked p]
      exact ⟨nofun, nofun⟩
    · exact List.nodup_nil
  · intro s e t hs _ hstep
    exact hs.step hstep

/-- A reservation is had by one run at a time, of those that share the managed directory. -/
theorem Owned.exclusive (h : s.Owned) {i j : Nat} {n : String}
    (hroot : (s.runs i).root = (s.runs j).root) (hi : n ∈ (s.runs i).held)
    (hj : n ∈ (s.runs j).held) : i = j := by
  have hlocked (r : Nat) (hr : n ∈ (s.runs r).held) :
      s.locked (lockPath (s.runs r).root n) = some r :=
    ((h r).locked_iff _).mpr (List.mem_map_of_mem (List.mem_append_left _ hr))
  have hfirst := hlocked i hi
  rw [hroot, hlocked j hj] at hfirst
  exact (Option.some.inj hfirst).symm

end State

end HamsOpen.Runner
