import HamsOpen.Runner.Reserved

/-!
# A run drives what it reserved

A call that may change an instrument is made with the instrument reserved, as long as the program
releases nothing that a call under way has, and the run gives up its reservations with no such call
under way. The safe-state call that it makes necessary is made with the instrument reserved, unless
the program released it since. And a reserve that fails leaves the run with what it had, whatever the
runs do.
-/

namespace HamsOpen.Runner

/-- The instrument that a call has reserved for it. -/
def Worker.uses : Worker → Option String
  | granted _ inst => inst
  | calling _ inst => inst
  | _ => none

/-- The instrument that is reserved for a safe-state call. -/
def Entry.uses (bench : Bench) (e : Entry) : Option String :=
  if e.granted then bench.instrumentOf e.action.tool e.action.args else none

/-- The instruments that a worker is about to release. -/
def Run.released (run : Run) (i : Nat) : List String :=
  match run.workers[i]? with
  | some (.releasing names) => names
  | _ => []

/-- The supervisor is about to give up the reservations. -/
def Sup.isWritten : Sup → Bool
  | written _ => true
  | _ => false

/-- The reservations are given up. -/
def Sup.givenUp : Sup → Bool
  | freed _ => true
  | gone => true
  | _ => false

namespace State

/-- The program releases nothing that a call under way has, and the reservations of a run are given up
with no such call under way. -/
def Careful (s : State) : Nat × Act → Prop
  | (r, .work i _) => ∀ n ∈ (s.runs r).released i, ∀ w ∈ (s.runs r).workers, w.uses ≠ some n
  | (r, .finish _) => (s.runs r).sup.isWritten = true → ∀ w ∈ (s.runs r).workers, w.uses = none
  | _ => True

instance (s : State) (e : Nat × Act) : Decidable (s.Careful e) := by
  obtain ⟨r, a⟩ := e
  cases a <;> unfold Careful <;> infer_instance

/-- What is said of calls. -/
structure Driven (bench : Bench) (s : State) : Prop where
  /-- A call above read-only is made with its instrument reserved, if it can be told. -/
  calls : ∀ r call inst, .calling call inst ∈ (s.runs r).workers →
    ∀ tier, bench.allow call.1 (s.runs r).cap = .ok tier → Tier.ReadOnly.rank < tier.rank →
    ∀ n, bench.instrumentOf call.1 call.2 = some n → n ∈ (s.runs r).held
  /-- So is a safe-state call, when a call that makes it necessary went ahead, and the program did not
  release the instrument since. -/
  safe : ∀ r state a todo tries, (s.runs r).sup = .safing state (a :: todo) tries true →
    ∀ e ∈ (s.runs r).touched, e.action = a → ∀ n, e.uses bench = some n → n ∈ (s.runs r).held

/-- What is said of reservations. -/
structure Exclusive (bench : Bench) (s : State) : Prop where
  /-- No two runs that share the managed directory have an instrument reserved. -/
  exclusive : ∀ i j n, (s.runs i).root = (s.runs j).root → n ∈ (s.runs i).held →
    n ∈ (s.runs j).held → i = j
  /-- A reserve that fails leaves the run with what it had. -/
  failed : ∀ r t, s.step bench (r, .giveUp) = some t → (t.runs r).held = (s.runs r).held ∧
    ∀ p, t.locked p = some r → ∃ n ∈ (s.runs r).held, p = lockPath (s.runs r).root n

end State

/-! ### What a worker goes by -/

/-- What holds of a worker in a run with these reservations. -/
def Worker.Fits (bench : Bench) (cap : Tier) (held : List String) : Worker → Prop
  | allowed call tier => bench.allow call.1 cap = .ok tier
  | wanting names (some call) => ∀ n, bench.instrumentOf call.1 call.2 = some n → n ∈ names
  | granted call inst | calling call inst =>
    (∀ n, inst = some n → n ∈ held) ∧ ∀ tier, bench.allow call.1 cap = .ok tier →
      Tier.ReadOnly.rank < tier.rank → inst = bench.instrumentOf call.1 call.2
  | _ => True

/-- Only what a worker uses has to be reserved. -/
theorem Worker.Fits.of_uses {bench : Bench} {cap : Tier} {held held' : List String} {w : Worker}
    (h : w.Fits bench cap held) (huses : ∀ n, w.uses = some n → n ∈ held') :
    w.Fits bench cap held' := by
  cases w with
  | granted call inst => exact ⟨huses, h.2⟩
  | calling call inst => exact ⟨huses, h.2⟩
  | allowed call tier => exact h
  | wanting names call =>
    cases call with
    | none => trivial
    | some call => exact h
  | _ => trivial

theorem Worker.Fits.uses_mem {bench : Bench} {cap : Tier} {held : List String} {w : Worker}
    (h : w.Fits bench cap held) {n : String} (hn : w.uses = some n) : n ∈ held := by
  cases w with
  | granted call inst => exact h.1 n hn
  | calling call inst => exact h.1 n hn
  | _ => cases hn

/-- More is reserved. -/
theorem Worker.Fits.mono {bench : Bench} {cap : Tier} {held held' : List String} {w : Worker}
    (h : w.Fits bench cap held) (hsub : ∀ n ∈ held, n ∈ held') : w.Fits bench cap held' :=
  h.of_uses fun n hn => hsub n (h.uses_mem hn)

namespace Run

variable {bench : Bench} {r : Nat} {run run' : Run} {locked locked' : Locks}

/-- What holds between the steps of a careful run. -/
structure Sound (bench : Bench) (run : Run) : Prop where
  workers : ∀ w ∈ run.workers, w.Fits bench run.cap run.held
  taking : ∀ h call, run.hold = some h → h.call = some call →
    ∀ n, bench.instrumentOf call.1 call.2 = some n → n ∈ run.held ∨ n ∈ h.todo ∨ n ∈ h.got
  /-- The instruments of the safe-state calls are reserved until the reservations are given up. -/
  undo : run.sup.givenUp = false →
    ∀ e ∈ run.touched, ∀ n, e.uses bench = some n → n ∈ run.held

/-- What happens beside the workers, the reservations and the safe-state calls. -/
theorem Sound.beside (h : run.Sound bench) (cancel : Option String) (ask : Bool)
    (calls callErrors made : Nat) (states results : List RunState) :
    { run with
      cancel := cancel
      ask := ask
      calls := calls
      callErrors := callErrors
      made := made
      states := states
      results := results }.Sound bench :=
  ⟨h.workers, h.taking, h.undo⟩

theorem Sound.set (h : run.Sound bench) (i : Nat) {w : Worker}
    (hw : w.Fits bench run.cap run.held) : (run.set i w).Sound bench where
  workers v hv := by
    rcases List.mem_or_eq_of_mem_set hv with hold | rfl
    · exact h.workers v hold
    · exact hw
  taking := h.taking
  undo := h.undo

theorem Sound.spawn (h : run.Sound bench) {w : Worker} (hw : w.Fits bench run.cap run.held) :
    (run.spawn w).Sound bench where
  workers v hv := by
    rcases List.mem_append.mp hv with hold | hnew
    · exact h.workers v hold
    · rw [List.mem_singleton.mp hnew]
      exact hw
  taking := h.taking
  undo := h.undo

/-- A safe-state call is added, for a call that has not gone ahead yet. -/
theorem Sound.record (h : run.Sound bench) (action : Option Action) :
    { run with touched := record run.touched action }.Sound bench := by
  cases action with
  | none => exact h
  | some a =>
    by_cases hany : run.touched.any (·.action.same a) = true
    · rw [Runner.record, if_pos hany]
      exact h
    · rw [Runner.record, if_neg hany]
      refine ⟨h.workers, h.taking, ?_⟩
      intro hsup e he n hn
      rcases List.mem_append.mp he with hold | hnew
      · exact h.undo hsup e hold n hn
      · obtain rfl := List.mem_singleton.mp hnew
        cases hn

theorem same_uses {a b : Action} (h : a.same b = true) :
    bench.instrumentOf a.tool a.args = bench.instrumentOf b.tool b.args := by
  obtain ⟨htool, hargs⟩ := Bool.and_eq_true_iff.mp h
  rw [of_decide_eq_true htool, of_decide_eq_true hargs]

/-- A call that makes a safe-state call necessary goes ahead, with its instrument reserved. -/
theorem Sound.mark (h : run.Sound bench) {call : ToolCall}
    (hcall : ∀ n, bench.instrumentOf call.1 call.2 = some n → n ∈ run.held) :
    { run with
      touched := mark run.touched
        (actionFor call.1 call.2 run.safeStatePsuOff) }.Sound bench := by
  cases haction : actionFor call.1 call.2 run.safeStatePsuOff with
  | none => exact h
  | some a =>
    refine ⟨h.workers, h.taking, ?_⟩
    intro hsup e he n hn
    obtain ⟨e, hmem, rfl⟩ := List.mem_map.mp he
    by_cases hsame : e.action.same a = true
    · -- this safe-state call is for the instrument of the call
      rw [if_pos hsame] at hn
      apply hcall
      rw [← instrumentOf_actionFor bench haction, ← same_uses hsame]
      exact hn
    · rw [if_neg hsame] at hn
      exact h.undo hsup e hmem n hn

/-- A worker has the reservations that it wanted. -/
theorem Sound.grant (h : run.Sound bench) (i : Nat) {call : Option ToolCall}
    (hcall : ∀ c, call = some c → ∀ n, bench.instrumentOf c.1 c.2 = some n → n ∈ run.held) :
    (run.grant bench i call).Sound bench := by
  cases call with
  | none => exact h.set i trivial
  | some c =>
    have hmark := h.mark (hcall c rfl)
    apply hmark.set i
    exact ⟨hcall c rfl, fun _ _ _ => rfl⟩

/-- More is reserved, or is being reserved. -/
theorem Sound.hold (h : run.Sound bench) {held : List String} {hold : Option Hold}
    (hheld : ∀ n ∈ run.held, n ∈ held)
    (htaking : ∀ h call, hold = some h → h.call = some call →
      ∀ n, bench.instrumentOf call.1 call.2 = some n → n ∈ held ∨ n ∈ h.todo ∨ n ∈ h.got) :
    { run with held := held, hold := hold }.Sound bench where
  workers w hw := (h.workers w hw).mono hheld
  taking := htaking
  undo hsup e he n hn := hheld n (h.undo hsup e he n hn)

/-- Instruments are released that no call under way has. -/
theorem Sound.release (h : run.Sound bench) (hnone : run.hold = none) {names : List String}
    (hcareful : ∀ n ∈ names, ∀ w ∈ run.workers, w.uses ≠ some n) :
    { run with
      held := run.held.diff names
      touched := forget bench names run.touched }.Sound bench where
  workers w hw := by
    apply (h.workers w hw).of_uses
    intro n hn
    apply List.mem_diff_of_mem ((h.workers w hw).uses_mem hn)
    intro hlost
    exact hcareful n hlost w hw hn
  taking h' call hhold := by
    rw [show run.hold = some h' from hhold] at hnone
    cases hnone
  undo hsup e he n hn := by
    obtain ⟨e, hmem, rfl⟩ := List.mem_map.mp he
    by_cases hany : (bench.instrumentOf e.action.tool e.action.args).any (· ∈ names) = true
    · rw [if_pos hany] at hn
      cases hn
    · rw [if_neg hany] at hn
      apply List.mem_diff_of_mem (h.undo hsup e hmem n hn)
      intro hlost
      apply hany
      rw [Entry.uses] at hn
      split at hn
      · rw [hn]
        exact decide_eq_true hlost
      · cases hn

/-! ### Steps -/

theorem Sound.work (h : run.Sound bench) {i : Nat} {ok : Bool}
    (hcareful : ∀ n ∈ run.released i, ∀ w ∈ run.workers, w.uses ≠ some n)
    (hstep : run.work bench i ok locked = some (run', locked')) : run'.Sound bench := by
  unfold Run.work at hstep
  split at hstep
  next call hw =>
    cases hstep
    exact h.set i trivial
  next call limit hw =>
    split at hstep
    · cases hstep
      exact h.set i trivial
    · cases hstep
      have hset : (run.set i (.counted call)).Sound bench := h.set i trivial
      exact hset.beside _ _ _ _ _ _ _
  next call hw =>
    split at hstep
    next tier hallow =>
      cases hstep
      exact h.set i hallow
    next =>
      cases hstep
      have hset : (run.set i .gone).Sound bench := h.set i trivial
      exact hset.beside _ _ _ _ _ _ _
  next call tier hw =>
    have hallow : bench.allow call.1 run.cap = .ok tier := h.workers _ (List.mem_of_getElem? hw)
    have hrecord := h.record (actionFor call.1 call.2 run.safeStatePsuOff)
    dsimp only at hstep
    split at hstep
    next name hname =>
      cases hstep
      apply hrecord.set i
      intro n hn
      split at hname
      · rw [hname] at hn
        rw [Option.some.inj hn]
        exact List.mem_singleton_self _
      · cases hname
    next hname =>
      cases hstep
      apply hrecord.set i
      refine ⟨nofun, ?_⟩
      intro tier' hallow' hrank
      obtain rfl : tier = tier' := Except.ok.inj (hallow.symm.trans hallow')
      rw [if_pos hrank] at hname
      exact hname.symm
  next names call hw =>
    have hwanting := h.workers _ (List.mem_of_getElem? hw)
    split at hstep
    · cases hstep
    next hfree =>
      have hnone : run.hold = none := by simpa using hfree
      dsimp only at hstep
      split at hstep
      next hneed =>
        cases hstep
        apply h.grant i
        rintro c rfl n hn
        by_contra hnot
        have hmem : n ∈ names.filter (· ∉ run.held) :=
          List.mem_filter.mpr ⟨hwanting n hn, by simpa using hnot⟩
        rw [hneed] at hmem
        cases hmem
      next =>
        cases hstep
        have hset : (run.set i .taking).Sound bench := h.set i trivial
        apply hset.hold
        · exact fun n hn => hn
        · intro h' c hhold hc n hn
          obtain rfl := Option.some.inj hhold
          obtain rfl : call = some c := hc
          by_cases hheld : n ∈ run.held
          · exact .inl hheld
          · right
            left
            dsimp only
            rw [List.mem_insertionSort, List.mem_dedup, List.mem_filter]
            exact ⟨hwanting n hn, by simpa using hheld⟩
  next call inst hw =>
    cases hstep
    have hgranted := h.workers _ (List.mem_of_getElem? hw)
    have hset : (run.set i (.calling call inst)).Sound bench := h.set i hgranted
    exact hset.beside _ _ _ _ _ _ _
  next =>
    cases hstep
    have hset : (run.set i .gone).Sound bench := h.set i trivial
    exact hset.beside _ _ _ _ _ _ _
  next names hw =>
    split at hstep
    · cases hstep
    next hfree =>
      have hnone : run.hold = none := by simpa using hfree
      cases hstep
      have hreleased : run.released i = names := by rw [released, hw]
      rw [hreleased] at hcareful
      exact (h.release hnone hcareful).set i trivial
  next => cases hstep

theorem Sound.take (h : run.Sound bench)
    (hstep : run.take bench r locked = some (run', locked')) : run'.Sound bench := by
  unfold Run.take at hstep
  split at hstep
  next i got call hhold =>
    cases hstep
    have hgot : { run with held := run.held ++ got, hold := none }.Sound bench := by
      apply h.hold
      · exact fun n hn => List.mem_append_left _ hn
      · nofun
    apply hgot.grant i
    rintro c rfl n hn
    rcases h.taking _ c hhold rfl n hn with hheld | htodo | hmem
    · exact List.mem_append_left _ hheld
    · cases htodo
    · exact List.mem_append_right _ hmem
  next i m todo got call hhold =>
    split at hstep
    next =>
      cases hstep
      have hlock : { run with
          held := run.held
          hold := some ⟨i, todo, got ++ [m], call⟩ }.Sound bench := by
        apply h.hold
        · exact fun n hn => hn
        · intro h' c hsome hc n hn
          obtain rfl := Option.some.inj hsome
          obtain rfl : call = some c := hc
          rcases h.taking _ c hhold rfl n hn with hheld | htodo | hmem
          · exact .inl hheld
          · rcases List.mem_cons.mp htodo with rfl | hrest
            · exact .inr (.inr (List.mem_append_right _ (List.mem_singleton_self _)))
            · exact .inr (.inl hrest)
          · exact .inr (.inr (List.mem_append_left _ hmem))
      exact hlock
    next => cases hstep
  next => cases hstep

theorem Sound.giveUp (h : run.Sound bench) (hstep : run.giveUp locked = some (run', locked')) :
    run'.Sound bench := by
  unfold Run.giveUp at hstep
  split at hstep
  next i n todo got call hhold =>
    cases hstep
    have hgone : { run with held := run.held, hold := none }.Sound bench := by
      apply h.hold
      · exact fun n hn => hn
      · nofun
    have hset : ({ run with held := run.held, hold := none }.set i .gone).Sound bench :=
      hgone.set i trivial
    exact hset.beside _ _ _ _ _ _ _
  next => cases hstep

/-- The supervisor goes on, and gives up no reservations. -/
theorem Sound.sup (h : run.Sound bench) (sup : Sup) (hkept : run.sup.givenUp = false) :
    { run with sup := sup }.Sound bench :=
  ⟨h.workers, h.taking, fun _ => h.undo hkept⟩

theorem Sound.finish (h : run.Sound bench) {ok : Bool}
    (hcareful : run.sup.isWritten = true → ∀ w ∈ run.workers, w.uses = none)
    (hstep : run.finish ok locked = some (run', locked')) : run'.Sound bench := by
  unfold Run.finish at hstep
  split at hstep
  next ended killed hsup =>
    cases hstep
    exact h.sup _ (by rw [hsup]; rfl)
  next state tries busy hsup =>
    cases hstep
    exact (h.sup (.written state) (by rw [hsup]; rfl)).beside _ _ _ _ _ _ _
  next hsup =>
    cases hstep
    exact h.sup _ (by rw [hsup]; rfl)
  next hsup =>
    split at hstep
    · cases hstep
      exact h.sup _ (by rw [hsup]; rfl)
    · cases hstep
      exact h.sup _ (by rw [hsup]; rfl)
  next state hsup =>
    split at hstep
    · cases hstep
    next hfree =>
      cases hstep
      have hnone : run.hold = none := by simpa using hfree
      rw [hsup] at hcareful
      constructor
      · intro w hw
        apply (h.workers w hw).of_uses
        intro n hn
        rw [hcareful rfl w hw] at hn
        cases hn
      · intro h' call hhold
        rw [show run.hold = some h' from hhold] at hnone
        cases hnone
      · nofun
  next state hsup =>
    cases hstep
    exact ⟨h.workers, h.taking, nofun⟩
  next => cases hstep

theorem Sound.handle (h : run.Sound bench) {cancelSent : Bool} {ended : Option String}
    (hsup : run.sup = .loop cancelSent ended) (m : Message) :
    (run.handle bench m cancelSent).Sound bench := by
  unfold Run.handle
  split
  · exact h.spawn trivial
  · split
    · exact h.spawn trivial
    · exact h
  · split
    · exact h.spawn trivial
    · exact h
  · split
    · exact h
    · exact h.beside _ _ _ _ _ _ _
  · exact h.sup _ (by rw [hsup]; rfl)

theorem Sound.step (h : run.Sound bench) {a : Act}
    (hrelease : ∀ i ok, a = .work i ok → ∀ n ∈ run.released i, ∀ w ∈ run.workers, w.uses ≠ some n)
    (hfinish : ∀ ok, a = .finish ok → run.sup.isWritten = true → ∀ w ∈ run.workers, w.uses = none)
    (hstep : run.step bench r locked a = some (run', locked')) : run'.Sound bench := by
  cases a <;> simp only [Run.step] at hstep
  case requestCancel reason =>
    cases hstep
    exact h.beside _ _ _ _ _ _ _
  case work i ok => exact h.work (hrelease i ok rfl) hstep
  case take => exact h.take hstep
  case giveUp => exact h.giveUp hstep
  case finish ok => exact h.finish (hfinish ok rfl) hstep
  case message m =>
    split at hstep
    next hsup =>
      cases hstep
      exact h.handle hsup m
    next => cases hstep
  case start =>
    split at hstep
    next hsup =>
      cases hstep
      exact (h.sup (.loop false none) (by rw [hsup]; rfl)).beside _ _ _ _ _ _ _
    next => cases hstep
  case sendCancel =>
    split at hstep
    next hsup =>
      split at hstep
      · cases hstep
        exact (h.sup (.loop true none) (by rw [hsup]; rfl)).beside _ _ _ _ _ _ _
      · cases hstep
    next => cases hstep
  case answer =>
    split at hstep
    next hsup =>
      split at hstep
      · cases hstep
        exact h.beside _ _ _ _ _ _ _
      · cases hstep
    next => cases hstep
  case kill | late | closed =>
    split at hstep
    next hsup =>
      cases hstep
      exact h.sup _ (by rw [hsup]; rfl)
    next => cases hstep

end Run

/-! ### Runs -/

namespace State

variable {bench : Bench} {s t : State}

theorem sound_of_reach (h : (machine bench).Reach Careful s) :
    ∀ r, (s.runs r).Sound bench := by
  apply h.invariant
  · rintro s ⟨hruns, -⟩ r
    obtain ⟨root, cap, maxCalls, psuOff, hrun⟩ := hruns r
    rw [hrun]
    exact ⟨nofun, nofun, fun _ => nofun⟩
  · rintro s ⟨j, a⟩ t hs hok hstep r
    obtain ⟨run, locked, hrun, rfl⟩ := step_cases hstep
    dsimp only at hrun ⊢
    by_cases hr : r = j
    · subst hr
      rw [Function.update_self]
      apply (hs r).step _ _ hrun
      · rintro i ok rfl
        exact hok
      · rintro ok rfl
        exact hok
    · rw [Function.update_of_ne hr]
      exact hs r

/-- A reserve that fails leaves the run with what it had. -/
theorem Owned.failed (h : s.Owned) {r : Nat} (hstep : s.step bench (r, .giveUp) = some t) :
    (t.runs r).held = (s.runs r).held ∧
      ∀ p, t.locked p = some r → ∃ n ∈ (s.runs r).held, p = lockPath (s.runs r).root n := by
  have howned := h.step hstep r
  obtain ⟨run, locked, hrun, rfl⟩ := step_cases hstep
  dsimp only at howned ⊢
  rw [Function.update_self] at howned ⊢
  have hgiveUp : (s.runs r).giveUp s.locked = some (run, locked) := hrun
  unfold Run.giveUp at hgiveUp
  split at hgiveUp
  next i n todo got call hhold =>
    cases hgiveUp
    refine ⟨rfl, ?_⟩
    intro p hp
    have hmem := (howned.locked_iff p).mp hp
    rw [Run.files, Run.names, List.mem_map] at hmem
    obtain ⟨m, hm, rfl⟩ := hmem
    exact ⟨m, by simpa [Run.set] using hm, rfl⟩
  next => cases hgiveUp

theorem driven_of_reach (h : (machine bench).Reach Careful s) : s.Driven bench where
  calls r call inst hw tier hallow hrank n hn := by
    obtain ⟨hheld, htold⟩ := (sound_of_reach h r).workers _ hw
    apply hheld
    rw [htold tier hallow hrank]
    exact hn
  safe r state a todo tries hsup e he _ := (sound_of_reach h r).undo (by rw [hsup]; rfl) e he

theorem exclusive_of_reach (h : (machine bench).Reachable s) : s.Exclusive bench where
  exclusive _ _ _ hroot hi hj := (owned_of_reach h).exclusive hroot hi hj
  failed _ _ hstep := (owned_of_reach h).failed hstep

end State

open State

/-- Reservations are exclusive in every run, and in every careful run calls and safe-state calls are
made with their instruments reserved. -/
theorem runs_driven (bench : Bench) :
    (∀ s, (machine bench).Reachable s → s.Exclusive bench) ∧
      ∀ s, (machine bench).Reach Careful s → s.Driven bench :=
  ⟨fun _ => exclusive_of_reach, fun _ => driven_of_reach⟩

/-- A bench with a signal source and a relay. -/
def sampleBench : Bench where
  insts := [⟨"gen", .Example⟩, ⟨"rel", .Psu⟩]
  listed _ := some .ReadConfig

/-- Runs that share a managed directory, before their programs are started. -/
def sampleRuns : State where
  runs _ := .created "procedures" .Full 10 true
  locked _ := none

theorem sampleRuns_reach {ok : State → Nat × Act → Prop} :
    (machine sampleBench).Reach ok sampleRuns :=
  .init ⟨fun _ => ⟨_, _, _, _, rfl⟩, fun _ => rfl⟩

/-- A message, and so many steps of the worker for it. -/
def worked (r : Nat) (m : Message) (i steps : Nat) : List (Nat × Act) :=
  (r, .message m) :: List.replicate steps (r, .work i true)

/-- A program reserves some instruments and gets them. -/
def reserved (r : Nat) (names : List String) (i : Nat) : List (Nat × Act) :=
  worked r (.reserve names) i 1 ++ List.replicate (names.length + 1) (r, .take)

/-- The safe-state call of the signal source. -/
def sampleSafe : Action :=
  ⟨"bench_example_safe_state", [("instrument", .str "gen")], "bench_example_pulse"⟩

/-- A program drives the signal source, ends without a word, and the source is made safe. -/
theorem runs_driven_safe : ∃ s, (machine sampleBench).Reach Careful s ∧
    ((s.runs 0).held = ["gen"] ∧ (s.runs 0).sup = .safing .failed [sampleSafe] 1 true ∧
      ∃ e ∈ (s.runs 0).touched, e.action = sampleSafe ∧ e.uses sampleBench = some "gen") ∧
      s.Driven sampleBench := by
  have hstart : (machine sampleBench).Reach Careful sampleRuns := sampleRuns_reach
  obtain ⟨s, hs, hsafe⟩ := hstart.exists_of_runWhile
    (P := fun s => (s.runs 0).held = ["gen"] ∧
      (s.runs 0).sup = .safing .failed [sampleSafe] 1 true ∧
      ∃ e ∈ (s.runs 0).touched, e.action = sampleSafe ∧ e.uses sampleBench = some "gen")
    ((0, .start) :: worked 0 (.call "bench_example_pulse" [("instrument", .str "gen")]) 0 5 ++
      [(0, .take), (0, .take), (0, .work 0 true), (0, .work 0 true), (0, .closed),
        (0, .finish true), (0, .finish true)]) (by decide +kernel)
  exact ⟨s, hs, hsafe, (runs_driven sampleBench).2 s hs⟩

/-- A reserve that fails leaves the run with an instrument that it asked for, which it had
before. -/
theorem reserve_fails_holding : ¬ ∀ s t u r i names, (machine sampleBench).Reachable s →
    (s.runs r).workers[i]? = some (.wanting names none) →
    s.step sampleBench (r, .work i true) = some t → t.step sampleBench (r, .giveUp) = some u →
    ∀ n ∈ names, n ∉ (u.runs r).held := by
  intro hall
  have hstart : (machine sampleBench).Reachable sampleRuns := sampleRuns_reach
  obtain ⟨s, hs, hw, hu⟩ := hstart.exists_of_run
    (P := fun s => (s.runs 0).workers[1]? = some (.wanting ["gen", "rel"] none) ∧
      ((s.step sampleBench (0, .work 1 true)).bind fun t =>
        t.step sampleBench (0, .giveUp)).any (fun u => "gen" ∈ (u.runs 0).held) = true)
    ([(0, .start), (1, .start)] ++ reserved 0 ["gen"] 0 ++ reserved 1 ["rel"] 0 ++
      [(0, .message (.reserve ["gen", "rel"]))]) (by decide +kernel)
  obtain ⟨u, hstep, hheld⟩ := (Option.any_eq_true _ _).mp hu
  obtain ⟨t, ht, hgiveUp⟩ := Option.bind_eq_some_iff.mp hstep
  exact hall s t u 0 1 _ hs hw ht hgiveUp "gen" List.mem_cons_self (of_decide_eq_true hheld)

end HamsOpen.Runner
