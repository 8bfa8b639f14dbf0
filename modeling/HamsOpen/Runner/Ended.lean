import HamsOpen.Runner.Driven
import Mathlib

/-!
# The end of a run

A run makes no more calls than it may, and comes to one final state with one result, whatever
happens. As long as no worker is under way with a call or a reserve when the supervisor's loop ends,
its safe-state calls come after all its other calls, and it has no reservations once it has ended.
-/

namespace HamsOpen.Runner

/-- The worker makes no call and reserves nothing from now on. -/
def Worker.isDone : Worker → Bool
  | gone => true
  | releasing _ => true
  | _ => false

/-- The calls of a worker that are counted, and yet to be made. -/
def Worker.owes : Worker → Nat
  | counted _ => 1
  | allowed _ _ => 1
  | wanting _ call => call.elim 0 fun _ => 1
  | granted _ _ => 1
  | _ => 0

/-- The limit that a worker has read. -/
def Worker.bound : Worker → Nat
  | limited _ limit => limit
  | _ => 0

/-- The supervisor's loop has ended. -/
def Sup.isPast : Sup → Bool
  | starting => false
  | loop _ _ => false
  | _ => true

/-- How many calls the run may make. -/
def Run.limit (run : Run) : Nat :=
  run.maxCalls + if run.cancel.isSome then CLEANUP_CALLS else 0

namespace State

/-- The supervisor's loop ends with no worker under way that has a call or a reserve. -/
def Settled (s : State) : Nat × Act → Prop
  | (r, .kill) => ∀ w ∈ (s.runs r).workers, w.isDone = true
  | (r, .late) => ∀ w ∈ (s.runs r).workers, w.isDone = true
  | (r, .closed) => ∀ w ∈ (s.runs r).workers, w.isDone = true
  | _ => True

instance (s : State) (e : Nat × Act) : Decidable (s.Settled e) :=
  match e with
  | (r, .kill) | (r, .late) | (r, .closed) =>
    inferInstanceAs (Decidable (∀ w ∈ (s.runs r).workers, w.isDone = true))
  | (_, .start) | (_, .requestCancel _) | (_, .sendCancel) | (_, .message _) | (_, .answer)
  | (_, .work _ _) | (_, .take) | (_, .giveUp) | (_, .finish _) => .isTrue trivial

/-- What is said of calls and of the end. -/
structure Ended (s : State) : Prop where
  /-- From the end of the loop on, no call of the program is under way or to come. -/
  quiet : ∀ r, (s.runs r).sup.isPast = true → ∀ w ∈ (s.runs r).workers, w.isDone = true
  limits : ∀ r, (s.runs r).made ≤ (s.runs r).calls ∧ (s.runs r).calls ≤ (s.runs r).limit
  /-- There is one final state, the last, and one result, with that state. -/
  before : ∀ r, (s.runs r).sup ≠ .gone →
    (∀ x ∈ (s.runs r).states, x.isActive = true) ∧ (s.runs r).results.length ≤ 1
  after : ∀ r, (s.runs r).sup = .gone → ∃ state rest, (s.runs r).states = state :: rest ∧
    state.isActive = false ∧ (∀ x ∈ rest, x.isActive = true) ∧ (s.runs r).results = [state]
  /-- A run that has ended has no reservation, and no lock file. -/
  free : ∀ r, (s.runs r).sup = .gone → (s.runs r).held = [] ∧ ∀ p, s.locked p ≠ some r

end State

/-! ### Calls -/

/-- One element is put in the place of another. -/
theorem sum_map_set {α : Type} (f : α → Nat) {l : List α} {i : Nat} {a : α} (h : l[i]? = some a)
    (b : α) : ((l.set i b).map f).sum + f a = (l.map f).sum + f b := by
  induction l generalizing i with
  | nil => cases h
  | cons x l ih =>
    cases i with
    | zero =>
      obtain rfl : x = a := Option.some.inj h
      simp only [List.set_cons_zero, List.map_cons, List.sum_cons]
      omega
    | succ i =>
      have hrest := ih h
      simp only [List.set_cons_succ, List.map_cons, List.sum_cons]
      omega

namespace Run

variable {bench : Bench} {r : Nat} {run run' : Run} {locked locked' : Locks}

/-- The calls that are counted, and yet to be made. -/
def owed (run : Run) : Nat :=
  (run.workers.map Worker.owes).sum + run.hold.elim 0 fun h => h.call.elim 0 fun _ => 1

theorem owed_set {i : Nat} {v : Worker} (h : run.workers[i]? = some v) (w : Worker) :
    (run.set i w).owed + v.owes = run.owed + w.owes := by
  have hsum := sum_map_set Worker.owes h w
  simp only [owed, set]
  omega

theorem owed_set_le (run : Run) (i : Nat) (w : Worker) : (run.set i w).owed ≤ run.owed + w.owes := by
  cases h : run.workers[i]? with
  | none =>
    have hlen := List.getElem?_eq_none_iff.mp h
    have hsame : run.set i w = run := by rw [set, List.set_eq_of_length_le hlen]
    rw [hsame]
    omega
  | some v =>
    have hsum := owed_set h w
    omega

/-- The calls of a run are within its limit, and those that are counted are made at most. -/
structure Limited (run : Run) : Prop where
  limits : ∀ w ∈ run.workers, w.bound ≤ run.limit
  calls : run.calls ≤ run.limit
  made : run.made + run.owed ≤ run.calls

theorem bound_set {n i : Nat} {w : Worker} (h : ∀ v ∈ run.workers, v.bound ≤ n) (hw : w.bound ≤ n) :
    ∀ v ∈ (run.set i w).workers, v.bound ≤ n := by
  intro v hv
  rcases List.mem_or_eq_of_mem_set hv with hold | rfl
  · exact h v hold
  · exact hw

/-- A worker goes on, and neither counts nor makes a call. -/
theorem Limited.set (h : run.Limited) {i : Nat} {v w : Worker} (hv : run.workers[i]? = some v)
    (hw : w.bound ≤ run.limit) (howes : w.owes ≤ v.owes) : (run.set i w).Limited where
  limits := bound_set h.limits hw
  calls := h.calls
  made := by
    have hmade := h.made
    have hsum := owed_set hv w
    change run.made + (run.set i w).owed ≤ run.calls
    omega

/-- What happens beside the calls. -/
theorem Limited.beside (h : run.Limited) (ask : Bool) (callErrors : Nat) (touched : List Entry)
    (held : List String) (sup : Sup) (states results : List RunState) :
    { run with
      ask := ask
      callErrors := callErrors
      touched := touched
      held := held
      sup := sup
      states := states
      results := results }.Limited :=
  ⟨h.limits, h.calls, h.made⟩

theorem Limited.grant (h : run.Limited) {i : Nat} {call : Option ToolCall}
    (hmade : run.made + (run.set i .gone).owed + call.elim 0 (fun _ => 1) ≤ run.calls) :
    (run.grant bench i call).Limited := by
  cases call with
  | none => exact ⟨bound_set h.limits (Nat.zero_le _), h.calls, hmade⟩
  | some c =>
    refine ⟨bound_set h.limits (Nat.zero_le _), h.calls, ?_⟩
    have hle := owed_set_le (run.set i .gone) i (.granted c (bench.instrumentOf c.1 c.2))
    have htwice : (run.set i .gone).set i (.granted c (bench.instrumentOf c.1 c.2)) =
        run.set i (.granted c (bench.instrumentOf c.1 c.2)) := by
      simp only [Run.set, List.set_set]
    rw [htwice] at hle
    change run.made + (run.set i (.granted c (bench.instrumentOf c.1 c.2))).owed ≤ run.calls
    simp only [Option.elim_some, Worker.owes] at hmade hle
    omega

theorem Limited.work (h : run.Limited) {i : Nat} {ok : Bool}
    (hstep : run.work bench i ok locked = some (run', locked')) : run'.Limited := by
  have hmade := h.made
  unfold Run.work at hstep
  split at hstep
  next call hw =>
    cases hstep
    exact h.set hw (Nat.le_refl _) (Nat.le_refl _)
  next call limit hw =>
    have hlimit : limit ≤ run.limit := h.limits _ (List.mem_of_getElem? hw)
    split at hstep
    · cases hstep
      exact h.set hw (Nat.zero_le _) (Nat.le_refl _)
    next hmore =>
      cases hstep
      refine ⟨bound_set h.limits (Nat.zero_le _), ?_, ?_⟩
      · change run.calls + 1 ≤ run.limit
        omega
      · have hsum := owed_set hw (.counted call)
        simp only [Worker.owes] at hsum
        change run.made + (run.set i (.counted call)).owed ≤ run.calls + 1
        omega
  next call hw =>
    split at hstep
    next tier hallow =>
      cases hstep
      exact h.set hw (Nat.zero_le _) (Nat.le_refl _)
    next =>
      cases hstep
      exact (h.set hw (Nat.zero_le _) (Nat.zero_le _)).beside _ _ _ _ _ _ _
  next call tier hw =>
    dsimp only at hstep
    split at hstep
    next name hname =>
      cases hstep
      have hset : (run.set i (.wanting [name] (some call))).Limited :=
        h.set hw (Nat.zero_le _) (Nat.le_refl _)
      exact hset.beside _ _ _ _ _ _ _
    next =>
      cases hstep
      have hset : (run.set i (.granted call none)).Limited :=
        h.set hw (Nat.zero_le _) (Nat.le_refl _)
      exact hset.beside _ _ _ _ _ _ _
  next names call hw =>
    have hgone := owed_set hw .gone
    have htaking := owed_set hw .taking
    simp only [Worker.owes] at hgone htaking
    split at hstep
    · cases hstep
    next hfree =>
      have hnone : run.hold = none := by simpa using hfree
      dsimp only at hstep
      split at hstep
      · cases hstep
        apply h.grant
        omega
      · cases hstep
        refine ⟨bound_set h.limits (Nat.zero_le _), h.calls, ?_⟩
        simp only [owed, Run.set, hnone, Option.elim_none, Option.elim_some] at htaking hmade ⊢
        omega
  next call inst hw =>
    cases hstep
    have hsum := owed_set hw (.calling call inst)
    simp only [Worker.owes] at hsum
    refine ⟨bound_set h.limits (Nat.zero_le _), h.calls, ?_⟩
    change run.made + 1 + (run.set i (.calling call inst)).owed ≤ run.calls
    omega
  next hw =>
    cases hstep
    exact (h.set hw (Nat.zero_le _) (Nat.zero_le _)).beside _ _ _ _ _ _ _
  next names hw =>
    split at hstep
    · cases hstep
    · cases hstep
      exact (h.set hw (Nat.zero_le _) (Nat.zero_le _)).beside _ _ _ _ _ _ _
  next => cases hstep

theorem Limited.take (h : run.Limited)
    (hstep : run.take bench r locked = some (run', locked')) : run'.Limited := by
  have hmade := h.made
  unfold Run.take at hstep
  split at hstep
  next i got call hhold =>
    cases hstep
    have hdone : { run with held := run.held ++ got, hold := none }.Limited := by
      refine ⟨h.limits, h.calls, ?_⟩
      rw [owed, hhold] at hmade
      simp only [owed, Option.elim_some, Option.elim_none] at hmade ⊢
      omega
    apply hdone.grant
    have hle := owed_set_le { run with held := run.held ++ got, hold := none } i .gone
    rw [owed, hhold] at hmade
    simp only [owed, Worker.owes, Option.elim_some, Option.elim_none] at hmade hle ⊢
    omega
  next i n todo got call hhold =>
    split at hstep
    · cases hstep
      refine ⟨h.limits, h.calls, ?_⟩
      rw [owed, hhold] at hmade
      exact hmade
    · cases hstep
  next => cases hstep

theorem Limited.giveUp (h : run.Limited) (hstep : run.giveUp locked = some (run', locked')) :
    run'.Limited := by
  have hmade := h.made
  unfold Run.giveUp at hstep
  split at hstep
  next i n todo got call hhold =>
    cases hstep
    refine ⟨bound_set h.limits (Nat.zero_le _), h.calls, ?_⟩
    have hle := owed_set_le run i .gone
    rw [owed, Run.set, owed, hhold] at hle
    rw [owed, hhold] at hmade
    simp only [owed, Run.set, Worker.owes, Option.elim_some, Option.elim_none] at hmade hle ⊢
    omega
  next => cases hstep

/-- A worker starts, with no call that is counted. -/
theorem Limited.spawn (h : run.Limited) {w : Worker} (hw : w.bound = 0) (howes : w.owes = 0) :
    (run.spawn w).Limited where
  limits v hv := by
    rcases List.mem_append.mp hv with hold | hnew
    · exact h.limits v hold
    · rw [List.mem_singleton.mp hnew, hw]
      exact Nat.zero_le _
  calls := h.calls
  made := by
    have hmade := h.made
    simp only [owed, Run.spawn, List.map_append, List.map_cons, List.map_nil, List.sum_append,
      List.sum_cons, List.sum_nil, howes, Nat.add_zero] at hmade ⊢
    exact hmade

theorem Limited.handle (h : run.Limited) (m : Message) (cancelSent : Bool) :
    (run.handle bench m cancelSent).Limited := by
  unfold Run.handle
  split
  · exact h.spawn rfl rfl
  · split
    · exact h.spawn rfl rfl
    · exact h
  · split
    · exact h.spawn rfl rfl
    · exact h
  · split
    · exact h
    · exact h.beside _ _ _ _ _ _ _
  · exact h.beside _ _ _ _ _ _ _

theorem Limited.finish (h : run.Limited) {ok : Bool}
    (hstep : run.finish ok locked = some (run', locked')) : run'.Limited := by
  unfold Run.finish at hstep
  split at hstep
  next =>
    cases hstep
    exact h.beside _ _ _ _ _ _ _
  next =>
    cases hstep
    exact h.beside _ _ _ _ _ _ _
  next =>
    cases hstep
    exact h.beside _ _ _ _ _ _ _
  next =>
    split at hstep
    · cases hstep
      exact h.beside _ _ _ _ _ _ _
    · cases hstep
      exact h.beside _ _ _ _ _ _ _
  next =>
    split at hstep
    · cases hstep
    · cases hstep
      exact h.beside _ _ _ _ _ _ _
  next =>
    cases hstep
    exact h.beside _ _ _ _ _ _ _
  next => cases hstep

/-- Somebody asks the run to stop: it may make some more calls. -/
theorem Limited.requestCancel (h : run.Limited) (reason : String) :
    { run with cancel := some (run.cancel.getD reason) }.Limited := by
  have hlimit : run.limit ≤ { run with cancel := some (run.cancel.getD reason) }.limit := by
    cases hcancel : run.cancel with
    | none => simp [limit, hcancel]
    | some _ => simp [limit, hcancel]
  refine ⟨fun w hw => (h.limits w hw).trans hlimit, h.calls.trans hlimit, h.made⟩

theorem Limited.step (h : run.Limited) {a : Act}
    (hstep : run.step bench r locked a = some (run', locked')) : run'.Limited := by
  cases a <;> simp only [Run.step] at hstep
  case requestCancel reason =>
    cases hstep
    exact h.requestCancel reason
  case work i ok => exact h.work hstep
  case take => exact h.take hstep
  case giveUp => exact h.giveUp hstep
  case finish ok => exact h.finish hstep
  case message m =>
    split at hstep
    · cases hstep
      exact h.handle m _
    · cases hstep
  case sendCancel | answer =>
    split at hstep
    · split at hstep
      · cases hstep
        exact h.beside _ _ _ _ _ _ _
      · cases hstep
    · cases hstep
  case start | kill | late | closed =>
    split at hstep
    · cases hstep
      exact h.beside _ _ _ _ _ _ _
    · cases hstep

/-! ### The final state -/

theorem verdict_final (reason ended : Option String) (killed : Bool) :
    (verdict reason ended killed).isActive = false := by
  unfold verdict
  repeat' split
  all_goals rfl

/-- How far the run is with its final state and its result. -/
def Concluded (run : Run) : Prop :=
  match run.sup with
  | .gone => ∃ state rest, run.states = state :: rest ∧ state.isActive = false ∧
    (∀ x ∈ rest, x.isActive = true) ∧ run.results = [state]
  | .written state | .freed state => state.isActive = false ∧
    (∀ x ∈ run.states, x.isActive = true) ∧ run.results = [state]
  | .safing state _ _ _ => state.isActive = false ∧
    (∀ x ∈ run.states, x.isActive = true) ∧ run.results = []
  | _ => (∀ x ∈ run.states, x.isActive = true) ∧ run.results = []

/-- The supervisor, its states and its results are the same. -/
theorem Concluded.same (h : run.Concluded) (hsup : run'.sup = run.sup)
    (hstates : run'.states = run.states) (hresults : run'.results = run.results) :
    run'.Concluded := by
  rw [Concluded, hsup, hstates, hresults]
  exact h

theorem concluded_loop {cancelSent : Bool} {ended : Option String}
    (hsup : run.sup = .loop cancelSent ended) :
    run.Concluded ↔ (∀ x ∈ run.states, x.isActive = true) ∧ run.results = [] := by
  rw [Concluded, hsup]

/-- Another state is recorded that is not the last. -/
theorem active_cons {states : List RunState} (h : ∀ x ∈ states, x.isActive = true) {state : RunState}
    (hstate : state.isActive = true) : ∀ x ∈ state :: states, x.isActive = true := by
  intro x hx
  rcases List.mem_cons.mp hx with rfl | hold
  · exact hstate
  · exact h x hold

/-- What workers leave alone. -/
structure Beside (run run' : Run) : Prop where
  sup : run'.sup = run.sup
  states : run'.states = run.states
  results : run'.results = run.results

theorem beside_grant (i : Nat) (call : Option ToolCall) : run.Beside (run.grant bench i call) := by
  cases call <;> exact ⟨rfl, rfl, rfl⟩

theorem beside_work {i : Nat} {ok : Bool}
    (hstep : run.work bench i ok locked = some (run', locked')) : run.Beside run' := by
  unfold Run.work at hstep
  split at hstep
  next =>
    cases hstep
    exact ⟨rfl, rfl, rfl⟩
  next =>
    split at hstep <;> cases hstep <;> exact ⟨rfl, rfl, rfl⟩
  next =>
    split at hstep <;> cases hstep <;> exact ⟨rfl, rfl, rfl⟩
  next =>
    dsimp only at hstep
    split at hstep <;> cases hstep <;> exact ⟨rfl, rfl, rfl⟩
  next =>
    split at hstep
    · cases hstep
    · dsimp only at hstep
      split at hstep
      · cases hstep
        exact beside_grant _ _
      · cases hstep
        exact ⟨rfl, rfl, rfl⟩
  next =>
    cases hstep
    exact ⟨rfl, rfl, rfl⟩
  next =>
    cases hstep
    exact ⟨rfl, rfl, rfl⟩
  next =>
    split at hstep <;> cases hstep
    exact ⟨rfl, rfl, rfl⟩
  next => cases hstep

theorem beside_take (hstep : run.take bench r locked = some (run', locked')) :
    run.Beside run' := by
  unfold Run.take at hstep
  split at hstep
  next i got call _ =>
    cases hstep
    have hgrant : Run.Beside { run with held := run.held ++ got, hold := none }
        (Run.grant bench i call { run with held := run.held ++ got, hold := none }) :=
      beside_grant i call
    exact ⟨hgrant.sup, hgrant.states, hgrant.results⟩
  next =>
    split at hstep <;> cases hstep
    exact ⟨rfl, rfl, rfl⟩
  next => cases hstep

theorem beside_giveUp (hstep : run.giveUp locked = some (run', locked')) : run.Beside run' := by
  unfold Run.giveUp at hstep
  split at hstep
  · cases hstep
    exact ⟨rfl, rfl, rfl⟩
  · cases hstep

theorem Concluded.beside (h : run.Concluded) (hbeside : run.Beside run') : run'.Concluded :=
  h.same hbeside.sup hbeside.states hbeside.results

theorem Concluded.handle {cancelSent : Bool} {ended : Option String}
    (hsup : run.sup = .loop cancelSent ended) (h : run.Concluded) (m : Message) :
    (run.handle bench m cancelSent).Concluded := by
  obtain ⟨hactive, hresults⟩ := (concluded_loop hsup).mp h
  unfold Run.handle
  split
  · exact h.same rfl rfl rfl
  · split
    · exact h.same rfl rfl rfl
    · exact h
  · split
    · exact h.same rfl rfl rfl
    · exact h
  · split
    · exact h
    · have hask : { run.setState .waiting_operator with ask := true }.sup =
          .loop cancelSent ended := hsup
      exact (concluded_loop hask).mpr ⟨active_cons hactive rfl, hresults⟩
  · exact ⟨hactive, hresults⟩

theorem Concluded.finish (h : run.Concluded) {ok : Bool}
    (hstep : run.finish ok locked = some (run', locked')) : run'.Concluded := by
  rw [Concluded] at h
  unfold Run.finish at hstep
  split at hstep
  next ended killed hsup =>
    cases hstep
    rw [hsup] at h
    exact ⟨verdict_final _ _ _, h.1, h.2⟩
  next hsup =>
    cases hstep
    rw [hsup] at h
    obtain ⟨hfinal, hactive, hresults⟩ := h
    refine ⟨hfinal, hactive, ?_⟩
    rw [hresults]
  next hsup =>
    cases hstep
    rw [hsup] at h
    exact h
  next hsup =>
    rw [hsup] at h
    split at hstep
    · cases hstep
      exact h
    · cases hstep
      exact h
  next hsup =>
    rw [hsup] at h
    split at hstep
    · cases hstep
    · cases hstep
      exact h
  next hsup =>
    cases hstep
    rw [hsup] at h
    exact ⟨_, _, rfl, h⟩
  next => cases hstep

theorem Concluded.step (h : run.Concluded) {a : Act}
    (hstep : run.step bench r locked a = some (run', locked')) : run'.Concluded := by
  cases a <;> simp only [Run.step] at hstep
  case requestCancel reason =>
    cases hstep
    exact h.same rfl rfl rfl
  case work i ok => exact h.beside (beside_work hstep)
  case take => exact h.beside (beside_take hstep)
  case giveUp => exact h.beside (beside_giveUp hstep)
  case finish ok => exact h.finish hstep
  case message m =>
    split at hstep
    next hsup =>
      cases hstep
      exact h.handle hsup m
    next => cases hstep
  case start =>
    split at hstep
    next hsup =>
      cases hstep
      rw [Concluded, hsup] at h
      exact ⟨active_cons h.1 rfl, h.2⟩
    next => cases hstep
  case sendCancel =>
    split at hstep
    next hsup =>
      obtain ⟨hactive, hresults⟩ := (concluded_loop hsup).mp h
      split at hstep
      · cases hstep
        exact ⟨active_cons hactive rfl, hresults⟩
      · cases hstep
    next => cases hstep
  case answer =>
    split at hstep
    next hsup =>
      obtain ⟨hactive, hresults⟩ := (concluded_loop hsup).mp h
      split at hstep
      · cases hstep
        have hanswer : { run.setState .running with ask := false }.sup = .loop false none := hsup
        exact (concluded_loop hanswer).mpr ⟨active_cons hactive rfl, hresults⟩
      · cases hstep
    next => cases hstep
  case kill | late | closed =>
    split at hstep
    next hsup =>
      cases hstep
      exact (concluded_loop hsup).mp h
    next => cases hstep

/-! ### Workers at the end -/

/-- What holds of workers and reservations once the loop has ended. -/
structure Quiet (run : Run) : Prop where
  quiet : run.sup.isPast = true → ∀ w ∈ run.workers, w.isDone = true
  taking : ∀ h, run.hold = some h → run.workers[h.worker]? = some .taking
  free : run.sup.givenUp = true → run.held = []

/-- Once the loop has ended, nobody has the reservations. -/
theorem Quiet.hold_none (h : run.Quiet) (hpast : run.sup.isPast = true) : run.hold = none := by
  cases hhold : run.hold with
  | none => rfl
  | some hold =>
    have hdone := h.quiet hpast _ (List.mem_of_getElem? (h.taking hold hhold))
    cases hdone

theorem isPast_of_givenUp {sup : Sup} (h : sup.givenUp = true) : sup.isPast = true := by
  cases sup with
  | starting => cases h
  | loop _ _ => cases h
  | _ => rfl

/-- A worker that does not have the reservations goes on. -/
theorem taking_set {i : Nat} {v w : Worker} (hv : run.workers[i]? = some v) (hne : v ≠ .taking)
    {h : Hold} (hold : run.workers[h.worker]? = some .taking) :
    (run.workers.set i w)[h.worker]? = some .taking := by
  have hother : i ≠ h.worker := by
    rintro rfl
    rw [hold] at hv
    exact hne (Option.some.inj hv).symm
  rw [List.getElem?_set_ne hother]
  exact hold

/-- What happens beside the workers, the reservations and the supervisor. -/
theorem Quiet.beside (h : run.Quiet) (cancel : Option String) (ask : Bool)
    (calls callErrors made : Nat) (touched : List Entry) (states results : List RunState) :
    { run with
      cancel := cancel
      ask := ask
      calls := calls
      callErrors := callErrors
      made := made
      touched := touched
      states := states
      results := results }.Quiet :=
  ⟨h.quiet, h.taking, h.free⟩

/-- A worker goes on, and is done if it was. -/
theorem Quiet.set (h : run.Quiet) {i : Nat} {v : Worker} (hv : run.workers[i]? = some v)
    (hne : v ≠ .taking) (w : Worker) (hdone : v.isDone = true → w.isDone = true) :
    (run.set i w).Quiet where
  quiet hpast u hu := by
    rcases List.mem_or_eq_of_mem_set hu with hold | rfl
    · exact h.quiet hpast u hold
    · exact hdone (h.quiet hpast v (List.mem_of_getElem? hv))
  taking hold hhold := taking_set hv hne (h.taking hold hhold)
  free := h.free

/-- A worker that is not done shows that the loop has not ended. -/
theorem Quiet.not_past (h : run.Quiet) {i : Nat} {v : Worker} (hv : run.workers[i]? = some v)
    (hdone : v.isDone = false) : run.sup.isPast = false := by
  cases hpast : run.sup.isPast with
  | false => rfl
  | true =>
    rw [h.quiet hpast v (List.mem_of_getElem? hv)] at hdone
    cases hdone

/-- Before the end of the loop, the reservations change with the worker that has them. -/
theorem Quiet.early (run : Run) (hpast : run.sup.isPast = false) (hold : Option Hold)
    (htaking : ∀ h, hold = some h → run.workers[h.worker]? = some .taking) (held : List String) :
    { run with held := held, hold := hold }.Quiet where
  quiet hpast' := by
    rw [show run.sup.isPast = true from hpast'] at hpast
    cases hpast
  taking := htaking
  free hgivenUp := by
    rw [isPast_of_givenUp (show run.sup.givenUp = true from hgivenUp)] at hpast
    cases hpast

theorem quiet_grant (run : Run) (hpast : run.sup.isPast = false) (hnone : run.hold = none) (i : Nat)
    (call : Option ToolCall) : (run.grant bench i call).Quiet := by
  have hsup : (run.grant bench i call).sup.isPast = false := by
    cases call <;> exact hpast
  have hhold : (run.grant bench i call).hold = none := by
    cases call <;> exact hnone
  have hearly := Quiet.early (run.grant bench i call) hsup none nofun (run.grant bench i call).held
  rw [← hhold] at hearly
  exact hearly

theorem Quiet.work (h : run.Quiet) {i : Nat} {ok : Bool}
    (hstep : run.work bench i ok locked = some (run', locked')) : run'.Quiet := by
  unfold Run.work at hstep
  split at hstep
  next call hw =>
    cases hstep
    exact h.set hw nofun _ (fun hdone => by cases hdone)
  next call limit hw =>
    split at hstep
    · cases hstep
      exact h.set hw nofun _ (fun _ => rfl)
    · cases hstep
      have hset := h.set hw nofun (.counted call) (fun hdone => by cases hdone)
      exact hset.beside _ _ _ _ _ _ _ _
  next call hw =>
    split at hstep
    · cases hstep
      exact h.set hw nofun _ (fun hdone => by cases hdone)
    · cases hstep
      exact (h.set hw nofun .gone (fun _ => rfl)).beside _ _ _ _ _ _ _ _
  next call tier hw =>
    dsimp only at hstep
    split at hstep
    next name _ =>
      cases hstep
      have hset := h.set hw nofun (.wanting [name] (some call)) (fun hdone => by cases hdone)
      exact hset.beside _ _ _ _ _ _ _ _
    next =>
      cases hstep
      have hset := h.set hw nofun (.granted call none) (fun hdone => by cases hdone)
      exact hset.beside _ _ _ _ _ _ _ _
  next names call hw =>
    have hpast := h.not_past hw rfl
    split at hstep
    · cases hstep
    next hfree =>
      have hnone : run.hold = none := by simpa using hfree
      dsimp only at hstep
      split at hstep
      · cases hstep
        exact quiet_grant run hpast hnone i call
      · cases hstep
        have hlt := (List.getElem?_eq_some_iff.mp hw).1
        apply Quiet.early (run.set i .taking) hpast
        rintro _ hsome
        cases hsome
        exact List.getElem?_set_self hlt
  next call inst hw =>
    cases hstep
    have hset := h.set hw nofun (.calling call inst) (fun hdone => by cases hdone)
    exact hset.beside _ _ _ _ _ _ _ _
  next hw =>
    cases hstep
    exact (h.set hw nofun .gone (fun _ => rfl)).beside _ _ _ _ _ _ _ _
  next names hw =>
    split at hstep
    · cases hstep
    · cases hstep
      have hset := h.set hw nofun .gone (fun _ => rfl)
      refine ⟨hset.quiet, hset.taking, ?_⟩
      intro hgivenUp
      have hheld : run.held = [] := h.free hgivenUp
      change run.held.diff names = []
      rw [hheld, List.nil_diff]
  next => cases hstep

theorem Quiet.take (h : run.Quiet)
    (hstep : run.take bench r locked = some (run', locked')) : run'.Quiet := by
  unfold Run.take at hstep
  split at hstep
  next i got call hhold =>
    cases hstep
    have hpast := h.not_past (h.taking _ hhold) rfl
    exact quiet_grant { run with held := run.held ++ got, hold := none } hpast rfl i call
  next i n todo got call hhold =>
    split at hstep
    · cases hstep
      have hpast := h.not_past (h.taking _ hhold) rfl
      have htaking := h.taking _ hhold
      apply Quiet.early run hpast
      rintro _ hsome
      cases hsome
      exact htaking
    · cases hstep
  next => cases hstep

theorem Quiet.giveUp (h : run.Quiet) (hstep : run.giveUp locked = some (run', locked')) :
    run'.Quiet := by
  unfold Run.giveUp at hstep
  split at hstep
  next i n todo got call hhold =>
    cases hstep
    have hpast := h.not_past (h.taking _ hhold) rfl
    have hearly := Quiet.early (run.set i .gone) hpast none nofun run.held
    exact hearly.beside _ _ _ _ _ _ _ _
  next => cases hstep

/-- The supervisor goes on after its loop, and has nothing reserved once it gave that up. -/
theorem Quiet.sup (h : run.Quiet) (hpast : run.sup.isPast = true) {sup : Sup} {held : List String}
    (hfree : sup.givenUp = true → held = []) (results : List RunState) :
    { run with sup := sup, held := held, results := results }.Quiet where
  quiet _ := h.quiet hpast
  taking := h.taking
  free := hfree

theorem Quiet.finish (h : run.Quiet) {ok : Bool}
    (hstep : run.finish ok locked = some (run', locked')) : run'.Quiet := by
  unfold Run.finish at hstep
  split at hstep
  next hsup =>
    cases hstep
    exact h.sup (by rw [hsup]; rfl) (by intro hfree; cases hfree) _
  next hsup =>
    cases hstep
    exact h.sup (by rw [hsup]; rfl) (by intro hfree; cases hfree) _
  next hsup =>
    cases hstep
    exact h.sup (by rw [hsup]; rfl) (by intro hfree; cases hfree) _
  next hsup =>
    split at hstep
    · cases hstep
      exact h.sup (by rw [hsup]; rfl) (by intro hfree; cases hfree) _
    · cases hstep
      exact h.sup (by rw [hsup]; rfl) (by intro hfree; cases hfree) _
  next hsup =>
    split at hstep
    · cases hstep
    · cases hstep
      exact h.sup (by rw [hsup]; rfl) (fun _ => rfl) _
  next hsup =>
    cases hstep
    have hheld : run.held = [] := h.free (by rw [hsup]; rfl)
    have hover : { run with sup := .gone, held := run.held, results := run.results }.Quiet :=
      h.sup (by rw [hsup]; rfl) (fun _ => hheld) _
    exact hover.beside _ _ _ _ _ _ _ _
  next => cases hstep

/-- Before the end of the loop, workers come and the supervisor goes on. -/
theorem Quiet.loop (h : run.Quiet) {sup : Sup} (hpast : sup.isPast = false)
    (workers : List Worker) :
    { run with sup := sup, workers := run.workers ++ workers }.Quiet where
  quiet hpast' := by
    rw [show sup.isPast = true from hpast'] at hpast
    cases hpast
  taking hold hhold := by
    have hold' := h.taking hold hhold
    have hlt := (List.getElem?_eq_some_iff.mp hold').1
    exact (List.getElem?_append_left hlt).trans hold'
  free hgivenUp := by
    rw [isPast_of_givenUp (show sup.givenUp = true from hgivenUp)] at hpast
    cases hpast

theorem Quiet.handle (h : run.Quiet) {cancelSent : Bool} {ended : Option String}
    (hsup : run.sup = .loop cancelSent ended) (m : Message) :
    (run.handle bench m cancelSent).Quiet := by
  have hpast : run.sup.isPast = false := by rw [hsup]; rfl
  unfold Run.handle
  split
  · exact h.loop hpast _
  · split
    · exact h.loop hpast _
    · exact h
  · split
    · exact h.loop hpast _
    · exact h
  · split
    · exact h
    · exact h.beside _ _ _ _ _ _ _ _
  next op =>
    have hloop : { run with
        sup := .loop cancelSent (some op)
        workers := run.workers ++ [] }.Quiet := h.loop rfl []
    rw [List.append_nil] at hloop
    exact hloop

theorem Quiet.step (h : run.Quiet) {a : Act}
    (hsettled : a = .kill ∨ a = .late ∨ a = .closed → ∀ w ∈ run.workers, w.isDone = true)
    (hstep : run.step bench r locked a = some (run', locked')) : run'.Quiet := by
  -- the supervisor goes on within its loop
  have hloop (sup : Sup) (hpast : sup.isPast = false) : { run with sup := sup }.Quiet := by
    have hnone := h.loop hpast []
    rw [List.append_nil] at hnone
    exact hnone
  cases a <;> simp only [Run.step] at hstep
  case requestCancel reason =>
    cases hstep
    exact h.beside _ _ _ _ _ _ _ _
  case work i ok => exact h.work hstep
  case take => exact h.take hstep
  case giveUp => exact h.giveUp hstep
  case finish ok => exact h.finish hstep
  case message m =>
    split at hstep
    next hsup =>
      cases hstep
      exact h.handle hsup m
    next => cases hstep
  case start =>
    split at hstep
    next hsup =>
      cases hstep
      exact (hloop (.loop false none) rfl).beside _ _ _ _ _ _ _ _
    next => cases hstep
  case sendCancel =>
    split at hstep
    next hsup =>
      split at hstep
      · cases hstep
        exact (hloop (.loop true none) rfl).beside _ _ _ _ _ _ _ _
      · cases hstep
    next => cases hstep
  case answer =>
    split at hstep
    next hsup =>
      split at hstep
      · cases hstep
        exact h.beside _ _ _ _ _ _ _ _
      · cases hstep
    next => cases hstep
  case kill | late | closed =>
    split at hstep
    next hsup =>
      cases hstep
      exact ⟨fun _ => hsettled (by simp), h.taking, (by intros; contradiction)⟩
    next => cases hstep

end Run

/-! ### Runs -/

open Run State

variable {bench : Bench} {s : State}

theorem limited_of_reach {ok : State → Nat × Act → Prop} (h : (machine bench).Reach ok s) :
    ∀ r, (s.runs r).Limited ∧ (s.runs r).Concluded := by
  apply h.invariant
  · rintro s ⟨hruns, -⟩ r
    obtain ⟨root, cap, maxCalls, psuOff, hrun⟩ := hruns r
    rw [hrun]
    refine ⟨⟨nofun, Nat.zero_le _, Nat.le_refl _⟩, ?_, rfl⟩
    intro x hx
    rw [List.mem_singleton.mp hx]
    rfl
  · rintro s ⟨j, a⟩ t hs - hstep r
    obtain ⟨run, locked, hrun, rfl⟩ := step_cases hstep
    dsimp only at hrun ⊢
    by_cases hr : r = j
    · subst hr
      rw [Function.update_self]
      exact ⟨(hs r).1.step hrun, (hs r).2.step hrun⟩
    · rw [Function.update_of_ne hr]
      exact hs r

theorem quiet_of_reach (h : (machine bench).Reach Settled s) : ∀ r, (s.runs r).Quiet := by
  apply h.invariant
  · rintro s ⟨hruns, -⟩ r
    obtain ⟨root, cap, maxCalls, psuOff, hrun⟩ := hruns r
    rw [hrun]
    exact ⟨nofun, nofun, nofun⟩
  · rintro s ⟨j, a⟩ t hs hok hstep r
    obtain ⟨run, locked, hrun, rfl⟩ := step_cases hstep
    dsimp only at hrun ⊢
    by_cases hr : r = j
    · subst hr
      rw [Function.update_self]
      apply (hs r).step _ hrun
      rintro (rfl | rfl | rfl)
      · exact hok
      · exact hok
      · exact hok
    · rw [Function.update_of_ne hr]
      exact hs r

/-- In every settled run, safe-state calls come after all other calls of a run, the calls are within
the limit, and a run comes to one final state with one result and no reservation. -/
theorem runs_end (bench : Bench) (s : State) (h : (machine bench).Reach Settled s) : s.Ended := by
  have hquiet := quiet_of_reach h
  have howned := owned_of_reach h
  constructor
  · exact fun r => (hquiet r).quiet
  · intro r
    obtain ⟨-, hcalls, hmade⟩ := (limited_of_reach h r).1
    exact ⟨by omega, hcalls⟩
  · intro r hover
    have hconcluded := (limited_of_reach h r).2
    rw [Concluded] at hconcluded
    cases hsup : (s.runs r).sup with
    | gone => exact absurd hsup hover
    | starting | loop _ _ | ending _ _ =>
      rw [hsup] at hconcluded
      refine ⟨hconcluded.1, ?_⟩
      rw [hconcluded.2]
      exact Nat.zero_le _
    | safing _ _ _ _ =>
      rw [hsup] at hconcluded
      refine ⟨hconcluded.2.1, ?_⟩
      rw [hconcluded.2.2]
      exact Nat.zero_le _
    | written _ | freed _ =>
      rw [hsup] at hconcluded
      refine ⟨hconcluded.2.1, ?_⟩
      rw [hconcluded.2.2]
      exact Nat.le_refl _
  · intro r hover
    have hconcluded := (limited_of_reach h r).2
    rw [Concluded, hover] at hconcluded
    exact hconcluded
  · intro r hover
    have hheld : (s.runs r).held = [] := (hquiet r).free (by rw [hover]; rfl)
    have hnone := (hquiet r).hold_none (by rw [hover]; rfl)
    refine ⟨hheld, ?_⟩
    intro p hp
    have hfile := ((howned r).locked_iff p).mp hp
    rw [files, Run.names, hheld, hnone] at hfile
    cases hfile

/-- The program drives the signal source, up to the call. -/
def driving : List (Nat × Act) :=
  (0, .start) :: worked 0 (.call "bench_example_pulse" [("instrument", .str "gen")]) 0 5 ++
    [(0, .take), (0, .take), (0, .work 0 true)]

/-- A program drives the signal source and ends without a word. -/
theorem runs_end_failed : ∃ s, (machine sampleBench).Reach Settled s ∧
    ((s.runs 0).sup = .gone ∧ (s.runs 0).made = 1 ∧ (s.runs 0).results = [.failed]) ∧ s.Ended := by
  have hstart : (machine sampleBench).Reach Settled sampleRuns := sampleRuns_reach
  obtain ⟨s, hs, hover⟩ := hstart.exists_of_runWhile
    (P := fun s => (s.runs 0).sup = .gone ∧ (s.runs 0).made = 1 ∧ (s.runs 0).results = [.failed])
    (driving ++ [(0, .work 0 true), (0, .closed)] ++ List.replicate 6 (0, .finish true))
    (by decide +kernel)
  exact ⟨s, hs, hover, runs_end sampleBench s hs⟩

/-- A program is killed while its call drives the signal source, and the source is made safe before
the call has ended. -/
theorem call_outlives_loop : ∃ s, (machine sampleBench).Reachable s ∧
    ((s.runs 0).sup = .safing .cancelled [sampleSafe] 1 true ∧
      .calling ("bench_example_pulse", [("instrument", .str "gen")]) (some "gen") ∈
        (s.runs 0).workers) ∧ ¬ s.Ended := by
  have hstart : (machine sampleBench).Reachable sampleRuns := sampleRuns_reach
  obtain ⟨s, hs, hsup, hcalling⟩ := hstart.exists_of_run
    (P := fun s => (s.runs 0).sup = .safing .cancelled [sampleSafe] 1 true ∧
      .calling ("bench_example_pulse", [("instrument", .str "gen")]) (some "gen") ∈
        (s.runs 0).workers)
    (driving ++ [(0, .requestCancel "cancel"), (0, .sendCancel), (0, .kill), (0, .finish true),
      (0, .finish true)]) (by decide +kernel)
  refine ⟨s, hs, ⟨hsup, hcalling⟩, ?_⟩
  intro hended
  have hdone := hended.quiet 0 (by rw [hsup]; rfl) _ hcalling
  cases hdone

end HamsOpen.Runner
