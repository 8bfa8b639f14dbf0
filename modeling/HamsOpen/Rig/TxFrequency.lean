import Mathlib.Data.List.Induction
import HamsOpen.Rig.Traffic

/-!
# The cached transmit frequency

`observe` derives the transmit frequency from the cache after every value, and writes it back when
there is one. When there is none it leaves what was written before. So the cached transmit frequency
is the last one derived: it is right in a state exactly when one can be derived there, or none ever
could.
-/

namespace HamsOpen.Rig

/-! ### The history of values -/

namespace TxState

/-- Nothing reported yet. -/
def unknown : TxState := ⟨none, none, none, none, none⟩

/-- The derivation's inputs after one more value. -/
def report (s : TxState) : Observation → TxState
  | .frequency .a hz => { s with freqA := some hz }
  | .frequency .b hz => { s with freqB := some hz }
  | .split on => { s with split := some on }
  | .rxVfo v => { s with rxVfo := some v }
  | .txVfo v => { s with txVfo := some v }
  | _ => s

/-- The derivation's inputs after some values, oldest first. -/
def ofReports (vs : List Observation) : TxState := vs.foldl report unknown

@[simp] theorem ofReports_concat (vs : List Observation) (v : Observation) :
    ofReports (vs ++ [v]) = (ofReports vs).report v := by
  simp [ofReports]

end TxState

/-- The transmit frequency held after some values: the last one derived, or reported by the rig as
such while none could be derived. -/
def heldTx (vs : List Observation) : Option Observation :=
  (vs.foldl (fun (s, held) v =>
    ((s : TxState).report v, ((s.report v).activeTxFrequency.map .activeTxFrequency).or
      (if v.field = .activeTxFrequency then some v else held))) (TxState.unknown, none)).2

theorem heldTx_concat (vs : List Observation) (v : Observation) :
    heldTx (vs ++ [v]) =
      ((TxState.ofReports (vs ++ [v])).activeTxFrequency.map .activeTxFrequency).or
        (if v.field = .activeTxFrequency then some v else heldTx vs) := by
  have hfst (vs : List Observation) (p : TxState × Option Observation) :
      (vs.foldl (fun (s, held) v =>
        ((s : TxState).report v, ((s.report v).activeTxFrequency.map .activeTxFrequency).or
          (if v.field = .activeTxFrequency then some v else held))) p).1 =
        vs.foldl TxState.report p.1 := by
    induction vs generalizing p with
    | nil => rfl
    | cons v vs ih => exact ih _
  unfold heldTx
  rw [List.foldl_append, TxState.ofReports_concat]
  simp only [List.foldl_cons, List.foldl_nil, hfst]
  rfl

/-- No transmit frequency could ever be derived from the values, and the rig reported none. -/
def NeverKnown (vs : List Observation) : Prop :=
  (∀ ws, ws <+: vs → (TxState.ofReports ws).activeTxFrequency = none) ∧
    ∀ v ∈ vs, v.field ≠ .activeTxFrequency

/-- Nothing is held exactly when no transmit frequency was ever known. -/
theorem heldTx_eq_none_iff (vs : List Observation) : heldTx vs = none ↔ NeverKnown vs := by
  induction vs using List.reverseRecOn with
  | nil =>
    refine ⟨fun _ => ⟨fun ws hws => ?_, by simp⟩, fun _ => rfl⟩
    rw [List.prefix_nil.mp hws]
    rfl
  | append_singleton vs v ih =>
    rw [heldTx_concat, Option.or_eq_none_iff, Option.map_eq_none_iff]
    constructor
    · rintro ⟨hnow, hheld⟩
      split at hheld
      · cases hheld
      rename_i hv
      obtain ⟨hbefore, hfield⟩ := ih.mp hheld
      refine ⟨fun ws hws => ?_, fun w hw => ?_⟩
      · rcases List.prefix_concat_iff.mp hws with rfl | hws
        · exact hnow
        · exact hbefore ws hws
      · rcases List.mem_append.mp hw with hw | hw
        · exact hfield w hw
        · rw [List.mem_singleton.mp hw]
          exact hv
    · rintro ⟨hbefore, hfield⟩
      refine ⟨hbefore _ (List.prefix_refl _), ?_⟩
      rw [if_neg (hfield v (by simp))]
      exact ih.mpr ⟨fun ws hws => hbefore ws (hws.trans (List.prefix_append vs [v])),
        fun w hw => hfield w (by simp [hw])⟩

/-- The values an event of the log put in the cache. -/
def Event.values : Event → List Observation
  | .absorbed items _ => Memory.itemValues items
  | .applied op _ => (Memory.setValue op).toList
  | _ => []

/-- The values reported by the rig or acknowledged by it so far, oldest first. -/
def reports : List Event → List Observation
  | [] => []
  | e :: log => reports log ++ e.values

theorem Event.values_of_quiet {e : Event} (h : e.quiet = true) : e.values = [] := by
  cases e <;> first | rfl | cases h

theorem Event.values_of_aside {e : Event} (h : e.aside = true) : e.values = [] := by
  cases e <;> first | rfl | cases h

theorem reports_append {es log : List Event} (h : ∀ e ∈ es, e.values = []) :
    reports (es ++ log) = reports log := by
  induction es with
  | nil => rfl
  | cons e es ih =>
    simp only [List.cons_append, reports, h e List.mem_cons_self, List.append_nil]
    exact ih fun e' he' => h e' (List.mem_cons_of_mem _ he')

namespace Memory

/-! ### What `observe` does to the derivation -/

theorem value_insert (m : Memory) (v : Observation) (field f : Field) (now : Instant) :
    (m.insert v field now).value f = if f = field then some v else m.value f := by
  unfold value insert
  by_cases hf : f = field
  · subst hf
    simp
  · simp [hf]

/-- A value put under its own field is what the derivation reads from then on. -/
theorem txState_insert (m : Memory) (v : Observation) (now : Instant) :
    (m.insert v v.field now).txState = m.txState.report v := by
  unfold txState TxState.fromCache
  cases v with
  | frequency vfo hz => cases vfo <;> simp [value_insert, Observation.field, TxState.report]
  | _ => simp [value_insert, Observation.field, TxState.report]

@[simp] theorem watchPtt_cache (m : Memory) (v : Observation) (now : Instant) :
    (m.watchPtt v now).cache = m.cache := by
  unfold watchPtt
  split <;> rfl

@[simp] theorem watchPtt_events (m : Memory) (v : Observation) (now : Instant) :
    (m.watchPtt v now).events = m.events := by
  unfold watchPtt
  split <;> rfl

/-- The transmit frequency derived from the cache. -/
def derivedTx (m : Memory) : Option Observation :=
  m.txState.activeTxFrequency.map .activeTxFrequency

/-- The transmit frequency in the cache after a value: the derived one, else what was there. -/
theorem cacheValue_activeTx (m : Memory) (v : Observation) (now : Instant) :
    (m.cacheValue v now).1.value .activeTxFrequency =
      ((m.txState.report v).activeTxFrequency.map .activeTxFrequency).or
        ((m.insert v v.field now).value .activeTxFrequency) := by
  unfold cacheValue
  dsimp only
  rw [txState_insert]
  cases (m.txState.report v).activeTxFrequency with
  | none => rfl
  | some hz =>
    dsimp only
    split
    · simp [value_insert]
    · simp_all

theorem cacheValue_txState (m : Memory) (v : Observation) (now : Instant) :
    (m.cacheValue v now).1.txState = m.txState.report v := by
  have hderived (m' : Memory) (hz : Hz) :
      (m'.insert (.activeTxFrequency hz) .activeTxFrequency now).txState = m'.txState :=
    txState_insert m' (.activeTxFrequency hz) now
  rw [← txState_insert m v now]
  unfold cacheValue
  dsimp only
  split
  · split
    · exact hderived _ _
    · rfl
  · rfl

theorem observe_txState (m : Memory) (v : Observation) (source : Source) (now : Instant) :
    (m.observe v source now).txState = m.txState.report v := by
  have hwatch : (m.watchPtt v now).txState = m.txState := by
    unfold txState Memory.value
    rw [watchPtt_cache]
  have hcache := cacheValue_txState (m.watchPtt v now) v now
  rw [hwatch] at hcache
  unfold observe
  dsimp only
  split
  · exact hcache
  · exact hcache

/-! ### What the events tell -/

/-- The value the last of some changes gives a field. -/
def lastNew (changes : List Change) (f : Field) : Option Observation :=
  ((changes.filter (·.field = f)).getLast?).map (·.new)

/-- The value of a field as the events published so far tell it. -/
def published (m : Memory) (f : Field) : Option Observation :=
  lastNew (m.events.flatMap (·.changes)) f

theorem lastNew_append (cs ds : List Change) (f : Field) :
    lastNew (cs ++ ds) f = (lastNew ds f).or (lastNew cs f) := by
  unfold lastNew
  rw [List.filter_append, List.getLast?_append]
  cases (ds.filter (·.field = f)).getLast? <;> rfl

/-- The changes of a value and of the derived frequency tell exactly how the cache changed. -/
theorem cacheValue_value (m : Memory) (v : Observation) (now : Instant) (f : Field) :
    (m.cacheValue v now).1.value f = (lastNew (m.cacheValue v now).2 f).or (m.value f) := by
  have hvalue : (m.insert v v.field now).value f =
      (lastNew (if m.value v.field != some v then [⟨v.field, m.value v.field, v⟩] else []) f).or
        (m.value f) := by
    rw [value_insert]
    by_cases hf : f = v.field
    · subst hf
      by_cases hold : m.value v.field = some v
      · simp [hold, lastNew]
      · simp [hold, lastNew]
    · by_cases hold : m.value v.field = some v
      · simp [hf, hold, lastNew]
      · simp [hf, hold, lastNew, Ne.symm hf]
  unfold cacheValue
  dsimp only
  split
  · rename_i hz _
    split
    · rw [lastNew_append, value_insert, Option.or_assoc, ← hvalue]
      by_cases hf : f = .activeTxFrequency
      · simp [hf, lastNew]
      · simp [hf, lastNew, Ne.symm hf]
    · exact hvalue
  · exact hvalue

theorem observe_value (m : Memory) (v : Observation) (source : Source) (now : Instant) (f : Field) :
    (m.observe v source now).value f = ((m.watchPtt v now).cacheValue v now).1.value f := by
  unfold observe
  dsimp only
  split
  · rfl
  · rfl

/-- What the events tell of a field stays what the cache holds of it. -/
theorem observe_published {m : Memory} {f : Field} (h : m.published f = m.value f)
    (v : Observation) (source : Source) (now : Instant) :
    (m.observe v source now).published f = (m.observe v source now).value f := by
  have hold : (m.watchPtt v now).value f = m.value f := by
    unfold Memory.value
    rw [watchPtt_cache]
  have hevents : ((m.watchPtt v now).cacheValue v now).1.events = m.events := by
    unfold cacheValue
    dsimp only
    split
    · split <;> exact watchPtt_events m v now
    · exact watchPtt_events m v now
  have hcache := cacheValue_value (m.watchPtt v now) v now f
  rw [observe_value, hcache, hold, ← h]
  unfold observe
  dsimp only
  split
  · rename_i hnone
    rw [List.isEmpty_iff.mp hnone]
    unfold published
    rw [hevents]
    rfl
  · unfold published emit
    rw [hevents, List.flatMap_append, lastNew_append]
    simp

/-! ### What the history tells -/

/-- The cache's part in the transmit frequency, as the history of values tells it. -/
structure Tracks (m : Memory) (vs : List Observation) : Prop where
  txState : m.txState = TxState.ofReports vs
  activeTx : m.value .activeTxFrequency = heldTx vs
  published : ∀ f, f ≠ .alarm → m.published f = m.value f

theorem Tracks.of_same {m m' : Memory} {vs : List Observation} (hcache : m'.cache = m.cache)
    (hevents : m'.events = m.events) (h : m.Tracks vs) : m'.Tracks vs := by
  have hvalue : m'.value = m.value := by
    unfold Memory.value
    rw [hcache]
  refine ⟨?_, ?_, fun f hf => ?_⟩
  · unfold Memory.txState
    rw [hvalue]
    exact h.txState
  · rw [hvalue]
    exact h.activeTx
  · unfold Memory.published
    rw [hvalue, hevents]
    exact h.published f hf

theorem Tracks.observe {m : Memory} {vs : List Observation} (h : m.Tracks vs) (v : Observation)
    (source : Source) (now : Instant) : (m.observe v source now).Tracks (vs ++ [v]) := by
  have hwatch : (m.watchPtt v now).Tracks vs :=
    h.of_same (watchPtt_cache m v now) (watchPtt_events m v now)
  refine ⟨?_, ?_, fun f hf => observe_published (h.published f hf) v source now⟩
  · rw [observe_txState, h.txState, TxState.ofReports_concat]
  · rw [observe_value, cacheValue_activeTx, heldTx_concat, hwatch.txState, value_insert,
      hwatch.activeTx, TxState.ofReports_concat]
    simp only [eq_comm]

theorem Tracks.alarm {m : Memory} {vs : List Observation} (h : m.Tracks vs) (a : Alarm)
    (source : Source) : (m.alarm a source).Tracks vs := by
  refine ⟨h.txState, h.activeTx, fun f hf => ?_⟩
  have hnone : lastNew [⟨.alarm, none, .alarm a⟩] f = none := by simp [lastNew, Ne.symm hf]
  unfold Memory.alarm emit Memory.published
  rw [List.flatMap_append, lastNew_append]
  simp only [List.flatMap_cons, List.flatMap_nil, List.append_nil, hnone, Option.none_or]
  exact h.published f hf

theorem Tracks.applySet {m : Memory} {vs : List Observation} (h : m.Tracks vs) (op : Op)
    (source : Source) (now : Instant) :
    (m.applySet op source now).Tracks (vs ++ (setValue op).toList) := by
  unfold Memory.applySet
  split
  · rename_i value hvalue
    rw [hvalue]
    exact h.observe value source now
  · rename_i hnone
    rw [hnone, Option.toList_none, List.append_nil]
    split
    · exact Tracks.of_same (m := m) rfl rfl h
    · exact h

/-- The cached and the published transmit frequency are the one derived from the cache, and there
is none when none can be derived. -/
def TxCorrect (m : Memory) : Prop :=
  m.value .activeTxFrequency = m.derivedTx ∧ m.published .activeTxFrequency = m.derivedTx

instance (m : Memory) : Decidable m.TxCorrect := inferInstanceAs (Decidable (_ ∧ _))

/-- What is held is right exactly when a transmit frequency can be derived, or nothing is held. -/
theorem Tracks.txCorrect_iff {m : Memory} {vs : List Observation} (h : m.Tracks vs) :
    m.TxCorrect ↔ (TxState.ofReports vs).activeTxFrequency.isSome ∨ NeverKnown vs := by
  have hheld : m.TxCorrect ↔ heldTx vs = m.derivedTx := by
    unfold TxCorrect
    rw [h.published .activeTxFrequency nofun, h.activeTx, and_self]
  rw [hheld, ← heldTx_eq_none_iff]
  unfold derivedTx
  rw [h.txState]
  cases hnow : (TxState.ofReports vs).activeTxFrequency with
  | none => simp
  | some hz =>
    -- A frequency that can be derived now was written back with the last value.
    have hlast : heldTx vs = some (.activeTxFrequency hz) := by
      induction vs using List.reverseRecOn with
      | nil => cases hnow
      | append_singleton vs v _ => rw [heldTx_concat, hnow]; rfl
    simp [hlast]

end Memory

/-! ### Any run -/

/-- In every reachable state the history of values tells the cache's part in the transmit
frequency. -/
theorem tracks_reports {σ : Type} {cfg : Setup σ} {s : State σ}
    (h : (machine cfg).Reachable s) : s.memory.Tracks (reports s.log) := by
  refine Reachable.of_effect (P := fun s => s.memory.Tracks (reports s.log)) ?_ ?_ ?_ h
  · rintro _ ⟨engine, now, link, opens, linkWatch, linkUnseen, -⟩
    exact ⟨rfl, rfl, fun f _ => rfl⟩
  · intro s t heffect hs
    cases heffect with
    | quiet es hquiet hlog hcache hkeyed hevents =>
      rw [hlog, reports_append fun e he => Event.values_of_quiet (hquiet e he)]
      exact hs.of_same hcache hevents
    | alarm a source =>
      change Memory.Tracks _ (reports s.log ++ [])
      rw [List.append_nil]
      exact hs.alarm a source
    | applySet op source => exact hs.applySet op source s.env.now
    | absorb expect seq source items hlog hmemory =>
      rw [hlog, hmemory]
      exact Memory.absorb_reports (P := Memory.Tracks)
        (fun m m' vs hcache _ hevents hm => hm.of_same hcache hevents)
        (fun m vs v source hm => hm.observe v source s.env.now) none items hs
    | fire hlog hmemory =>
      rw [hlog, hmemory]
      change Memory.Tracks _ (reports s.log ++ [])
      rw [List.append_nil]
      exact Memory.Tracks.of_same (m := s.memory) rfl rfl hs
  · intro s t haside hs
    obtain ⟨es, hlog, hes⟩ := haside.log
    rw [hlog, reports_append fun e he => Event.values_of_aside (hes e he), haside.memory]
    exact hs

/-- In every reachable state the cached and published transmit frequency are right exactly when the
values reported so far tell the frequency of the transmit VFO, or never did. -/
theorem txCorrect_iff_reports {σ : Type} {cfg : Setup σ} {s : State σ} (h : (machine cfg).Reachable s) :
    s.memory.TxCorrect ↔
      (TxState.ofReports (reports s.log)).activeTxFrequency.isSome ∨ NeverKnown (reports s.log) :=
  (tracks_reports h).txCorrect_iff

/-! #### A stale transmit frequency

The rig reports VFO A's frequency and then that split is on. The transmit VFO is now B, whose
frequency is not known, and the cache still says the rig transmits on A's. -/

/-- A rig that reports VFO A's frequency, or that split is on. -/
def splitBench : Engine Unit :=
  benchEngine [.readFrequency, .split] 100 0 0 (fun _ => .ack)
    [.observation (.frequency .a 14000000), .observation (.split true)]

/-- The rig reports both, the frequency first. -/
def splitReports : List Act :=
  [.go, .go, .deliver ⟨[0], none⟩, .go, .deliver ⟨[1], none⟩, .go]

theorem activeTxFrequency_stale :
    ∃ s, (machine (bench splitBench)).Reachable s ∧
      s.memory.value .activeTxFrequency = some (.activeTxFrequency 14000000) ∧
      s.memory.txState.activeTxFrequency = none ∧ ¬s.memory.TxCorrect :=
  (benchStart_reachable splitBench).exists_of_run splitReports (by decide)

theorem txCorrect_iff_reports_split :
    ∃ s, (machine (bench splitBench)).Reachable s ∧ s.log ≠ [] ∧
      (s.memory.TxCorrect ↔
        (TxState.ofReports (reports s.log)).activeTxFrequency.isSome ∨
          NeverKnown (reports s.log)) := by
  obtain ⟨s, hs, hlog⟩ := (benchStart_reachable splitBench).exists_of_run
    (P := fun s => s.log ≠ []) splitReports (by decide)
  exact ⟨s, hs, hlog, txCorrect_iff_reports hs⟩

end HamsOpen.Rig
