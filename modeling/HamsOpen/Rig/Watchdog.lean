import HamsOpen.Rig.TxFrequency
import Mathlib

/-!
# The transmit watchdog and the cached key state

The watchdog runs from the first report that the rig is keyed: a value it reported, an acknowledged
key, or Morse that was sent. A report that it is not keyed stops it, and so does its own firing,
whatever becomes of the unkey it then writes; the next key report starts it again.
-/

namespace HamsOpen.Rig

/-- What is told about the key. -/
inductive KeyReport
  | keyed (when : Instant)
  | unkeyed
  | fired
  deriving DecidableEq

/-- What a value reported at `now` tells about the key. -/
def KeyReport.ofValue (now : Instant) : Observation → Option KeyReport
  | .ptt true => some (.keyed now)
  | .ptt false => some .unkeyed
  | _ => none

/-- What an acknowledged command tells about the key. -/
def KeyReport.ofSet (now : Instant) : Op → Option KeyReport
  | .setPtt true | .sendCw _ => some (.keyed now)
  | .setPtt false => some .unkeyed
  | _ => none

/-- The value a successful set puts in the cache tells what the set tells. -/
theorem KeyReport.ofValue_setValue {op : Op} {value : Observation} {now : Instant}
    (h : Memory.setValue op = some value) : ofValue now value = ofSet now op := by
  cases op with
  | setPtt on =>
    obtain rfl := Option.some.inj h
    cases on <;> rfl
  | _ => cases h <;> rfl

/-- Beside the sets that put a value in the cache, only Morse tells about the key. -/
theorem KeyReport.ofSet_eq_none {op : Op} {now : Instant} (h : Memory.setValue op = none)
    (hcw : ∀ text, op = .sendCw text → False) : ofSet now op = none := by
  cases op with
  | sendCw text => exact (hcw text rfl).elim
  | setPtt on => cases h
  | _ => rfl

/-- What an event of the log tells about the key. -/
def Event.keyReports : Event → List KeyReport
  | .absorbed items now => (Memory.itemValues items).filterMap (KeyReport.ofValue now)
  | .applied op now => (KeyReport.ofSet now op).toList
  | .fired _ => [.fired]
  | _ => []

/-- What has been told about the key so far, oldest first. -/
def keyReports : List Event → List KeyReport
  | [] => []
  | e :: log => keyReports log ++ e.keyReports

theorem Event.keyReports_of_quiet {e : Event} (h : e.quiet = true) : e.keyReports = [] := by
  cases e <;> first | rfl | cases h

theorem Event.keyReports_of_aside {e : Event} (h : e.aside = true) : e.keyReports = [] := by
  cases e <;> first | rfl | cases h

theorem keyReports_append {es log : List Event} (h : ∀ e ∈ es, e.keyReports = []) :
    keyReports (es ++ log) = keyReports log := by
  induction es with
  | nil => rfl
  | cons e es ih =>
    simp only [List.cons_append, keyReports, h e List.mem_cons_self, List.append_nil]
    exact ih fun e' he' => h e' (List.mem_cons_of_mem _ he')

/-! ### The watchdog's start -/

/-- The watchdog's start after one more report. -/
def KeyReport.watch (start : Option Instant) : KeyReport → Option Instant
  | .keyed now => start <|> some now
  | .unkeyed | .fired => none

/-- The watchdog's start after some reports. -/
def watchStart (rs : List KeyReport) : Option Instant := rs.foldl KeyReport.watch none

@[simp] theorem watchStart_concat (rs : List KeyReport) (r : KeyReport) :
    watchStart (rs ++ [r]) = KeyReport.watch (watchStart rs) r := by
  simp [watchStart]

/-- The rig was first told keyed at `k` since the last unkey report or firing. -/
def FirstKeyed (rs : List KeyReport) (k : Instant) : Prop :=
  ∃ older newer, rs = older ++ .keyed k :: newer ∧ (∀ r ∈ newer, ∃ now, r = .keyed now) ∧
    ∀ r ∈ older.getLast?, r = .unkeyed ∨ r = .fired

/-- The watchdog does not run exactly when nothing was told, or last an unkey or a firing. -/
theorem watchStart_eq_none_iff (rs : List KeyReport) :
    watchStart rs = none ↔ ∀ r ∈ rs.getLast?, r = .unkeyed ∨ r = .fired := by
  induction rs using List.reverseRecOn with
  | nil => simp [watchStart]
  | append_singleton rs r _ =>
    rw [watchStart_concat, List.getLast?_concat]
    cases r with
    | keyed now => cases watchStart rs <;> simp [KeyReport.watch]
    | unkeyed => simp [KeyReport.watch]
    | fired => simp [KeyReport.watch]

/-- The watchdog runs from the first key report. -/
theorem watchStart_eq_some {rs : List KeyReport} {k : Instant} (h : watchStart rs = some k) :
    FirstKeyed rs k := by
  induction rs using List.reverseRecOn with
  | nil => cases h
  | append_singleton rs r ih =>
    rw [watchStart_concat] at h
    cases r with
    | unkeyed => cases h
    | fired => cases h
    | keyed now =>
      cases hstart : watchStart rs with
      | none =>
        rw [hstart] at h
        obtain rfl : now = k := Option.some.inj h
        exact ⟨rs, [], rfl, by simp, (watchStart_eq_none_iff rs).mp hstart⟩
      | some k' =>
        rw [hstart] at h
        obtain rfl : k' = k := Option.some.inj h
        obtain ⟨older, newer, rfl, hnewer, holder⟩ := ih hstart
        refine ⟨older, newer ++ [.keyed now], by simp, fun r hr => ?_, holder⟩
        rcases List.mem_append.mp hr with hr | hr
        · exact hnewer r hr
        · exact ⟨now, List.mem_singleton.mp hr⟩

namespace Memory

/-! ### What the memory keeps of the reports -/

@[simp] theorem cacheValue_keyedSince (m : Memory) (v : Observation) (now : Instant) :
    (m.cacheValue v now).1.keyedSince = m.keyedSince := by
  unfold cacheValue
  dsimp only
  split
  · split <;> rfl
  · rfl

theorem observe_keyedSince (m : Memory) (v : Observation) (source : Source) (now : Instant) :
    (m.observe v source now).keyedSince = (m.watchPtt v now).keyedSince := by
  have hcache := cacheValue_keyedSince (m.watchPtt v now) v now
  unfold observe
  dsimp only
  split
  · exact hcache
  · exact hcache

/-- Only a key report changes the cached key state. -/
theorem observe_value_ptt (m : Memory) (v : Observation) (source : Source) (now : Instant) :
    (m.observe v source now).value .ptt = if v.field = .ptt then some v else m.value .ptt := by
  have hwatch : (m.watchPtt v now).value = m.value := by
    unfold Memory.value
    rw [watchPtt_cache]
  rw [observe_value]
  unfold cacheValue
  dsimp only
  split
  · split
    · simp [value_insert, hwatch, eq_comm]
    · simp [value_insert, hwatch, eq_comm]
  · simp [value_insert, hwatch, eq_comm]

/-- The watchdog runs as the reports say, and a cached key is not older than an unkey report. -/
structure Watches (m : Memory) (rs : List KeyReport) : Prop where
  start : m.keyedSince = watchStart rs
  cached : m.value .ptt = some (.ptt true) → ∃ r, rs.getLast? = some r ∧ r ≠ .unkeyed

theorem Watches.of_same {m m' : Memory} {rs : List KeyReport} (hcache : m'.cache = m.cache)
    (hkeyed : m'.keyedSince = m.keyedSince) (h : m.Watches rs) : m'.Watches rs := by
  refine ⟨hkeyed.trans h.start, fun hptt => h.cached ?_⟩
  unfold Memory.value at hptt ⊢
  rwa [← hcache]

theorem Watches.armWatchdog {m : Memory} {rs : List KeyReport} (h : m.Watches rs)
    (now : Instant) : (m.armWatchdog now).Watches (rs ++ [.keyed now]) := by
  refine ⟨?_, fun _ => ⟨.keyed now, List.getLast?_concat, nofun⟩⟩
  rw [watchStart_concat, ← h.start]
  rfl

theorem Watches.observe {m : Memory} {rs : List KeyReport} (h : m.Watches rs) (v : Observation)
    (source : Source) (now : Instant) :
    (m.observe v source now).Watches (rs ++ (KeyReport.ofValue now v).toList) := by
  have hkeyed := observe_keyedSince m v source now
  have hptt := observe_value_ptt m v source now
  cases hv : KeyReport.ofValue now v with
  | none =>
    -- Not a key report: neither the watchdog nor the cached key changes.
    have hfield : v.field ≠ .ptt := by
      cases v with
      | ptt on => cases on <;> cases hv
      | _ => simp [Observation.field]
    have hwatch : m.watchPtt v now = m := by
      cases v with
      | ptt on => exact absurd rfl hfield
      | _ => rfl
    rw [Option.toList_none, List.append_nil]
    rw [hwatch] at hkeyed
    rw [if_neg hfield] at hptt
    exact ⟨hkeyed.trans h.start, fun htrue => h.cached (hptt ▸ htrue)⟩
  | some r =>
    rw [Option.toList_some]
    obtain ⟨on, rfl⟩ : ∃ on, v = .ptt on := by
      cases v <;> first | exact ⟨_, rfl⟩ | cases hv
    cases on with
    | true =>
      obtain rfl := Option.some.inj hv
      refine ⟨?_, fun _ => ⟨.keyed now, List.getLast?_concat, by rintro ⟨⟩⟩⟩
      rw [hkeyed, watchStart_concat, ← h.start]
      rfl
    | false =>
      obtain rfl := Option.some.inj hv
      refine ⟨?_, fun htrue => ?_⟩
      · rw [hkeyed, watchStart_concat]
        rfl
      · rw [hptt] at htrue
        cases htrue

theorem Watches.applySet {m : Memory} {rs : List KeyReport} (h : m.Watches rs) (op : Op)
    (source : Source) (now : Instant) :
    (m.applySet op source now).Watches (rs ++ (KeyReport.ofSet now op).toList) := by
  unfold Memory.applySet
  split
  · rename_i value hvalue
    rw [← KeyReport.ofValue_setValue hvalue]
    exact h.observe value source now
  · rename_i hnone
    split
    · exact h.armWatchdog now
    · rename_i hcw
      rw [KeyReport.ofSet_eq_none hnone hcw, Option.toList_none, List.append_nil]
      exact h

end Memory

/-- A running watchdog is due no later than `maxTransmit` after its start. -/
theorem State.watchdogDue_le {σ : Type} (cfg : Setup σ) (s : State σ) {k : Instant}
    (h : s.memory.keyedSince = some k) :
    ∃ due, s.watchdogDue cfg = some due ∧ due ≤ deadlineAfter k cfg.maxTransmit := by
  unfold watchdogDue
  rw [h]
  refine ⟨_, rfl, ?_⟩
  split
  · exact Nat.le_refl _
  · exact Nat.min_le_left _ _

/-! ### Any run -/

section

variable {σ : Type} {cfg : Setup σ} {s : State σ}

/-- In every reachable state the watchdog runs as what has been told about the key says. -/
theorem watches_keyReports (h : (machine cfg).Reachable s) :
    s.memory.Watches (keyReports s.log) := by
  refine Reachable.of_effect (P := fun s => s.memory.Watches (keyReports s.log)) ?_ ?_ ?_ h
  · rintro _ ⟨engine, now, link, opens, linkWatch, linkUnseen, -⟩
    exact ⟨rfl, nofun⟩
  · intro s t heffect hs
    cases heffect with
    | quiet es hquiet hlog hcache hkeyed hevents =>
      rw [hlog, keyReports_append fun e he => Event.keyReports_of_quiet (hquiet e he)]
      exact hs.of_same hcache hkeyed
    | alarm a source =>
      change Memory.Watches _ (keyReports s.log ++ [])
      rw [List.append_nil]
      exact Memory.Watches.of_same (m := s.memory) rfl rfl hs
    | applySet op source => exact hs.applySet op source s.env.now
    | absorb expect seq source items hlog hmemory =>
      rw [hlog, hmemory]
      have hnone : s.memory.Watches
          (keyReports s.log ++ ([] : List Observation).filterMap (KeyReport.ofValue s.env.now)) := by
        simpa using hs
      refine Memory.absorb_reports (P := fun m vs => m.Watches
        (keyReports s.log ++ vs.filterMap (KeyReport.ofValue s.env.now)))
        (fun m m' vs hcache hkeyed _ hm => hm.of_same hcache hkeyed)
        (fun m vs v source hm => ?_) none items hnone
      have hobserve := hm.observe v source s.env.now
      rw [List.filterMap_append, ← List.append_assoc]
      cases hv : KeyReport.ofValue s.env.now v <;> simpa [hv] using hobserve
    | fire hlog hmemory =>
      rw [hlog, hmemory]
      refine ⟨?_, fun _ => ⟨.fired, List.getLast?_concat, nofun⟩⟩
      exact (watchStart_concat (keyReports s.log) .fired).symm
  · intro s t haside hs
    obtain ⟨es, hlog, hes⟩ := haside.log
    rw [hlog, keyReports_append fun e he => Event.keyReports_of_aside (hes e he), haside.memory]
    exact hs

/-- While the cache says the rig is keyed, the watchdog runs, and is due no later than
`maxTransmit` after the first key report since the last unkey report or firing; or it has fired,
and nothing has been told about the key since. -/
theorem watchdog_covers_keyed (h : (machine cfg).Reachable s)
    (hptt : s.memory.value .ptt = some (.ptt true)) :
    (∃ k due, s.memory.keyedSince = some k ∧ FirstKeyed (keyReports s.log) k ∧
      s.watchdogDue cfg = some due ∧ due ≤ deadlineAfter k cfg.maxTransmit) ∨
    (keyReports s.log).getLast? = some .fired := by
  have hwatch := watches_keyReports h
  cases hkeyed : s.memory.keyedSince with
  | none =>
    obtain ⟨r, hlast, hr⟩ := hwatch.cached hptt
    have hnone := (watchStart_eq_none_iff _).mp (hwatch.start.symm.trans hkeyed) r hlast
    rw [hnone.resolve_left hr] at hlast
    exact .inr hlast
  | some k =>
    obtain ⟨due, hdue, hle⟩ := s.watchdogDue_le cfg hkeyed
    exact .inl ⟨k, due, rfl, watchStart_eq_some (hwatch.start.symm.trans hkeyed), hdue, hle⟩

end

/-! #### A failed unkey leaves the watchdog stopped

The rig reports that it is keyed and then answers nothing. The watchdog fires after a second; the
unkey it writes is never answered, and the cache still says keyed with no watchdog running. -/

/-- A rig that reports that it is keyed. -/
def mutePtt : Engine Unit :=
  benchEngine [.setPtt, .readPtt] 100 0 0 (fun _ => .ack) [.observation (.ptt true)]

/-- The rig is seen keyed. -/
def seenKeyed : List Act := [.go, .go, .deliver ⟨[0], none⟩, .go]

/-- The watchdog fires, and its unkey is written three times. -/
def unansweredUnkey : List Act :=
  [.tick 1000, .go, .go, .tick 100, .go, .tick 100, .go, .go, .tick 100, .go, .tick 200, .go, .go,
    .tick 100, .go]

theorem watchdog_stopped_while_keyed :
    ∃ s, (machine (bench mutePtt)).Reachable s ∧ s.memory.value .ptt = some (.ptt true) ∧
      s.memory.keyedSince = none ∧ s.phase = .select none ∧ s.log.head? = some (.alarm .unkeyFailed) :=
  (benchStart_reachable mutePtt).exists_of_run (seenKeyed ++ unansweredUnkey) (by decide)

theorem watchdog_covers_keyed_seen :
    ∃ s, (machine (bench mutePtt)).Reachable s ∧ s.memory.value .ptt = some (.ptt true) ∧
      ((∃ k due, s.memory.keyedSince = some k ∧ FirstKeyed (keyReports s.log) k ∧
        s.watchdogDue (bench mutePtt) = some due ∧ due ≤ deadlineAfter k 1000) ∨
      (keyReports s.log).getLast? = some .fired) := by
  obtain ⟨s, hs, hptt⟩ := (benchStart_reachable mutePtt).exists_of_run
    (P := fun s => s.memory.value .ptt = some (.ptt true)) seenKeyed (by decide)
  exact ⟨s, hs, hptt, watchdog_covers_keyed hs hptt⟩

end HamsOpen.Rig
