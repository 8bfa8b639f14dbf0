import Mathlib.Data.Nat.Init
import Mathlib.Tactic.ByContra

/-!
# Executable machines, guarded runs and potentials

A machine is a set of initial states and a partial step function on labels: `step s e` is the state
after the event `e`, or `none` when `e` cannot happen in `s`. Interleaving is in the labels, so a
run of a concurrent system is a list of events of its parties in the order they happened.
-/

universe u v

/-- A transition system with partial steps on labels. -/
structure Machine (σ : Type u) (ε : Type v) where
  /-- Where a run may start. -/
  init : σ → Prop
  /-- The state after an event, when the event is possible. -/
  step : σ → ε → Option σ

namespace Machine

variable {σ : Type u} {ε : Type v} {m : Machine σ ε}

/-- The state after a list of events, when each of them is possible in its turn. -/
def run (m : Machine σ ε) : List ε → σ → Option σ
  | [], s => some s
  | e :: es, s => (m.step s e).bind (m.run es)

@[simp] theorem run_nil (s : σ) : m.run [] s = some s := rfl

@[simp] theorem run_cons (e : ε) (es : List ε) (s : σ) :
    m.run (e :: es) s = (m.step s e).bind (m.run es) := rfl

theorem run_append (es fs : List ε) (s : σ) :
    m.run (es ++ fs) s = (m.run es s).bind (m.run fs) := by
  induction es generalizing s with
  | nil => rfl
  | cons e es ih =>
    simp only [List.cons_append, run_cons]
    cases m.step s e with
    | none => rfl
    | some t => exact ih t

/-- The states reached by steps each of which meets the condition `ok` on the state before it and
its label. -/
inductive Reach (m : Machine σ ε) (ok : σ → ε → Prop) : σ → Prop
  | init {s : σ} : m.init s → Reach m ok s
  | step {s t : σ} {e : ε} : Reach m ok s → ok s e → m.step s e = some t → Reach m ok t

/-- The states some run reaches. -/
def Reachable (m : Machine σ ε) : σ → Prop := m.Reach fun _ _ => True

/-- An invariant of the initial states that every allowed step keeps holds in every state reached
by allowed steps. -/
theorem Reach.invariant {ok : σ → ε → Prop} {I : σ → Prop} (hinit : ∀ s, m.init s → I s)
    (hstep : ∀ s e t, I s → ok s e → m.step s e = some t → I t) {s : σ} (h : m.Reach ok s) :
    I s := by
  induction h with
  | init hs => exact hinit _ hs
  | step _ hok hst ih => exact hstep _ _ _ ih hok hst

/-- Fewer steps are allowed by a stronger condition. -/
theorem Reach.mono {ok ok' : σ → ε → Prop} (hsub : ∀ s e, ok s e → ok' s e) {s : σ}
    (h : m.Reach ok s) : m.Reach ok' s := by
  induction h with
  | init hs => exact .init hs
  | step _ hok hst ih => exact .step ih (hsub _ _ hok) hst

theorem Reach.reachable {ok : σ → ε → Prop} {s : σ} (h : m.Reach ok s) : m.Reachable s :=
  h.mono fun _ _ _ => trivial

/-- The machine that starts in a given state. -/
def startedIn (m : Machine σ ε) (s : σ) : Machine σ ε := { m with init := (· = s) }

/-- What is reached from a reached state is reached. -/
theorem Reach.trans {ok : σ → ε → Prop} {s t : σ} (hs : m.Reach ok s)
    (h : (m.startedIn s).Reach ok t) : m.Reach ok t := by
  induction h with
  | init ht =>
    obtain rfl := ht
    exact hs
  | step _ hok hst ih => exact .step ih hok hst

/-- An invariant may use what is already known of every reached state. -/
theorem Reach.invariant_with {ok : σ → ε → Prop} {K I : σ → Prop}
    (hknown : ∀ {s}, m.Reach ok s → K s) (hinit : ∀ s, m.init s → I s)
    (hstep : ∀ s e t, K s → I s → ok s e → m.step s e = some t → I t) {s : σ}
    (h : m.Reach ok s) : I s := by
  induction h with
  | init hs => exact hinit _ hs
  | step hs hok hst ih => exact hstep _ _ _ (hknown hs) ih hok hst

theorem Reachable.invariant {I : σ → Prop} (hinit : ∀ s, m.init s → I s)
    (hstep : ∀ s e t, I s → m.step s e = some t → I t) {s : σ} (h : m.Reachable s) : I s :=
  Reach.invariant hinit (fun s e t hs _ => hstep s e t hs) h

/-! ### Computed runs -/

/-- A computed run that stops at the first step whose condition fails. -/
def runWhile (m : Machine σ ε) (ok : σ → ε → Prop) [∀ s e, Decidable (ok s e)] :
    List ε → σ → Option σ
  | [], s => some s
  | e :: es, s => if ok s e then (m.step s e).bind (m.runWhile ok es) else none

theorem Reach.of_runWhile {ok : σ → ε → Prop} [∀ s e, Decidable (ok s e)] {es : List ε} {s t : σ}
    (hs : m.Reach ok s) (h : m.runWhile ok es s = some t) : m.Reach ok t := by
  induction es generalizing s with
  | nil =>
    obtain rfl := Option.some.inj h
    exact hs
  | cons e es ih =>
    unfold runWhile at h
    split at h
    · obtain ⟨u, hu, ht⟩ := Option.bind_eq_some_iff.mp h
      exact ih (hs.step ‹_› hu) ht
    · cases h

theorem Reachable.of_run {es : List ε} {s t : σ} (hs : m.Reachable s) (h : m.run es s = some t) :
    m.Reachable t := by
  induction es generalizing s with
  | nil =>
    obtain rfl := Option.some.inj h
    exact hs
  | cons e es ih =>
    obtain ⟨u, hu, ht⟩ := Option.bind_eq_some_iff.mp h
    exact ih (hs.step trivial hu) ht

theorem run_startedIn (es : List ε) (s t : σ) : (m.startedIn s).run es t = m.run es t := by
  induction es generalizing t with
  | nil => rfl
  | cons e es ih =>
    simp only [run_cons]
    exact congrArg _ (funext ih)

/-- A computed run reaches its end from its start. -/
theorem Reachable.startedIn {es : List ε} {s t : σ} (h : m.run es s = some t) :
    (m.startedIn s).Reachable t :=
  Reachable.of_run (.init rfl) ((run_startedIn es s s).trans h)

/-- A property that computes to true at the end of a computed run holds in some reached state. -/
theorem Reach.exists_of_runWhile {ok : σ → ε → Prop} [∀ s e, Decidable (ok s e)] {P : σ → Prop}
    [DecidablePred P] {s : σ} (hs : m.Reach ok s) (es : List ε)
    (h : (m.runWhile ok es s).any (fun t => decide (P t)) = true) : ∃ t, m.Reach ok t ∧ P t := by
  obtain ⟨t, ht, hP⟩ := (Option.any_eq_true _ _).mp h
  exact ⟨t, hs.of_runWhile ht, of_decide_eq_true hP⟩

theorem Reachable.exists_of_run {P : σ → Prop} [DecidablePred P] {s : σ}
    (hs : m.Reachable s) (es : List ε) (h : (m.run es s).any (fun t => decide (P t)) = true) :
    ∃ t, m.Reachable t ∧ P t := by
  obtain ⟨t, ht, hP⟩ := (Option.any_eq_true _ _).mp h
  exact ⟨t, hs.of_run ht, of_decide_eq_true hP⟩

/-! ### Progress

Work lowers a potential, and other steps raise it by at most their gain, or a step goes down a level
and the potential starts anew. So a run whose work outruns its gains from every moment on cannot
stay on any level for ever. -/

/-- An infinite run: its states, and the event after each of them. -/
def Runs (m : Machine σ ε) (f : ℕ → σ) (a : ℕ → ε) : Prop :=
  ∀ n, m.step (f n) (a n) = some (f (n + 1))

/-- The sum of `g` over the `n` steps of an infinite run that follow its `k`-th state. -/
def total (g : σ → ε → ℕ) (f : ℕ → σ) (a : ℕ → ε) (k : ℕ) : ℕ → ℕ
  | 0 => 0
  | n + 1 => total g f a k n + g (f (k + n)) (a (k + n))

/-- From every moment on, the work done comes to exceed the gains by any amount. -/
def Outruns (work gain : σ → ε → ℕ) (f : ℕ → σ) (a : ℕ → ε) : Prop :=
  ∀ k b, ∃ n, b + total gain f a k n < total work f a k n

/-- What every step keeps holds all along an infinite run. -/
theorem Runs.invariant {I : σ → Prop} {f : ℕ → σ} {a : ℕ → ε} (h : m.Runs f a)
    (hI : ∀ s e t, I s → m.step s e = some t → I t) (h0 : I (f 0)) (n : ℕ) : I (f n) := by
  induction n with
  | zero => exact h0
  | succ n ih => exact hI _ _ _ ih (h n)

end Machine
