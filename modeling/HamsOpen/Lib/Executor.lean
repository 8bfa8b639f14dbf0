import HamsOpen.Lib.Machine
import HamsOpen.Lib.Program
import Mathlib.Logic.Function.Basic

/-!
# Executors of concurrent programs

An executor runs any number of programs over one shared state. Whoever calls it starts a program; then
the programs take turns in any order, an action at a time, and the world around them moves between
any two of their steps. Where a program waits, it may be cut by a timeout of its own, or dropped by its
caller.
-/

/-- Programs over a shared state `S`: `κ` are the calls that start them, `χ` what the world chooses
for an action, `ε` what the world does by itself. -/
structure Executor (ι : Type) (ρ : ι → Type) (S κ χ ε R : Type) where
  init : S → Prop
  /-- What an action of the given program does, when it can be performed. -/
  exec : Nat → χ → (i : ι) → S → Option (ρ i × S)
  /-- The actions at which a program waits: there it may be cut. -/
  suspends : ι → Bool
  /-- The time. -/
  clock : S → Nat
  /-- What becomes of the shared state when the given program is cut: it gives up its guards. -/
  release : Nat → S → S
  body : κ → Prog ι ρ R
  env : ε → S → Option S

/-- A program that was started, by which call. It is gone when its caller dropped it. -/
structure Job (ι : Type) (ρ : ι → Type) (κ R : Type) where
  call : κ
  prog : Option (Prog ι ρ R)

/-- The shared state and the programs started so far, in the order they were started. -/
structure World (ι : Type) (ρ : ι → Type) (S κ R : Type) where
  shared : S
  jobs : List (Job ι ρ κ R)

/-- A step of an executor. -/
inductive Turn (κ χ ε : Type)
  | call (c : κ)
  | turn (k : Nat) (choice : χ)
  | elapse (k depth : Nat)
  | drop (k : Nat)
  | env (e : ε)
deriving DecidableEq

namespace World

variable {ι : Type} {ρ : ι → Type} {S κ R : Type}

/-- The program of a job. -/
def prog (w : World ι ρ S κ R) (k : Nat) : Option (Prog ι ρ R) :=
  w.jobs[k]?.bind Job.prog

/-- The action a job is about to perform. -/
def current (w : World ι ρ S κ R) (k : Nat) : Option ι := (w.prog k).bind Prog.current

/-- What a job came to, when it has ended. -/
def result (w : World ι ρ S κ R) (k : Nat) : Option R := (w.prog k).bind Prog.result

/-- The world after a step of one job. -/
def put (w : World ι ρ S κ R) (k : Nat) (p : Option (Prog ι ρ R)) (s : S) : World ι ρ S κ R :=
  ⟨s, w.jobs.modify k fun t => { t with prog := p }⟩

@[simp] theorem put_shared (w : World ι ρ S κ R) (k : Nat) (p : Option (Prog ι ρ R)) (s : S) :
    (w.put k p s).shared = s := rfl

theorem put_prog_self {w : World ι ρ S κ R} {k : Nat} {q : Prog ι ρ R} (h : w.prog k = some q)
    (p : Option (Prog ι ρ R)) (s : S) : (w.put k p s).prog k = p := by
  obtain ⟨t, ht, -⟩ := Option.bind_eq_some_iff.mp h
  simp [prog, put, ht]

theorem put_prog_ne {k j : Nat} (h : j ≠ k) (w : World ι ρ S κ R) (p : Option (Prog ι ρ R))
    (s : S) : (w.put k p s).prog j = w.prog j := by
  simp [prog, put, Ne.symm h]

theorem put_length (w : World ι ρ S κ R) (k : Nat) (p : Option (Prog ι ρ R)) (s : S) :
    (w.put k p s).jobs.length = w.jobs.length := by
  simp [put]

end World

namespace Executor

variable {ι : Type} {ρ : ι → Type} {S κ χ ε R L : Type} (ex : Executor ι ρ S κ χ ε R)

/-- The job waits at its next action. -/
def Suspended (w : World ι ρ S κ R) (k : Nat) : Prop := ∃ i ∈ w.current k, ex.suspends i = true

instance (w : World ι ρ S κ R) (k : Nat) : Decidable (ex.Suspended w k) :=
  decidable_of_iff ((w.current k).any ex.suspends = true) (Option.any_eq_true _ _)

/-- One step of the executor. -/
def step (w : World ι ρ S κ R) : Turn κ χ ε → Option (World ι ρ S κ R)
  | .call c => some { w with jobs := w.jobs ++ [⟨c, some (ex.body c)⟩] }
  | .turn k choice =>
    match w.prog k with
    | some p => (p.turn (ex.exec k choice) w.shared).map fun o => w.put k (some o.1) o.2
    | none => none
  | .elapse k depth =>
    if ex.Suspended w k then
      ((w.prog k).bind fun p => p.elapse (ex.clock w.shared) depth).map fun q =>
        w.put k (some q) (ex.release k w.shared)
    else none
  | .drop k =>
    if ex.Suspended w k then some (w.put k none (ex.release k w.shared)) else none
  | .env e => (ex.env e w.shared).map fun s => { w with shared := s }

/-- The interleavings of the executor: it starts with no program. -/
def machine : Machine (World ι ρ S κ R) (Turn κ χ ε) where
  init w := ex.init w.shared ∧ w.jobs = []
  step := ex.step

variable {ex}

/-! ### Steps of the world -/

/-- The job is started, moves on by a step of its program, or is gone: nothing else changes of the
jobs. -/
theorem put_job {w : World ι ρ S κ R} {k j : Nat} {p : Option (Prog ι ρ R)} {s : S}
    {t' : Job ι ρ κ R} (h : (w.put k p s).jobs[j]? = some t') :
    ∃ t, w.jobs[j]? = some t ∧ t'.call = t.call ∧
      (j = k ∧ t'.prog = p ∨ j ≠ k ∧ t'.prog = t.prog) := by
  simp only [World.put, List.getElem?_modify] at h
  obtain ⟨t, ht, rfl⟩ := Option.map_eq_some_iff.mp h
  refine ⟨t, ht, ?_⟩
  by_cases hjk : k = j
  · simp [hjk]
  · simp [hjk, Ne.symm hjk]

/-- A turn of a job is an action of its program, or a step of its control alone. -/
theorem turn_cases {w w' : World ι ρ S κ R} {k : Nat} {choice : χ}
    (h : ex.machine.step w (.turn k choice) = some w') :
    ∃ p p', w.prog k = some p ∧ w' = w.put k (some p') w'.shared ∧ Prog.Leads p p' ∧
      (w'.shared = w.shared ∨
        ∃ i r, w.current k = some i ∧ ex.exec k choice i w.shared = some (r, w'.shared)) := by
  simp only [machine, step] at h
  split at h
  next p hk =>
    obtain ⟨⟨q, t⟩, hturn, rfl⟩ := Option.map_eq_some_iff.mp h
    refine ⟨p, q, hk, rfl, Prog.leads_of_turn hturn, (Prog.turn_cases hturn).imp_right ?_⟩
    rintro ⟨i, r, hcurrent, hexec⟩
    exact ⟨i, r, by rw [World.current, hk]; exact hcurrent, hexec⟩
  next => cases h

/-- The shared state after a step: an action of a job, a cut, or a move of the world changed it. -/
theorem step_shared {w w' : World ι ρ S κ R} {a : Turn κ χ ε}
    (h : ex.machine.step w a = some w') :
    w'.shared = w.shared ∨
      (∃ k choice i r, a = .turn k choice ∧ w.current k = some i ∧
        ex.exec k choice i w.shared = some (r, w'.shared)) ∨
      (∃ k, (a = .drop k ∨ ∃ depth, a = .elapse k depth) ∧
        w'.shared = ex.release k w.shared) ∨
      ∃ e, a = .env e ∧ ex.env e w.shared = some w'.shared := by
  cases a with
  | call c =>
    obtain rfl := Option.some.inj h
    exact .inl rfl
  | turn k choice =>
    obtain ⟨p, p', -, -, -, hsame | ⟨i, r, hcurrent, hexec⟩⟩ := turn_cases h
    · exact .inl hsame
    · exact .inr (.inl ⟨k, choice, i, r, rfl, hcurrent, hexec⟩)
  | elapse k depth =>
    obtain ⟨-, hstep⟩ := Option.ite_none_right_eq_some.mp h
    obtain ⟨q, -, rfl⟩ := Option.map_eq_some_iff.mp hstep
    exact .inr (.inr (.inl ⟨k, .inr ⟨depth, rfl⟩, rfl⟩))
  | drop k =>
    obtain ⟨-, heq⟩ := Option.ite_none_right_eq_some.mp h
    obtain rfl := Option.some.inj heq
    exact .inr (.inr (.inl ⟨k, .inl rfl, rfl⟩))
  | env e =>
    obtain ⟨s, hs, rfl⟩ := Option.map_eq_some_iff.mp h
    exact .inr (.inr (.inr ⟨e, rfl, hs⟩))

/-- A job of the second world is a later state of the job of that number in the first. -/
def Descends (t t' : Job ι ρ κ R) : Prop :=
  t'.call = t.call ∧ ∀ p', t'.prog = some p' →
    ∃ p, t.prog = some p ∧ Relation.ReflTransGen Prog.Leads p p'

theorem Descends.refl (t : Job ι ρ κ R) : Descends t t := ⟨rfl, fun p hp => ⟨p, hp, .refl⟩⟩

theorem Descends.trans {t t' t'' : Job ι ρ κ R} (h : Descends t t') (h' : Descends t' t'') :
    Descends t t'' := by
  refine ⟨h'.1.trans h.1, fun p'' hp'' => ?_⟩
  obtain ⟨p', hp', hleads'⟩ := h'.2 p'' hp''
  obtain ⟨p, hp, hleads⟩ := h.2 p' hp'
  exact ⟨p, hp, hleads.trans hleads'⟩

theorem Descends.ahead {t t' : Job ι ρ κ R} (h : Descends t t') {p' : Prog ι ρ R} {i : ι}
    (hp' : t'.prog = some p') (ha : p'.Ahead i) : ∃ p, t.prog = some p ∧ p.Ahead i := by
  obtain ⟨p, hp, hleads⟩ := h.2 p' hp'
  obtain ⟨q, hq, hcurrent⟩ := ha
  exact ⟨p, hp, q, hleads.trans hq, hcurrent⟩

/-- A job is a later state of what it was before the step, or it has just been started. -/
theorem step_job {w w' : World ι ρ S κ R} {a : Turn κ χ ε} (h : ex.machine.step w a = some w')
    {j : Nat} {t' : Job ι ρ κ R} (hj : w'.jobs[j]? = some t') :
    (∃ t, w.jobs[j]? = some t ∧ Descends t t') ∨
      w.jobs[j]? = none ∧ t' = ⟨t'.call, some (ex.body t'.call)⟩ := by
  have hput {k : Nat} {p : Option (Prog ι ρ R)} {s : S} (hj : (w.put k p s).jobs[j]? = some t')
      (hp : ∀ p', p = some p' → ∃ q, w.prog k = some q ∧ Prog.Leads q p') :
      ∃ t, w.jobs[j]? = some t ∧ Descends t t' := by
    obtain ⟨t, ht, hcall, ⟨rfl, hprog⟩ | ⟨-, hprog⟩⟩ := put_job hj
    · refine ⟨t, ht, hcall, fun p' hp' => ?_⟩
      obtain ⟨q, hq, hleads⟩ := hp p' (hprog.symm.trans hp')
      rw [World.prog, ht] at hq
      exact ⟨q, hq, .single hleads⟩
    · exact ⟨t, ht, hcall, fun p' hp' => ⟨p', hprog.symm.trans hp', .refl⟩⟩
  cases a with
  | call c =>
    obtain rfl := Option.some.inj h
    by_cases hlt : j < w.jobs.length
    · rw [List.getElem?_append_left hlt] at hj
      exact .inl ⟨t', hj, .refl t'⟩
    · have hle := Nat.le_of_not_lt hlt
      rw [List.getElem?_append_right hle] at hj
      obtain rfl := List.mem_singleton.mp (List.mem_of_getElem? hj)
      exact .inr ⟨List.getElem?_eq_none hle, rfl⟩
  | turn k choice =>
    obtain ⟨p, p', hk, hw', hleads, -⟩ := turn_cases h
    rw [hw'] at hj
    refine .inl (hput hj ?_)
    rintro q ⟨⟩
    exact ⟨p, hk, hleads⟩
  | elapse k depth =>
    obtain ⟨-, hstep⟩ := Option.ite_none_right_eq_some.mp h
    obtain ⟨q, hq, rfl⟩ := Option.map_eq_some_iff.mp hstep
    obtain ⟨p, hk, helapse⟩ := Option.bind_eq_some_iff.mp hq
    refine .inl (hput hj ?_)
    rintro q' ⟨⟩
    exact ⟨p, hk, Prog.leads_of_elapse helapse⟩
  | drop k =>
    obtain ⟨-, heq⟩ := Option.ite_none_right_eq_some.mp h
    obtain rfl := Option.some.inj heq
    exact .inl (hput hj fun p' hp' => by cases hp')
  | env e =>
    obtain ⟨s, -, rfl⟩ := Option.map_eq_some_iff.mp h
    exact .inl ⟨t', hj, .refl t'⟩

/-- A step leaves no job out. -/
theorem step_length {w w' : World ι ρ S κ R} {a : Turn κ χ ε} (h : ex.machine.step w a = some w') :
    w.jobs.length ≤ w'.jobs.length := by
  cases a with
  | call c =>
    obtain rfl := Option.some.inj h
    simp
  | turn k choice =>
    obtain ⟨p, p', -, hw', -, -⟩ := turn_cases h
    rw [hw']
    exact Nat.le_of_eq (World.put_length w k _ _).symm
  | elapse k depth =>
    obtain ⟨-, hstep⟩ := Option.ite_none_right_eq_some.mp h
    obtain ⟨q, -, rfl⟩ := Option.map_eq_some_iff.mp hstep
    exact Nat.le_of_eq (World.put_length w k _ _).symm
  | drop k =>
    obtain ⟨-, heq⟩ := Option.ite_none_right_eq_some.mp h
    obtain rfl := Option.some.inj heq
    exact Nat.le_of_eq (World.put_length w k _ _).symm
  | env e =>
    obtain ⟨s, -, rfl⟩ := Option.map_eq_some_iff.mp h
    exact Nat.le_refl _

/-- Every job is a later state of the program that its call started. -/
theorem reach_descends {ok : World ι ρ S κ R → Turn κ χ ε → Prop} {w : World ι ρ S κ R}
    (h : ex.machine.Reach ok w) {j : Nat} {t : Job ι ρ κ R} (hj : w.jobs[j]? = some t) :
    Descends ⟨t.call, some (ex.body t.call)⟩ t := by
  induction h generalizing j t with
  | init hs => simp [hs.2] at hj
  | step hs hok hst ih =>
    rcases step_job hst hj with ⟨t₀, ht₀, hdescends⟩ | ⟨-, heq⟩
    · rw [hdescends.1]
      exact (ih ht₀).trans hdescends
    · rw [← heq]
      exact .refl t

/-- A job only has ahead what was ahead of it when it was started. -/
theorem reach_ahead {ok : World ι ρ S κ R → Turn κ χ ε → Prop} {w : World ι ρ S κ R}
    (h : ex.machine.Reach ok w) {k : Nat} {t : Job ι ρ κ R} {p : Prog ι ρ R} {i : ι}
    (hk : w.jobs[k]? = some t) (hp : t.prog = some p) (ha : p.Ahead i) :
    (ex.body t.call).Ahead i := by
  obtain ⟨q, hq, hahead⟩ := (reach_descends h hk).ahead hp ha
  obtain rfl := Option.some.inj hq
  exact hahead

/-- What a job is about to do is allowed by a protocol that every program keeps to. -/
theorem reach_allows {ok : World ι ρ S κ R → Turn κ χ ε → Prop} {w : World ι ρ S κ R}
    (h : ex.machine.Reach ok w) {P : Protocol ι ρ L} {Q : L → R → Prop} {start : L}
    (hbody : ∀ c, (ex.body c).Follows P start Q) {k : Nat} {i : ι} (hcurrent : w.current k = some i) :
    ∃ l, P.allows l i := by
  obtain ⟨p, hp, hcurrent⟩ := Option.bind_eq_some_iff.mp hcurrent
  obtain ⟨t, ht, hp⟩ := Option.bind_eq_some_iff.mp hp
  exact (hbody t.call).ahead (reach_ahead h ht hp (Prog.ahead_of_current hcurrent))

/-- The jobs of a world are there in every world after it, in a later state. -/
theorem later_descends {ok : World ι ρ S κ R → Turn κ χ ε → Prop} {w w' : World ι ρ S κ R}
    (h : (ex.machine.startedIn w).Reach ok w') {j : Nat} {t : Job ι ρ κ R}
    (hj : w.jobs[j]? = some t) : ∃ t', w'.jobs[j]? = some t' ∧ Descends t t' := by
  induction h with
  | init hs =>
    obtain rfl := hs
    exact ⟨t, hj, .refl t⟩
  | step hs hok hst ih =>
    obtain ⟨t₁, ht₁, hdescends⟩ := ih
    have hlt := Nat.lt_of_lt_of_le (List.getElem?_eq_some_iff.mp ht₁).1 (step_length hst)
    obtain ⟨t', ht'⟩ : ∃ t', _[j]? = some t' := ⟨_, List.getElem?_eq_getElem hlt⟩
    rcases step_job hst ht' with ⟨t₂, ht₂, hdescends'⟩ | ⟨hnone, -⟩
    · obtain rfl := Option.some.inj (ht₁.symm.trans ht₂)
      exact ⟨t', ht', hdescends.trans hdescends'⟩
    · cases hnone.symm.trans ht₁

/-- Every live job keeps to the protocol from its local state on, and ends with what is asked of
its call; the jobs to come have the first local state. -/
structure Keeps (P : Protocol ι ρ L) (Q : κ → L → R → Prop) (start : L) (locals : Nat → L)
    (w : World ι ρ S κ R) : Prop where
  follows : ∀ (k : Nat) (t : Job ι ρ κ R) (p : Prog ι ρ R), w.jobs[k]? = some t → t.prog = some p →
    p.Follows P (locals k) (Q t.call)
  fresh : ∀ k, w.jobs.length ≤ k → locals k = start

variable {P : Protocol ι ρ L} {Q : κ → L → R → Prop} {start : L} {locals : Nat → L}

theorem Keeps.put {w : World ι ρ S κ R} (h : Keeps P Q start locals w) {k : Nat}
    {t : Job ι ρ κ R} (hk : w.jobs[k]? = some t) {p : Option (Prog ι ρ R)} {l : L}
    (hp : ∀ p', p = some p' → p'.Follows P l (Q t.call)) (s : S) :
    Keeps P Q start (Function.update locals k l) (w.put k p s) where
  follows j t' p' hj hp' := by
    obtain ⟨t₁, ht₁, hcall, ⟨rfl, hprog⟩ | ⟨hjk, hprog⟩⟩ := put_job hj
    · obtain rfl := Option.some.inj (hk.symm.trans ht₁)
      rw [Function.update_self, hcall]
      exact hp p' (hprog.symm.trans hp')
    · rw [Function.update_of_ne hjk, hcall]
      exact h.follows j t₁ p' ht₁ (hprog.symm.trans hp')
  fresh j hj := by
    rw [World.put_length] at hj
    have hlt := (List.getElem?_eq_some_iff.mp hk).1
    rw [Function.update_of_ne (by omega)]
    exact h.fresh j hj

/-- A job that has ended did so with what is asked of its call. -/
theorem Keeps.result {w : World ι ρ S κ R} (h : Keeps P Q start locals w) {k : Nat}
    {t : Job ι ρ κ R} {r : R} (hk : w.jobs[k]? = some t) (hr : w.result k = some r) :
    Q t.call (locals k) r := by
  obtain ⟨p, hp, hresult⟩ := Option.bind_eq_some_iff.mp hr
  obtain ⟨t', ht', hp⟩ := Option.bind_eq_some_iff.mp hp
  obtain rfl := Option.some.inj (hk.symm.trans ht')
  have hfollows := h.follows k t p hk hp
  cases p with
  | done a =>
    obtain rfl := Option.some.inj hresult
    exact hfollows
  | act | loop | timeout => cases hresult

/-! ### Invariants -/

/-- An invariant of the shared state and the local states of the jobs, kept by every allowed action
and every allowed cut and every move of the world, holds in every state reached by steps that meet
the condition `ok`, when every program that can be started keeps to the protocol. -/
theorem reach_guarded {ok : World ι ρ S κ R → Turn κ χ ε → Prop} (P : Protocol ι ρ L)
    (Q : κ → L → R → Prop) (start : L) (I : S → (Nat → L) → Prop)
    (hbody : ∀ c, (ex.body c).Follows P start (Q c))
    (hinit : ∀ s, ex.init s → I s fun _ => start)
    (hexec : ∀ w locals k choice i r s', I w.shared locals → Keeps P Q start locals w →
      ok w (.turn k choice) → w.current k = some i → P.allows (locals k) i →
      ex.exec k choice i w.shared = some (r, s') →
      I s' (Function.update locals k (P.after (locals k) i r)))
    (hlost : ∀ w locals k a i, I w.shared locals → (a = .drop k ∨ ∃ depth, a = .elapse k depth) →
      ok w a → w.current k = some i → ex.suspends i = true → P.allows (locals k) i →
      I (ex.release k w.shared) (Function.update locals k (P.lost (locals k))))
    (henv : ∀ w locals e s', I w.shared locals → Keeps P Q start locals w → ok w (.env e) →
      ex.env e w.shared = some s' → I s' locals) {w : World ι ρ S κ R} (h : ex.machine.Reach ok w) :
    ∃ locals, I w.shared locals ∧ Keeps P Q start locals w := by
  refine h.invariant (I := fun w => ∃ locals, I w.shared locals ∧ Keeps P Q start locals w) ?_ ?_
  · rintro w ⟨hs, hjobs⟩
    refine ⟨fun _ => start, hinit _ hs, fun k t p hk => ?_, fun _ _ => rfl⟩
    simp [hjobs] at hk
  · rintro w a w' ⟨locals, hI, hkeeps⟩ hok hstep
    cases a with
    | call c =>
      obtain rfl := Option.some.inj hstep
      refine ⟨locals, hI, fun k t p hk hp => ?_, fun k hk => hkeeps.fresh k ?_⟩
      · by_cases hlt : k < w.jobs.length
        · refine hkeeps.follows k t p ?_ hp
          simpa [List.getElem?_append_left hlt] using hk
        · rw [hkeeps.fresh k (Nat.le_of_not_lt hlt)]
          rw [List.getElem?_append_right (Nat.le_of_not_lt hlt)] at hk
          obtain rfl := List.mem_singleton.mp (List.mem_of_getElem? hk)
          obtain rfl := Option.some.inj hp
          exact hbody c
      · simp only [List.length_append, List.length_singleton] at hk
        omega
    | turn k choice =>
      simp only [machine, step] at hstep
      split at hstep
      next p hk =>
        obtain ⟨⟨q, s⟩, hturn, rfl⟩ := Option.map_eq_some_iff.mp hstep
        obtain ⟨t, ht, hp⟩ := Option.bind_eq_some_iff.mp hk
        rcases (hkeeps.follows k t p ht hp).turn hturn with ⟨rfl, hq⟩ |
          ⟨i, r, hcurrent, hexec', hallows, hq⟩
        · refine ⟨Function.update locals k (locals k), ?_, hkeeps.put ht ?_ _⟩
          · rwa [Function.update_eq_self]
          · rintro p' ⟨⟩
            exact hq
        · refine ⟨Function.update locals k (P.after (locals k) i r), ?_, hkeeps.put ht ?_ _⟩
          · refine hexec w locals k choice i r _ hI hkeeps hok ?_ hallows hexec'
            rw [World.current, hk]
            exact hcurrent
          · rintro p' ⟨⟩
            exact hq
      next => cases hstep
    | elapse k depth =>
      simp only [machine, step] at hstep
      split at hstep
      next hsuspended =>
        obtain ⟨q, hq, rfl⟩ := Option.map_eq_some_iff.mp hstep
        obtain ⟨p, hk, helapse⟩ := Option.bind_eq_some_iff.mp hq
        obtain ⟨i, hcurrent, hsuspends⟩ := hsuspended
        obtain ⟨t, ht, hp⟩ := Option.bind_eq_some_iff.mp hk
        have hfollows := hkeeps.follows k t p ht hp
        have hallows := hfollows.allows (by rwa [World.current, hk] at hcurrent)
        refine ⟨Function.update locals k (P.lost (locals k)),
          hlost w locals k _ i hI (.inr ⟨depth, rfl⟩) hok hcurrent hsuspends hallows,
          hkeeps.put ht ?_ _⟩
        rintro p' ⟨⟩
        exact hfollows.elapse helapse
      next => cases hstep
    | drop k =>
      simp only [machine, step] at hstep
      split at hstep
      next hsuspended =>
        obtain rfl := Option.some.inj hstep
        obtain ⟨i, hcurrent, hsuspends⟩ := hsuspended
        obtain ⟨p, hk, hallows⟩ := Option.bind_eq_some_iff.mp hcurrent
        obtain ⟨t, ht, hp⟩ := Option.bind_eq_some_iff.mp hk
        have hallows := (hkeeps.follows k t p ht hp).allows hallows
        refine ⟨Function.update locals k (P.lost (locals k)),
          hlost w locals k _ i hI (.inl rfl) hok hcurrent hsuspends hallows, hkeeps.put ht ?_ _⟩
        rintro p' ⟨⟩
      next => cases hstep
    | env e =>
      obtain ⟨s, hs, rfl⟩ := Option.map_eq_some_iff.mp hstep
      exact ⟨locals, henv w locals e s hI hkeeps hok hs, hkeeps.follows, hkeeps.fresh⟩

/-- The same when every cut keeps the invariant. -/
theorem reach_invariant {ok : World ι ρ S κ R → Turn κ χ ε → Prop} (P : Protocol ι ρ L)
    (Q : κ → L → R → Prop) (start : L) (I : S → (Nat → L) → Prop)
    (hbody : ∀ c, (ex.body c).Follows P start (Q c))
    (hinit : ∀ s, ex.init s → I s fun _ => start)
    (hexec : ∀ w locals k choice i r s', I w.shared locals → Keeps P Q start locals w →
      ok w (.turn k choice) → w.current k = some i → P.allows (locals k) i →
      ex.exec k choice i w.shared = some (r, s') →
      I s' (Function.update locals k (P.after (locals k) i r)))
    (hlost : ∀ s locals k i, I s locals → ex.suspends i = true → P.allows (locals k) i →
      I (ex.release k s) (Function.update locals k (P.lost (locals k))))
    (henv : ∀ w locals e s', I w.shared locals → Keeps P Q start locals w → ok w (.env e) →
      ex.env e w.shared = some s' → I s' locals) {w : World ι ρ S κ R} (h : ex.machine.Reach ok w) :
    ∃ locals, I w.shared locals ∧ Keeps P Q start locals w :=
  reach_guarded P Q start I hbody hinit hexec
    (fun w locals k _ i hI _ _ _ hsuspends hallows => hlost w.shared locals k i hI hsuspends hallows)
    henv h

/-- An invariant of the shared state and one job, when no other job has a local state of its own:
what a job does from the first local state leaves it there, unless there is no such job. -/
theorem reach_exclusive {ok : World ι ρ S κ R → Turn κ χ ε → Prop} (P : Protocol ι ρ L)
    (Q : κ → L → R → Prop) (start : L) (K : S → Nat → L → Prop)
    (hbody : ∀ c, (ex.body c).Follows P start (Q c))
    (hinit : ∀ s k, ex.init s → K s k start)
    (hfree : ∀ s k j, K s k start → K s j start)
    (hexec : ∀ w k l choice i r s', K w.shared k l → ok w (.turn k choice) →
      w.current k = some i → P.allows l i → ex.exec k choice i w.shared = some (r, s') →
      K s' k (P.after l i r))
    (hother : ∀ s k l j choice i r s', K s k l → l ≠ start → j ≠ k → P.allows start i →
      ex.exec j choice i s = some (r, s') → P.after start i r = start ∧ K s' k l)
    (hlost : ∀ s k l i, K s k l → ex.suspends i = true → P.allows l i →
      K (ex.release k s) k (P.lost l))
    (hothers : ∀ s k l j, K s k l → j ≠ k → P.lost start = start ∧ K (ex.release j s) k l)
    (henv : ∀ w k l e s', K w.shared k l → ok w (.env e) → ex.env e w.shared = some s' → K s' k l)
    {w : World ι ρ S κ R} (h : ex.machine.Reach ok w) :
    ∃ k l, K w.shared k l ∧ Keeps P Q start (Function.update (fun _ => start) k l) w := by
  suffices hinv : ∃ locals, (∃ k l, locals = Function.update (fun _ => start) k l ∧
      K w.shared k l) ∧ Keeps P Q start locals w by
    obtain ⟨locals, ⟨k, l, rfl, hK⟩, hkeeps⟩ := hinv
    exact ⟨k, l, hK, hkeeps⟩
  refine reach_invariant P Q start
    (fun s locals => ∃ k l, locals = Function.update (fun _ => start) k l ∧ K s k l)
    hbody ?_ ?_ ?_ ?_ h
  · exact fun s hs => ⟨0, start, (Function.update_eq_self 0 _).symm, hinit s 0 hs⟩
  · rintro w _ j choice i r s' ⟨k, l, rfl, hK⟩ - hok hcurrent hallows hexec'
    by_cases hjk : j = k
    · subst hjk
      rw [Function.update_self] at hallows ⊢
      exact ⟨j, _, Function.update_idem .., hexec w j l choice i r s' hK hok hcurrent hallows hexec'⟩
    · rw [Function.update_of_ne hjk] at hallows ⊢
      by_cases hl : l = start
      · subst hl
        refine ⟨j, _, ?_, hexec w j l choice i r s' (hfree _ _ _ hK) hok hcurrent hallows hexec'⟩
        rw [Function.update_eq_self k fun _ => l]
      · obtain ⟨hafter, hK'⟩ := hother _ k l j choice i r s' hK hl hjk hallows hexec'
        refine ⟨k, l, ?_, hK'⟩
        rw [hafter, Function.update_comm (Ne.symm hjk), Function.update_eq_self j fun _ => start]
  · rintro s _ j i ⟨k, l, rfl, hK⟩ hsuspends hallows
    by_cases hjk : j = k
    · subst hjk
      rw [Function.update_self] at hallows ⊢
      exact ⟨j, _, Function.update_idem .., hlost s j l i hK hsuspends hallows⟩
    · rw [Function.update_of_ne hjk]
      obtain ⟨hstart, hK'⟩ := hothers s k l j hK hjk
      refine ⟨k, l, ?_, hK'⟩
      rw [hstart, Function.update_comm (Ne.symm hjk), Function.update_eq_self j fun _ => start]
  · rintro w _ e s' ⟨k, l, rfl, hK⟩ - hok henv'
    exact ⟨k, l, rfl, henv w k l e s' hK hok henv'⟩

end Executor
