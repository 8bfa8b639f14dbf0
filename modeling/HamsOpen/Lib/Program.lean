import Mathlib.Logic.Relation

/-!
# Programs with suspension points

A program is a tree of actions: what it does next depends on the answer to its last action. Several
programs run interleaved, one action at a time, so every action is a point at which the others may
run. At some of them the program waits, and there it may be cut short.

A program is judged by a protocol. The protocol keeps a local state beside the program, says which
actions are allowed in it and what each answer makes of it. `Prog.Follows` says that a program keeps
to its protocol whatever it is answered and wherever it is cut.
-/

/-- A program that performs actions `i : ι`, each answered by a value of `ρ i`. A loop runs its
body from a first value on, until the body ends it. A timeout runs a program until it ends or is
cut. -/
inductive Prog (ι : Type) (ρ : ι → Type) : Type → Type 1
  | done {α : Type} (a : α) : Prog ι ρ α
  | act {α : Type} (i : ι) (next : ρ i → Prog ι ρ α) : Prog ι ρ α
  | loop {α β σ : Type} (body : σ → Prog ι ρ (σ ⊕ β)) (x : σ) (next : β → Prog ι ρ α) :
      Prog ι ρ α
  | timeout {α β : Type} (deadline : Nat) (inner : Prog ι ρ β) (next : Option β → Prog ι ρ α) :
      Prog ι ρ α

namespace Prog

variable {ι : Type} {ρ : ι → Type} {α β γ σ : Type}

/-- Runs `f` on the result of a program. -/
def bind {α β : Type} : Prog ι ρ α → (α → Prog ι ρ β) → Prog ι ρ β
  | done a, f => f a
  | act i next, f => act i fun r => (next r).bind f
  | loop body x next, f => loop body x fun b => (next b).bind f
  | timeout d inner next, f => timeout d inner fun o => (next o).bind f

instance : Monad (Prog ι ρ) where
  pure := done
  bind := bind

/-- The program of one action. -/
def perform (i : ι) : Prog ι ρ (ρ i) := act i done

/-- Runs `body` from `x` on until it gives a result. -/
def iterate (body : σ → Prog ι ρ (σ ⊕ β)) (x : σ) : Prog ι ρ β := loop body x done

/-- The result of a program, or `none` when it is cut at its deadline. -/
def within (deadline : Nat) (p : Prog ι ρ α) : Prog ι ρ (Option α) := timeout deadline p done

/-- The action a program is about to perform. -/
def current {α : Type} : Prog ι ρ α → Option ι
  | act i _ => some i
  | timeout _ inner _ => inner.current
  | _ => none

/-- The result of a program that has ended. -/
def result {α : Type} : Prog ι ρ α → Option α
  | done a => some a
  | _ => none

/-- One step of a program over a shared state: its next action, when `exec` can perform it, or a
step of its control alone. -/
def turn {S : Type} (exec : (i : ι) → S → Option (ρ i × S)) {α : Type} :
    Prog ι ρ α → S → Option (Prog ι ρ α × S)
  | done _, _ => none
  | act i next, s => (exec i s).map fun o => (next o.1, o.2)
  | loop body x next, s => some ((body x).bind fun
      | .inl y => loop body y next
      | .inr b => next b, s)
  | timeout d inner next, s =>
    match inner with
    | done b => some (next (some b), s)
    | inner => (inner.turn exec s).map fun o => (timeout d o.1 next, o.2)

/-- The timeout at the given depth, the outermost first, cuts the program inside it. -/
def elapse (now : Nat) {α : Type} : Prog ι ρ α → Nat → Option (Prog ι ρ α)
  | timeout d inner next, depth =>
    match depth with
    | 0 => if d ≤ now then some (next none) else none
    | n + 1 => (inner.elapse now n).map fun p => timeout d p next
  | _, _ => none

end Prog

/-- A discipline on programs: the actions allowed in a local state, the local state after an
answer, and the local state of a program that was cut. -/
structure Protocol (ι : Type) (ρ : ι → Type) (L : Type) where
  allows : L → ι → Prop
  after : L → (i : ι) → ρ i → L
  lost : L → L

namespace Prog

variable {ι : Type} {ρ : ι → Type} {α β γ σ L : Type} {P : Protocol ι ρ L}

/-- From the local state `l` on, the program keeps to the protocol, and `Q` holds of the local state
and the result it ends with. A loop does so by an invariant of its rounds. -/
def Follows (P : Protocol ι ρ L) {α : Type} : Prog ι ρ α → L → (L → α → Prop) → Prop
  | done a, l, Q => Q l a
  | act i next, l, Q => P.allows l i ∧ ∀ r, (next r).Follows P (P.after l i r) Q
  | @loop _ _ _ _ σ body x next, l, Q => ∃ J : σ → L → Prop, J x l ∧ ∀ y l', J y l' →
      (body y).Follows P l' fun l'' o => match o with
        | .inl z => J z l''
        | .inr b => (next b).Follows P l'' Q
  | timeout _ inner next, l, Q =>
      (inner.Follows P l fun l' b => (next (some b)).Follows P l' Q) ∧
        ∀ l', (next none).Follows P (P.lost l') Q

theorem Follows.mono {p : Prog ι ρ α} {l : L} {Q Q' : L → α → Prop} (h : p.Follows P l Q)
    (hQ : ∀ l' a, Q l' a → Q' l' a) : p.Follows P l Q' := by
  induction p generalizing l with
  | done a => exact hQ _ _ h
  | act i next ih => exact ⟨h.1, fun r => ih r (h.2 r) hQ⟩
  | loop body x next ihbody ihnext =>
    obtain ⟨J, hx, hJ⟩ := h
    refine ⟨J, hx, fun y l' hy => ihbody y (hJ y l' hy) ?_⟩
    rintro l'' (z | b) ho
    · exact ho
    · exact ihnext b ho hQ
  | timeout d inner next ihinner ihnext =>
    exact ⟨ihinner h.1 fun l' b hb => ihnext (some b) hb hQ, fun l' => ihnext none (h.2 l') hQ⟩

@[simp] theorem follows_pure {a : α} {l : L} {Q : L → α → Prop} :
    (pure a : Prog ι ρ α).Follows P l Q ↔ Q l a := Iff.rfl

@[simp] theorem follows_done {a : α} {l : L} {Q : L → α → Prop} :
    (done a : Prog ι ρ α).Follows P l Q ↔ Q l a := Iff.rfl

@[simp] theorem follows_perform {i : ι} {l : L} {Q : L → ρ i → Prop} :
    (perform i : Prog ι ρ (ρ i)).Follows P l Q ↔ P.allows l i ∧ ∀ r, Q (P.after l i r) r := Iff.rfl

theorem follows_iterate {body : σ → Prog ι ρ (σ ⊕ β)} {x : σ} {l : L} {Q : L → β → Prop} :
    (iterate body x).Follows P l Q ↔ ∃ J : σ → L → Prop, J x l ∧ ∀ y l', J y l' →
      (body y).Follows P l' fun l'' o => match o with
        | .inl z => J z l''
        | .inr b => Q l'' b := Iff.rfl

@[simp] theorem follows_within {d : Nat} {p : Prog ι ρ α} {l : L} {Q : L → Option α → Prop} :
    (within d p).Follows P l Q ↔
      (p.Follows P l fun l' a => Q l' (some a)) ∧ ∀ l', Q (P.lost l') none := Iff.rfl

/-- One program after another keeps to the protocol when the second does from wherever the first
ends. -/
theorem follows_bind' {p : Prog ι ρ α} {f : α → Prog ι ρ β} {l : L} {Q : L → β → Prop} :
    (p.bind f).Follows P l Q ↔ p.Follows P l fun l' a => (f a).Follows P l' Q := by
  induction p generalizing l with
  | done a => exact Iff.rfl
  | act i next ih => exact and_congr Iff.rfl (forall_congr' fun r => ih r)
  | loop body x next ihbody ihnext =>
    refine exists_congr fun J => and_congr Iff.rfl ?_
    refine forall_congr' fun y => forall_congr' fun l' => imp_congr Iff.rfl ?_
    constructor
    all_goals
      intro h
      refine h.mono ?_
      rintro l'' (z | b) ho
      · exact ho
    · exact (ihnext b).mp ho
    · exact (ihnext b).mpr ho
  | timeout d inner next ihinner ihnext =>
    refine and_congr ?_ (forall_congr' fun l' => ihnext none)
    constructor
    · exact fun h => h.mono fun l' b => (ihnext (some b)).mp
    · exact fun h => h.mono fun l' b => (ihnext (some b)).mpr

@[simp] theorem follows_bind {p : Prog ι ρ α} {f : α → Prog ι ρ β} {l : L} {Q : L → β → Prop} :
    (p >>= f).Follows P l Q ↔ p.Follows P l fun l' a => (f a).Follows P l' Q := follows_bind'

@[simp] theorem follows_map {p : Prog ι ρ α} {f : α → β} {l : L} {Q : L → β → Prop} :
    (f <$> p).Follows P l Q ↔ p.Follows P l fun l' a => Q l' (f a) := follows_bind'

/-! ### Programs that may fail -/

section Failure

variable {ε : Type}

@[simp] theorem follows_try_bind {x : ExceptT ε (Prog ι ρ) α} {f : α → ExceptT ε (Prog ι ρ) β}
    {l : L} {Q : L → Except ε β → Prop} :
    Follows P (x >>= f).run l Q ↔ Follows P x.run l fun l' r => match r with
      | .ok a => Follows P (f a).run l' Q
      | .error e => Q l' (.error e) := by
  refine follows_bind'.trans ?_
  constructor
  all_goals
    intro h
    refine h.mono ?_
    rintro l' (e | a) ha
    · exact ha
    · exact ha

@[simp] theorem follows_try_map {x : ExceptT ε (Prog ι ρ) α} {f : α → β} {l : L}
    {Q : L → Except ε β → Prop} :
    Follows P (f <$> x).run l Q ↔ Follows P x.run l fun l' r => Q l' (r.map f) := by
  refine follows_bind'.trans ?_
  constructor
  all_goals
    intro h
    refine h.mono ?_
    rintro l' (e | a) ha
    · exact ha
    · exact ha

@[simp] theorem follows_lift {x : Prog ι ρ α} {l : L} {Q : L → Except ε α → Prop} :
    Follows P (liftM x : ExceptT ε (Prog ι ρ) α).run l Q ↔ Follows P x l fun l' a => Q l' (.ok a) :=
  follows_bind'

/-- An action, and then the rest. -/
theorem follows_act {i : ι} {f : ρ i → ExceptT ε (Prog ι ρ) α} {l : L} {Q : L → Except ε α → Prop} :
    Follows P ((liftM (perform i) : ExceptT ε (Prog ι ρ) (ρ i)) >>= f).run l Q ↔
      P.allows l i ∧ ∀ r, Follows P (f r).run (P.after l i r) Q :=
  follows_try_bind.trans follows_lift

@[simp] theorem follows_try_pure {a : α} {l : L} {Q : L → Except ε α → Prop} :
    Follows P (pure a : ExceptT ε (Prog ι ρ) α).run l Q ↔ Q l (.ok a) := Iff.rfl

@[simp] theorem follows_throw {e : ε} {l : L} {Q : L → Except ε α → Prop} :
    Follows P (throw e : ExceptT ε (Prog ι ρ) α).run l Q ↔ Q l (.error e) := Iff.rfl

end Failure

/-! ### Steps of a program -/

/-- A step of a program that keeps to its protocol is an allowed action, or a step of its control
alone. -/
theorem Follows.turn {S : Type} {exec : (i : ι) → S → Option (ρ i × S)} {p p' : Prog ι ρ α} {l : L}
    {Q : L → α → Prop} {s s' : S} (h : p.Follows P l Q) (hturn : p.turn exec s = some (p', s')) :
    (s' = s ∧ p'.Follows P l Q) ∨ ∃ i r, p.current = some i ∧ exec i s = some (r, s') ∧
      P.allows l i ∧ p'.Follows P (P.after l i r) Q := by
  induction p generalizing l with
  | done a => cases hturn
  | act i next ih =>
    obtain ⟨⟨r, t⟩, hexec, heq⟩ := Option.map_eq_some_iff.mp hturn
    obtain ⟨rfl, rfl⟩ := Prod.mk.inj heq
    exact .inr ⟨i, r, rfl, hexec, h.1, h.2 r⟩
  | loop body x next ihbody ihnext =>
    obtain ⟨rfl, rfl⟩ := Prod.mk.inj (Option.some.inj hturn)
    obtain ⟨J, hx, hJ⟩ := h
    refine .inl ⟨rfl, follows_bind'.mpr ((hJ x l hx).mono ?_)⟩
    rintro l' (z | b) ho
    · exact ⟨J, ho, hJ⟩
    · exact ho
  | timeout d inner next ihinner ihnext =>
    have hrun (hrun : (inner.turn exec s).map (fun o => (timeout d o.1 next, o.2)) =
        some (p', s')) : (s' = s ∧ p'.Follows P l Q) ∨ ∃ i r, inner.current = some i ∧
          exec i s = some (r, s') ∧ P.allows l i ∧ p'.Follows P (P.after l i r) Q := by
      obtain ⟨⟨q, t⟩, hinner, heq⟩ := Option.map_eq_some_iff.mp hrun
      obtain ⟨rfl, rfl⟩ := Prod.mk.inj heq
      rcases ihinner h.1 hinner with ⟨rfl, hq⟩ | ⟨i, r, hcurrent, hexec, hallows, hq⟩
      · exact .inl ⟨rfl, hq, h.2⟩
      · exact .inr ⟨i, r, hcurrent, hexec, hallows, hq, h.2⟩
    cases inner with
    | done b =>
      obtain ⟨rfl, rfl⟩ := Prod.mk.inj (Option.some.inj hturn)
      exact .inl ⟨rfl, h.1⟩
    | act | loop | timeout => exact hrun hturn

/-- The action a program is about to perform is allowed. -/
theorem Follows.allows {p : Prog ι ρ α} {l : L} {Q : L → α → Prop} {i : ι} (h : p.Follows P l Q)
    (hcurrent : p.current = some i) : P.allows l i := by
  induction p generalizing l with
  | done | loop => cases hcurrent
  | act j next ih =>
    obtain rfl := Option.some.inj hcurrent
    exact h.1
  | timeout d inner next ihinner ihnext => exact ihinner h.1 hcurrent

/-- A cut leaves a program that keeps to its protocol. -/
theorem Follows.elapse {now depth : Nat} {p p' : Prog ι ρ α} {l : L} {Q : L → α → Prop}
    (h : p.Follows P l Q) (helapse : p.elapse now depth = some p') : p'.Follows P (P.lost l) Q := by
  induction p generalizing l depth with
  | done | act | loop => cases helapse
  | timeout d inner next ihinner ihnext =>
    cases depth with
    | zero =>
      obtain ⟨-, heq⟩ := Option.ite_none_right_eq_some.mp helapse
      obtain rfl := Option.some.inj heq
      exact h.2 l
    | succ n =>
      obtain ⟨q, hq, rfl⟩ := Option.map_eq_some_iff.mp helapse
      exact ⟨ihinner h.1 hq, h.2⟩

/-! ### What is ahead of a program -/

/-- The first program may become the second in one step, whatever it is answered. -/
inductive Leads : {α : Type} → Prog ι ρ α → Prog ι ρ α → Prop
  | act {α : Type} (i : ι) (next : ρ i → Prog ι ρ α) (r : ρ i) : Leads (act i next) (next r)
  | loop {α β σ : Type} (body : σ → Prog ι ρ (σ ⊕ β)) (x : σ) (next : β → Prog ι ρ α) :
      Leads (loop body x next) ((body x).bind fun
        | .inl y => loop body y next
        | .inr b => next b)
  | ended {α β : Type} (d : Nat) (b : β) (next : Option β → Prog ι ρ α) :
      Leads (timeout d (done b) next) (next (some b))
  | inner {α β : Type} (d : Nat) (p q : Prog ι ρ β) (next : Option β → Prog ι ρ α) :
      Leads p q → Leads (timeout d p next) (timeout d q next)
  | cut {α β : Type} (d : Nat) (p : Prog ι ρ β) (next : Option β → Prog ι ρ α) :
      Leads (timeout d p next) (next none)

/-- The program may still come to perform the action. -/
def Ahead {α : Type} (i : ι) (p : Prog ι ρ α) : Prop :=
  ∃ q, Relation.ReflTransGen Leads p q ∧ q.current = some i

theorem Leads.ahead {p q : Prog ι ρ α} {i : ι} (h : Leads p q) (ha : q.Ahead i) : p.Ahead i := by
  obtain ⟨r, hr, hcurrent⟩ := ha
  exact ⟨r, .head h hr, hcurrent⟩

theorem ahead_of_current {p : Prog ι ρ α} {i : ι} (h : p.current = some i) : p.Ahead i :=
  ⟨p, .refl, h⟩

theorem leads_of_turn {S : Type} {exec : (i : ι) → S → Option (ρ i × S)} {p p' : Prog ι ρ α}
    {s s' : S} (h : p.turn exec s = some (p', s')) : Leads p p' := by
  induction p with
  | done a => cases h
  | act i next ih =>
    obtain ⟨⟨r, t⟩, -, heq⟩ := Option.map_eq_some_iff.mp h
    obtain ⟨rfl, -⟩ := Prod.mk.inj heq
    exact .act i next r
  | loop body x next ihbody ihnext =>
    obtain ⟨rfl, -⟩ := Prod.mk.inj (Option.some.inj h)
    exact .loop body x next
  | timeout d inner next ihinner ihnext =>
    have hinner (h : (inner.turn exec s).map (fun o => (timeout d o.1 next, o.2)) =
        some (p', s')) : Leads (timeout d inner next) p' := by
      obtain ⟨⟨q, t⟩, hq, heq⟩ := Option.map_eq_some_iff.mp h
      obtain ⟨rfl, rfl⟩ := Prod.mk.inj heq
      exact .inner d inner q next (ihinner hq)
    cases inner with
    | done b =>
      obtain ⟨rfl, -⟩ := Prod.mk.inj (Option.some.inj h)
      exact .ended d b next
    | act | loop | timeout => exact hinner h

/-- A step of a program is its next action, or a step of its control alone. -/
theorem turn_cases {S : Type} {exec : (i : ι) → S → Option (ρ i × S)} {p p' : Prog ι ρ α}
    {s s' : S} (h : p.turn exec s = some (p', s')) :
    s' = s ∨ ∃ i r, p.current = some i ∧ exec i s = some (r, s') := by
  induction p with
  | done a => cases h
  | act i next ih =>
    obtain ⟨⟨r, t⟩, hexec, heq⟩ := Option.map_eq_some_iff.mp h
    obtain ⟨-, rfl⟩ := Prod.mk.inj heq
    exact .inr ⟨i, r, rfl, hexec⟩
  | loop body x next ihbody ihnext => exact .inl (Prod.mk.inj (Option.some.inj h)).2.symm
  | timeout d inner next ihinner ihnext =>
    have hinner (h : (inner.turn exec s).map (fun o => (timeout d o.1 next, o.2)) =
        some (p', s')) : s' = s ∨ ∃ i r, inner.current = some i ∧ exec i s = some (r, s') := by
      obtain ⟨⟨q, t⟩, hq, heq⟩ := Option.map_eq_some_iff.mp h
      obtain ⟨-, rfl⟩ := Prod.mk.inj heq
      exact ihinner hq
    cases inner with
    | done b => exact .inl (Prod.mk.inj (Option.some.inj h)).2.symm
    | act | loop | timeout => exact hinner h

theorem leads_of_elapse {now depth : Nat} {p p' : Prog ι ρ α} (h : p.elapse now depth = some p') :
    Leads p p' := by
  induction p generalizing depth with
  | done | act | loop => cases h
  | timeout d inner next ihinner ihnext =>
    cases depth with
    | zero =>
      obtain ⟨-, heq⟩ := Option.ite_none_right_eq_some.mp h
      obtain rfl := Option.some.inj heq
      exact .cut d inner next
    | succ n =>
      obtain ⟨q, hq, rfl⟩ := Option.map_eq_some_iff.mp h
      exact .inner d inner q next (ihinner hq)

theorem Follows.leads {p q : Prog ι ρ α} {l : L} {Q : L → α → Prop} (h : p.Follows P l Q)
    (hleads : Leads p q) : ∃ l', q.Follows P l' Q := by
  induction hleads generalizing l with
  | act i next r => exact ⟨_, h.2 r⟩
  | loop body x next =>
    obtain ⟨J, hx, hJ⟩ := h
    refine ⟨l, follows_bind'.mpr ((hJ x l hx).mono ?_)⟩
    rintro l' (z | b) ho
    · exact ⟨J, ho, hJ⟩
    · exact ho
  | ended d b next => exact ⟨l, h.1⟩
  | inner d p q next _ ih =>
    obtain ⟨l', hq⟩ := ih h.1
    exact ⟨l', hq, h.2⟩
  | cut d p next => exact ⟨_, h.2 l⟩

/-- Only allowed actions are ahead of a program that keeps to its protocol. -/
theorem Follows.ahead {p : Prog ι ρ α} {l : L} {Q : L → α → Prop} {i : ι} (h : p.Follows P l Q)
    (ha : p.Ahead i) : ∃ l', P.allows l' i := by
  obtain ⟨q, hq, hcurrent⟩ := ha
  suffices hfollows : ∃ l', q.Follows P l' Q by
    obtain ⟨l', hq⟩ := hfollows
    exact ⟨l', hq.allows hcurrent⟩
  clear hcurrent
  induction hq with
  | refl => exact ⟨l, h⟩
  | tail _ hleads ih =>
    obtain ⟨l', hq⟩ := ih
    exact hq.leads hleads

end Prog
