import HamsOpen.Lib.Program

/-!
# Runs of a program and their records

A run of a program is recorded by its actions with their answers. Whoever reads the record along
keeps a state of their own, and a program that keeps to the protocol of such a reader ends, in every
run, in a state that the protocol promises.
-/

namespace Prog

variable {ι : Type} {ρ : ι → Type}

/-- One step of a program, with the action that it performs, if it performs one. -/
inductive Does : {α : Type} → Prog ι ρ α → List (Σ i, ρ i) → Prog ι ρ α → Prop
  | act {α : Type} (i : ι) (next : ρ i → Prog ι ρ α) (r : ρ i) : Does (act i next) [⟨i, r⟩] (next r)
  | loop {α β σ : Type} (body : σ → Prog ι ρ (σ ⊕ β)) (x : σ) (next : β → Prog ι ρ α) :
      Does (loop body x next) [] ((body x).bind fun
        | .inl y => loop body y next
        | .inr b => next b)
  | ended {α β : Type} (d : Nat) (b : β) (next : Option β → Prog ι ρ α) :
      Does (timeout d (done b) next) [] (next (some b))
  | inner {α β : Type} (d : Nat) (p q : Prog ι ρ β) (t : List (Σ i, ρ i))
      (next : Option β → Prog ι ρ α) : Does p t q → Does (timeout d p next) t (timeout d q next)
  | cut {α β : Type} (d : Nat) (p : Prog ι ρ β) (next : Option β → Prog ι ρ α) :
      Does (timeout d p next) [] (next none)

/-- Any number of steps. -/
inductive Runs {α : Type} : Prog ι ρ α → List (Σ i, ρ i) → Prog ι ρ α → Prop
  | refl (p : Prog ι ρ α) : Runs p [] p
  | step {p q r : Prog ι ρ α} {t u : List (Σ i, ρ i)} : Does p t q → Runs q u r → Runs p (t ++ u) r

theorem Runs.act {α : Type} {i : ι} {next : ρ i → Prog ι ρ α} {u : List (Σ i, ρ i)}
    {q : Prog ι ρ α} (r : ρ i) (h : Runs (next r) u q) : Runs (act i next) (⟨i, r⟩ :: u) q :=
  .step (.act i next r) h

theorem Runs.loop {α β σ : Type} {body : σ → Prog ι ρ (σ ⊕ β)} {x : σ} {next : β → Prog ι ρ α}
    {u : List (Σ i, ρ i)} {q : Prog ι ρ α}
    (h : Runs ((body x).bind fun
      | .inl y => loop body y next
      | .inr b => next b) u q) : Runs (loop body x next) u q :=
  .step (.loop body x next) h

end Prog

namespace Protocol

variable {ι : Type} {ρ : ι → Type} {L : Type}

/-- The protocol of a reader, whose state is `after` an action and its answer. -/
def watching (after : L → (i : ι) → ρ i → L) : Protocol ι ρ L where
  allows _ _ := True
  after := after
  lost l := l

/-- The state of a reader after a record. -/
def read (after : L → (i : ι) → ρ i → L) (l : L) (t : List (Σ i, ρ i)) : L :=
  t.foldl (fun l e => after l e.1 e.2) l

end Protocol

namespace Prog

variable {ι : Type} {ρ : ι → Type} {α L : Type} {after : L → (i : ι) → ρ i → L}

theorem Follows.does {p q : Prog ι ρ α} {t : List (Σ i, ρ i)} {l : L} {Q : L → α → Prop}
    (h : p.Follows (.watching after) l Q) (hdoes : Does p t q) :
    q.Follows (.watching after) (Protocol.read after l t) Q := by
  induction hdoes generalizing l with
  | act i next r => exact h.2 r
  | loop body x next =>
    obtain ⟨J, hx, hJ⟩ := h
    refine follows_bind'.mpr ((hJ x l hx).mono ?_)
    rintro l' (z | b) ho
    · exact ⟨J, ho, hJ⟩
    · exact ho
  | ended d b next => exact h.1
  | inner d p q t next _ ih => exact ⟨ih h.1, h.2⟩
  | cut d p next => exact h.2 l

/-- Wherever a run leads, the rest of the program keeps its promise. -/
theorem Follows.runs {p q : Prog ι ρ α} {t : List (Σ i, ρ i)} {l : L} {Q : L → α → Prop}
    (h : p.Follows (.watching after) l Q) (hruns : Runs p t q) :
    q.Follows (.watching after) (Protocol.read after l t) Q := by
  induction hruns generalizing l with
  | refl p => exact h
  | @step p q r t u hdoes _ ih =>
    have hread : Protocol.read after l (t ++ u) =
        Protocol.read after (Protocol.read after l t) u := List.foldl_append
    rw [hread]
    exact ih (h.does hdoes)

end Prog
