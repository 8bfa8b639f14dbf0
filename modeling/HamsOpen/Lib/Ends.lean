import HamsOpen.Lib.Cuts

/-!
# Programs that can always end

A program without loops, whose actions can always be performed in some way, is never stuck: its own
turns lead it to its end, whatever else has happened.
-/

variable {ι : Type} {ρ : ι → Type}

namespace Prog

open Relation

variable {α β : Type} {free : ι → Prop}

/-- The program has no loop, and performs only actions that meet the condition. -/
def Ends (free : ι → Prop) {α : Type} : Prog ι ρ α → Prop
  | done _ => True
  | act i next => free i ∧ ∀ r, (next r).Ends free
  | loop _ _ _ => False
  | timeout _ inner next => inner.Ends free ∧ ∀ o, (next o).Ends free

theorem ends_bind' {p : Prog ι ρ α} {f : α → Prog ι ρ β} (hp : p.Ends free)
    (hf : ∀ a, (f a).Ends free) : (p.bind f).Ends free := by
  induction p with
  | done a => exact hf a
  | act i next ih => exact ⟨hp.1, fun r => ih r (hp.2 r) hf⟩
  | loop => cases hp
  | timeout d inner next ihinner ihnext => exact ⟨hp.1, fun o => ihnext o (hp.2 o) hf⟩

theorem ends_bind {p : Prog ι ρ α} {f : α → Prog ι ρ β} (hp : p.Ends free)
    (hf : ∀ a, (f a).Ends free) : (p >>= f).Ends free := ends_bind' hp hf

theorem ends_pure (a : α) : (pure a : Prog ι ρ α).Ends free := trivial

theorem ends_perform {i : ι} (h : free i) : (perform i : Prog ι ρ (ρ i)).Ends free :=
  ⟨h, fun _ => trivial⟩

theorem ends_within (d : Nat) {p : Prog ι ρ α} (hp : p.Ends free) : (within d p).Ends free :=
  ⟨hp, fun _ => trivial⟩

theorem ends_try_bind {ε : Type} {x : ExceptT ε (Prog ι ρ) α} {f : α → ExceptT ε (Prog ι ρ) β}
    (hx : Ends free x.run) (hf : ∀ a, Ends free (f a).run) : Ends free (x >>= f).run := by
  refine ends_bind' hx ?_
  rintro (e | a)
  · trivial
  · exact hf a

/-- An action, and then the rest. -/
theorem ends_act {ε : Type} {i : ι} {f : ρ i → ExceptT ε (Prog ι ρ) α} (h : free i)
    (hf : ∀ r, Ends free (f r).run) :
    Ends free ((liftM (perform i) : ExceptT ε (Prog ι ρ) (ρ i)) >>= f).run :=
  ends_try_bind (ends_bind' (ends_perform h) fun _ => trivial) hf

theorem Ends.leads {p q : Prog ι ρ α} (h : p.Ends free) (hleads : Leads p q) : q.Ends free := by
  induction hleads with
  | act i next r => exact h.2 r
  | loop => cases h
  | ended d b next => exact h.2 (some b)
  | inner d p q next _ ih => exact ⟨ih h.1, h.2⟩
  | cut d p next => exact h.2 none

theorem Ends.mono {free' : ι → Prop} {p : Prog ι ρ α} (h : p.Ends free)
    (hfree : ∀ i, free i → free' i) : p.Ends free' := by
  induction p with
  | done a => trivial
  | act i next ih => exact ⟨hfree i h.1, fun r => ih r (h.2 r)⟩
  | loop => cases h
  | timeout d inner next ihinner ihnext => exact ⟨ihinner h.1, fun o => ihnext o (h.2 o)⟩

/-- A program whose actions leave the local state as it is keeps to a protocol that allows them. -/
theorem Ends.heeds {L : Type} {waits : ι → Bool} {P : Protocol ι ρ L} {p : Prog ι ρ α} {l : L}
    {C : L → Prop} {Q : L → α → Prop} (h : p.Ends free)
    (hfree : ∀ i, free i → P.allows l i ∧ ∀ r, P.after l i r = l) (hC : C l) (hQ : ∀ a, Q l a) :
    p.Heeds waits P l C Q := by
  induction p generalizing C with
  | done a => exact hQ a
  | act i next ih =>
    obtain ⟨hallows, hafter⟩ := hfree i h.1
    refine ⟨fun _ => hC, hallows, fun r => ?_⟩
    rw [hafter r]
    exact ih r (h.2 r) hC hQ
  | loop => cases h
  | timeout d inner next ihinner ihnext =>
    refine ⟨(· = l), ?_, ihinner h.1 rfl fun b => ihnext (some b) (h.2 (some b)) hC hQ⟩
    rintro l' rfl
    exact ⟨hC, ihnext none (h.2 none) hC hQ⟩

/-- Some turn leads from one program and state to another. -/
def Turns {S χ : Type} (exec : χ → (i : ι) → S → Option (ρ i × S)) {α : Type}
    (x y : Prog ι ρ α × S) : Prop :=
  ∃ choice, x.1.turn (exec choice) x.2 = some y

theorem Turns.inside {S χ : Type} {exec : χ → (i : ι) → S → Option (ρ i × S)}
    {x y : Prog ι ρ β × S} (h : Turns exec x y) (d : Nat) (next : Option β → Prog ι ρ α) :
    Turns exec (timeout d x.1 next, x.2) (timeout d y.1 next, y.2) := by
  obtain ⟨choice, hturn⟩ := h
  obtain ⟨p, s⟩ := x
  refine ⟨choice, ?_⟩
  cases p with
  | done b => cases hturn
  | act | loop | timeout => exact congrArg (Option.map fun o => (timeout d o.1 next, o.2)) hturn

/-- A program without loops can end, when its actions can be performed in some way. -/
theorem Ends.reaches {S χ : Type} [Nonempty χ] {exec : χ → (i : ι) → S → Option (ρ i × S)}
    (hfree : ∀ i, free i → ∀ s, ∃ choice o, exec choice i s = some o) {p : Prog ι ρ α}
    (h : p.Ends free) (s : S) : ∃ a s', ReflTransGen (Turns exec) (p, s) (done a, s') := by
  induction p generalizing s with
  | done a => exact ⟨a, s, .refl⟩
  | act i next ih =>
    obtain ⟨choice, ⟨r, t⟩, hexec⟩ := hfree i h.1 s
    obtain ⟨a, s', hrest⟩ := ih r (h.2 r) t
    refine ⟨a, s', .head ⟨choice, ?_⟩ hrest⟩
    exact congrArg (Option.map fun o => (next o.1, o.2)) hexec
  | loop => cases h
  | timeout d inner next ihinner ihnext =>
    obtain ⟨b, t, hinner⟩ := ihinner h.1 s
    obtain ⟨a, s', hrest⟩ := ihnext (some b) (h.2 (some b)) t
    have hlift : ReflTransGen (Turns exec) (timeout d inner next, s) (timeout d (done b) next, t) :=
      hinner.lift (fun x => (timeout d x.1 next, x.2)) fun x y hxy => hxy.inside d next
    obtain ⟨choice⟩ := ‹Nonempty χ›
    exact ⟨a, s', hlift.trans (.head ⟨choice, rfl⟩ hrest)⟩

end Prog

namespace Executor

open Relation Prog

variable {S κ χ ε R : Type} {ex : Executor ι ρ S κ χ ε R} {k : Nat}

/-- The steps of one job by itself. -/
def Own (k : Nat) (_ : World ι ρ S κ R) (a : Turn κ χ ε) : Prop := ∃ choice, a = .turn k choice

/-- A job takes the turns of its program. -/
theorem reach_own {w : World ι ρ S κ R} {p : Prog ι ρ R} (hp : w.prog k = some p)
    {y : Prog ι ρ R × S}
    (h : ReflTransGen (Turns fun choice => ex.exec k choice) (p, w.shared) y) :
    ∃ w', (ex.machine.startedIn w).Reach (Own k) w' ∧ w'.prog k = some y.1 ∧ w'.shared = y.2 := by
  induction h with
  | refl => exact ⟨w, .init rfl, hp, rfl⟩
  | @tail y z _ hturn ih =>
    obtain ⟨w', hreach, hprog, hshared⟩ := ih
    obtain ⟨choice, hturn⟩ := hturn
    refine ⟨w'.put k (some z.1) z.2, .step hreach ⟨choice, rfl⟩ ?_, ?_, rfl⟩
    · show ex.step w' (.turn k choice) = _
      simp only [step, hprog, hshared, hturn]
      rfl
    · exact World.put_prog_self hprog _ _

/-- A job without loops, whose actions can be performed in some way whatever the state, can end by
its own turns. -/
theorem exists_result [Nonempty χ] {ok : World ι ρ S κ R → Turn κ χ ε → Prop} {free : ι → Prop}
    (hfree : ∀ i, free i → ∀ s, ∃ choice o, ex.exec k choice i s = some o) {w : World ι ρ S κ R}
    (h : ex.machine.Reach ok w) {t : Job ι ρ κ R} (hk : w.jobs[k]? = some t)
    (hends : (ex.body t.call).Ends free) {p : Prog ι ρ R} (hp : t.prog = some p) :
    ∃ w' r, (ex.machine.startedIn w).Reach (Own k) w' ∧ w'.result k = some r := by
  obtain ⟨q, hq, hleads⟩ := (reach_descends h hk).2 p hp
  obtain rfl := Option.some.inj hq
  have hp' : p.Ends free := by
    clear hp hq
    induction hleads with
    | refl => exact hends
    | tail _ hstep ih => exact ih.leads hstep
  have hprog : w.prog k = some p := by rw [World.prog, hk, Option.bind_some, hp]
  obtain ⟨r, s', hturns⟩ := hp'.reaches hfree w.shared
  obtain ⟨w', hreach, hdone, -⟩ := reach_own hprog hturns
  refine ⟨w', r, hreach, ?_⟩
  rw [World.result, hdone]
  rfl

end Executor
