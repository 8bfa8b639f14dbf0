import HamsOpen.Lib.Executor
import Mathlib

/-!
# Programs that are cut where they wait

`Prog.Follows` says nothing of the local state in which a program is cut. Where that matters, a
program is judged with a condition that holds wherever it waits: it is what is known when the program
is cut there, by a timeout of its own or by its caller.
-/

variable {ι : Type} {ρ : ι → Type} {L : Type}

namespace Prog

variable {α β γ σ : Type} {waits : ι → Bool} {P : Protocol ι ρ L}

/-- From the local state `l` on, the program keeps to the protocol, `C` holds of the local state
wherever it waits, and `Q` of the local state and the result it ends with. A cut leaves the local
state as it is. -/
def Heeds (waits : ι → Bool) (P : Protocol ι ρ L) {α : Type} :
    Prog ι ρ α → L → (L → Prop) → (L → α → Prop) → Prop
  | done a, l, _, Q => Q l a
  | act i next, l, C, Q => (waits i = true → C l) ∧ P.allows l i ∧
      ∀ r, (next r).Heeds waits P (P.after l i r) C Q
  | @loop _ _ _ _ σ body x next, l, C, Q => ∃ J : σ → L → Prop, J x l ∧ ∀ y l', J y l' →
      (body y).Heeds waits P l' C fun l'' o => match o with
        | .inl z => J z l''
        | .inr b => (next b).Heeds waits P l'' C Q
  | timeout _ inner next, l, C, Q => ∃ D : L → Prop,
      (∀ l', D l' → C l' ∧ (next none).Heeds waits P l' C Q) ∧
        inner.Heeds waits P l D fun l' b => (next (some b)).Heeds waits P l' C Q

theorem Heeds.mono {p : Prog ι ρ α} {l : L} {C C' : L → Prop} {Q Q' : L → α → Prop}
    (h : p.Heeds waits P l C Q) (hC : ∀ l', C l' → C' l') (hQ : ∀ l' a, Q l' a → Q' l' a) :
    p.Heeds waits P l C' Q' := by
  induction p generalizing l C C' with
  | done a => exact hQ _ _ h
  | act i next ih => exact ⟨fun hi => hC _ (h.1 hi), h.2.1, fun r => ih r (h.2.2 r) hC hQ⟩
  | loop body x next ihbody ihnext =>
    obtain ⟨J, hx, hJ⟩ := h
    refine ⟨J, hx, fun y l' hy => ihbody y (hJ y l' hy) hC ?_⟩
    rintro l'' (z | b) ho
    · exact ho
    · exact ihnext b ho hC hQ
  | timeout d inner next ihinner ihnext =>
    obtain ⟨D, hcut, hinner⟩ := h
    refine ⟨D, fun l' hl' => ⟨hC _ (hcut l' hl').1, ihnext none (hcut l' hl').2 hC hQ⟩, ?_⟩
    exact ihinner hinner (fun _ => id) fun l' b hb => ihnext (some b) hb hC hQ

theorem heeds_pure {a : α} {l : L} {C : L → Prop} {Q : L → α → Prop} :
    (pure a : Prog ι ρ α).Heeds waits P l C Q ↔ Q l a := Iff.rfl

theorem heeds_perform {i : ι} {l : L} {C : L → Prop} {Q : L → ρ i → Prop} :
    (perform i : Prog ι ρ (ρ i)).Heeds waits P l C Q ↔
      (waits i = true → C l) ∧ P.allows l i ∧ ∀ r, Q (P.after l i r) r := Iff.rfl

/-- Wherever the program inside a timeout waits, what comes after a cut goes on from there. -/
theorem heeds_within {d : Nat} {p : Prog ι ρ α} {l : L} {C : L → Prop} {Q : L → Option α → Prop} :
    (within d p).Heeds waits P l C Q ↔ ∃ D : L → Prop, (∀ l', D l' → C l' ∧ Q l' none) ∧
      p.Heeds waits P l D fun l' a => Q l' (some a) := Iff.rfl

theorem heeds_bind' {p : Prog ι ρ α} {f : α → Prog ι ρ β} {l : L} {C : L → Prop}
    {Q : L → β → Prop} :
    (p.bind f).Heeds waits P l C Q ↔
      p.Heeds waits P l C fun l' a => (f a).Heeds waits P l' C Q := by
  induction p generalizing l with
  | done a => exact Iff.rfl
  | act i next ih => exact and_congr Iff.rfl (and_congr Iff.rfl (forall_congr' fun r => ih r))
  | loop body x next ihbody ihnext =>
    refine exists_congr fun J => and_congr Iff.rfl ?_
    refine forall_congr' fun y => forall_congr' fun l' => imp_congr Iff.rfl ?_
    constructor
    all_goals
      intro h
      refine h.mono (fun _ => id) ?_
      rintro l'' (z | b) ho
      · exact ho
    · exact (ihnext b).mp ho
    · exact (ihnext b).mpr ho
  | timeout d inner next ihinner ihnext =>
    refine exists_congr fun D => and_congr ?_ ?_
    · exact forall_congr' fun l' => imp_congr Iff.rfl (and_congr Iff.rfl (ihnext none))
    · constructor
      · exact fun h => h.mono (fun _ => id) fun l' b => (ihnext (some b)).mp
      · exact fun h => h.mono (fun _ => id) fun l' b => (ihnext (some b)).mpr

/-- One program after another. -/
theorem heeds_bind {p : Prog ι ρ α} {f : α → Prog ι ρ β} {l : L} {C : L → Prop}
    {Q : L → β → Prop} :
    (p >>= f).Heeds waits P l C Q ↔
      p.Heeds waits P l C fun l' a => (f a).Heeds waits P l' C Q := heeds_bind'

theorem heeds_map {p : Prog ι ρ α} {f : α → β} {l : L} {C : L → Prop} {Q : L → β → Prop} :
    (f <$> p).Heeds waits P l C Q ↔ p.Heeds waits P l C fun l' a => Q l' (f a) := heeds_bind'

/-- Programs of which nothing is asked. -/
theorem heeds_of_allows (hP : ∀ l i, P.allows l i) (p : Prog ι ρ α) (l : L) :
    p.Heeds waits P l (fun _ => True) fun _ _ => True := by
  induction p generalizing l with
  | done a => trivial
  | act i next ih => exact ⟨fun _ => trivial, hP l i, fun r => ih r _⟩
  | loop body x next ihbody ihnext =>
    refine ⟨fun _ _ => True, trivial, fun y l' _ => (ihbody y l').mono (fun _ => id) ?_⟩
    rintro l'' (z | b) _
    · trivial
    · exact ihnext b l''
  | timeout d inner next ihinner ihnext =>
    refine ⟨fun _ => True, fun l' _ => ⟨trivial, ihnext none l'⟩, ?_⟩
    exact (ihinner l).mono (fun _ => id) fun l' b _ => ihnext (some b) l'

/-! ### Programs that may fail -/

section Failure

variable {ε : Type} {C : L → Prop} {l : L}

end Failure

/-! ### Steps of a program -/

theorem Heeds.waiting {p : Prog ι ρ α} {l : L} {C : L → Prop} {Q : L → α → Prop} {i : ι}
    (h : p.Heeds waits P l C Q) (hcurrent : p.current = some i) (hwaits : waits i = true) : C l := by
  induction p generalizing l C with
  | done | loop => cases hcurrent
  | act j next ih =>
    obtain rfl := Option.some.inj hcurrent
    exact h.1 hwaits
  | timeout d inner next ihinner ihnext =>
    obtain ⟨D, hcut, hinner⟩ := h
    exact (hcut l (ihinner hinner hcurrent)).1

/-- A step of a program that keeps to its protocol is an allowed action, or a step of its control
alone. -/
theorem Heeds.turn {S : Type} {exec : (i : ι) → S → Option (ρ i × S)} {p p' : Prog ι ρ α} {l : L}
    {C : L → Prop} {Q : L → α → Prop} {s s' : S} (h : p.Heeds waits P l C Q)
    (hturn : p.turn exec s = some (p', s')) :
    (s' = s ∧ p'.Heeds waits P l C Q) ∨ ∃ i r, exec i s = some (r, s') ∧ P.allows l i ∧
      p'.Heeds waits P (P.after l i r) C Q := by
  induction p generalizing l C with
  | done a => cases hturn
  | act i next ih =>
    obtain ⟨⟨r, t⟩, hexec, heq⟩ := Option.map_eq_some_iff.mp hturn
    obtain ⟨rfl, rfl⟩ := Prod.mk.inj heq
    exact .inr ⟨i, r, hexec, h.2.1, h.2.2 r⟩
  | loop body x next ihbody ihnext =>
    obtain ⟨rfl, rfl⟩ := Prod.mk.inj (Option.some.inj hturn)
    obtain ⟨J, hx, hJ⟩ := h
    refine .inl ⟨rfl, heeds_bind'.mpr ((hJ x l hx).mono (fun _ => id) ?_)⟩
    rintro l' (z | b) ho
    · exact ⟨J, ho, hJ⟩
    · exact ho
  | timeout d inner next ihinner ihnext =>
    obtain ⟨D, hcut, hinner⟩ := h
    have hrun (hrun : (inner.turn exec s).map (fun o => (timeout d o.1 next, o.2)) =
        some (p', s')) : (s' = s ∧ p'.Heeds waits P l C Q) ∨ ∃ i r, exec i s = some (r, s') ∧
          P.allows l i ∧ p'.Heeds waits P (P.after l i r) C Q := by
      obtain ⟨⟨q, t⟩, hstep, heq⟩ := Option.map_eq_some_iff.mp hrun
      obtain ⟨rfl, rfl⟩ := Prod.mk.inj heq
      rcases ihinner hinner hstep with ⟨rfl, hq⟩ | ⟨i, r, hexec, hallows, hq⟩
      · exact .inl ⟨rfl, D, hcut, hq⟩
      · exact .inr ⟨i, r, hexec, hallows, D, hcut, hq⟩
    cases inner with
    | done b =>
      obtain ⟨rfl, rfl⟩ := Prod.mk.inj (Option.some.inj hturn)
      exact .inl ⟨rfl, hinner⟩
    | act | loop | timeout => exact hrun hturn

/-- A program that is cut where it waits goes on from what holds there. -/
theorem Heeds.elapse {now depth : Nat} {p p' : Prog ι ρ α} {l : L} {C : L → Prop}
    {Q : L → α → Prop} {i : ι} (h : p.Heeds waits P l C Q) (hcurrent : p.current = some i)
    (hwaits : waits i = true) (helapse : p.elapse now depth = some p') :
    p'.Heeds waits P l C Q := by
  induction p generalizing l C depth with
  | done | act | loop => cases helapse
  | timeout d inner next ihinner ihnext =>
    obtain ⟨D, hcut, hinner⟩ := h
    cases depth with
    | zero =>
      obtain ⟨-, heq⟩ := Option.ite_none_right_eq_some.mp helapse
      obtain rfl := Option.some.inj heq
      exact (hcut l (hinner.waiting hcurrent hwaits)).2
    | succ n =>
      obtain ⟨q, hq, rfl⟩ := Option.map_eq_some_iff.mp helapse
      exact ⟨D, hcut, ihinner hinner hcurrent hq⟩

end Prog

/-! ### Jobs of an executor -/

namespace Executor

variable {S κ χ ε R : Type} {ex : Executor ι ρ S κ χ ε R}

/-- A job keeps to its protocol from the local state that the shared state shows of it, and when it
was dropped, it was so where it waited. -/
def Heeding (ex : Executor ι ρ S κ χ ε R) (P : Protocol ι ρ L) (C : κ → L → Prop)
    (Q : κ → L → R → Prop) (l : L) (t : Job ι ρ κ R) : Prop :=
  (∀ p, t.prog = some p → p.Heeds ex.suspends P l (C t.call) (Q t.call)) ∧
    (t.prog = none → C t.call l)

/-- When the shared state shows the local state of every job, and only its own actions change it, all
jobs keep to the protocol. -/
theorem reach_heeds {ok : World ι ρ S κ R → Turn κ χ ε → Prop} (P : Nat → Protocol ι ρ L)
    (C : κ → L → Prop) (Q : κ → L → R → Prop) (start : L) (view : Nat → S → L)
    (hbody : ∀ k c, (ex.body c).Heeds ex.suspends (P k) start (C c) (Q c))
    (hinit : ∀ k s, ex.init s → view k s = start)
    (hact : ∀ k choice i s r s', ex.exec k choice i s = some (r, s') →
      view k s' = (P k).after (view k s) i r)
    (hother : ∀ k j choice i s r s', ex.exec j choice i s = some (r, s') → k ≠ j →
      view k s' = view k s)
    (hrelease : ∀ k j s, view k (ex.release j s) = view k s)
    (henv : ∀ k e s s', ex.env e s = some s' → view k s' = view k s)
    {w : World ι ρ S κ R} (h : ex.machine.Reach ok w) :
    (∀ k t, w.jobs[k]? = some t → ex.Heeding (P k) C Q (view k w.shared) t) ∧
      ∀ k, w.jobs.length ≤ k → view k w.shared = start := by
  refine h.invariant (I := fun w =>
    (∀ k t, w.jobs[k]? = some t → ex.Heeding (P k) C Q (view k w.shared) t) ∧
      ∀ k, w.jobs.length ≤ k → view k w.shared = start) ?_ ?_
  · rintro w ⟨hs, hjobs⟩
    refine ⟨fun k t hk => ?_, fun k _ => hinit k _ hs⟩
    rw [hjobs, List.getElem?_nil] at hk
    cases hk
  · rintro w a w' ⟨hheeds, hfresh⟩ - hstep
    -- one job goes on, and nothing is seen of that on the others
    have hput {k : Nat} {t : Job ι ρ κ R} {p : Option (Prog ι ρ R)} {s : S}
        (ht : w.jobs[k]? = some t) (hjob : ∀ t', t'.call = t.call → t'.prog = p →
          ex.Heeding (P k) C Q (view k s) t')
        (hothers : ∀ j, j ≠ k → view j s = view j w.shared) :
        (∀ j t', (w.put k p s).jobs[j]? = some t' → ex.Heeding (P j) C Q (view j s) t') ∧
          ∀ j, (w.put k p s).jobs.length ≤ j → view j s = start := by
      constructor
      · intro j t' hj
        obtain ⟨t₁, ht₁, hcall, ⟨rfl, hprog⟩ | ⟨hjk, hprog⟩⟩ := put_job hj
        · obtain rfl := Option.some.inj (ht.symm.trans ht₁)
          exact hjob t' hcall hprog
        · rw [hothers j hjk, Heeding, hcall, hprog]
          exact hheeds j t₁ ht₁
      · intro j hj
        rw [World.put_length] at hj
        have hlt := (List.getElem?_eq_some_iff.mp ht).1
        rw [hothers j (by omega)]
        exact hfresh j hj
    cases a with
    | call c =>
      obtain rfl := Option.some.inj hstep
      constructor
      · intro k t hk
        by_cases hlt : k < w.jobs.length
        · refine hheeds k t ?_
          rwa [List.getElem?_append_left hlt] at hk
        · have hle := Nat.le_of_not_lt hlt
          rw [List.getElem?_append_right hle] at hk
          obtain rfl := List.mem_singleton.mp (List.mem_of_getElem? hk)
          rw [hfresh k hle]
          refine ⟨?_, (by intros; contradiction)⟩
          rintro p ⟨⟩
          exact hbody k c
      · intro k hk
        rw [List.length_append, List.length_singleton] at hk
        exact hfresh k (by omega)
    | turn k choice =>
      simp only [machine, step] at hstep
      split at hstep
      next p hk =>
        obtain ⟨⟨q, s⟩, hturn, rfl⟩ := Option.map_eq_some_iff.mp hstep
        obtain ⟨t, ht, hp⟩ := Option.bind_eq_some_iff.mp hk
        rcases ((hheeds k t ht).1 p hp).turn hturn with ⟨rfl, hq⟩ | ⟨i, r, hexec, -, hq⟩
        · refine hput ht (fun t' hcall hprog => ?_) fun j _ => rfl
          rw [Heeding, hcall, hprog]
          exact ⟨fun p' hp' => Option.some.inj hp' ▸ hq, (by intros; contradiction)⟩
        · refine hput ht (fun t' hcall hprog => ?_) fun j hjk => hother j k _ _ _ _ _ hexec hjk
          rw [Heeding, hcall, hprog, hact k _ _ _ _ _ hexec]
          exact ⟨fun p' hp' => Option.some.inj hp' ▸ hq, (by intros; contradiction)⟩
      next => cases hstep
    | elapse k depth =>
      simp only [machine, step] at hstep
      split at hstep
      next hsuspended =>
        obtain ⟨q, hq, rfl⟩ := Option.map_eq_some_iff.mp hstep
        obtain ⟨p, hk, helapse⟩ := Option.bind_eq_some_iff.mp hq
        obtain ⟨i, hcurrent, hsuspends⟩ := hsuspended
        rw [World.current, hk] at hcurrent
        obtain ⟨t, ht, hp⟩ := Option.bind_eq_some_iff.mp hk
        have hheeds' := ((hheeds k t ht).1 p hp).elapse hcurrent hsuspends helapse
        refine hput ht (fun t' hcall hprog => ?_) fun j _ => hrelease j k w.shared
        rw [Heeding, hcall, hprog, hrelease]
        exact ⟨fun p' hp' => Option.some.inj hp' ▸ hheeds', (by intros; contradiction)⟩
      next => cases hstep
    | drop k =>
      simp only [machine, step] at hstep
      split at hstep
      next hsuspended =>
        obtain rfl := Option.some.inj hstep
        obtain ⟨i, hcurrent, hsuspends⟩ := hsuspended
        obtain ⟨p, hk, hcurrent⟩ := Option.bind_eq_some_iff.mp hcurrent
        obtain ⟨t, ht, hp⟩ := Option.bind_eq_some_iff.mp hk
        have hwaiting := ((hheeds k t ht).1 p hp).waiting hcurrent hsuspends
        refine hput ht (fun t' hcall hprog => ?_) fun j _ => hrelease j k w.shared
        rw [Heeding, hcall, hprog, hrelease]
        exact ⟨(by intros; contradiction), fun _ => hwaiting⟩
      next => cases hstep
    | env e =>
      obtain ⟨s, hs, rfl⟩ := Option.map_eq_some_iff.mp hstep
      refine ⟨fun k t hk => ?_, fun k hk => ?_⟩
      · rw [henv k e _ s hs]
        exact hheeds k t hk
      · exact (henv k e _ s hs).trans (hfresh k hk)

end Executor
