import HamsOpen.Lib.Program

/-!
# Programs that keep what holds of their local state

Most parts of a program neither need nor change what its protocol is about: from any local state that
meets a condition they lead to one that meets it again. Such parts compose without a look at the
local state.
-/

/-- The protocol that allows certain actions, whatever happened before. -/
def Protocol.only {ι : Type} {ρ : ι → Type} (allowed : ι → Prop) : Protocol ι ρ Unit where
  allows _ := allowed
  after _ _ _ := ()
  lost _ := ()

namespace Prog

variable {ι : Type} {ρ : ι → Type} {α β σ ε L : Type} {P : Protocol ι ρ L} {J : L → Prop}

/-- From every local state that meets `J`, the program keeps to the protocol, and it ends in one. -/
def Steady (P : Protocol ι ρ L) (J : L → Prop) (p : Prog ι ρ α) : Prop :=
  ∀ l, J l → p.Follows P l fun l' _ => J l'

namespace Steady

theorem follows {p : Prog ι ρ α} (h : p.Steady P J) {l : L} (hl : J l) :
    p.Follows P l fun l' _ => J l' := h l hl

theorem pure (a : α) : (Pure.pure a : Prog ι ρ α).Steady P J := fun _ hl => hl

theorem done (a : α) : (Prog.done a : Prog ι ρ α).Steady P J := fun _ hl => hl

theorem perform {i : ι} (h : ∀ l, J l → P.allows l i ∧ ∀ r, J (P.after l i r)) :
    (Prog.perform i : Prog ι ρ (ρ i)).Steady P J := h

theorem bind {p : Prog ι ρ α} {f : α → Prog ι ρ β} (hp : p.Steady P J)
    (hf : ∀ a, (f a).Steady P J) : (p >>= f).Steady P J :=
  fun l hl => follows_bind.mpr ((hp l hl).mono fun l' a hl' => hf a l' hl')

theorem map {p : Prog ι ρ α} (f : α → β) (hp : p.Steady P J) : (f <$> p).Steady P J :=
  fun l hl => follows_map.mpr (hp l hl)

theorem iterate {body : σ → Prog ι ρ (σ ⊕ β)} {x : σ} (h : ∀ y, (body y).Steady P J) :
    (Prog.iterate body x).Steady P J := by
  intro l hl
  refine follows_iterate.mpr ⟨fun _ => J, hl, fun y l' hl' => (h y l' hl').mono ?_⟩
  rintro l'' (z | b) hl''
  · exact hl''
  · exact hl''

theorem within {d : Nat} {p : Prog ι ρ α} (hlost : ∀ l, J (P.lost l)) (hp : p.Steady P J) :
    (Prog.within d p).Steady P J :=
  fun l hl => follows_within.mpr ⟨hp l hl, hlost⟩

theorem try_pure (a : α) : Steady P J (Pure.pure a : ExceptT ε (Prog ι ρ) α).run := fun _ hl => hl

theorem throw (e : ε) : Steady P J (MonadExcept.throw e : ExceptT ε (Prog ι ρ) α).run :=
  fun _ hl => hl

theorem lift {p : Prog ι ρ α} (hp : p.Steady P J) :
    Steady P J (liftM p : ExceptT ε (Prog ι ρ) α).run :=
  fun l hl => follows_lift.mpr (hp l hl)

theorem try_bind {x : ExceptT ε (Prog ι ρ) α} {f : α → ExceptT ε (Prog ι ρ) β}
    (hx : Steady P J x.run) (hf : ∀ a, Steady P J (f a).run) : Steady P J (x >>= f).run := by
  intro l hl
  refine follows_try_bind.mpr ((hx l hl).mono ?_)
  rintro l' (e | a) hl'
  · exact hl'
  · exact hf a l' hl'

theorem try_map {x : ExceptT ε (Prog ι ρ) α} (f : α → β) (hx : Steady P J x.run) :
    Steady P J (f <$> x).run :=
  fun l hl => follows_try_map.mpr (hx l hl)

/-- An action, and then the rest. -/
theorem act {i : ι} {f : ρ i → ExceptT ε (Prog ι ρ) β}
    (h : ∀ l, J l → P.allows l i ∧ ∀ r, J (P.after l i r)) (hf : ∀ r, Steady P J (f r).run) :
    Steady P J ((liftM (Prog.perform i) : ExceptT ε (Prog ι ρ) (ρ i)) >>= f).run :=
  try_bind (lift (perform h)) hf

/-- Only allowed actions are ahead. -/
theorem ahead_only {allowed : ι → Prop} {p : Prog ι ρ α} {i : ι}
    (h : p.Steady (Protocol.only allowed) fun _ => True) (ha : p.Ahead i) : allowed i := by
  obtain ⟨_, hallows⟩ := (h () trivial).ahead ha
  exact hallows

end Steady

end Prog
