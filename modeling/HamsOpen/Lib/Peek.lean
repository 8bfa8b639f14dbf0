import HamsOpen.Lib.Scanner

/-!
# Looking at the front of an input

A peek looks at the input at hand and finds a value, waits for more input, or fails. What it has
found or failed with it keeps when more input follows, and this travels with the peek: whatever is
put together from peeks keeps it too, without a proof of its own.
-/

/-- A look at the front of an input: a value, none as yet, or a failure. Values and failures are
kept when more input follows. -/
structure Peek (β ε α : Type) where
  run : List β → Except ε (Option α)
  ok_append : ∀ {bs a} (cs), run bs = .ok (some a) → run (bs ++ cs) = .ok (some a)
  error_append : ∀ {bs e} (cs), run bs = .error e → run (bs ++ cs) = .error e

namespace Peek

variable {β ε α γ : Type}

/-- A result that does not depend on the input. -/
def lift (r : Except ε α) : Peek β ε α where
  run _ := r.map some
  ok_append _ h := h
  error_append _ h := h

/-- What `f` looks for with the value that `x` found. -/
def andThen (x : Peek β ε α) (f : α → Peek β ε γ) : Peek β ε γ where
  run bs := match x.run bs with
    | .ok (some a) => (f a).run bs
    | .ok none => .ok none
    | .error e => .error e
  ok_append cs h := by
    split at h
    next a hx =>
      rw [x.ok_append cs hx]
      exact (f a).ok_append cs h
    · cases h
    · cases h
  error_append cs h := by
    split at h
    next a hx =>
      rw [x.ok_append cs hx]
      exact (f a).error_append cs h
    · cases h
    next hx =>
      rw [x.error_append cs hx]
      exact h

instance : Monad (Peek β ε) where
  pure a := lift (.ok a)
  bind := andThen

/-- The `i`-th element of the input. -/
def get (i : ℕ) : Peek β ε β where
  run bs := .ok bs[i]?
  ok_append {bs a} cs h := by
    have hget : bs[i]? = some a := Except.ok.inj h
    obtain ⟨hlt, -⟩ := List.getElem?_eq_some_iff.mp hget
    rw [List.getElem?_append_left hlt, hget]
  error_append _ h := by cases h

/-- The range of the input from `lo` up to `hi`, once the input is that long. -/
def slice (lo hi : ℕ) : Peek β ε (List β) where
  run bs := .ok (if lo ≤ hi ∧ hi ≤ bs.length then some ((bs.take hi).drop lo) else none)
  ok_append {bs a} cs h := by
    have hsome := Except.ok.inj h
    split at hsome
    next hle =>
      rw [if_pos ⟨hle.1, by rw [List.length_append]; omega⟩,
        List.take_append_of_le_length hle.2]
      exact congrArg Except.ok hsome
    · cases hsome
  error_append _ h := by cases h

/-- A check that fails with `e`. -/
def ensure (p : Prop) [Decidable p] (e : ε) : Peek β ε Unit :=
  lift (if p then .ok () else .error e)

section Run

variable {bs : List β} {x : Peek β ε α} {f : α → Peek β ε γ} {a : α}

@[simp] theorem run_pure : (pure a : Peek β ε α).run bs = .ok (some a) := rfl

/-- A peek goes on with what the one before it found. -/
theorem run_bind_of (h : x.run bs = .ok (some a)) : (x >>= f).run bs = (f a).run bs := by
  change (match x.run bs with
    | .ok (some a) => (f a).run bs
    | .ok none => .ok none
    | .error e => .error e) = _
  rw [h]

theorem run_get {i : ℕ} {b : β} (h : bs[i]? = some b) :
    (get i : Peek β ε β).run bs = .ok (some b) := congrArg Except.ok h

theorem run_slice (pre mid post : List β) {lo hi : ℕ} (hlo : pre.length = lo)
    (hhi : lo + mid.length = hi) :
    (slice lo hi : Peek β ε (List β)).run (pre ++ (mid ++ post)) = .ok (some mid) := by
  subst hlo hhi
  simp only [slice]
  rw [if_pos (by simp only [List.length_append]; omega), ← List.append_assoc,
    List.take_left' (by rw [List.length_append]), List.drop_left]

theorem run_ensure {p : Prop} [Decidable p] {e : ε} (h : p) :
    (ensure p e : Peek β ε Unit).run bs = .ok (some ()) := by
  simp only [ensure, if_pos h]
  exact rfl

end Run

/-! ### What a peek comes to -/

/-- On the input `bs` the peek `x` finds a value of which `P` holds, waits and `W` holds, or fails
with an error of which `E` holds. -/
def Spec (x : Peek β ε α) (bs : List β) (W : Prop) (E : ε → Prop) (P : α → Prop) : Prop :=
  match x.run bs with
  | .ok (some a) => P a
  | .ok none => W
  | .error e => E e

namespace Spec

variable {x : Peek β ε α} {f : α → Peek β ε γ} {bs : List β} {W : Prop} {E : ε → Prop}
  {P : α → Prop} {Q : γ → Prop}

theorem found {a : α} (h : x.Spec bs W E P) (hrun : x.run bs = .ok (some a)) : P a := by
  simpa [Spec, hrun] using h

theorem waits (h : x.Spec bs W E P) (hrun : x.run bs = .ok none) : W := by
  simpa [Spec, hrun] using h

theorem fails {e : ε} (h : x.Spec bs W E P) (hrun : x.run bs = .error e) : E e := by
  simpa [Spec, hrun] using h

theorem pure {a : α} (h : P a) : (Pure.pure a : Peek β ε α).Spec bs W E P := h

theorem bind (h : x.Spec bs W E P) (hf : ∀ a, P a → (f a).Spec bs W E Q) :
    (x >>= f).Spec bs W E Q := by
  change match (match x.run bs with
    | .ok (some a) => (f a).run bs
    | .ok none => .ok none
    | .error e => .error e) with
    | .ok (some a) => Q a
    | .ok none => W
    | .error e => E e
  unfold Spec at h
  generalize x.run bs = r at h
  match r, h with
  | .ok (some a), h => exact hf a h
  | .ok none, h => exact h
  | .error e, h => exact h

theorem get {i : ℕ} {P : β → Prop} (hwait : bs.length ≤ i → W)
    (hfound : ∀ b, i < bs.length → bs[i]? = some b → P b) :
    (Peek.get i : Peek β ε β).Spec bs W E P := by
  simp only [Spec, Peek.get]
  cases hget : bs[i]? with
  | none => exact hwait (List.getElem?_eq_none_iff.mp hget)
  | some b => exact hfound b (List.getElem?_eq_some_iff.mp hget).1 hget

theorem slice {lo hi : ℕ} {P : List β → Prop} (hle : lo ≤ hi) (hwait : bs.length < hi → W)
    (hfound : ∀ s : List β, hi ≤ bs.length → s.length = hi - lo → P s) :
    (Peek.slice lo hi : Peek β ε (List β)).Spec bs W E P := by
  simp only [Spec, Peek.slice]
  by_cases hhi : hi ≤ bs.length
  · rw [if_pos ⟨hle, hhi⟩]
    apply hfound _ hhi
    rw [List.length_drop, List.length_take, Nat.min_eq_left hhi]
  · rw [if_neg fun h => hhi h.2]
    exact hwait (Nat.lt_of_not_le hhi)

theorem ensure {p : Prop} [Decidable p] {e : ε} {P : Unit → Prop} (hfail : ¬p → E e)
    (hpass : p → P ()) : (Peek.ensure p e : Peek β ε Unit).Spec bs W E P := by
  unfold Peek.ensure
  by_cases h : p
  · rw [if_pos h]
    exact hpass h
  · rw [if_neg h]
    exact hfail h

theorem lift {r : Except ε α} (hok : ∀ a, r = .ok a → P a) (herror : ∀ e, r = .error e → E e) :
    (Peek.lift r : Peek β ε α).Spec bs W E P := by
  cases r with
  | ok a => exact hok a rfl
  | error e => exact herror e rfl

end Spec

/-! ### Peeks as scanners -/

/-- A peek that says how much of the input its value takes, as a scanner. -/
def scanner (x : Peek β ε (α × ℕ)) (hnil : x.run [] = .ok none)
    (hused : ∀ bs, x.Spec bs True (fun _ => True) fun r => 0 < r.2 ∧ r.2 ≤ bs.length) :
    Scanner β α ε where
  scan bs := match x.run bs with
    | .ok (some (a, used)) => .item a used
    | .ok none => .more
    | .error e => .bad e
  scan_nil := by rw [hnil]
  used_pos {bs a n} h := by
    split at h
    next hrun =>
      obtain ⟨rfl, rfl⟩ := Scan.item.inj h
      exact ((hused bs).found hrun).1
    · cases h
    · cases h
  used_le {bs a n} h := by
    split at h
    next hrun =>
      obtain ⟨rfl, rfl⟩ := Scan.item.inj h
      exact ((hused bs).found hrun).2
    · cases h
    · cases h
  item_append cs h := by
    split at h
    next hrun =>
      obtain ⟨rfl, rfl⟩ := Scan.item.inj h
      rw [x.ok_append cs hrun]
    · cases h
    · cases h
  bad_append cs h := by
    split at h
    · cases h
    · cases h
    next hrun =>
      obtain rfl := Scan.bad.inj h
      rw [x.error_append cs hrun]

section Scanner

variable {x : Peek β ε (α × ℕ)} {hnil : x.run [] = .ok none}
  {hused : ∀ bs, x.Spec bs True (fun _ => True) fun r => 0 < r.2 ∧ r.2 ≤ bs.length}
  {bs : List β} {a : α} {n : ℕ}

theorem scan_of_run (h : x.run bs = .ok (some (a, n))) :
    (x.scanner hnil hused).scan bs = .item a n := by
  simp only [scanner, h]

theorem run_of_item (h : (x.scanner hnil hused).scan bs = .item a n) :
    x.run bs = .ok (some (a, n)) := by
  simp only [scanner] at h
  split at h
  next hrun =>
    obtain ⟨rfl, rfl⟩ := Scan.item.inj h
    exact hrun
  · cases h
  · cases h

theorem run_of_more (h : (x.scanner hnil hused).scan bs = .more) : x.run bs = .ok none := by
  simp only [scanner] at h
  split at h
  · cases h
  next hrun => exact hrun
  · cases h

end Scanner

end Peek
