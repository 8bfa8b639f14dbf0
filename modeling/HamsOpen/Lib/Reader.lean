import Mathlib.Data.List.Basic

/-!
# Readers of a buffer

A reader takes a value off the front of a buffer, or fails. It is judged by the encodings it reads:
it finds a value wherever an encoding of it stands at the front, and whatever it finds stood there
encoded. The encodings of a reader that goes on from what it read are the two encodings, joined.
-/

/-- A reader of values off the front of a buffer. -/
abbrev Reader (β ε α : Type) := StateT (List β) (Except ε) α

namespace Reader

variable {β ε α γ : Type}

/-- The next item, or the error `e` at the end. -/
def item (e : ε) : Reader β ε β
  | [] => .error e
  | b :: bs => .ok (b, bs)

/-- The next `n` items, or the error `e` when there are fewer. -/
def take (e : ε) (n : ℕ) : Reader β ε (List β) := fun bs =>
  if n ≤ bs.length then .ok (bs.take n, bs.drop n) else .error e

/-- The end of the buffer, or the error `e`. -/
def finish (e : ε) : Reader β ε Unit
  | [] => .ok ((), [])
  | _ :: _ => .error e

/-- A value or an error, whatever the buffer. -/
def lift : Except ε α → Reader β ε α
  | .ok a => pure a
  | .error e => throw e

/-- As many values as are asked for. -/
def times (rd : Reader β ε α) : ℕ → Reader β ε (List α)
  | 0 => pure []
  | n + 1 => do
    let a ← rd
    let as ← times rd n
    pure (a :: as)

/-- Reads a whole buffer. -/
def whole (rd : Reader β ε α) (e : ε) (bs : List β) : Except ε α :=
  (rd bs).bind fun found => if found.2.isEmpty then .ok found.1 else .error e

/-- The reader `rd` reads the values of `R`: it finds a value wherever an encoding of it stands at
the front, and what it finds stood there encoded. -/
structure Reads (rd : Reader β ε α) (R : α → List β → Prop) : Prop where
  found : ∀ {a bs} (rest), R a bs → rd (bs ++ rest) = .ok (a, rest)
  encoded : ∀ {bs a rest}, rd bs = .ok (a, rest) → ∃ front, R a front ∧ bs = front ++ rest

namespace Reads

variable {rd : Reader β ε α} {R : α → List β → Prop}

theorem congr {R' : α → List β → Prop} (h : rd.Reads R) (hR : ∀ a bs, R' a bs ↔ R a bs) :
    rd.Reads R' where
  found rest ha := h.found rest ((hR _ _).mp ha)
  encoded hrd := by
    obtain ⟨front, hfront, hbs⟩ := h.encoded hrd
    exact ⟨front, (hR _ _).mpr hfront, hbs⟩

protected theorem item (e : ε) : (item e : Reader β ε β).Reads fun b bs => bs = [b] where
  found rest ha := by
    rw [ha]
    rfl
  encoded {bs a rest} hrd := by
    cases bs with
    | nil => cases hrd
    | cons b bs =>
      cases hrd
      exact ⟨_, rfl, rfl⟩

protected theorem take (e : ε) (n : ℕ) :
    (take e n : Reader β ε (List β)).Reads fun as bs => bs = as ∧ as.length = n where
  found {as bs} rest ha := by
    obtain ⟨rfl, rfl⟩ := ha
    unfold Reader.take
    rw [if_pos (by rw [List.length_append]; omega), List.take_left, List.drop_left]
  encoded {bs a rest} hrd := by
    unfold Reader.take at hrd
    split at hrd <;> cases hrd
    next hn => exact ⟨_, ⟨rfl, List.length_take_of_le hn⟩, (List.take_append_drop n bs).symm⟩

/-- A value that takes nothing off the buffer. -/
protected theorem pure (a : α) :
    (pure a : Reader β ε α).Reads fun a' bs => a' = a ∧ bs = [] where
  found rest ha := by
    rw [ha.1, ha.2]
    rfl
  encoded hrd := by
    cases hrd
    exact ⟨[], ⟨rfl, rfl⟩, rfl⟩

/-- A reader that fails reads nothing. -/
protected theorem throw (e : ε) : (throw e : Reader β ε α).Reads fun _ _ => False where
  found _ ha := ha.elim
  encoded hrd := by cases hrd

protected theorem lift (r : Except ε α) :
    (lift r : Reader β ε α).Reads fun a bs => r = .ok a ∧ bs = [] := by
  cases r with
  | ok a =>
    apply (Reads.pure a).congr
    intro a' bs
    exact and_congr_left' ⟨fun h => (Except.ok.inj h).symm, fun h => by rw [h]⟩
  | error e =>
    apply (Reads.throw e).congr
    intro a' bs
    exact ⟨fun h => (nomatch h.1), False.elim⟩

/-- One reader after another: the one encoding, and the other. -/
protected theorem bind {f : α → Reader β ε γ} {R₂ : α → γ → List β → Prop} (h : rd.Reads R)
    (hf : ∀ a bs, R a bs → (f a).Reads (R₂ a)) :
    (rd >>= f).Reads fun c bs => ∃ a front back, R a front ∧ R₂ a c back ∧ bs = front ++ back where
  found {c bs} rest hc := by
    obtain ⟨a, front, back, ha, hc, rfl⟩ := hc
    change (rd (front ++ back ++ rest) >>= fun o => f o.1 o.2) = _
    rw [List.append_assoc, h.found _ ha]
    exact (hf a front ha).found rest hc
  encoded {bs c rest} hrd := by
    change (rd bs >>= fun o => f o.1 o.2) = _ at hrd
    cases hfirst : rd bs with
    | error e =>
      rw [hfirst] at hrd
      cases hrd
    | ok found =>
      rw [hfirst] at hrd
      obtain ⟨front, ha, hbs⟩ := h.encoded hfirst
      obtain ⟨back, hc, hrest⟩ := (hf _ _ ha).encoded hrd
      exact ⟨front ++ back, ⟨found.1, front, back, ha, hc, rfl⟩,
        by rw [hbs, hrest, List.append_assoc]⟩

/-- As many values as are asked for, each with its encoding. -/
protected theorem times {enc : α → List β} {P : α → Prop}
    (h : rd.Reads fun a bs => P a ∧ bs = enc a) (n : ℕ) :
    (times rd n).Reads fun as bs => as.length = n ∧ (∀ a ∈ as, P a) ∧ bs = as.flatMap enc := by
  induction n with
  | zero =>
    apply (Reads.pure []).congr
    intro as bs
    constructor
    · rintro ⟨hlength, -, rfl⟩
      obtain rfl := List.eq_nil_of_length_eq_zero hlength
      exact ⟨rfl, rfl⟩
    · rintro ⟨rfl, rfl⟩
      exact ⟨rfl, List.forall_mem_nil _, rfl⟩
  | succ n ih =>
    apply (h.bind fun a _ _ => ih.bind fun as _ _ => Reads.pure (a :: as)).congr
    intro as bs
    constructor
    · rintro ⟨hlength, hP, rfl⟩
      cases as with
      | nil => cases hlength
      | cons a as =>
        refine ⟨a, _, _, ⟨hP a List.mem_cons_self, rfl⟩, ⟨as, _, _, ⟨Nat.succ.inj hlength, ?_, rfl⟩,
          ⟨rfl, rfl⟩, (List.append_nil _).symm⟩, rfl⟩
        exact fun b hb => hP b (List.mem_cons_of_mem a hb)
    · rintro ⟨a, _, _, ⟨ha, rfl⟩, ⟨as', _, _, ⟨hlength, hP, rfl⟩, ⟨rfl, rfl⟩, rfl⟩, rfl⟩
      refine ⟨by rw [List.length_cons, hlength], ?_, by rw [List.append_nil]; rfl⟩
      intro b hb
      rcases List.mem_cons.mp hb with rfl | hb
      · exact ha
      · exact hP b hb

/-- A whole buffer is read as the value that it encodes. -/
theorem whole_iff (h : rd.Reads R) {e : ε} {bs : List β} {a : α} :
    rd.whole e bs = .ok a ↔ R a bs := by
  unfold whole
  constructor
  · intro hrd
    cases hfirst : rd bs with
    | error e' =>
      rw [hfirst] at hrd
      cases hrd
    | ok found =>
      obtain ⟨a', rest⟩ := found
      rw [hfirst] at hrd
      obtain ⟨front, ha, hbs⟩ := h.encoded hfirst
      cases rest with
      | nil =>
        cases hrd
        rwa [hbs, List.append_nil]
      | cons b rest => cases hrd
  · intro ha
    have hfound := h.found [] ha
    rw [List.append_nil] at hfound
    rw [hfound]
    rfl

end Reads

end Reader
