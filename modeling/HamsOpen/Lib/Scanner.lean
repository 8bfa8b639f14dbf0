import Mathlib.Data.List.Forall2

/-!
# Scanners of a stream that arrives in pieces

A scanner looks for one message at the front of the input it has. It may find one, ask for more
input, or say that the input is no message, and more input never changes its mind. So what is read
off a stream does not depend on how the stream is cut, and an encoding that the scanner reads back
whatever follows it is one whose strict prefixes all ask for more.
-/

universe u v w

/-- What a scanner makes of the input at hand. -/
inductive Scan (α : Type u) (ε : Type v) where
  /-- A message, and how much of the input it took. -/
  | item (a : α) (used : ℕ)
  /-- Nothing yet. -/
  | more
  /-- The input is no message, whatever follows. -/
  | bad (e : ε)

/-- A scanner for one message at the front of its input; more input never changes its mind. -/
structure Scanner (β : Type w) (α : Type u) (ε : Type v) where
  scan : List β → Scan α ε
  scan_nil : scan [] = .more
  used_pos : ∀ {bs a n}, scan bs = .item a n → 0 < n
  used_le : ∀ {bs a n}, scan bs = .item a n → n ≤ bs.length
  item_append : ∀ {bs a n} (cs), scan bs = .item a n → scan (bs ++ cs) = .item a n
  bad_append : ∀ {bs e} (cs), scan bs = .bad e → scan (bs ++ cs) = .bad e

namespace Scanner

variable {α : Type u} {ε : Type v} {β : Type w} {d : Scanner β α ε}

/-- `d` reads the messages `as` off the input `bs` one after the other, and then waits for more
with `rest` left over. -/
inductive Reads (d : Scanner β α ε) : List β → List α → List β → Prop
  | wait {bs : List β} : d.scan bs = .more → Reads d bs [] bs
  | item {bs : List β} {a : α} {n : ℕ} {as : List α} {rest : List β} :
      d.scan bs = .item a n → Reads d (bs.drop n) as rest → Reads d bs (a :: as) rest

namespace Reads

variable {bs cs rest rest' : List β} {as as' : List α}

theorem nil : Reads d [] [] [] := .wait d.scan_nil

/-- There is one way to read an input. -/
theorem unique (h : Reads d bs as rest) (h' : Reads d bs as' rest') : as = as' ∧ rest = rest' := by
  induction h generalizing as' with
  | wait hmore =>
    cases h' with
    | wait _ => exact ⟨rfl, rfl⟩
    | item hitem _ =>
      rw [hmore] at hitem
      cases hitem
  | item hitem _ ih =>
    cases h' with
    | wait hmore =>
      rw [hmore] at hitem
      cases hitem
    | item hitem' h' =>
      rw [hitem] at hitem'
      obtain ⟨rfl, rfl⟩ := Scan.item.inj hitem'
      obtain ⟨rfl, rfl⟩ := ih h'
      exact ⟨rfl, rfl⟩

/-- What is left over waits for more. -/
theorem waits (h : Reads d bs as rest) : d.scan rest = .more := by
  induction h with
  | wait hmore => exact hmore
  | item _ _ ih => exact ih

/-- An input that can be read can be read a piece at a time: first what is read off its first part,
then, off what that leaves and the second part, the other messages. -/
theorem split (h : Reads d (bs ++ cs) as rest) :
    ∃ as₁ as₂ left, Reads d bs as₁ left ∧ Reads d (left ++ cs) as₂ rest ∧ as = as₁ ++ as₂ := by
  induction hlen : bs.length using Nat.strongRecOn generalizing bs as with
  | ind k ih =>
    cases hscan : d.scan bs with
    | more => exact ⟨[], as, bs, .wait hscan, h, rfl⟩
    | bad e =>
      have hbad := d.bad_append cs hscan
      cases h with
      | wait hmore =>
        rw [hbad] at hmore
        cases hmore
      | item hitem _ =>
        rw [hbad] at hitem
        cases hitem
    | item a n =>
      have happend := d.item_append cs hscan
      have hpos := d.used_pos hscan
      have hle := d.used_le hscan
      cases h with
      | wait hmore =>
        rw [happend] at hmore
        cases hmore
      | item hitem h =>
        rw [happend] at hitem
        obtain ⟨rfl, rfl⟩ := Scan.item.inj hitem
        rw [List.drop_append_of_le_length hle] at h
        obtain ⟨as₁, as₂, left, h₁, h₂, rfl⟩ :=
          ih (bs.drop n).length (by rw [List.length_drop]; omega) h rfl
        exact ⟨a :: as₁, as₂, left, .item hscan h₁, h₂, rfl⟩

end Reads

/-- The input `enc` is read back as the message `a`, whatever follows it. -/
def Encodes (d : Scanner β α ε) (enc : List β) (a : α) : Prop :=
  ∀ cs, d.scan (enc ++ cs) = .item a enc.length

namespace Encodes

variable {enc p : List β} {a : α}

theorem scan_eq (h : d.Encodes enc a) : d.scan enc = .item a enc.length := by
  simpa using h []

/-- A strict prefix of an encoding asks for more. -/
theorem of_shorter (h : d.Encodes enc a) (hpre : p <+: enc) (hne : p ≠ enc) :
    d.scan p = .more := by
  obtain ⟨t, rfl⟩ := hpre
  have henc := h.scan_eq
  cases hscan : d.scan p with
  | more => rfl
  | bad e =>
    rw [d.bad_append t hscan] at henc
    cases henc
  | item a' n =>
    rw [d.item_append t hscan] at henc
    have hlen : n = (p ++ t).length := (Scan.item.inj henc).2
    have hle := d.used_le hscan
    rw [List.length_append] at hlen
    obtain rfl : t = [] := List.eq_nil_of_length_eq_zero (by omega)
    exact absurd (List.append_nil p).symm hne

end Encodes

/-- The encodings of messages, joined, are read back as the messages. -/
theorem Reads.of_encodes {encs : List (List β)} {as : List α}
    (h : List.Forall₂ d.Encodes encs as) : Reads d encs.flatten as [] := by
  induction h with
  | nil => exact .nil
  | cons hencodes _ ih =>
    apply Reads.item (hencodes _)
    rw [List.drop_left]
    exact ih

/-- Of a first part of joined encodings the complete ones are read, and what is left over is a
strict prefix of the next one. -/
theorem exists_reads_of_prefix {encs : List (List β)} {as : List α} {bs cs : List β}
    (h : List.Forall₂ d.Encodes encs as) (hpre : bs ++ cs = encs.flatten) :
    ∃ n left, bs = (encs.take n).flatten ++ left ∧ d.Reads bs (as.take n) left ∧
      (left = [] ∨ ∃ enc, encs[n]? = some enc ∧ left <+: enc ∧ left ≠ enc) := by
  induction h generalizing bs with
  | nil =>
    obtain rfl : bs = [] := (List.append_eq_nil_iff.mp hpre).1
    exact ⟨0, [], rfl, .nil, .inl rfl⟩
  | @cons enc a encs as hencodes _ ih =>
    rw [List.flatten_cons, List.append_eq_append_iff] at hpre
    obtain ⟨missing, rfl, -⟩ | ⟨more, rfl, hmore⟩ := hpre
    · by_cases hnil : missing = []
      · -- The first encoding is complete, and nothing follows it yet.
        rw [hnil, List.append_nil] at hencodes ⊢
        refine ⟨1, [], by simp, .item hencodes.scan_eq ?_, .inl rfl⟩
        rw [List.drop_length]
        exact .nil
      · have hpre : bs <+: bs ++ missing := List.prefix_append _ _
        have hne : bs ≠ bs ++ missing := fun heq => hnil (List.self_eq_append_right.mp heq)
        exact ⟨0, bs, rfl, .wait (hencodes.of_shorter hpre hne), .inr ⟨_, rfl, hpre, hne⟩⟩
    · obtain ⟨n, left, rfl, hreads, hleft⟩ := ih hmore.symm
      refine ⟨n + 1, left, by simp, .item (hencodes _) ?_, hleft⟩
      rw [List.drop_left]
      exact hreads

/-! ### Inputs that fail -/

/-- `d` reads the messages `as` off the input `bs`, and what follows them, `bad`, is no message. -/
inductive Fails (d : Scanner β α ε) : List β → List α → List β → ε → Prop
  | bad {bs : List β} {e : ε} : d.scan bs = .bad e → Fails d bs [] bs e
  | item {bs : List β} {a : α} {n : ℕ} {as : List α} {bad : List β} {e : ε} :
      d.scan bs = .item a n → Fails d (bs.drop n) as bad e → Fails d bs (a :: as) bad e

/-- An input is read to its end, or it fails. -/
theorem reads_or_fails (d : Scanner β α ε) (bs : List β) :
    (∃ as rest, d.Reads bs as rest) ∨ ∃ as bad e, d.Fails bs as bad e := by
  induction hlen : bs.length using Nat.strongRecOn generalizing bs with
  | ind k ih =>
    cases hscan : d.scan bs with
    | more => exact .inl ⟨[], bs, .wait hscan⟩
    | bad e => exact .inr ⟨[], bs, e, .bad hscan⟩
    | item a n =>
      have hpos := d.used_pos hscan
      have hle := d.used_le hscan
      obtain ⟨as, rest, h⟩ | ⟨as, bad, e, h⟩ :=
        ih (bs.drop n).length (by rw [List.length_drop]; omega) _ rfl
      · exact .inl ⟨a :: as, rest, .item hscan h⟩
      · exact .inr ⟨a :: as, bad, e, .item hscan h⟩

namespace Fails

variable {bs bad bad' : List β} {as as' : List α} {e e' : ε}

theorem scan_eq (h : d.Fails bs as bad e) : d.scan bad = .bad e := by
  induction h with
  | bad hbad => exact hbad
  | item _ _ ih => exact ih

/-- There is one way to fail. -/
theorem unique (h : d.Fails bs as bad e) (h' : d.Fails bs as' bad' e') :
    as = as' ∧ bad = bad' ∧ e = e' := by
  induction h generalizing as' with
  | bad hbad =>
    cases h' with
    | bad hbad' =>
      rw [hbad] at hbad'
      exact ⟨rfl, rfl, Scan.bad.inj hbad'⟩
    | item hitem _ =>
      rw [hbad] at hitem
      cases hitem
  | item hitem _ ih =>
    cases h' with
    | bad hbad =>
      rw [hitem] at hbad
      cases hbad
    | item hitem' h' =>
      rw [hitem] at hitem'
      obtain ⟨rfl, rfl⟩ := Scan.item.inj hitem'
      obtain ⟨rfl, rfl, rfl⟩ := ih h'
      exact ⟨rfl, rfl, rfl⟩

/-- An input that fails goes on failing at the same place. -/
theorem append (h : d.Fails bs as bad e) (cs : List β) : d.Fails (bs ++ cs) as (bad ++ cs) e := by
  induction h with
  | bad hbad => exact .bad (d.bad_append cs hbad)
  | item hitem _ ih =>
    apply Fails.item (d.item_append cs hitem)
    rw [List.drop_append_of_le_length (d.used_le hitem)]
    exact ih

/-- What follows encodings and is no message. -/
theorem of_encodes {encs : List (List β)} (h : List.Forall₂ d.Encodes encs as)
    (hbad : d.scan bad = .bad e) : d.Fails (encs.flatten ++ bad) as bad e := by
  induction h with
  | nil => exact .bad hbad
  | cons hencodes _ ih =>
    rw [List.flatten_cons, List.append_assoc]
    apply Fails.item (hencodes _)
    rw [List.drop_left]
    exact ih

/-- An input whose first part is read fails in what that leaves and the second part. -/
theorem of_reads {cs left : List β} (h : d.Fails (bs ++ cs) as bad e) (h₁ : d.Reads bs as' left) :
    ∃ as'', d.Fails (left ++ cs) as'' bad e ∧ as = as' ++ as'' := by
  induction h₁ generalizing as with
  | wait _ => exact ⟨as, h, rfl⟩
  | item hitem _ ih =>
    cases h with
    | bad hbad =>
      rw [d.item_append cs hitem] at hbad
      cases hbad
    | item hitem' h =>
      rw [d.item_append cs hitem] at hitem'
      obtain ⟨rfl, rfl⟩ := Scan.item.inj hitem'
      rw [List.drop_append_of_le_length (d.used_le hitem)] at h
      obtain ⟨as'', hfails, rfl⟩ := ih h
      exact ⟨as'', hfails, rfl⟩

end Fails

/-! ### Inputs in pieces -/

/-- `d` reads the messages `as` off an input that arrives in pieces, beginning with `left` at hand
and ending with `rest` left over. -/
inductive ReadsAll (d : Scanner β α ε) : List β → List (List β) → List α → List β → Prop
  | nil {left : List β} : ReadsAll d left [] [] left
  | cons {left piece mid rest : List β} {pieces : List (List β)} {as as' : List α} :
      Reads d (left ++ piece) as mid → ReadsAll d mid pieces as' rest →
      ReadsAll d left (piece :: pieces) (as ++ as') rest

/-- What is read at once is read in any pieces. -/
theorem Reads.readsAll {left rest : List β} {pieces : List (List β)} {as : List α}
    (hleft : d.scan left = .more) (h : Reads d (left ++ pieces.flatten) as rest) :
    ReadsAll d left pieces as rest := by
  induction pieces generalizing left as with
  | nil =>
    rw [List.flatten_nil, List.append_nil] at h
    obtain ⟨rfl, rfl⟩ := h.unique (.wait hleft)
    exact .nil
  | cons piece pieces ih =>
    rw [List.flatten_cons, ← List.append_assoc] at h
    obtain ⟨as₁, as₂, mid, h₁, h₂, rfl⟩ := h.split
    exact .cons h₁ (ih h₁.waits h₂)

/-- The encodings of messages, joined and cut in any pieces, are read back as the messages. -/
theorem readsAll_of_encodes {encs pieces : List (List β)} {as : List α}
    (h : List.Forall₂ d.Encodes encs as) (hpieces : pieces.flatten = encs.flatten) :
    ReadsAll d [] pieces as [] := by
  apply Reads.readsAll d.scan_nil
  rw [List.nil_append, hpieces]
  exact .of_encodes h

end Scanner
