import Mathlib.Data.List.Flatten

/-!
# Streams cut at a delimiter

A stream of items is cut after each of its delimiters. What follows the last one is left over, and
is put before what comes next. So the pieces do not depend on how the stream arrives.
-/

namespace Delimited

variable {β : Type*} (stop : β → Bool)

/-- The pieces of a stream, each with its delimiter, and what is left over; `acc` is what is left
over from before. -/
def pieces : List β → List β → List (List β) × List β
  | acc, [] => ([], acc)
  | acc, b :: bs =>
    if stop b then ((acc ++ [b]) :: (pieces [] bs).1, (pieces [] bs).2)
    else pieces (acc ++ [b]) bs

variable {stop} {acc bs cs : List β}

@[simp] theorem pieces_nil : pieces stop acc [] = ([], acc) := rfl

theorem pieces_stop {b : β} (hb : stop b = true) :
    pieces stop acc (b :: bs) = ((acc ++ [b]) :: (pieces stop [] bs).1, (pieces stop [] bs).2) :=
  if_pos hb

theorem pieces_other {b : β} (hb : stop b = false) :
    pieces stop acc (b :: bs) = pieces stop (acc ++ [b]) bs := by
  rw [pieces, hb]
  rfl

theorem pieces_append (acc bs cs : List β) :
    pieces stop acc (bs ++ cs) =
      ((pieces stop acc bs).1 ++ (pieces stop (pieces stop acc bs).2 cs).1,
        (pieces stop (pieces stop acc bs).2 cs).2) := by
  induction bs generalizing acc with
  | nil => rfl
  | cons b bs ih =>
    rw [List.cons_append]
    cases hb : stop b with
    | true => rw [pieces_stop hb, pieces_stop hb, ih, List.cons_append]
    | false => rw [pieces_other hb, pieces_other hb, ih]

/-- Items may be looked at through a function. -/
theorem pieces_map {γ : Type*} (f : γ → β) (acc bs : List γ) :
    pieces stop (acc.map f) (bs.map f) =
      ((pieces (fun c => stop (f c)) acc bs).1.map (List.map f),
        (pieces (fun c => stop (f c)) acc bs).2.map f) := by
  induction bs generalizing acc with
  | nil => rfl
  | cons b bs ih =>
    rw [List.map_cons]
    cases hb : stop (f b) with
    | true =>
      have hrest := ih []
      rw [List.map_nil] at hrest
      rw [pieces_stop hb, hrest, pieces_stop (by exact hb)]
      simp
    | false =>
      have hrest := ih (acc ++ [b])
      rw [List.map_append] at hrest
      rw [pieces_other hb, pieces_other (by exact hb)]
      exact hrest

/-- Without a delimiter all is left over. -/
theorem pieces_of_none (h : ∀ b ∈ bs, stop b = false) : pieces stop acc bs = ([], acc ++ bs) := by
  induction bs generalizing acc with
  | nil => rw [pieces_nil, List.append_nil]
  | cons b bs ih =>
    rw [pieces_other (h b List.mem_cons_self), ih fun c hc => h c (List.mem_cons_of_mem b hc)]
    rw [List.append_assoc, List.singleton_append]

/-- What is left over from before may as well arrive first. -/
theorem pieces_left (h : ∀ b ∈ acc, stop b = false) :
    pieces stop acc bs = pieces stop [] (acc ++ bs) := by
  rw [pieces_append, pieces_of_none h, List.nil_append, List.nil_append]

/-- A message, its delimiter, and the rest. -/
theorem pieces_message {b : β} (h : ∀ c ∈ bs, stop c = false) (hb : stop b = true) :
    pieces stop [] (bs ++ b :: cs) =
      ((bs ++ [b]) :: (pieces stop [] cs).1, (pieces stop [] cs).2) := by
  rw [pieces_append, pieces_of_none h, List.nil_append, pieces_stop hb]
  rfl

/-- Every item is in one piece, in order, or is left over. -/
theorem flatten_pieces : (pieces stop acc bs).1.flatten ++ (pieces stop acc bs).2 = acc ++ bs := by
  induction bs generalizing acc with
  | nil => exact (List.append_nil acc).symm
  | cons b bs ih =>
    cases hb : stop b with
    | true => rw [pieces_stop hb, List.flatten_cons, List.append_assoc, ih, List.append_assoc,
        List.singleton_append, List.nil_append]
    | false => rw [pieces_other hb, ih, List.append_assoc, List.singleton_append]

/-- No delimiter is left over. -/
theorem rest_clear (h : ∀ b ∈ acc, stop b = false) :
    ∀ b ∈ (pieces stop acc bs).2, stop b = false := by
  induction bs generalizing acc with
  | nil => exact h
  | cons b bs ih =>
    cases hb : stop b with
    | true =>
      rw [pieces_stop hb]
      exact ih (List.forall_mem_nil _)
    | false =>
      rw [pieces_other hb]
      apply ih
      intro c hc
      rcases List.mem_append.mp hc with hc | hc
      · exact h c hc
      · rw [List.mem_singleton.mp hc, hb]

/-- A piece ends with its only delimiter. -/
theorem piece_ends (h : ∀ b ∈ acc, stop b = false) {piece : List β}
    (hpiece : piece ∈ (pieces stop acc bs).1) :
    ∃ body b, piece = body ++ [b] ∧ stop b = true ∧ ∀ c ∈ body, stop c = false := by
  induction bs generalizing acc with
  | nil => cases hpiece
  | cons b bs ih =>
    cases hb : stop b with
    | true =>
      rw [pieces_stop hb] at hpiece
      rcases List.mem_cons.mp hpiece with rfl | hpiece
      · exact ⟨acc, b, rfl, hb, h⟩
      · exact ih (List.forall_mem_nil _) hpiece
    | false =>
      rw [pieces_other hb] at hpiece
      apply ih ?_ hpiece
      intro c hc
      rcases List.mem_append.mp hc with hc | hc
      · exact h c hc
      · rw [List.mem_singleton.mp hc, hb]

/-- Joined messages, each with its delimiter, are cut into the messages. -/
theorem pieces_wire {b : β} (hb : stop b = true) {messages : List (List β)}
    (h : ∀ m ∈ messages, ∀ c ∈ m, stop c = false) :
    pieces stop [] (messages.flatMap (· ++ [b])) = (messages.map (· ++ [b]), []) := by
  induction messages with
  | nil => rfl
  | cons m messages ih =>
    have hrest := ih fun m' hm' => h m' (List.mem_cons_of_mem m hm')
    rw [List.flatMap_cons, List.append_assoc, List.singleton_append,
      pieces_message (h m List.mem_cons_self) hb, hrest]
    rfl

/-- What is left over when a part of joined messages has arrived is a part of one of them. -/
theorem rest_prefix {b : β} (hb : stop b = true) {messages : List (List β)}
    (h : ∀ m ∈ messages, ∀ c ∈ m, stop c = false)
    (hwire : bs ++ cs = messages.flatMap (· ++ [b])) :
    (pieces stop [] bs).2 = [] ∨ ∃ m ∈ messages, (pieces stop [] bs).2 <+: m := by
  induction messages generalizing bs with
  | nil =>
    left
    obtain ⟨rfl, -⟩ := List.append_eq_nil_iff.mp hwire
    rfl
  | cons m messages ih =>
    have hclear := h m List.mem_cons_self
    rw [List.flatMap_cons, List.append_assoc, List.singleton_append] at hwire
    rcases List.append_eq_append_iff.mp hwire with ⟨left, hm, -⟩ | ⟨later, hbs, hcs⟩
    · -- the first message has not arrived whole
      right
      refine ⟨m, List.mem_cons_self, ?_⟩
      have hnone : ∀ c ∈ bs, stop c = false := by
        intro c hc
        apply hclear
        rw [hm]
        exact List.mem_append_left _ hc
      rw [pieces_of_none hnone, List.nil_append]
      exact ⟨left, hm.symm⟩
    · cases later with
      | nil =>
        right
        refine ⟨m, List.mem_cons_self, ?_⟩
        rw [hbs, List.append_nil, pieces_of_none hclear]
        exact List.prefix_rfl
      | cons c later =>
        obtain ⟨rfl, hlater⟩ := List.cons_eq_cons.mp hcs
        rw [hbs, pieces_message hclear hb]
        have hrest := ih (fun m' hm' => h m' (List.mem_cons_of_mem m hm')) hlater.symm
        exact hrest.imp_right fun ⟨m', hm', hpre⟩ => ⟨m', List.mem_cons_of_mem m hm', hpre⟩

/-- A part of joined messages is cut into the first of them, and what is left over is where the
others go on. -/
theorem pieces_of_wire {b : β} (hb : stop b = true) {messages : List (List β)}
    (h : ∀ m ∈ messages, ∀ c ∈ m, stop c = false) (hacc : ∀ c ∈ acc, stop c = false)
    (hwire : acc ++ bs ++ cs = messages.flatMap (· ++ [b])) :
    (pieces stop acc bs).1 =
        (messages.take (pieces stop acc bs).1.length).map (· ++ [b]) ∧
      (pieces stop acc bs).2 ++ cs =
        (messages.drop (pieces stop acc bs).1.length).flatMap (· ++ [b]) := by
  have hall := pieces_wire hb h
  rw [← hwire, pieces_append, ← pieces_left hacc, Prod.mk.injEq] at hall
  obtain ⟨hpieces, hrest⟩ := hall
  have hflat := @flatten_pieces _ stop (pieces stop acc bs).2 cs
  rw [hrest, List.append_nil] at hflat
  constructor
  · rw [List.map_take, ← hpieces, List.take_left]
  · rw [← hflat, List.flatMap_def, List.map_drop, ← hpieces, List.drop_left]

end Delimited
