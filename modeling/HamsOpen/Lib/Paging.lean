import Mathlib.Data.List.Basic
import Mathlib.Data.Nat.Init

/-!
# Reading a list page by page

The entries of a list have keys, and a reader names the key that it has read up to. It gets the
entries with larger keys, as many as fit a page, but one at least, and the key to go on from. So it
gets every entry once, whatever the size of a page, if the keys grow along the list. If they do not,
a page of one entry leads past those behind it.
-/

namespace Paging

variable {α : Type}

/-- A page: its entries, the key to go on from, and whether more is left. -/
structure Page (α : Type) where
  entries : List α
  cursor : ℕ
  more : Bool

variable (key size : α → ℕ)

/-- Fills a page with the entries after the cursor. -/
def fill (max cursor : ℕ) : ℕ → ℕ → List α → List α → Page α
  | _, last, out, [] => ⟨out, last, false⟩
  | used, last, out, a :: l =>
    if key a ≤ cursor then fill max cursor used last out l
    else if max < used + size a ∧ out ≠ [] then ⟨out, last, true⟩
    else fill max cursor (used + size a) (key a) (out ++ [a]) l

/-- The page after a cursor. -/
def page (max : ℕ) (l : List α) (cursor : ℕ) : Page α := fill key size max cursor 0 cursor [] l

/-- What is read from a cursor on, page by page. -/
inductive Reads (max : ℕ) (l : List α) : ℕ → List α → Prop
  | last {cursor : ℕ} (h : (page key size max l cursor).more = false) :
      Reads max l cursor (page key size max l cursor).entries
  | more {cursor : ℕ} {rest : List α} (h : (page key size max l cursor).more = true) :
      Reads max l (page key size max l cursor).cursor rest →
      Reads max l cursor ((page key size max l cursor).entries ++ rest)

variable {key size} {max cursor : ℕ}

/-- What was read already is passed over. -/
theorem fill_append {pre : List α} (h : ∀ a ∈ pre, key a ≤ cursor) (used last : ℕ)
    (out post : List α) : fill key size max cursor used last out (pre ++ post) =
      fill key size max cursor used last out post := by
  induction pre with
  | nil => rfl
  | cons a pre ih =>
    rw [List.cons_append, fill, if_pos (h a List.mem_cons_self)]
    exact ih fun b hb => h b (List.mem_cons_of_mem a hb)

/-- The page that is filled from entries after the cursor: those of them that come first, and the
key of the last. -/
theorem fill_split {post : List α} (h : ∀ a ∈ post, cursor < key a) (used last : ℕ)
    (out : List α) : ∃ taken left, post = taken ++ left ∧
      fill key size max cursor used last out post =
        ⟨out ++ taken, (taken.getLast?.map key).getD last, !left.isEmpty⟩ ∧
      (out = [] → post ≠ [] → taken ≠ []) := by
  induction post generalizing used last out with
  | nil =>
    refine ⟨[], [], rfl, ?_, fun _ hne => hne⟩
    rw [fill, List.append_nil]
    rfl
  | cons a post ih =>
    have hnot : ¬ key a ≤ cursor := Nat.not_le.mpr (h a List.mem_cons_self)
    rw [fill, if_neg hnot]
    by_cases hfull : max < used + size a ∧ out ≠ []
    · rw [if_pos hfull]
      refine ⟨[], a :: post, rfl, ?_, fun hout => absurd hout hfull.2⟩
      rw [List.append_nil]
      rfl
    · rw [if_neg hfull]
      obtain ⟨taken, left, rfl, hfill, -⟩ :=
        ih (fun b hb => h b (List.mem_cons_of_mem a hb)) (used + size a) (key a) (out ++ [a])
      refine ⟨a :: taken, left, rfl, ?_, fun _ _ => List.cons_ne_nil a taken⟩
      rw [hfill, List.append_assoc, List.singleton_append]
      cases taken with
      | nil => rfl
      | cons b taken => rw [List.getLast?_cons_cons, List.getLast?_eq_some_getLast (by simp)]; rfl

theorem key_le_getLast {l : List α} (hne : l ≠ []) (h : l.Pairwise fun a b => key a < key b)
    {a : α} (ha : a ∈ l) : key a ≤ key (l.getLast hne) := by
  rw [← List.dropLast_append_getLast hne] at ha h
  rcases List.mem_append.mp ha with ha | ha
  · have hlt := (List.pairwise_append.mp h).2.2 a ha _ (List.mem_singleton.mpr rfl)
    exact Nat.le_of_lt hlt
  · exact Nat.le_of_eq (congrArg key (List.mem_singleton.mp ha))

/-- What stands after the cursor is read, if the keys grow along the list. -/
theorem reads_of_sorted {l pre post : List α} (hl : l = pre ++ post)
    (hpre : ∀ a ∈ pre, key a ≤ cursor) (hpost : ∀ a ∈ post, cursor < key a)
    (hsorted : post.Pairwise fun a b => key a < key b) : Reads key size max l cursor post := by
  induction hn : post.length using Nat.strong_induction_on generalizing pre post cursor with
  | _ n ih =>
    obtain ⟨taken, left, rfl, hfill, htaken⟩ : ∃ taken left, post = taken ++ left ∧
        fill key size max cursor 0 cursor [] post =
          ⟨[] ++ taken, (taken.getLast?.map key).getD cursor, !left.isEmpty⟩ ∧
        ([] = [] → post ≠ [] → taken ≠ []) := fill_split hpost 0 cursor []
    have hpage : page key size max l cursor =
        ⟨taken, (taken.getLast?.map key).getD cursor, !left.isEmpty⟩ := by
      rw [page, hl, fill_append hpre, hfill, List.nil_append]
    cases left with
    | nil =>
      have hreads : (page key size max l cursor).more = false →
          Reads key size max l cursor (page key size max l cursor).entries := Reads.last
      rw [hpage] at hreads
      rw [List.append_nil]
      exact hreads rfl
    | cons b left =>
      have hne : taken ≠ [] := htaken rfl (by simp)
      have hlast : (taken.getLast?.map key).getD cursor = key (taken.getLast hne) := by
        rw [List.getLast?_eq_some_getLast hne]
        rfl
      obtain ⟨hsortedTaken, hsortedLeft, hacross⟩ := List.pairwise_append.mp hsorted
      have hmore : (page key size max l cursor).more = true →
          Reads key size max l (page key size max l cursor).cursor (b :: left) →
          Reads key size max l cursor ((page key size max l cursor).entries ++ b :: left) :=
        Reads.more
      rw [hpage, hlast] at hmore
      refine hmore rfl ?_
      -- the entries up to the last of this page are behind the reader now
      have hrest : l = (pre ++ taken) ++ b :: left := by rw [hl, List.append_assoc]
      refine ih (b :: left).length ?_ hrest ?_ ?_ hsortedLeft rfl
      · have hpos := List.length_pos_of_ne_nil hne
        rw [← hn, List.length_append]
        omega
      · intro a ha
        rcases List.mem_append.mp ha with ha | ha
        · have hnew := hpost _ (List.mem_append_left _ (List.getLast_mem hne))
          exact Nat.le_of_lt (Nat.lt_of_le_of_lt (hpre a ha) hnew)
        · exact key_le_getLast hne hsortedTaken ha
      · intro a ha
        exact hacross _ (List.getLast_mem hne) a ha

/-- A page that has an entry of some size takes no more, if one byte is all that fits. -/
theorem fill_one {a : α} (ha : 0 < size a) {l : List α} (hsize : ∀ b ∈ l, 0 < size b) :
    (fill key size 1 cursor (size a) (key a) [a] l).entries = [a] ∧
      (fill key size 1 cursor (size a) (key a) [a] l).cursor = key a := by
  induction l with
  | nil => exact ⟨rfl, rfl⟩
  | cons b l ih =>
    rw [fill]
    split
    · exact ih fun c hc => hsize c (List.mem_cons_of_mem b hc)
    · have hfull : 1 < size a + size b ∧ [a] ≠ [] := by
        have hb := hsize b List.mem_cons_self
        exact ⟨by omega, by simp⟩
      rw [if_pos hfull]
      exact ⟨rfl, rfl⟩

/-- The page for one byte is empty and the last one, or it has one entry and its key. -/
def Short (key size : α → ℕ) (l : List α) (cursor : ℕ) : Prop :=
  (page key size 1 l cursor).entries = [] ∧ (page key size 1 l cursor).more = false ∨
  ∃ a, cursor < key a ∧ (page key size 1 l cursor).entries = [a] ∧
    (page key size 1 l cursor).cursor = key a

/-- A page for one byte has one entry at most. -/
theorem page_one {l : List α} (hsize : ∀ a ∈ l, 0 < size a) : Short key size l cursor := by
  unfold Short page
  induction l with
  | nil => exact .inl ⟨rfl, rfl⟩
  | cons a l ih =>
    rw [fill]
    split
    · exact ih fun b hb => hsize b (List.mem_cons_of_mem a hb)
    next hnot =>
      rw [if_neg (by simp), Nat.zero_add, List.nil_append]
      refine .inr ⟨a, Nat.lt_of_not_le hnot, fill_one (hsize a List.mem_cons_self) ?_⟩
      exact fun b hb => hsize b (List.mem_cons_of_mem a hb)

/-- What is read entry by entry has growing keys. -/
theorem sorted_of_reads {l out : List α} (hsize : ∀ a ∈ l, 0 < size a)
    (h : Reads key size 1 l cursor out) :
    (∀ a ∈ out, cursor < key a) ∧ out.Pairwise fun a b => key a < key b := by
  induction h with
  | @last cursor hmore =>
    have hpage : Short key size l cursor := page_one hsize
    rcases hpage with ⟨hnil, -⟩ | ⟨a, ha, hone, -⟩
    · rw [hnil]
      exact ⟨nofun, .nil⟩
    · rw [hone]
      exact ⟨fun b hb => List.mem_singleton.mp hb ▸ ha, List.pairwise_singleton _ _⟩
  | @more cursor rest hmore _ ih =>
    have hpage : Short key size l cursor := page_one hsize
    rcases hpage with ⟨-, hnot⟩ | ⟨a, ha, hone, hkey⟩
    · rw [hmore] at hnot
      cases hnot
    · rw [hkey] at ih
      rw [hone, List.singleton_append]
      refine ⟨?_, List.pairwise_cons.mpr ⟨ih.1, ih.2⟩⟩
      intro b hb
      rcases List.mem_cons.mp hb with rfl | hb
      · exact ha
      · exact Nat.lt_trans ha (ih.1 b hb)

end Paging
