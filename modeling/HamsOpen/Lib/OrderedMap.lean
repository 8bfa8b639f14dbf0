import Mathlib

/-!
# Maps as lists in the order of their keys

An entry is put where its key belongs, and takes the place of an entry that is there. So a list of
entries in order is the map that is made of it, one entry after the other.
-/

/-- Entries in the order of their keys. -/
structure OrderedMap (κ α : Type) [LinearOrder κ] where
  entries : List (κ × α)
  sorted : entries.Pairwise fun e e' => e.1 < e'.1

namespace OrderedMap

variable {κ α β : Type} [LinearOrder κ] {k k' : κ} {a : α} {l : List (κ × α)}

/-- Puts an entry in, in the place of an entry of that key. -/
def insert (k : κ) (a : α) : List (κ × α) → List (κ × α)
  | [] => [(k, a)]
  | e :: es =>
    if k < e.1 then (k, a) :: e :: es
    else if k = e.1 then (k, a) :: es
    else e :: insert k a es

theorem insert_cons (k : κ) (a : α) (e : κ × α) (es : List (κ × α)) :
    insert k a (e :: es) =
      if k < e.1 then (k, a) :: e :: es
      else if k = e.1 then (k, a) :: es
      else e :: insert k a es := rfl

/-- The entries in order, of which the last of a key counts. -/
def ofList (l : List (κ × α)) : List (κ × α) := l.foldl (fun m e => insert e.1 e.2 m) []

theorem mem_insert {e : κ × α} (h : e ∈ insert k a l) : e = (k, a) ∨ e ∈ l := by
  induction l with
  | nil => exact .inl (List.mem_singleton.mp h)
  | cons d l ih =>
    rw [insert_cons] at h
    split at h
    · exact List.mem_cons.mp h
    split at h
    · exact (List.mem_cons.mp h).imp_right fun h => .tail _ h
    · rcases List.mem_cons.mp h with rfl | h
      · exact .inr (.head _)
      · exact (ih h).imp_right fun h => .tail _ h

theorem mem_insert_self : (k, a) ∈ insert k a l := by
  induction l with
  | nil => exact .head _
  | cons d l ih =>
    rw [insert_cons]
    split
    · exact .head _
    split
    · exact .head _
    · exact .tail _ ih

theorem mem_insert_of_ne {e : κ × α} (he : e ∈ l) (h : e.1 ≠ k) : e ∈ insert k a l := by
  induction l with
  | nil => cases he
  | cons d l ih =>
    rw [insert_cons]
    split
    · exact .tail _ he
    split
    next heq =>
      rcases List.mem_cons.mp he with rfl | he
      · exact absurd heq.symm h
      · exact .tail _ he
    · rcases List.mem_cons.mp he with rfl | he
      · exact .head _
      · exact .tail _ (ih he)

theorem sorted_insert (h : l.Pairwise fun e e' => e.1 < e'.1) :
    (insert k a l).Pairwise fun e e' => e.1 < e'.1 := by
  induction l with
  | nil => exact List.pairwise_singleton _ _
  | cons d l ih =>
    obtain ⟨hd, hl⟩ := List.pairwise_cons.mp h
    rw [insert_cons]
    split
    next hlt =>
      refine List.pairwise_cons.mpr ⟨fun e he => ?_, h⟩
      rcases List.mem_cons.mp he with rfl | he
      · exact hlt
      · exact hlt.trans (hd e he)
    next hle =>
    split
    next heq =>
      refine List.pairwise_cons.mpr ⟨fun e he => ?_, hl⟩
      rw [heq]
      exact hd e he
    next hne =>
      refine List.pairwise_cons.mpr ⟨fun e he => ?_, ih hl⟩
      rcases mem_insert he with rfl | he
      · exact lt_of_le_of_ne (not_lt.mp hle) (Ne.symm hne)
      · exact hd e he

theorem lookup_insert_self : (insert k a l).lookup k = some a := by
  induction l with
  | nil => simp [insert]
  | cons d l ih =>
    rw [insert_cons]
    split
    · simp
    split
    · simp
    next hne => rw [List.lookup_cons, beq_false_of_ne hne, ih]

theorem lookup_insert_ne (h : k' ≠ k) : (insert k a l).lookup k' = l.lookup k' := by
  induction l with
  | nil => simp [insert, h]
  | cons d l ih =>
    rw [insert_cons]
    split
    · rw [List.lookup_cons, beq_false_of_ne h]
    split
    next heq => rw [List.lookup_cons, beq_false_of_ne h, List.lookup_cons, beq_false_of_ne (heq ▸ h)]
    next => rw [List.lookup_cons, List.lookup_cons, ih]

/-- An entry of a key above all others comes last. -/
theorem insert_of_gt (h : ∀ e ∈ l, e.1 < k) : insert k a l = l ++ [(k, a)] := by
  induction l with
  | nil => rfl
  | cons d l ih =>
    have hd : d.1 < k := h d (.head _)
    rw [insert_cons, if_neg hd.asymm, if_neg hd.ne', ih fun e he => h e (.tail _ he)]
    rfl

theorem map_insert (f : α → β) : (insert k a l).map (fun e => (e.1, f e.2)) =
    insert k (f a) (l.map fun e => (e.1, f e.2)) := by
  induction l with
  | nil => rfl
  | cons d l ih =>
    simp only [insert, List.map_cons]
    split
    · rfl
    split
    · rfl
    · rw [List.map_cons, ih]

/-- Other keys do not change what is looked up. -/
theorem lookup_filter_ne (h : k ≠ k') :
    (l.filter fun e => e.1 != k').lookup k = l.lookup k := by
  induction l with
  | nil => rfl
  | cons e l ih =>
    by_cases he : e.1 = k'
    · rw [List.filter_cons_of_neg (by simp [he]), ih, List.lookup_cons, beq_false_of_ne (he ▸ h)]
    · rw [List.filter_cons_of_pos (by simp [he]), List.lookup_cons, List.lookup_cons, ih]

/-! ### Maps of lists -/

section OfList

theorem ofList_concat (l : List (κ × α)) (e : κ × α) :
    ofList (l ++ [e]) = insert e.1 e.2 (ofList l) := by
  rw [ofList, List.foldl_append]
  rfl

theorem mem_ofList {e : κ × α} (h : e ∈ ofList l) : e ∈ l := by
  induction l using List.reverseRecOn with
  | nil => cases h
  | append_singleton l d ih =>
    rw [ofList_concat] at h
    rcases mem_insert h with rfl | h
    · exact List.mem_append_right _ (.head _)
    · exact List.mem_append_left _ (ih h)

/-- When no key comes twice, all entries are in the map. -/
theorem mem_ofList_iff (h : (l.map (·.1)).Nodup) {e : κ × α} : e ∈ ofList l ↔ e ∈ l := by
  refine ⟨mem_ofList, fun he => ?_⟩
  induction l using List.reverseRecOn with
  | nil => cases he
  | append_singleton l d ih =>
    rw [List.map_append, List.nodup_append] at h
    obtain ⟨hl, -, hdisjoint⟩ := h
    rw [ofList_concat]
    rcases List.mem_append.mp he with he | he
    · exact mem_insert_of_ne (ih hl he)
        (hdisjoint e.1 (List.mem_map_of_mem he) d.1 (.head _))
    · obtain rfl := List.mem_singleton.mp he
      exact mem_insert_self

theorem sorted_ofList (l : List (κ × α)) : (ofList l).Pairwise fun e e' => e.1 < e'.1 := by
  induction l using List.reverseRecOn with
  | nil => exact .nil
  | append_singleton l d ih =>
    rw [ofList_concat]
    exact sorted_insert ih

/-- When no key comes twice, what is looked up is what the list says. -/
theorem lookup_ofList (h : (l.map (·.1)).Nodup) (k : κ) : (ofList l).lookup k = l.lookup k := by
  induction l using List.reverseRecOn with
  | nil => rfl
  | append_singleton l d ih =>
    rw [List.map_append, List.nodup_append] at h
    obtain ⟨hl, -, hdisjoint⟩ := h
    rw [ofList_concat, List.lookup_append]
    by_cases hk : k = d.1
    · rw [hk, lookup_insert_self]
      have hnone : l.lookup d.1 = none := by
        rw [List.lookup_eq_none_iff]
        intro e he
        simpa using (hdisjoint e.1 (List.mem_map_of_mem he) d.1 (.head _)).symm
      rw [hnone]
      exact List.lookup_cons_self.symm
    · rw [lookup_insert_ne hk, ih hl, List.lookup_cons, beq_false_of_ne hk]
      exact Option.or_none.symm

/-- The keys are those of the list. -/
theorem mem_keys_ofList : k ∈ (ofList l).map (·.1) ↔ k ∈ l.map (·.1) := by
  constructor
  · intro h
    obtain ⟨e, he, rfl⟩ := List.mem_map.mp h
    exact List.mem_map_of_mem (mem_ofList he)
  · intro h
    induction l using List.reverseRecOn with
    | nil => cases h
    | append_singleton l d ih =>
      rw [ofList_concat]
      by_cases hk : k = d.1
      · rw [hk]
        exact List.mem_map_of_mem mem_insert_self
      · rw [List.map_append] at h
        have hl : k ∈ l.map (·.1) :=
          (List.mem_append.mp h).resolve_right fun h => hk (List.mem_singleton.mp h)
        obtain ⟨e, he, rfl⟩ := List.mem_map.mp (ih hl)
        exact List.mem_map_of_mem (mem_insert_of_ne he hk)

/-- What is looked up is what the list says last. -/
theorem lookup_ofList_reverse (l : List (κ × α)) (k : κ) :
    (ofList l).lookup k = l.reverse.lookup k := by
  induction l using List.reverseRecOn with
  | nil => rfl
  | append_singleton l d ih =>
    rw [ofList_concat, List.reverse_concat, List.lookup_cons]
    by_cases hk : k = d.1
    · rw [hk, lookup_insert_self, beq_self_eq_true]
    · rw [lookup_insert_ne hk, ih, beq_false_of_ne hk]

/-- Entries in order are their own map. -/
theorem ofList_eq_self (h : l.Pairwise fun e e' => e.1 < e'.1) : ofList l = l := by
  induction l using List.reverseRecOn with
  | nil => rfl
  | append_singleton l d ih =>
    obtain ⟨hl, -, hbefore⟩ := List.pairwise_append.mp h
    rw [ofList_concat, ih hl, insert_of_gt fun e he => hbefore e he d (.head _)]

theorem map_ofList (f : α → β) (l : List (κ × α)) : (ofList l).map (fun e => (e.1, f e.2)) =
    ofList (l.map fun e => (e.1, f e.2)) := by
  induction l using List.reverseRecOn with
  | nil => rfl
  | append_singleton l d ih =>
    rw [ofList_concat, map_insert, ih, List.map_append]
    exact (ofList_concat (l.map fun e => (e.1, f e.2)) (d.1, f d.2)).symm

end OfList

@[ext]
theorem ext {m m' : OrderedMap κ α} (h : m.entries = m'.entries) : m = m' := by
  cases m
  cases m'
  cases h
  rfl

/-- The map of entries in any order, of which the last of a key counts. -/
def make (l : List (κ × α)) : OrderedMap κ α := ⟨ofList l, sorted_ofList l⟩

/-- The map with one more entry, or another value for a key. -/
def put (k : κ) (a : α) (m : OrderedMap κ α) : OrderedMap κ α :=
  ⟨insert k a m.entries, sorted_insert m.sorted⟩

/-- The map with other values. -/
def map (f : α → β) (m : OrderedMap κ α) : OrderedMap κ β where
  entries := m.entries.map fun e => (e.1, f e.2)
  sorted := List.pairwise_map.mpr m.sorted

theorem make_entries (m : OrderedMap κ α) : make m.entries = m := ext (ofList_eq_self m.sorted)

instance [DecidableEq α] : DecidableEq (OrderedMap κ α) := fun m m' =>
  decidable_of_iff (m.entries = m'.entries) ⟨ext, fun h => h ▸ rfl⟩

end OrderedMap
