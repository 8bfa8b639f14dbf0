import HamsOpen.Lib.Json
import HamsOpen.Lib.OrderedMap
import Mathlib.Data.String.Basic

/-!
# JSON values with ordered objects

A text is turned into a value whose objects are maps: their members are in the order of their keys,
and of members of one key the last counts. The numbers of the text are read as well, and when one
cannot be, the text has no value. A value that was made so is found again in what it prints.
-/

namespace Json

variable {ν μ α : Type}

/-- An object of members in any order, of which the last of a key counts. -/
def object (members : List (String × Json ν)) : Json ν := obj (OrderedMap.ofList members)

/-- All numbers of the value meet a condition. -/
def All (p : ν → Prop) : Json ν → Prop :=
  fold ⟨True, fun _ => True, p, fun _ => True, fun ps => ∀ q ∈ ps, q, fun ps => ∀ q ∈ ps, q.2⟩

/-- All objects of the value are in the order of their keys. -/
def Ordered : Json ν → Prop :=
  fold ⟨True, fun _ => True, fun _ => True, fun _ => True, fun ps => ∀ q ∈ ps, q,
    fun ps => (ps.map (·.1)).Pairwise (· < ·) ∧ ∀ q ∈ ps, q.2⟩

/-- Reads all that stand in a list, if all of them can be read. -/
def every : List (Option α) → Option (List α)
  | [] => some []
  | none :: _ => none
  | some a :: rest => (every rest).map (a :: ·)

/-- The members whose values were read, if all of them were. -/
def everyMember : List (String × Option α) → Option (List (String × α))
  | [] => some []
  | (_, none) :: _ => none
  | (k, some a) :: rest => (everyMember rest).map ((k, a) :: ·)

/-- The value of a text, with what reads a number. -/
def order (read : ν → Option μ) : Json ν → Option (Json μ) :=
  fold ⟨some null, fun b => some (bool b), fun n => (read n).map num, fun s => some (str s),
    fun ps => (every ps).map arr, fun ps => (everyMember ps).map object⟩

section All

variable {p q : ν → Prop}

@[simp] theorem all_null : (null : Json ν).All p := trivial

@[simp] theorem all_bool (b : Bool) : (bool b : Json ν).All p := trivial

@[simp] theorem all_num (n : ν) : (num n).All p ↔ p n := Iff.rfl

@[simp] theorem all_str (s : String) : (str s : Json ν).All p := trivial

@[simp] theorem all_arr (items : List (Json ν)) : (arr items).All p ↔ ∀ v ∈ items, v.All p := by
  unfold All
  rw [fold_arr]
  exact List.forall_mem_map

@[simp] theorem all_obj (members : List (String × Json ν)) :
    (obj members).All p ↔ ∀ m ∈ members, m.2.All p := by
  unfold All
  rw [fold_obj]
  exact List.forall_mem_map

/-- The numbers of an object whose keys are named once are those of its members. -/
theorem all_object {members : List (String × Json ν)} (names : List String)
    (hnames : members.map (·.1) = names) (h : names.Nodup) :
    (object members).All p ↔ ∀ m ∈ members, m.2.All p := by
  refine (all_obj _).trans (forall_congr' fun m => ?_)
  rw [OrderedMap.mem_ofList_iff (hnames ▸ h)]

@[simp] theorem ordered_null : (null : Json ν).Ordered := trivial

@[simp] theorem ordered_bool (b : Bool) : (bool b : Json ν).Ordered := trivial

@[simp] theorem ordered_num (n : ν) : (num n).Ordered := trivial

@[simp] theorem ordered_str (s : String) : (str s : Json ν).Ordered := trivial

@[simp] theorem ordered_arr (items : List (Json ν)) :
    (arr items).Ordered ↔ ∀ v ∈ items, v.Ordered := by
  unfold Ordered
  rw [fold_arr]
  exact List.forall_mem_map

theorem ordered_obj (members : List (String × Json ν)) : (obj members).Ordered ↔
    (members.Pairwise fun m m' => m.1 < m'.1) ∧ ∀ m ∈ members, m.2.Ordered := by
  unfold Ordered
  rw [fold_obj]
  dsimp only
  rw [List.map_map, List.pairwise_map]
  exact and_congr Iff.rfl List.forall_mem_map

theorem ordered_object {members : List (String × Json ν)}
    (h : ∀ m ∈ members, m.2.Ordered) : (object members).Ordered :=
  (ordered_obj _).mpr
    ⟨OrderedMap.sorted_ofList members, fun m hm => h m (OrderedMap.mem_ofList hm)⟩

/-- The numbers of an object are those of its members. -/
@[simp] theorem map_object (f : ν → μ) (members : List (String × Json ν)) :
    (object members).map f = object (members.map fun m => (m.1, m.2.map f)) := by
  unfold object
  rw [map_obj, OrderedMap.map_ofList]

end All

section Order

variable {print : ν → μ} {read : μ → Option ν} {f : ν → ν}

@[simp] theorem order_arr (read : μ → Option ν) (items : List (Json μ)) :
    (arr items).order read = (every (items.map (order read))).map arr := by
  unfold order
  rw [fold_arr]

@[simp] theorem order_obj (read : μ → Option ν) (members : List (String × Json μ)) :
    (obj members).order read =
      (everyMember (members.map fun m => (m.1, m.2.order read))).map object := by
  unfold order
  rw [fold_obj]

theorem every_map {g : α → Option ν} {f : α → ν} {l : List α} (h : ∀ a ∈ l, g a = some (f a)) :
    every (l.map g) = some (l.map f) := by
  induction l with
  | nil => rfl
  | cons a l ih =>
    rw [List.map_cons, h a (.head _), every, ih fun a ha => h a (.tail _ ha)]
    rfl

theorem everyMember_map {g : α → Option ν} {f : α → ν} {l : List (String × α)}
    (h : ∀ m ∈ l, g m.2 = some (f m.2)) :
    everyMember (l.map fun m => (m.1, g m.2)) = some (l.map fun m => (m.1, f m.2)) := by
  induction l with
  | nil => rfl
  | cons m l ih =>
    rw [List.map_cons, h m (.head _), everyMember, ih fun m hm => h m (.tail _ hm)]
    rfl

theorem of_every {g : α → Option ν} {l : List α} {r : List ν} (h : every (l.map g) = some r) :
    ∀ a ∈ l, ∃ b, g a = some b := by
  induction l generalizing r with
  | nil => exact nofun
  | cons a l ih =>
    rw [List.map_cons] at h
    cases ha : g a with
    | none =>
      rw [ha] at h
      cases h
    | some b =>
      rw [ha, every] at h
      obtain ⟨r', hr', -⟩ := Option.map_eq_some_iff.mp h
      exact List.forall_mem_cons.mpr ⟨⟨b, ha⟩, ih hr'⟩

theorem of_everyMember {g : α → Option ν} {l : List (String × α)} {r : List (String × ν)}
    (h : everyMember (l.map fun m => (m.1, g m.2)) = some r) : ∀ m ∈ l, ∃ b, g m.2 = some b := by
  induction l generalizing r with
  | nil => exact nofun
  | cons m l ih =>
    rw [List.map_cons] at h
    cases hm : g m.2 with
    | none =>
      rw [hm] at h
      cases h
    | some b =>
      rw [hm, everyMember] at h
      obtain ⟨r', hr', -⟩ := Option.map_eq_some_iff.mp h
      exact List.forall_mem_cons.mpr ⟨⟨b, hm⟩, ih hr'⟩

/-- A value in order is found again in what it prints, with the numbers that are read. -/
theorem order_map {v : Json ν} (hordered : v.Ordered)
    (hread : v.All fun n => read (print n) = some (f n)) :
    (v.map print).order read = some (v.map f) := by
  induction v with
  | null => rfl
  | bool b => rfl
  | num n => exact congrArg (Option.map num) hread
  | str s => rfl
  | arr items ih =>
    rw [map_arr, order_arr, List.map_map, every_map (f := map f)]
    · rw [map_arr]
      rfl
    · exact fun v hv => ih v hv ((ordered_arr items).mp hordered v hv)
        ((all_arr items).mp hread v hv)
  | obj members ih =>
    obtain ⟨hsorted, hmembers⟩ := (ordered_obj members).mp hordered
    have hmember := everyMember_map (g := fun v : Json ν => (v.map print).order read) (f := map f)
      fun m hm => ih m hm (hmembers m hm) ((all_obj members).mp hread m hm)
    rw [map_obj, order_obj, List.map_map]
    refine (congrArg (Option.map object) hmember).trans ?_
    have hmap : (members.map fun m => (m.1, m.2.map f)).Pairwise fun m m' => m.1 < m'.1 :=
      List.pairwise_map.mpr hsorted
    rw [map_obj, Option.map_some, object, OrderedMap.ofList_eq_self hmap]

/-- What prints a text that has a value has numbers that can be read. -/
theorem all_of_order {v : Json ν} {w : Json ν} (h : (v.map print).order read = some w) :
    v.All fun n => ∃ n', read (print n) = some n' := by
  induction v generalizing w with
  | null => trivial
  | bool b => trivial
  | num n =>
    obtain ⟨n', hn', -⟩ := Option.map_eq_some_iff.mp h
    exact ⟨n', hn'⟩
  | str s => trivial
  | arr items ih =>
    rw [map_arr, order_arr, List.map_map] at h
    obtain ⟨r, hr, -⟩ := Option.map_eq_some_iff.mp h
    refine (all_arr items).mpr fun v hv => ?_
    obtain ⟨w', hw'⟩ := of_every hr v hv
    exact ih v hv hw'
  | obj members ih =>
    rw [map_obj, order_obj, List.map_map] at h
    obtain ⟨r, hr, -⟩ := Option.map_eq_some_iff.mp h
    refine (all_obj members).mpr fun m hm => ?_
    obtain ⟨w', hw'⟩ := of_everyMember (g := fun v : Json ν => (v.map print).order read) hr m hm
    exact ih m hm hw'

end Order

/-! ### Nesting -/

theorem foldr_max_le {l : List Nat} {d : Nat} (h : ∀ n ∈ l, n ≤ d) : l.foldr max 0 ≤ d := by
  induction l with
  | nil => exact Nat.zero_le d
  | cons n l ih =>
    exact Nat.max_le.mpr ⟨h n (.head _), ih fun n hn => h n (.tail _ hn)⟩

theorem depth_arr_le {items : List (Json ν)} {d : Nat} (h : ∀ v ∈ items, v.depth ≤ d) :
    (arr items).depth ≤ d + 1 := by
  rw [depth_arr]
  exact Nat.succ_le_succ (foldr_max_le (List.forall_mem_map.mpr h))

theorem depth_obj_le {members : List (String × Json ν)} {d : Nat}
    (h : ∀ m ∈ members, m.2.depth ≤ d) : (obj members).depth ≤ d + 1 := by
  rw [depth_obj]
  exact Nat.succ_le_succ (foldr_max_le (List.forall_mem_map.mpr h))

theorem depth_object_le {members : List (String × Json ν)} {d : Nat}
    (h : ∀ m ∈ members, m.2.depth ≤ d) : (object members).depth ≤ d + 1 :=
  depth_obj_le fun m hm => h m (OrderedMap.mem_ofList hm)

theorem span_lt_object (width : ν → Nat) {members : List (String × Json ν)} {m : String × Json ν}
    (names : List String) (h : m ∈ members) (hnames : members.map (·.1) = names)
    (hnodup : names.Nodup) (i : Nat) : span width m.2 (i + 1) < span width (object members) i :=
  span_lt_obj width ((OrderedMap.mem_ofList_iff (hnames ▸ hnodup)).mpr h) i

/-! ### Decoding -/

/-- The fields of a value, by name: the members of an object, or the items of an array in the order
of the names. -/
def fields (names : List String) : Json ν → Option (String → Option (Json ν))
  | obj members => some fun k => members.lookup k
  | arr items => if items.length ≤ names.length then some fun k => items[names.idxOf k]? else none
  | _ => none

/-- A field that has to be there. -/
def required (decode : Json ν → Option α) (field : Option (Json ν)) : Option α := field.bind decode

/-- A field that has a default. -/
def defaulted (a : α) (decode : Json ν → Option α) : Option (Json ν) → Option α
  | none => some a
  | some v => decode v

def asString : Json ν → Option String
  | str s => some s
  | _ => none

/-- Null, or a value. -/
def asOption (decode : Json ν → Option α) : Json ν → Option (Option α)
  | null => some none
  | v => (decode v).map some

def asList (decode : Json ν → Option α) : Json ν → Option (List α)
  | arr items => every (items.map decode)
  | _ => none

def asMap (decode : Json ν → Option α) : Json ν → Option (OrderedMap String α)
  | obj members => (everyMember (members.map fun m => (m.1, decode m.2))).map OrderedMap.make
  | _ => none

/-- One of several names, as a string or as the only key of an object. -/
def asVariant (table : List (String × α)) : Json ν → Option α
  | str s => table.lookup s
  | obj [(s, null)] => table.lookup s
  | _ => none

/-- Null for what is not there. -/
def ofOption (encode : α → Json ν) : Option α → Json ν
  | none => null
  | some a => encode a

/-- The fields of an object that was made of them. -/
theorem fields_object {members : List (String × Json ν)} {names : List String}
    (hnames : members.map (·.1) = names) (h : names.Nodup) :
    (object members).fields names = some fun k => members.lookup k := by
  refine congrArg some ?_
  funext k
  exact OrderedMap.lookup_ofList (hnames ▸ h) k

@[simp] theorem asString_str (s : String) : (str s : Json ν).asString = some s := rfl

theorem asOption_ofOption {encode : α → Json ν} {decode : Json ν → Option α} (o : Option α)
    (h : ∀ a, decode (encode a) = some a) (hnull : ∀ a, encode a ≠ null) :
    (ofOption encode o).asOption decode = some o := by
  cases o with
  | none => rfl
  | some a =>
    have hdecode : (encode a).asOption decode = (decode (encode a)).map some := by
      unfold asOption
      split
      next heq => exact absurd heq (hnull a)
      · rfl
    rw [ofOption, hdecode, h]
    rfl

theorem asList_arr {encode : α → Json ν} {decode : Json ν → Option α} (l : List α)
    (h : ∀ a, decode (encode a) = some a) : (arr (l.map encode)).asList decode = some l := by
  rw [asList, List.map_map]
  refine (every_map (f := id) fun a _ => h a).trans ?_
  rw [List.map_id]

theorem asMap_obj {encode : α → Json ν} {decode : Json ν → Option α} (m : OrderedMap String α)
    (h : ∀ e ∈ m.entries, decode (encode e.2) = some e.2) :
    (obj (m.entries.map fun e => (e.1, encode e.2))).asMap decode = some m := by
  rw [asMap, List.map_map]
  have hmembers := everyMember_map (g := fun a => decode (encode a)) (f := id) h
  refine (congrArg (Option.map OrderedMap.make) hmembers).trans ?_
  rw [Option.map_some]
  refine congrArg some ?_
  have hid : (m.entries.map fun e => (e.1, id e.2)) = m.entries := List.map_id m.entries
  rw [hid, OrderedMap.make_entries]

end Json
