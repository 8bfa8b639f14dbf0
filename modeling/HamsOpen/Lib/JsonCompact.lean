import HamsOpen.Lib.Json
import Mathlib

/-!
# JSON text on one line

A value is printed without any space, so that its text is a line of its own. What is printed is read
back as from the text that is spread over lines.
-/

namespace Json

variable {ν α β : Type}

/-- Entries with commas between them, up to the closing bracket. -/
def joined (closing : Char) : List (List Char) → List Char
  | [] => [closing]
  | e :: es => e ++ (es.flatMap (',' :: ·) ++ [closing])

/-- The text of a value on one line. -/
def compact (print : ν → List Char) : Json ν → List Char :=
  fold ⟨"null".toList, fun b => (toString b).toList, print, quote, fun ps => '[' :: joined ']' ps,
    fun ps => '{' :: joined '}' (ps.map fun p => quote p.1 ++ ':' :: p.2)⟩

theorem compact_arr (print : ν → List Char) (items : List (Json ν)) :
    compact print (arr items) = '[' :: joined ']' (items.map (compact print)) := fold_arr _ items

theorem compact_obj (print : ν → List Char) (members : List (String × Json ν)) :
    compact print (obj members) =
      '{' :: joined '}' (members.map fun m => quote m.1 ++ ':' :: compact print m.2) := by
  unfold compact
  rw [fold_obj]
  dsimp only
  rw [List.map_map]
  rfl

/-! ### The size of the text -/

/-- The number of bytes of entries with commas between them, with the closing bracket. -/
def joinedSize (sizes : List Nat) : Nat := if sizes = [] then 1 else sizes.sum + sizes.length

/-- The number of bytes of a value on one line. -/
def compactSize (width : ν → Nat) : Json ν → Nat :=
  fold ⟨4, fun b => if b then 4 else 5, width, quoteSize, fun ns => joinedSize ns + 1,
    fun ns => joinedSize (ns.map fun p => quoteSize p.1 + 1 + p.2) + 1⟩

theorem compactSize_arr (width : ν → Nat) (items : List (Json ν)) :
    compactSize width (arr items) = joinedSize (items.map (compactSize width)) + 1 :=
  fold_arr _ items

theorem compactSize_obj (width : ν → Nat) (members : List (String × Json ν)) :
    compactSize width (obj members) =
      joinedSize (members.map fun m => quoteSize m.1 + 1 + compactSize width m.2) + 1 := by
  unfold compactSize
  rw [fold_obj]
  dsimp only
  rw [List.map_map]
  rfl

theorem joinedSize_of_ne_nil {sizes : List Nat} (h : sizes ≠ []) :
    joinedSize sizes = sizes.sum + sizes.length := if_neg h

theorem size_joined {closing : Char} (hclosing : closing.utf8Size = 1) (es : List (List Char)) :
    size (joined closing es) = joinedSize (es.map size) := by
  cases es with
  | nil => simp [joined, joinedSize, hclosing]
  | cons e es =>
    have hcommas : (es.map fun e => size (',' :: e)).sum = (es.map size).sum + es.length := by
      induction es with
      | nil => rfl
      | cons e' es ih =>
        rw [List.map_cons, List.sum_cons, ih, size_cons, show Char.utf8Size ',' = 1 from rfl,
          List.map_cons, List.sum_cons, List.length_cons]
        omega
    rw [joined, size_append, size_append, size_flatMap, hcommas, size_cons, size_nil, hclosing,
      List.map_cons, joinedSize_of_ne_nil (List.cons_ne_nil _ _), List.sum_cons, List.length_cons,
      List.length_map]
    omega

/-- The size of the text. -/
theorem size_compact (print : ν → List Char) (v : Json ν) :
    size (compact print v) = compactSize (fun n => size (print n)) v := by
  induction v with
  | null => rfl
  | bool b => cases b <;> rfl
  | num n => rfl
  | str s => exact size_quote s
  | arr items ih =>
    rw [compact_arr, compactSize_arr, size_cons, size_joined rfl, List.map_map,
      Nat.add_comm (Char.utf8Size _)]
    exact congrArg (joinedSize · + 1) (List.map_congr_left ih)
  | obj members ih =>
    rw [compact_obj, compactSize_obj, size_cons, size_joined rfl, List.map_map,
      Nat.add_comm (Char.utf8Size _)]
    refine congrArg (joinedSize · + 1) (List.map_congr_left fun m hm => ?_)
    rw [Function.comp_apply, size_append, size_quote, size_cons, ih m hm,
      show Char.utf8Size ':' = 1 from rfl, Nat.add_assoc]

/-! ### One line -/

theorem newline_not_mem_escape (c : Char) : '\n' ∉ escape c := by
  unfold escape
  split
  next hspecial =>
    rcases hspecial with rfl | rfl
    · decide
    · decide
  next =>
    split
    next hplain =>
      intro hmem
      rw [← List.mem_singleton.mp hmem] at hplain
      exact absurd hplain (by decide)
    next hcontrol =>
      generalize c.toNat = n at hcontrol
      split
      · decide
      · decide
      · decide
      · decide
      · decide
      · have hall : ∀ n < 0x20, '\n' ∉
            ['\\', 'u', '0', '0', Nat.digitChar (n / 16), Nat.digitChar (n % 16)] := by decide
        exact hall n (Nat.not_le.mp hcontrol)

theorem newline_not_mem_quote (s : String) : '\n' ∉ quote s := by
  intro hmem
  rcases List.mem_cons.mp hmem with heq | hmem
  · cases heq
  rcases List.mem_append.mp hmem with hmem | hmem
  · obtain ⟨c, -, hc⟩ := List.mem_flatMap.mp hmem
    exact newline_not_mem_escape c hc
  · cases List.mem_singleton.mp hmem

theorem newline_not_mem_number {t : List Char} (h : isNumber t = true) : '\n' ∉ t := by
  rw [isNumber, Bool.and_eq_true] at h
  intro hmem
  have hnumeric := List.all_eq_true.mp h.1 '\n' hmem
  cases hnumeric

theorem newline_not_mem_joined {closing : Char} (hclosing : closing ≠ '\n')
    {es : List (List Char)} (h : ∀ e ∈ es, '\n' ∉ e) : '\n' ∉ joined closing es := by
  cases es with
  | nil =>
    intro hmem
    exact hclosing (List.mem_singleton.mp hmem).symm
  | cons e es =>
    intro hmem
    rcases List.mem_append.mp hmem with hmem | hmem
    · exact h e List.mem_cons_self hmem
    rcases List.mem_append.mp hmem with hmem | hmem
    · obtain ⟨e', he', hmem⟩ := List.mem_flatMap.mp hmem
      rcases List.mem_cons.mp hmem with heq | hmem
      · cases heq
      · exact h e' (List.mem_cons_of_mem e he') hmem
    · exact hclosing (List.mem_singleton.mp hmem).symm

/-- The text has no line break. -/
theorem newline_not_mem_compact {print : ν → List Char}
    (hprint : ∀ n, isNumber (print n) = true) (v : Json ν) : '\n' ∉ compact print v := by
  induction v with
  | null =>
    have hnull : '\n' ∉ "null".toList := by decide
    exact hnull
  | bool b =>
    have hbool : ∀ b : Bool, '\n' ∉ (toString b).toList := by decide
    exact hbool b
  | num n => exact newline_not_mem_number (hprint n)
  | str s => exact newline_not_mem_quote s
  | arr items ih =>
    rw [compact_arr]
    intro hmem
    rcases List.mem_cons.mp hmem with heq | hmem
    · cases heq
    · refine newline_not_mem_joined (by decide) ?_ hmem
      intro e he
      obtain ⟨v, hv, rfl⟩ := List.mem_map.mp he
      exact ih v hv
  | obj members ih =>
    rw [compact_obj]
    intro hmem
    rcases List.mem_cons.mp hmem with heq | hmem
    · cases heq
    · refine newline_not_mem_joined (by decide) ?_ hmem
      intro e he
      obtain ⟨m, hm, rfl⟩ := List.mem_map.mp he
      intro hmem
      rcases List.mem_append.mp hmem with hmem | hmem
      · exact newline_not_mem_quote m.1 hmem
      rcases List.mem_cons.mp hmem with heq | hmem
      · cases heq
      · exact ih m hm hmem

/-! ### Reading -/

section Inside

variable {entry : List Char → Option (α × List Char)} {closing : Char} {print : β → List Char}
  {read : β → α}

/-- Entries with commas between them are read back, when each of them is. -/
theorem entries_joined (hspace : isSpace closing = false) (hcomma : closing ≠ ',')
    (hnumeric : numeric closing = false) {e : β} {es : List β}
    (hentry : ∀ e' ∈ e :: es, ∀ rest, Ends rest →
      entry (print e' ++ rest) = some (read e', rest)) {fuel : Nat} (hfuel : es.length < fuel)
    (rest : List Char) :
    entries entry closing fuel
      (print e ++ ((es.map print).flatMap (',' :: ·) ++ closing :: rest)) =
      some (read e :: es.map read, rest) := by
  induction es generalizing e fuel with
  | nil =>
    cases fuel with
    | zero => cases hfuel
    | succ fuel =>
      rw [entries, List.map_nil, List.flatMap_nil, List.nil_append,
        hentry e (.head _) _ (by rintro c ⟨⟩; exact hnumeric)]
      simp [skip_of_head hspace]
  | cons e' es ih =>
    cases fuel with
    | zero => cases hfuel
    | succ fuel =>
      rw [entries, List.map_cons, List.flatMap_cons, List.append_assoc, List.cons_append,
        hentry e (.head _) _ (by rintro c ⟨⟩; rfl)]
      simp only [Option.bind_eq_bind, Option.bind_some]
      rw [skip_of_head rfl]
      have hrest := ih (e := e') (fun e'' he'' => hentry e'' (.tail _ he''))
        (Nat.lt_of_succ_lt_succ hfuel)
      simp only [hrest, if_neg hcomma.symm, if_true]
      rfl

theorem length_joined (es : List (List Char)) :
    es.length ≤ (es.flatMap (',' :: ·)).length := by
  induction es with
  | nil => exact Nat.le_refl 0
  | cons e es ih =>
    rw [List.flatMap_cons, List.length_append, List.length_cons, List.length_cons]
    omega

/-- What stands between brackets is read back. -/
theorem inside_joined (hspace : isSpace closing = false) (hcomma : closing ≠ ',')
    (hnumeric : numeric closing = false) {es : List β}
    (hopens : ∀ e ∈ es, ∃ c cs, print e = c :: cs ∧ isSpace c = false ∧ c ≠ closing)
    (hentry : ∀ e ∈ es, ∀ rest, Ends rest → entry (print e ++ rest) = some (read e, rest))
    (rest : List Char) :
    inside entry closing (joined closing (es.map print) ++ rest) = some (es.map read, rest) := by
  cases es with
  | nil =>
    unfold inside joined
    simp [skip_of_head hspace]
  | cons e es =>
    obtain ⟨c, cs, hcs, hc, hne⟩ := hopens e (.head _)
    unfold inside
    simp only [List.map_cons, joined, List.append_assoc, List.singleton_append]
    rw [hcs, List.cons_append, skip_of_head hc]
    dsimp only
    rw [if_neg hne, ← List.cons_append, ← hcs]
    refine entries_joined hspace hcomma hnumeric hentry ?_ rest
    have hlength := length_joined (es.map print)
    rw [List.length_map] at hlength
    simp only [List.length_append, List.length_cons]
    omega

end Inside

/-- A printed value begins with a character that closes nothing. -/
theorem opens_compact {print : ν → List Char} (hprint : ∀ n, isNumber (print n) = true)
    (v : Json ν) : Opens (compact print v) := by
  cases v with
  | null => exact ⟨_, _, rfl, rfl, by decide, by decide⟩
  | bool b => cases b <;> exact ⟨_, _, rfl, rfl, by decide, by decide⟩
  | num n =>
    obtain ⟨c, cs, hcs, hspace, hother⟩ := opens_number (hprint n)
    refine ⟨c, cs, hcs, hspace, ?_, ?_⟩
    all_goals
      rintro rfl
      exact hother (by decide)
  | str s => exact ⟨_, _, rfl, rfl, by decide, by decide⟩
  | arr items => exact ⟨_, _, rfl, rfl, by decide, by decide⟩
  | obj members => exact ⟨_, _, rfl, rfl, by decide, by decide⟩

/-- A printed member is read back, when its value is. -/
theorem member_compact {value : List Char → Option (α × List Char)} {k : String}
    {cs rest : List Char} {a : α} (hvalue : value cs = some (a, rest)) :
    member value (quote k ++ ':' :: cs) = some ((k, a), rest) := by
  unfold member
  rw [skip_quote]
  simp [chars_quoted, skip_of_head (c := ':') rfl, hvalue]

/-- What is printed is read back, up to the depth of the value. -/
theorem value_compact {print : ν → List Char} (hprint : ∀ n, isNumber (print n) = true)
    (v : Json ν) {d : Nat} {rest : List Char} (hdepth : v.depth ≤ d) (hrest : Ends rest) :
    value d (compact print v ++ rest) = some (v.map print, rest) := by
  induction v generalizing d rest with
  | null => cases d <;> rfl
  | bool b => cases b <;> cases d <;> rfl
  | num n =>
    cases d with
    | zero => exact start_number (hprint n) hrest
    | succ d => exact start_number (hprint n) hrest
  | str s =>
    cases d with
    | zero => exact start_quoted s rest
    | succ d => exact start_quoted s rest
  | arr items ih =>
    rw [depth_arr] at hdepth
    obtain ⟨d, rfl⟩ : ∃ d', d = d' + 1 := ⟨d - 1, by omega⟩
    have hitem : ∀ v ∈ items, ∀ rest, Ends rest →
        value d (compact print v ++ rest) = some (v.map print, rest) := by
      intro v hv rest hrest
      have hmax := le_foldr_max (List.mem_map_of_mem (f := depth) hv)
      exact ih v hv (by omega) hrest
    have hopens : ∀ v ∈ items, ∃ c cs, compact print v = c :: cs ∧ isSpace c = false ∧
        c ≠ ']' := by
      intro v _
      obtain ⟨c, cs, hcs, hspace, hne, -⟩ := opens_compact hprint v
      exact ⟨c, cs, hcs, hspace, hne⟩
    have hinside := inside_joined rfl (by decide) rfl hopens hitem rest
    rw [compact_arr, List.cons_append, value, start, skip_of_head rfl]
    simp [hinside]
  | obj members ih =>
    rw [depth_obj] at hdepth
    obtain ⟨d, rfl⟩ : ∃ d', d = d' + 1 := ⟨d - 1, by omega⟩
    have hmember : ∀ m ∈ members, ∀ rest, Ends rest →
        member (value d) (quote m.1 ++ ':' :: compact print m.2 ++ rest) =
          some ((m.1, m.2.map print), rest) := by
      intro m hm rest hrest
      have hmax := le_foldr_max (List.mem_map_of_mem (f := fun m => m.2.depth) hm)
      rw [List.append_assoc]
      exact member_compact (ih m hm (by omega) hrest)
    have hopens : ∀ m ∈ members, ∃ c cs,
        quote m.1 ++ ':' :: compact print m.2 = c :: cs ∧ isSpace c = false ∧ c ≠ '}' :=
      fun m _ => ⟨'"', _, rfl, rfl, by decide⟩
    have hinside := inside_joined rfl (by decide) rfl hopens hmember rest
    rw [compact_obj, List.cons_append, value, start, skip_of_head rfl]
    simp [hinside]

/-- What is printed is read back. -/
theorem parse_compact {print : ν → List Char} (hprint : ∀ n, isNumber (print n) = true)
    {v : Json ν} {depth : Nat} (hdepth : v.depth ≤ depth) :
    parse depth (compact print v) = some (v.map print) := by
  have hvalue : value depth (compact print v ++ []) = some (v.map print, []) :=
    value_compact hprint v hdepth nofun
  rw [List.append_nil] at hvalue
  rw [parse, hvalue]
  rfl

/-- Values of one text are the same up to how their numbers are printed. -/
theorem map_eq_of_compact_eq {print : ν → List Char} (hprint : ∀ n, isNumber (print n) = true)
    {v w : Json ν} (h : compact print v = compact print w) : v.map print = w.map print := by
  have hv := parse_compact hprint (Nat.le_max_left v.depth w.depth)
  have hw := parse_compact hprint (Nat.le_max_right v.depth w.depth)
  rw [h, hw] at hv
  exact (Option.some.inj hv).symm

end Json
