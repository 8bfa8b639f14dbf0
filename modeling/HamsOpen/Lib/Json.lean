import Mathlib

/-!
# JSON text

A value is printed with each item and each member on a line of its own, indented by its depth. It is
read back up to a depth of nesting, and the numbers are left as they stand in the text. So what is
printed is read back, whatever the numbers are, when they are printed as numbers.
-/

/-- A JSON value, with the numbers of a type. The members of an object are in the order of the
text. -/
inductive Json (ν : Type)
  | null
  | bool (b : Bool)
  | num (n : ν)
  | str (s : String)
  | arr (items : List (Json ν))
  | obj (members : List (String × Json ν))

namespace Json

variable {ν μ α β : Type}

/-- What is made of each kind of value, from what was made of its parts. -/
structure Shape (ν α : Type) where
  null : α
  bool : Bool → α
  num : ν → α
  str : String → α
  arr : List α → α
  obj : List (String × α) → α

mutual

/-- Recursion over a value. -/
def fold (f : Shape ν α) : Json ν → α
  | null => f.null
  | bool b => f.bool b
  | num n => f.num n
  | str s => f.str s
  | arr items => f.arr (foldItems f items)
  | obj members => f.obj (foldMembers f members)

def foldItems (f : Shape ν α) : List (Json ν) → List α
  | [] => []
  | v :: vs => fold f v :: foldItems f vs

def foldMembers (f : Shape ν α) : List (String × Json ν) → List (String × α)
  | [] => []
  | m :: ms => foldMember f m :: foldMembers f ms

def foldMember (f : Shape ν α) : String × Json ν → String × α
  | (k, v) => (k, fold f v)

end

section Fold

variable (f : Shape ν α)

theorem foldItems_eq (items : List (Json ν)) : foldItems f items = items.map (fold f) := by
  induction items with
  | nil => rfl
  | cons v vs ih =>
    rw [foldItems, ih]
    rfl

theorem foldMembers_eq (members : List (String × Json ν)) :
    foldMembers f members = members.map fun m => (m.1, fold f m.2) := by
  induction members with
  | nil => rfl
  | cons m ms ih =>
    obtain ⟨k, v⟩ := m
    rw [foldMembers, ih]
    rfl

@[simp] theorem fold_null : fold f null = f.null := rfl

@[simp] theorem fold_bool (b : Bool) : fold f (bool b) = f.bool b := rfl

@[simp] theorem fold_num (n : ν) : fold f (num n) = f.num n := rfl

@[simp] theorem fold_str (s : String) : fold f (str s) = f.str s := rfl

@[simp] theorem fold_arr (items : List (Json ν)) :
    fold f (arr items) = f.arr (items.map (fold f)) := by
  rw [fold, foldItems_eq]

@[simp] theorem fold_obj (members : List (String × Json ν)) :
    fold f (obj members) = f.obj (members.map fun m => (m.1, fold f m.2)) := by
  rw [fold, foldMembers_eq]

end Fold

/-- What holds of a value when it holds of its parts holds of every value. -/
@[induction_eliminator]
theorem induct {P : Json ν → Prop} (null : P null) (bool : ∀ b, P (bool b)) (num : ∀ n, P (num n))
    (str : ∀ s, P (str s)) (arr : ∀ items, (∀ v ∈ items, P v) → P (arr items))
    (obj : ∀ members, (∀ m ∈ members, P m.2) → P (obj members)) (v : Json ν) : P v := by
  refine Json.rec (motive_1 := P) (motive_2 := fun items => ∀ v ∈ items, P v)
    (motive_3 := fun members => ∀ m ∈ members, P m.2) (motive_4 := fun m => P m.2)
    null bool num str arr obj ?_ ?_ ?_ ?_ ?_ v
  · exact nofun
  · exact fun v vs hv hvs => List.forall_mem_cons.mpr ⟨hv, hvs⟩
  · exact nofun
  · exact fun m ms hm hms => List.forall_mem_cons.mpr ⟨hm, hms⟩
  · exact fun k v hv => hv

/-- The value with other numbers. -/
def map (f : ν → μ) : Json ν → Json μ :=
  fold ⟨null, bool, fun n => num (f n), str, arr, obj⟩

/-- How deep arrays and objects are nested in the value. -/
def depth : Json ν → Nat :=
  fold ⟨0, fun _ => 0, fun _ => 0, fun _ => 0, fun ds => ds.foldr max 0 + 1,
    fun ds => (ds.map (·.2)).foldr max 0 + 1⟩

@[simp] theorem map_null (f : ν → μ) : null.map f = null := rfl

@[simp] theorem map_bool (f : ν → μ) (b : Bool) : (bool b).map f = bool b := rfl

@[simp] theorem map_num (f : ν → μ) (n : ν) : (num n).map f = num (f n) := rfl

@[simp] theorem map_str (f : ν → μ) (s : String) : (str s).map f = str s := rfl

@[simp] theorem map_arr (f : ν → μ) (items : List (Json ν)) :
    (arr items).map f = arr (items.map (map f)) := fold_arr _ items

@[simp] theorem map_obj (f : ν → μ) (members : List (String × Json ν)) :
    (obj members).map f = obj (members.map fun m => (m.1, m.2.map f)) := fold_obj _ members

@[simp] theorem depth_null : (null : Json ν).depth = 0 := rfl

@[simp] theorem depth_bool (b : Bool) : (bool b : Json ν).depth = 0 := rfl

@[simp] theorem depth_num (n : ν) : (num n).depth = 0 := rfl

@[simp] theorem depth_str (s : String) : (str s : Json ν).depth = 0 := rfl

theorem depth_arr (items : List (Json ν)) :
    (arr items).depth = (items.map depth).foldr max 0 + 1 := fold_arr _ items

theorem depth_obj (members : List (String × Json ν)) :
    (obj members).depth = (members.map fun m => m.2.depth).foldr max 0 + 1 := by
  unfold depth
  rw [fold_obj]
  dsimp only
  rw [List.map_map]
  rfl

/-! ### Printing -/

/-- A character of a string. -/
def escape (c : Char) : List Char :=
  if c = '"' ∨ c = '\\' then ['\\', c]
  else if 0x20 ≤ c.toNat then [c]
  else match c.toNat with
    | 0x08 => ['\\', 'b']
    | 0x09 => ['\\', 't']
    | 0x0A => ['\\', 'n']
    | 0x0C => ['\\', 'f']
    | 0x0D => ['\\', 'r']
    | n => ['\\', 'u', '0', '0', Nat.digitChar (n / 16), Nat.digitChar (n % 16)]

/-- A string. -/
def quote (s : String) : List Char := '"' :: (s.toList.flatMap escape ++ ['"'])

/-- A new line at a depth. -/
def newline (i : Nat) : List Char := '\n' :: List.replicate (2 * i) ' '

/-- What follows the first entry. -/
def further (i : Nat) : List (List Char) → List Char
  | [] => []
  | e :: es => ',' :: (newline i ++ (e ++ further i es))

/-- Entries on lines of their own, one deeper than the closing bracket. -/
def body (closing : Char) (i : Nat) : List (List Char) → List Char
  | [] => [closing]
  | e :: es => newline (i + 1) ++ (e ++ (further (i + 1) es ++ (newline i ++ [closing])))

/-- The text of a value at a depth. -/
def pretty (print : ν → List Char) (v : Json ν) (i : Nat) : List Char :=
  fold (α := Nat → List Char) ⟨fun _ => "null".toList, fun b _ => (toString b).toList,
    fun n _ => print n, fun s _ => quote s, fun ps i => '[' :: body ']' i (ps.map (· (i + 1))),
    fun ps i => '{' :: body '}' i (ps.map fun p => quote p.1 ++ ':' :: ' ' :: p.2 (i + 1))⟩ v i

theorem pretty_arr (print : ν → List Char) (items : List (Json ν)) (i : Nat) :
    pretty print (arr items) i =
      '[' :: body ']' i (items.map fun v => pretty print v (i + 1)) := by
  unfold pretty
  rw [fold_arr]
  dsimp only
  rw [List.map_map]
  rfl

theorem pretty_obj (print : ν → List Char) (members : List (String × Json ν)) (i : Nat) :
    pretty print (obj members) i = '{' :: body '}' i (members.map fun m =>
      quote m.1 ++ ':' :: ' ' :: pretty print m.2 (i + 1)) := by
  unfold pretty
  rw [fold_obj]
  dsimp only
  rw [List.map_map]
  rfl

/-! ### The size of a text -/

/-- The number of bytes of a text. -/
def size (cs : List Char) : Nat := (cs.map Char.utf8Size).sum

/-- The number of bytes of a string as it is printed. -/
def quoteSize (s : String) : Nat := (s.toList.map fun c => size (escape c)).sum + 2

/-- The number of bytes of entries on lines of their own, with both brackets. -/
def blockSize (i : Nat) (sizes : List Nat) : Nat :=
  if sizes = [] then 2 else sizes.sum + sizes.length * (2 * i + 4) + (2 * i + 2)

/-- The number of bytes of a value as it is printed at a depth. -/
def span (width : ν → Nat) (v : Json ν) (i : Nat) : Nat :=
  fold (α := Nat → Nat) ⟨fun _ => 4, fun b _ => if b then 4 else 5, fun n _ => width n,
    fun s _ => quoteSize s, fun ps i => blockSize i (ps.map (· (i + 1))),
    fun ps i => blockSize i (ps.map fun p => quoteSize p.1 + 2 + p.2 (i + 1))⟩ v i

theorem sum_lt_blockSize (i : Nat) (sizes : List Nat) : sizes.sum < blockSize i sizes := by
  unfold blockSize
  split
  next h =>
    rw [h]
    decide
  · omega

theorem span_arr (width : ν → Nat) (items : List (Json ν)) (i : Nat) :
    span width (arr items) i = blockSize i (items.map fun v => span width v (i + 1)) := by
  unfold span
  rw [fold_arr]
  dsimp only
  rw [List.map_map]
  rfl

theorem span_obj (width : ν → Nat) (members : List (String × Json ν)) (i : Nat) :
    span width (obj members) i =
      blockSize i (members.map fun m => quoteSize m.1 + 2 + span width m.2 (i + 1)) := by
  unfold span
  rw [fold_obj]
  dsimp only
  rw [List.map_map]
  rfl

/-- A value is no longer than what it is a member of. -/
theorem span_lt_obj (width : ν → Nat) {members : List (String × Json ν)} {m : String × Json ν}
    (h : m ∈ members) (i : Nat) : span width m.2 (i + 1) < span width (obj members) i := by
  obtain ⟨before, after, rfl⟩ := List.append_of_mem h
  have hsum := sum_lt_blockSize i
    ((before ++ m :: after).map fun m => quoteSize m.1 + 2 + span width m.2 (i + 1))
  rw [span_obj]
  simp only [List.map_append, List.map_cons, List.sum_append_nat, List.sum_cons] at hsum ⊢
  omega

section Size

@[simp] theorem size_nil : size [] = 0 := rfl

@[simp] theorem size_cons (c : Char) (cs : List Char) : size (c :: cs) = c.utf8Size + size cs := rfl

@[simp] theorem size_append (cs ds : List Char) : size (cs ++ ds) = size cs + size ds := by
  simp [size]

@[simp] theorem size_flatMap (f : α → List Char) (l : List α) :
    size (l.flatMap f) = (l.map fun a => size (f a)).sum := by
  induction l with
  | nil => rfl
  | cons a l ih => rw [List.flatMap_cons, size_append, ih, List.map_cons, List.sum_cons]

theorem size_quote (s : String) : size (quote s) = quoteSize s := by
  simp only [quote, quoteSize, size_cons, size_append, size_flatMap, size_nil,
    show Char.utf8Size '"' = 1 from rfl]
  omega

theorem size_newline (i : Nat) : size (newline i) = 2 * i + 1 := by
  have hspaces (n : Nat) : size (List.replicate n ' ') = n := by
    induction n with
    | zero => rfl
    | succ n ih =>
      rw [List.replicate_succ, size_cons, ih]
      exact Nat.add_comm 1 n
  rw [newline, size_cons, hspaces]
  exact Nat.add_comm 1 (2 * i)

theorem size_further (i : Nat) (es : List (List Char)) :
    size (further (i + 1) es) = (es.map size).sum + es.length * (2 * i + 4) := by
  induction es with
  | nil => simp [further]
  | cons e es ih =>
    simp only [further, size_cons, size_append, size_newline, ih, List.map_cons, List.sum_cons,
      List.length_cons, Nat.add_mul, show Char.utf8Size ',' = 1 from rfl]
    omega

theorem size_body {opening closing : Char} (hopening : opening.utf8Size = 1)
    (hclosing : closing.utf8Size = 1) (i : Nat) (es : List (List Char)) :
    size (opening :: body closing i es) = blockSize i (es.map size) := by
  cases es with
  | nil => simp [body, blockSize, hopening, hclosing]
  | cons e es =>
    simp only [body, blockSize, size_cons, size_append, size_further, size_newline, size_nil,
      hopening, hclosing, List.map_cons, List.sum_cons, List.length_cons, List.length_map,
      reduceCtorEq, if_false, Nat.add_mul]
    omega

/-- The size of a text. -/
theorem size_pretty (print : ν → List Char) (v : Json ν) (i : Nat) :
    size (pretty print v i) = span (fun n => size (print n)) v i := by
  induction v generalizing i with
  | null => rfl
  | bool b => cases b <;> rfl
  | num n => rfl
  | str s => exact size_quote s
  | arr items ih =>
    rw [pretty_arr, span_arr, size_body rfl rfl, List.map_map]
    exact congrArg _ (List.map_congr_left fun v hv => ih v hv (i + 1))
  | obj members ih =>
    rw [pretty_obj, span_obj, size_body rfl rfl, List.map_map]
    refine congrArg _ (List.map_congr_left fun m hm => ?_)
    simp only [Function.comp, size_append, size_quote, size_cons, ih m hm (i + 1),
      show Char.utf8Size ':' = 1 from rfl, show Char.utf8Size ' ' = 1 from rfl]
    omega

end Size

/-! ### Reading -/

def isSpace (c : Char) : Bool := c = ' ' || c = '\n' || c = '\t' || c = '\r'

/-- What follows the space that comes first. -/
def skip (cs : List Char) : List Char := cs.dropWhile isSpace

/-- A digit of a number of base 16. -/
def hexValue (c : Char) : Option Nat :=
  if '0' ≤ c ∧ c ≤ '9' then some (c.toNat - '0'.toNat)
  else if 'a' ≤ c ∧ c ≤ 'f' then some (c.toNat - 'a'.toNat + 10)
  else if 'A' ≤ c ∧ c ≤ 'F' then some (c.toNat - 'A'.toNat + 10)
  else none

/-- A code unit of four digits. -/
def codeUnit (a b c d : Char) : Option Nat := do
  return (((← hexValue a) * 16 + (← hexValue b)) * 16 + (← hexValue c)) * 16 + (← hexValue d)

/-- The character that an escape of one character stands for. -/
def unescape : Char → Option Char
  | '"' => some '"'
  | '\\' => some '\\'
  | '/' => some '/'
  | 'b' => some (Char.ofNat 0x08)
  | 'f' => some (Char.ofNat 0x0C)
  | 'n' => some '\n'
  | 'r' => some '\r'
  | 't' => some '\t'
  | _ => none

/-- A character and those that were read after it. -/
def before (c : Char) (r : Option (List Char × List Char)) : Option (List Char × List Char) :=
  r.map fun r => (c :: r.1, r.2)

/-- Reads the characters of a string up to its closing quote. -/
def chars : List Char → Option (List Char × List Char)
  | [] => none
  | '"' :: cs => some ([], cs)
  | '\\' :: 'u' :: a :: b :: c :: d :: cs =>
    match codeUnit a b c d with
    | none => none
    | some unit =>
      if 0xDC00 ≤ unit ∧ unit ≤ 0xDFFF then none
      else if 0xD800 ≤ unit ∧ unit ≤ 0xDBFF then
        -- the first half of a character, the second has to follow
        match cs with
        | '\\' :: 'u' :: a :: b :: c :: d :: cs =>
          match codeUnit a b c d with
          | none => none
          | some low =>
            if 0xDC00 ≤ low ∧ low ≤ 0xDFFF then
              before (Char.ofNat ((unit - 0xD800) * 0x400 + (low - 0xDC00) + 0x10000)) (chars cs)
            else none
        | _ => none
      else before (Char.ofNat unit) (chars cs)
  | '\\' :: e :: cs =>
    match unescape e with
    | none => none
    | some c => before c (chars cs)
  | c :: cs => if c.toNat < 0x20 then none else before c (chars cs)

/-- The characters of numbers. -/
def numeric (c : Char) : Bool :=
  c.isDigit || c = '-' || c = '+' || c = '.' || c = 'e' || c = 'E'

/-- The rest of a number from its exponent on. -/
def isExponent : List Char → Bool
  | [] => true
  | e :: cs =>
    let digits := match cs with
      | '+' :: cs | '-' :: cs => cs
      | cs => cs
    (e = 'e' || e = 'E') && !digits.isEmpty && digits.all Char.isDigit

/-- The rest of a number from its fraction on. -/
def isFraction : List Char → Bool
  | '.' :: d :: cs => d.isDigit && isExponent (cs.dropWhile Char.isDigit)
  | cs => isExponent cs

/-- The number without its sign. -/
def unsigned : List Char → List Char
  | '-' :: cs => cs
  | cs => cs

/-- Whether a text is a number. -/
def isNumber (cs : List Char) : Bool :=
  cs.all numeric && match unsigned cs with
  | [] => false
  | d :: cs => d.isDigit && isFraction (if d = '0' then cs else cs.dropWhile Char.isDigit)

/-- Reads entries up to the closing bracket, at most `fuel` of them. -/
def entries (entry : List Char → Option (α × List Char)) (closing : Char) :
    Nat → List Char → Option (List α × List Char)
  | 0, _ => none
  | fuel + 1, cs => do
    let (a, cs) ← entry cs
    match skip cs with
    | [] => none
    | c :: cs =>
      if c = closing then
        return ([a], cs)
      else if c = ',' then
        let (as, cs) ← entries entry closing fuel cs
        return (a :: as, cs)
      else none

/-- Reads the inside of brackets. Each entry takes a character or more of the text. -/
def inside (entry : List Char → Option (α × List Char)) (closing : Char) (cs : List Char) :
    Option (List α × List Char) :=
  match skip cs with
  | [] => none
  | c :: rest => if c = closing then some ([], rest) else entries entry closing cs.length cs

/-- Reads a member, with what reads its value. -/
def member (value : List Char → Option (α × List Char)) (cs : List Char) :
    Option ((String × α) × List Char) :=
  match skip cs with
  | '"' :: cs => do
    let (key, cs) ← chars cs
    match skip cs with
    | ':' :: cs => do
      let (v, cs) ← value cs
      return ((String.ofList key, v), cs)
    | _ => none
  | _ => none

/-- Reads a value, with what reads an array and an object after its opening bracket. -/
def start (array object : List Char → Option (Json (List Char) × List Char)) (cs : List Char) :
    Option (Json (List Char) × List Char) :=
  match skip cs with
  | 'n' :: 'u' :: 'l' :: 'l' :: cs => some (null, cs)
  | 't' :: 'r' :: 'u' :: 'e' :: cs => some (bool true, cs)
  | 'f' :: 'a' :: 'l' :: 's' :: 'e' :: cs => some (bool false, cs)
  | '"' :: cs => do
    let (text, cs) ← chars cs
    return (str (String.ofList text), cs)
  | '[' :: cs => array cs
  | '{' :: cs => object cs
  | cs =>
    let n := cs.takeWhile numeric
    if isNumber n then some (num n, cs.dropWhile numeric) else none

/-- Reads a value, nested up to a depth. -/
def value : Nat → List Char → Option (Json (List Char) × List Char)
  | 0 => start (fun _ => none) fun _ => none
  | depth + 1 =>
    start
      (fun cs => do
        let (items, cs) ← inside (value depth) ']' cs
        return (arr items, cs))
      fun cs => do
        let (members, cs) ← inside (member (value depth)) '}' cs
        return (obj members, cs)

/-- Reads a text of one value, nested up to a depth. The numbers are left as they stand. -/
def parse (depth : Nat) (cs : List Char) : Option (Json (List Char)) :=
  match value depth cs with
  | some (v, rest) => if (skip rest).isEmpty then some v else none
  | none => none

section Quote

theorem chars_unescape {e c : Char} (he : e ≠ 'u') (hc : unescape e = some c) (cs : List Char) :
    chars ('\\' :: e :: cs) = before c (chars cs) := by
  rw [chars]
  · rw [hc]
  · rintro a b c d cs' rfl
    exact absurd rfl he

theorem chars_unit {a b c d : Char} {n : Nat} (hn : codeUnit a b c d = some n) (hlow : n < 0xD800)
    (cs : List Char) :
    chars ('\\' :: 'u' :: a :: b :: c :: d :: cs) = before (Char.ofNat n) (chars cs) := by
  rw [chars, hn]
  dsimp only
  rw [if_neg (by omega), if_neg (by omega)]

theorem chars_plain {c : Char} (hquote : c ≠ '"') (hslash : c ≠ '\\') (hc : 0x20 ≤ c.toNat)
    (cs : List Char) : chars (c :: cs) = before c (chars cs) := by
  rw [chars]
  · exact if_neg (Nat.not_lt.mpr hc)
  · exact hquote
  · rintro a b c' d cs' rfl
    exact absurd rfl hslash
  · rintro e cs' rfl
    exact absurd rfl hslash

theorem codeUnit_control : ∀ n < 0x20,
    codeUnit '0' '0' (Nat.digitChar (n / 16)) (Nat.digitChar (n % 16)) = some n := by decide

/-- A character that was escaped is read back. -/
theorem chars_escape (c : Char) (cs : List Char) :
    chars (escape c ++ cs) = before c (chars cs) := by
  unfold escape
  split
  next hspecial =>
    rcases hspecial with rfl | rfl
    · exact chars_unescape (by decide) rfl cs
    · exact chars_unescape (by decide) rfl cs
  next hspecial =>
    obtain ⟨hquote, hslash⟩ := not_or.mp hspecial
    split
    next hplain => exact chars_plain hquote hslash hplain cs
    next hcontrol =>
      have hc : Char.ofNat c.toNat = c := Char.ofNat_toNat c
      generalize hn : c.toNat = n at hcontrol hc
      have hlow : n < 0x20 := Nat.not_le.mp hcontrol
      rw [← hc]
      split
      · exact chars_unescape (by decide) rfl cs
      · exact chars_unescape (by decide) rfl cs
      · exact chars_unescape (by decide) rfl cs
      · exact chars_unescape (by decide) rfl cs
      · exact chars_unescape (by decide) rfl cs
      · exact chars_unit (codeUnit_control n hlow) (by omega) cs

/-- What is quoted is read back. -/
theorem chars_quoted (text rest : List Char) :
    chars (text.flatMap escape ++ '"' :: rest) = some (text, rest) := by
  induction text with
  | nil => rfl
  | cons c text ih =>
    rw [List.flatMap_cons, List.append_assoc, chars_escape, ih]
    rfl

end Quote

section Values

/-- The text that follows a value does not go on with a number. -/
def Ends (rest : List Char) : Prop := ∀ c ∈ rest.head?, numeric c = false

/-- The text begins with a character that is no space and closes no bracket. -/
def Opens (cs : List Char) : Prop :=
  ∃ c rest, cs = c :: rest ∧ isSpace c = false ∧ c ≠ ']' ∧ c ≠ '}'

theorem skip_of_head {c : Char} (hc : isSpace c = false) (cs : List Char) :
    skip (c :: cs) = c :: cs := List.dropWhile_cons_of_neg (by simp [hc])

theorem skip_newline (i : Nat) (cs : List Char) : skip (newline i ++ cs) = skip cs := by
  unfold skip
  refine List.dropWhile_append_of_pos fun c hc => ?_
  rcases List.mem_cons.mp hc with rfl | hc
  · rfl
  · rw [List.eq_of_mem_replicate hc]
    rfl

theorem ends_newline (i : Nat) (cs : List Char) : Ends (newline i ++ cs) := by
  rintro c ⟨⟩
  rfl

theorem isNumber_head {t : List Char} (h : isNumber t = true) :
    ∃ c cs, t = c :: cs ∧ (c = '-' ∨ c.isDigit = true) := by
  cases t with
  | nil => cases h
  | cons c cs =>
    refine ⟨c, cs, rfl, ?_⟩
    by_cases hc : c = '-'
    · exact .inl hc
    · have hunsigned : unsigned (c :: cs) = c :: cs := by
        unfold unsigned
        split
        next heq => exact absurd (List.cons.inj heq).1 hc
        · rfl
      rw [isNumber, hunsigned] at h
      dsimp only at h
      rw [Bool.and_eq_true, Bool.and_eq_true] at h
      exact .inr h.2.1

/-- A number begins with a character that begins nothing else. -/
theorem opens_number {t : List Char} (h : isNumber t = true) : ∃ c cs, t = c :: cs ∧
    isSpace c = false ∧ c ∉ ['n', 't', 'f', '"', '[', '{', ']', '}'] := by
  obtain ⟨c, cs, rfl, hc⟩ := isNumber_head h
  refine ⟨c, cs, rfl, Bool.eq_false_iff.mpr fun hspace => ?_, fun hmem => ?_⟩
  · rcases hc with rfl | hc
    · cases hspace
    · simp only [isSpace, Bool.or_eq_true, decide_eq_true_eq] at hspace
      rcases hspace with ((rfl | rfl) | rfl) | rfl
      all_goals cases hc
  · rcases hc with rfl | hc
    · exact absurd hmem (by decide)
    · simp only [List.mem_cons, List.not_mem_nil, or_false] at hmem
      rcases hmem with rfl | rfl | rfl | rfl | rfl | rfl | rfl | rfl
      all_goals cases hc

theorem digits_of_toDigits (n : Nat) : ∀ c ∈ Nat.toDigits 10 n, c.isDigit = true :=
  fun _ hc => Nat.isDigit_of_mem_toDigits (by decide) (by decide) hc

/-- A number of more than one digit does not begin with zero. -/
theorem toDigits_cons {n : Nat} {d : Char} {cs : List Char} (h : Nat.toDigits 10 n = d :: cs) :
    d = '0' → cs = [] := by
  induction n using Nat.strongRecOn generalizing d cs with
  | ind n ih =>
    intro hd
    by_cases hn : n < 10
    · rw [Nat.toDigits_of_lt_base hn] at h
      exact (List.cons.inj h).2.symm
    · rw [Nat.toDigits_of_base_le (by decide) (Nat.not_lt.mp hn)] at h
      obtain ⟨d', cs', hdigits⟩ : ∃ d' cs', Nat.toDigits 10 (n / 10) = d' :: cs' :=
        List.exists_cons_of_ne_nil Nat.toDigits_ne_nil
      rw [hdigits, List.cons_append] at h
      obtain ⟨rfl, -⟩ := List.cons.inj h
      -- what is left of the last digit would be zero
      obtain rfl := ih (n / 10) (Nat.div_lt_self (by omega) (by decide)) hdigits hd
      have hvalue := Nat.ofDigitChars_ten_toDigits (n := n / 10)
      rw [hdigits, hd] at hvalue
      have hzero : n / 10 = 0 := hvalue.symm
      omega

theorem unsigned_toDigits (n : Nat) : unsigned (Nat.toDigits 10 n) = Nat.toDigits 10 n := by
  unfold unsigned
  split
  next cs heq =>
    have hminus := digits_of_toDigits n '-' (heq ▸ .head _)
    cases hminus
  · rfl

theorem isNumber_of_digits {t : List Char} (ht : t.all numeric = true) {n : Nat}
    (hn : unsigned t = Nat.toDigits 10 n) : isNumber t = true := by
  rw [isNumber, ht, hn]
  obtain ⟨d, cs, hdigits⟩ : ∃ d cs, Nat.toDigits 10 n = d :: cs :=
    List.exists_cons_of_ne_nil Nat.toDigits_ne_nil
  have hall := digits_of_toDigits n
  rw [hdigits] at hall ⊢
  have hrest : (if d = '0' then cs else cs.dropWhile Char.isDigit) = [] := by
    split
    next hd => exact toDigits_cons hdigits hd
    · exact List.dropWhile_eq_nil_iff.mpr fun c hc => hall c (.tail _ hc)
  simp [hall d (.head _), hrest, isFraction, isExponent]

/-- The digits of a number are one. -/
theorem isNumber_toDigits (n : Nat) : isNumber (Nat.toDigits 10 n) = true := by
  refine isNumber_of_digits (List.all_eq_true.mpr fun c hc => ?_) (unsigned_toDigits n)
  simp [numeric, digits_of_toDigits n c hc]

theorem isNumber_minus (n : Nat) : isNumber ('-' :: Nat.toDigits 10 n) = true := by
  refine isNumber_of_digits (List.all_eq_true.mpr fun c hc => ?_) rfl
  rcases List.mem_cons.mp hc with rfl | hc
  · rfl
  · simp [numeric, digits_of_toDigits n c hc]

theorem takeWhile_number {t rest : List Char} (ht : isNumber t = true) (hrest : Ends rest) :
    (t ++ rest).takeWhile numeric = t ∧ (t ++ rest).dropWhile numeric = rest := by
  have hall : ∀ c ∈ t, numeric c = true := by
    rw [isNumber, Bool.and_eq_true] at ht
    exact List.all_eq_true.mp ht.1
  rw [List.takeWhile_append_of_pos hall, List.dropWhile_append_of_pos hall]
  cases rest with
  | nil => simp
  | cons c cs =>
    have hc : numeric c = false := hrest c rfl
    simp [hc]

theorem start_number {array object : List Char → Option (Json (List Char) × List Char)}
    {t rest : List Char} (ht : isNumber t = true) (hrest : Ends rest) :
    start array object (t ++ rest) = some (num t, rest) := by
  obtain ⟨htake, hdrop⟩ := takeWhile_number ht hrest
  obtain ⟨c, cs, hcs, hspace, hother⟩ := opens_number ht
  have hskip : skip (t ++ rest) = t ++ rest := by
    rw [hcs]
    exact skip_of_head hspace _
  simp only [List.mem_cons, List.not_mem_nil, or_false, not_or] at hother
  obtain ⟨hn, htrue, hf, hquote, harray, hobject, -⟩ := hother
  unfold start
  rw [hskip]
  split
  all_goals
    rename_i heq
    rw [hcs, List.cons_append] at heq
  next => exact absurd (List.cons.inj heq).1 hn
  next => exact absurd (List.cons.inj heq).1 htrue
  next => exact absurd (List.cons.inj heq).1 hf
  next => exact absurd (List.cons.inj heq).1 hquote
  next => exact absurd (List.cons.inj heq).1 harray
  next => exact absurd (List.cons.inj heq).1 hobject
  next =>
    dsimp only
    rw [htake, hdrop, if_pos ht]

/-- A printed value begins with a character that closes nothing. -/
theorem opens_pretty {print : ν → List Char} (hprint : ∀ n, isNumber (print n) = true)
    (v : Json ν) (i : Nat) : Opens (pretty print v i) := by
  cases v with
  | null => exact ⟨_, _, rfl, rfl, by decide, by decide⟩
  | bool b => cases b <;> exact ⟨_, _, rfl, rfl, by decide, by decide⟩
  | num n =>
    obtain ⟨c, cs, hcs, hspace, hother⟩ := opens_number (hprint n)
    refine ⟨c, cs, hcs, hspace, ?_, ?_⟩
    all_goals
      rintro rfl
      exact hother (by decide)
  | str s => exact ⟨_, _, rfl, rfl, by decide, by decide⟩
  | arr items => exact ⟨_, _, rfl, rfl, by decide, by decide⟩
  | obj members => exact ⟨_, _, rfl, rfl, by decide, by decide⟩

theorem length_further (i : Nat) (es : List (List Char)) : es.length ≤ (further i es).length := by
  induction es with
  | nil => exact Nat.le_refl 0
  | cons e es ih =>
    simp only [further, List.length_cons, List.length_append]
    omega

section Inside

variable {entry : List Char → Option (α × List Char)} {closing : Char} {print : β → List Char}
  {read : β → α} {i j : Nat}

/-- Entries on lines of their own are read back, when each of them is. -/
theorem entries_body (hspace : isSpace closing = false) (hcomma : closing ≠ ',')
    (hnewline : ∀ i cs, entry (newline i ++ cs) = entry cs) {e : β} {es : List β}
    (hentry : ∀ e' ∈ e :: es, ∀ rest, Ends rest →
      entry (print e' ++ rest) = some (read e', rest)) {fuel : Nat} (hfuel : es.length < fuel)
    (rest : List Char) :
    entries entry closing fuel
      (newline i ++ (print e ++ (further i (es.map print) ++ (newline j ++ closing :: rest)))) =
      some (read e :: es.map read, rest) := by
  induction es generalizing e fuel with
  | nil =>
    cases fuel with
    | zero => cases hfuel
    | succ fuel =>
      rw [entries, hnewline]
      simp only [List.map_nil, further, List.nil_append]
      rw [hentry e (.head _) _ (ends_newline j _)]
      simp only [Option.bind_eq_bind, Option.bind_some]
      rw [skip_newline, skip_of_head hspace]
      simp
  | cons e' es ih =>
    cases fuel with
    | zero => cases hfuel
    | succ fuel =>
      rw [entries, hnewline]
      simp only [List.map_cons, further, List.cons_append, List.append_assoc]
      rw [hentry e (.head _) _ (by rintro c ⟨⟩; rfl)]
      simp only [Option.bind_eq_bind, Option.bind_some]
      rw [skip_of_head rfl]
      have hrest := ih (e := e') (fun e'' he'' => hentry e'' (.tail _ he''))
        (Nat.lt_of_succ_lt_succ hfuel)
      simp only [hrest, if_neg hcomma.symm, if_true]
      rfl

/-- What stands between brackets is read back. -/
theorem inside_body (hspace : isSpace closing = false) (hcomma : closing ≠ ',')
    (hnewline : ∀ i cs, entry (newline i ++ cs) = entry cs) {es : List β}
    (hopens : ∀ e ∈ es, ∃ c cs, print e = c :: cs ∧ isSpace c = false ∧ c ≠ closing)
    (hentry : ∀ e ∈ es, ∀ rest, Ends rest → entry (print e ++ rest) = some (read e, rest))
    (rest : List Char) :
    inside entry closing (body closing i (es.map print) ++ rest) = some (es.map read, rest) := by
  cases es with
  | nil =>
    unfold inside body
    simp [skip_of_head hspace]
  | cons e es =>
    obtain ⟨c, cs, hcs, hc, hne⟩ := hopens e (.head _)
    unfold inside
    simp only [List.map_cons, body, List.append_assoc, skip_newline]
    rw [hcs, List.cons_append, skip_of_head hc]
    dsimp only
    rw [if_neg hne, ← List.cons_append, ← hcs]
    refine entries_body hspace hcomma hnewline hentry ?_ rest
    have hlength := length_further (i + 1) (es.map print)
    rw [List.length_map] at hlength
    simp only [List.length_append, newline, List.length_cons]
    omega

end Inside

/-- Space before a value does not matter. -/
theorem value_congr {cs cs' : List Char} (h : skip cs = skip cs') (d : Nat) :
    value d cs = value d cs' := by
  have hstart (array object : List Char → Option (Json (List Char) × List Char)) :
      start array object cs = start array object cs' := by
    unfold start
    rw [h]
  cases d with
  | zero => exact hstart _ _
  | succ d => exact hstart _ _

theorem value_newline (d i : Nat) (cs : List Char) : value d (newline i ++ cs) = value d cs :=
  value_congr (skip_newline i cs) d

theorem member_newline (value : List Char → Option (α × List Char)) (i : Nat) (cs : List Char) :
    member value (newline i ++ cs) = member value cs := by
  simp only [member, skip_newline]

theorem skip_quote (s : String) (cs : List Char) :
    skip (quote s ++ cs) = '"' :: (s.toList.flatMap escape ++ '"' :: cs) := by
  rw [quote, List.cons_append, skip_of_head rfl, List.append_assoc]
  rfl

/-- A printed member is read back, when its value is. -/
theorem member_quoted {value : List Char → Option (α × List Char)} {k : String}
    {cs rest : List Char} {a : α} (hvalue : value (' ' :: cs) = some (a, rest)) :
    member value (quote k ++ ':' :: ' ' :: cs) = some ((k, a), rest) := by
  unfold member
  rw [skip_quote]
  simp [chars_quoted, skip_of_head (c := ':') rfl, hvalue]

theorem start_quoted {array object : List Char → Option (Json (List Char) × List Char)} (s : String)
    (rest : List Char) : start array object (quote s ++ rest) = some (str s, rest) := by
  unfold start
  rw [skip_quote]
  simp [chars_quoted]

theorem value_space (d : Nat) (cs : List Char) : value d (' ' :: cs) = value d cs := by
  have hskip : skip (' ' :: cs) = skip cs := rfl
  exact value_congr hskip d

theorem le_foldr_max {n : Nat} {l : List Nat} (h : n ∈ l) : n ≤ l.foldr max 0 := by
  induction l with
  | nil => cases h
  | cons m l ih =>
    rw [List.foldr_cons]
    rcases List.mem_cons.mp h with rfl | h
    · exact Nat.le_max_left _ _
    · exact Nat.le_trans (ih h) (Nat.le_max_right _ _)

/-- What is printed is read back, up to the depth of the value. -/
theorem value_pretty {print : ν → List Char} (hprint : ∀ n, isNumber (print n) = true)
    (v : Json ν) {i d : Nat} {rest : List Char} (hdepth : v.depth ≤ d) (hrest : Ends rest) :
    value d (pretty print v i ++ rest) = some (v.map print, rest) := by
  induction v generalizing i d rest with
  | null => cases d <;> rfl
  | bool b => cases b <;> cases d <;> rfl
  | num n =>
    cases d with
    | zero => exact start_number (hprint n) hrest
    | succ d => exact start_number (hprint n) hrest
  | str s =>
    cases d with
    | zero => exact start_quoted s rest
    | succ d => exact start_quoted s rest
  | arr items ih =>
    rw [depth_arr] at hdepth
    obtain ⟨d, rfl⟩ : ∃ d', d = d' + 1 := ⟨d - 1, by omega⟩
    have hitem : ∀ v ∈ items, ∀ rest, Ends rest →
        value d (pretty print v (i + 1) ++ rest) = some (v.map print, rest) := by
      intro v hv rest hrest
      have hmax := le_foldr_max (List.mem_map_of_mem (f := depth) hv)
      exact ih v hv (by omega) hrest
    have hopens : ∀ v ∈ items, ∃ c cs, pretty print v (i + 1) = c :: cs ∧ isSpace c = false ∧
        c ≠ ']' := by
      intro v _
      obtain ⟨c, cs, hcs, hspace, hne, -⟩ := opens_pretty hprint v (i + 1)
      exact ⟨c, cs, hcs, hspace, hne⟩
    have hinside := inside_body (i := i) rfl (by decide) (value_newline d) hopens hitem rest
    rw [pretty_arr, List.cons_append, value, start, skip_of_head rfl]
    simp [hinside]
  | obj members ih =>
    rw [depth_obj] at hdepth
    obtain ⟨d, rfl⟩ : ∃ d', d = d' + 1 := ⟨d - 1, by omega⟩
    have hmember : ∀ m ∈ members, ∀ rest, Ends rest →
        member (value d) (quote m.1 ++ ':' :: ' ' :: pretty print m.2 (i + 1) ++ rest) =
          some ((m.1, m.2.map print), rest) := by
      intro m hm rest hrest
      have hmax := le_foldr_max (List.mem_map_of_mem (f := fun m => m.2.depth) hm)
      rw [List.append_assoc]
      refine member_quoted ?_
      rw [value_space]
      exact ih m hm (by omega) hrest
    have hopens : ∀ m ∈ members, ∃ c cs,
        quote m.1 ++ ':' :: ' ' :: pretty print m.2 (i + 1) = c :: cs ∧ isSpace c = false ∧
        c ≠ '}' :=
      fun m _ => ⟨'"', _, rfl, rfl, by decide⟩
    have hinside := inside_body (i := i) rfl (by decide) (member_newline (value d)) hopens hmember
      rest
    rw [pretty_obj, List.cons_append, value, start, skip_of_head rfl]
    simp [hinside]

/-- What is printed is read back. -/
theorem parse_pretty {print : ν → List Char} (hprint : ∀ n, isNumber (print n) = true) {v : Json ν}
    {depth : Nat} (hdepth : v.depth ≤ depth) (i : Nat) :
    parse depth (pretty print v i) = some (v.map print) := by
  have hvalue : value depth (pretty print v i ++ []) = some (v.map print, []) :=
    value_pretty hprint v hdepth nofun
  rw [List.append_nil] at hvalue
  rw [parse, hvalue]
  rfl

end Values

end Json
