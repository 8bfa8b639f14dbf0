import HamsOpen.Flex.Text
import HamsOpen.Lib.Memory
import HamsOpen.Lib.OrderedMap
import Mathlib

/-!
# The firmware loader

How the host puts an image into the RAM of the chip (`hams_fx2.py`): the image is read from Intel
HEX text, put into writes with the gaps filled up, written while the CPU is in reset, and read back
before the CPU is released. The device may answer a transfer with anything, or not at all.
-/

namespace HamsOpen.StationIo.Loader

open Flex (Text)

abbrev Bytes := List UInt8

def REQ_FIRMWARE_LOAD : ℕ := 0xA0
def CPUCS_ADDR : ℕ := 0xE600
def CODE_RAM_END : ℕ := 0x4000
def CHUNK : ℕ := 1024
def MAX_GAP : ℕ := 0x400

/-- What is raised. -/
inductive Failure
  | fx2 (message : String)
  /-- Text that is not hexadecimal. -/
  | value
  /-- A transfer that failed. -/
  | usb (message : String)
  deriving DecidableEq

abbrev Image := OrderedMap ℕ UInt8

/-! ### The image of a text -/

/-- White space, and the ends of lines. -/
def isSpace (c : Char) : Bool := Flex.isSpace c || (0x1C ≤ c.toNat && c.toNat ≤ 0x1F)

def isLineEnd (c : Char) : Bool :=
  c.toNat ∈ [0x0A, 0x0B, 0x0C, 0x0D, 0x1C, 0x1D, 0x1E, 0x85, 0x2028, 0x2029]

/-- The lines of a text; `line` is what was read of the first one. -/
def linesFrom (line : Text) : Text → List Text
  | [] => if line = [] then [] else [line]
  | '\r' :: '\n' :: t => line :: linesFrom [] t
  | c :: t => if isLineEnd c then line :: linesFrom [] t else linesFrom (line ++ [c]) t

def splitlines (t : Text) : List Text := linesFrom [] t

def strip (t : Text) : Text := (t.dropWhile isSpace).rdropWhile isSpace

/-- The bytes of a text of two digits each, which may have white space between them. -/
def fromHex : Text → Option Bytes
  | [] => some []
  | [c] => if c.toNat = 0x20 ∨ 9 ≤ c.toNat ∧ c.toNat ≤ 13 then some [] else none
  | c :: d :: t =>
    if c.toNat = 0x20 ∨ 9 ≤ c.toNat ∧ c.toNat ≤ 13 then fromHex (d :: t)
    else match Flex.digit 16 c, Flex.digit 16 d with
      | some hi, some lo => (fromHex t).map (.ofNat (16 * hi + lo) :: ·)
      | _, _ => none

/-- Bytes at an address and after it. -/
def putAll (addr : ℕ) (data : Bytes) (image : Image) : Image :=
  data.zipIdx.foldl (fun m b => m.put (addr + b.2) b.1) image

/-- The lines of a text, with their numbers; only data and the end are legal. -/
def parseLines (image : Image) : List (Text × ℕ) → Except Failure Image
  | [] => .error (.fx2 "hex file has no end-of-file record")
  | (line, lineno) :: rest =>
    let bad (why : String) : Except Failure Image :=
      .error (.fx2 ("hex line " ++ toString lineno ++ ": " ++ why))
    match strip line with
    | [] => parseLines image rest
    | ':' :: digits =>
      match fromHex digits with
      | none => .error .value
      | some (count :: hi :: lo :: rtype :: tail) =>
        let raw := count :: hi :: lo :: rtype :: tail
        if raw.length < 5 ∨ count.toNat ≠ raw.length - 5 ∨
            (raw.map UInt8.toNat).sum % 256 ≠ 0 then bad "bad length or checksum"
        else if rtype = 1 then .ok image
        else if rtype ≠ 0 then bad ("unsupported record type " ++ toString rtype.toNat)
        else parseLines (putAll (hi.toNat * 256 + lo.toNat) (tail.take count.toNat) image) rest
      | some _ => bad "bad length or checksum"
    | _ => bad "no colon"

def parseIhx (text : Text) : Except Failure Image :=
  parseLines (.make []) ((splitlines text).zipIdx 1)

/-! ### The writes for an image -/

/-- Four hexadecimal digits, or more. -/
def hex4 (n : ℕ) : String :=
  let digits := (Nat.toDigits 16 n).map Char.toUpper
  String.ofList (List.replicate (4 - digits.length) '0' ++ digits)

/-- Bytes after those of a chunk, as long as the gaps are small enough. -/
def groupFrom (maxGap start : ℕ) (buf : Bytes) : List (ℕ × UInt8) → List (ℕ × Bytes)
  | [] => [(start, buf)]
  | (addr, b) :: rest =>
    let gap := addr - (start + buf.length)
    if gap ≤ maxGap then groupFrom maxGap start (buf ++ (List.replicate gap 0 ++ [b])) rest
    else (start, buf) :: groupFrom maxGap addr [b] rest

/-- A chunk in pieces. -/
def split (c : ℕ × Bytes) : List (ℕ × Bytes) :=
  (List.range ((c.2.length + (CHUNK - 1)) / CHUNK)).map fun i =>
    (c.1 + i * CHUNK, (c.2.drop (i * CHUNK)).take CHUNK)

def imageChunks (image : Image) (maxGap : ℕ) : Except Failure (List (ℕ × Bytes)) :=
  match image.entries with
  | [] => .error (.fx2 "empty firmware image")
  | (addr, b) :: rest =>
    let max := (rest.getLastD (addr, b)).1
    if CODE_RAM_END ≤ max then
      .error (.fx2 ("image byte at 0x" ++ hex4 max ++ " is outside code RAM 0x0000-0x3FFF"))
    else .ok ((groupFrom maxGap addr [b] rest).flatMap split)

/-! ### A load -/

/-- A control transfer. -/
inductive Transfer
  | ctrlOut (reqType req value index : ℕ) (data : Bytes)
  | ctrlIn (reqType req value index length : ℕ)
  deriving DecidableEq

/-- What the device answers to the last of some transfers. -/
abbrev Transport := List Transfer → Except Failure Bytes

def hold : Transfer := .ctrlOut 0x40 REQ_FIRMWARE_LOAD CPUCS_ADDR 0 [1]
def release : Transfer := .ctrlOut 0x40 REQ_FIRMWARE_LOAD CPUCS_ADDR 0 [0]
def write (c : ℕ × Bytes) : Transfer := .ctrlOut 0x40 REQ_FIRMWARE_LOAD c.1 0 c.2
def readBack (c : ℕ × Bytes) : Transfer := .ctrlIn 0xC0 REQ_FIRMWARE_LOAD c.1 0 c.2.length

section Load

variable (t : Transport)

def writeAll (log : List Transfer) : List (ℕ × Bytes) → List Transfer × Except Failure Unit
  | [] => (log, .ok ())
  | c :: rest =>
    match t (log ++ [write c]) with
    | .error e => (log ++ [write c], .error e)
    | .ok _ => writeAll (log ++ [write c]) rest

def verifyAll (log : List Transfer) : List (ℕ × Bytes) → List Transfer × Except Failure Unit
  | [] => (log, .ok ())
  | c :: rest =>
    match t (log ++ [readBack c]) with
    | .error e => (log ++ [readBack c], .error e)
    | .ok back =>
      if back ≠ c.2 then
        (log ++ [readBack c], .error (.fx2 ("RAM readback mismatch at 0x" ++ hex4 c.1 ++
          "; CPU left in reset, unplug the board to recover")))
      else verifyAll (log ++ [readBack c]) rest

/-- Puts an image into the RAM: the transfers that were made, and how many bytes were written. -/
def loadRam (image : Image) : List Transfer × Except Failure ℕ :=
  match imageChunks image MAX_GAP with
  | .error e => ([], .error e)
  | .ok chunks =>
    match t [hold] with
    | .error e => ([hold], .error e)
    | .ok _ =>
      match writeAll t [hold] chunks with
      | (log, .error e) => (log, .error e)
      | (log, .ok ()) =>
        match verifyAll t log chunks with
        | (log, .error e) => (log, .error e)
        | (log, .ok ()) =>
          match t (log ++ [release]) with
          | .error e => (log ++ [release], .error e)
          | .ok _ => (log ++ [release], .ok (chunks.map (·.2.length)).sum)

/-- Reads a text, and puts its image into the RAM. -/
def cmdLoad (text : Text) : List Transfer × Except Failure ℕ :=
  match parseIhx text with
  | .error e => ([], .error e)
  | .ok image => loadRam t image

end Load

/-! ### What a load has to be -/

/-- The cells of bytes at an address. -/
def cellsFrom (a : ℕ) : Bytes → List (ℕ × UInt8)
  | [] => []
  | b :: data => (a, b) :: cellsFrom (a + 1) data

def cells (c : ℕ × Bytes) : List (ℕ × UInt8) := cellsFrom c.1 c.2

/-- The RAM after some writes. -/
def after (ram : ℕ → UInt8) (chunks : List (ℕ × Bytes)) : ℕ → UInt8 :=
  chunks.foldl (fun m c => Memory.store m (cells c)) ram

/-- An address between two that follow each other, with no more than so many between them. -/
def InGap (maxGap : ℕ) (keys : List ℕ) (a : ℕ) : Prop :=
  ∃ lo ∈ keys, ∃ hi ∈ keys, lo < a ∧ a < hi ∧ hi - lo ≤ maxGap + 1 ∧ ∀ k ∈ keys, k ≤ lo ∨ hi ≤ k

/-- A write has an address. -/
def Has (c : ℕ × Bytes) (a : ℕ) : Prop := c.1 ≤ a ∧ a < c.1 + c.2.length

/-- Writes for an image: small, in the code RAM, apart from one another, and such that the RAM has
the image then, and zeros in its gaps. -/
structure Placed (image : Image) (chunks : List (ℕ × Bytes)) : Prop where
  small : ∀ c ∈ chunks, 0 < c.2.length ∧ c.2.length ≤ CHUNK
  inside : ∀ c ∈ chunks, c.1 + c.2.length ≤ CODE_RAM_END
  disjoint : chunks.Pairwise fun c c' => c.1 + c.2.length ≤ c'.1
  held : ∀ ram, ∀ e ∈ image.entries, after ram chunks e.1 = e.2
  zeros : ∀ ram a, (∃ c ∈ chunks, Has c a) → a ∉ image.entries.map (·.1) →
    after ram chunks a = 0 ∧ InGap MAX_GAP (image.entries.map (·.1)) a
  untouched : ∀ ram a, (∀ c ∈ chunks, ¬ Has c a) → after ram chunks a = ram a

/-- The transfers of a whole load. -/
def plan (chunks : List (ℕ × Bytes)) : List Transfer :=
  hold :: (chunks.map write ++ chunks.map readBack ++ [release])

/-- Every write was read back as it was written. -/
def ReadBack (t : Transport) (chunks : List (ℕ × Bytes)) : Prop :=
  ∀ before c rest, chunks = before ++ c :: rest →
    t (hold :: (chunks.map write ++ before.map readBack) ++ [readBack c]) = .ok c.2

/-! ### Cells -/

section Cells

variable {a n : ℕ} {data : Bytes} {x : ℕ × UInt8}

theorem cellsFrom_append (data' : Bytes) :
    cellsFrom a (data ++ data') = cellsFrom a data ++ cellsFrom (a + data.length) data' := by
  induction data generalizing a with
  | nil => rfl
  | cons b data ih =>
    rw [List.cons_append, cellsFrom, ih, List.length_cons, Nat.add_right_comm, Nat.add_assoc]
    rfl

theorem mem_cellsFrom (h : x ∈ cellsFrom a data) : a ≤ x.1 ∧ x.1 < a + data.length := by
  induction data generalizing a with
  | nil => cases h
  | cons b data ih =>
    rw [List.length_cons]
    rcases List.mem_cons.mp h with rfl | h
    · exact ⟨Nat.le_refl _, Nat.lt_add_of_pos_right (Nat.succ_pos _)⟩
    · have hin := ih h
      omega

theorem exists_cell {k : ℕ} (hlo : a ≤ k) (hhi : k < a + data.length) :
    ∃ x ∈ cellsFrom a data, x.1 = k := by
  induction data generalizing a with
  | nil => exact absurd hhi (by simpa using hlo)
  | cons b data ih =>
    rw [List.length_cons] at hhi
    rcases Nat.eq_or_lt_of_le hlo with rfl | hlt
    · exact ⟨_, List.mem_cons_self, rfl⟩
    · obtain ⟨x, hx, hk⟩ := ih hlt (by omega)
      exact ⟨x, List.mem_cons_of_mem _ hx, hk⟩

theorem cellsFrom_pairwise : (cellsFrom a data).Pairwise fun x y => x.1 < y.1 := by
  induction data generalizing a with
  | nil => exact .nil
  | cons b data ih => exact .cons (fun y hy => (mem_cellsFrom hy).1) ih

theorem snd_of_mem_zeros (h : x ∈ cellsFrom a (List.replicate n 0)) : x.2 = 0 := by
  induction n generalizing a with
  | zero => cases h
  | succ n ih =>
    rcases List.mem_cons.mp h with rfl | h
    · rfl
    · exact ih h

/-- The pieces of a chunk have its cells. -/
theorem cells_pieces (k : ℕ) (h : data.length ≤ k * CHUNK) :
    ((List.range k).map fun i =>
      (a + i * CHUNK, (data.drop (i * CHUNK)).take CHUNK)).flatMap cells = cellsFrom a data := by
  induction k generalizing a data with
  | zero =>
    obtain rfl := List.eq_nil_of_length_eq_zero (Nat.le_zero.mp (by simpa using h))
    rfl
  | succ k ih =>
    rw [Nat.succ_mul] at h
    have hshort : (data.drop CHUNK).length ≤ k * CHUNK := by
      rw [List.length_drop]
      omega
    have hrest := ih (a := a + CHUNK) hshort
    rw [List.range_succ_eq_map, List.map_cons, List.map_map, List.flatMap_cons]
    have hshift : ∀ i, a + (i + 1) * CHUNK = a + CHUNK + i * CHUNK := by
      intro i
      rw [Nat.succ_mul]
      omega
    have hdrop : ∀ i, data.drop ((i + 1) * CHUNK) = (data.drop CHUNK).drop (i * CHUNK) := by
      intro i
      rw [List.drop_drop, Nat.succ_mul, Nat.add_comm]
    simp only [Function.comp_def, Nat.succ_eq_add_one, hshift, hdrop]
    rw [hrest, cells, Nat.zero_mul, List.drop_zero, Nat.add_zero]
    rcases Nat.lt_or_ge CHUNK data.length with hlong | hshort
    · have hlength : (data.take CHUNK).length = CHUNK := by
        rw [List.length_take]
        omega
      conv_rhs => rw [← List.take_append_drop CHUNK data, cellsFrom_append, hlength]
    · rw [List.take_of_length_le hshort, List.drop_of_length_le hshort, cellsFrom, List.append_nil]

theorem cells_split (c : ℕ × Bytes) : (split c).flatMap cells = cells c :=
  cells_pieces _ (by
    have hdiv := Nat.div_add_mod (c.2.length + (CHUNK - 1)) CHUNK
    have hmod := Nat.mod_lt (c.2.length + (CHUNK - 1)) (show 0 < CHUNK by decide)
    have hchunk : CHUNK = 1024 := rfl
    rw [hchunk] at hdiv hmod ⊢
    omega)

theorem small_of_mem_split {c d : ℕ × Bytes} (h : d ∈ split c) :
    0 < d.2.length ∧ d.2.length ≤ CHUNK := by
  obtain ⟨i, hi, rfl⟩ := List.mem_map.mp h
  have hi' := List.mem_range.mp hi
  have hchunk : CHUNK = 1024 := rfl
  rw [hchunk] at hi' ⊢
  simp only [List.length_take, List.length_drop]
  omega

end Cells

/-! ### Entries with their gaps filled up -/

/-- Cells from an address on: the entries, and zeros in the gaps that are small enough. -/
def spread (maxGap next : ℕ) : List (ℕ × UInt8) → List (ℕ × UInt8)
  | [] => []
  | e :: rest =>
    (if e.1 - next ≤ maxGap then cellsFrom next (List.replicate (e.1 - next) 0) else []) ++
      e :: spread maxGap (e.1 + 1) rest

section Spread

variable {maxGap next start : ℕ} {buf : Bytes} {rest : List (ℕ × UInt8)} {e x : ℕ × UInt8}

theorem cells_groupFrom (hsorted : rest.Pairwise fun e e' => e.1 < e'.1)
    (hnext : ∀ e ∈ rest, start + buf.length ≤ e.1) :
    (groupFrom maxGap start buf rest).flatMap cells =
      cellsFrom start buf ++ spread maxGap (start + buf.length) rest := by
  induction rest generalizing start buf with
  | nil => simp [groupFrom, spread, cells]
  | cons e rest ih =>
    obtain ⟨hlater, hrest⟩ := List.pairwise_cons.mp hsorted
    have hle := hnext e List.mem_cons_self
    rw [groupFrom, spread]
    by_cases hgap : e.1 - (start + buf.length) ≤ maxGap
    · rw [if_pos hgap, if_pos hgap]
      have hend : start + (buf ++ (List.replicate (e.1 - (start + buf.length)) 0 ++
          [e.2])).length = e.1 + 1 := by
        simp only [List.length_append, List.length_replicate, List.length_singleton]
        omega
      rw [ih hrest (by rw [hend]; exact hlater), hend, cellsFrom_append, cellsFrom_append,
        List.length_replicate, Nat.add_sub_cancel' hle, cellsFrom, cellsFrom]
      simp only [List.append_assoc, List.singleton_append]
    · rw [if_neg hgap, if_neg hgap, List.flatMap_cons, ih hrest fun d hd => hlater d hd, cells]
      rfl

theorem le_of_mem_spread (hsorted : rest.Pairwise fun e e' => e.1 < e'.1)
    (hnext : ∀ e ∈ rest, next ≤ e.1) (hx : x ∈ spread maxGap next rest) : next ≤ x.1 := by
  induction rest generalizing next with
  | nil => cases hx
  | cons e rest ih =>
    obtain ⟨hlater, hrest⟩ := List.pairwise_cons.mp hsorted
    have hle := hnext e List.mem_cons_self
    rw [spread] at hx
    rcases List.mem_append.mp hx with hx | hx
    · split at hx
      · exact (mem_cellsFrom hx).1
      · cases hx
    · rcases List.mem_cons.mp hx with rfl | hx
      · exact hle
      · have hin := ih hrest hlater hx
        omega

/-- Each address comes once, in order. -/
theorem spread_pairwise (hsorted : rest.Pairwise fun e e' => e.1 < e'.1)
    (hnext : ∀ e ∈ rest, next ≤ e.1) :
    (spread maxGap next rest).Pairwise fun x y => x.1 < y.1 := by
  induction rest generalizing next with
  | nil => exact .nil
  | cons e rest ih =>
    obtain ⟨hlater, hrest⟩ := List.pairwise_cons.mp hsorted
    have hle := hnext e List.mem_cons_self
    rw [spread]
    refine List.pairwise_append.mpr ⟨?_, .cons (fun y hy => ?_) (ih hrest hlater), ?_⟩
    · split
      · exact cellsFrom_pairwise
      · exact .nil
    · exact le_of_mem_spread hrest hlater hy
    · intro x hx y hy
      split at hx
      · have hin := mem_cellsFrom hx
        rw [List.length_replicate] at hin
        rcases List.mem_cons.mp hy with rfl | hy
        · omega
        · have hin' := le_of_mem_spread hrest hlater hy
          omega
      · cases hx

theorem mem_spread (he : e ∈ rest) : e ∈ spread maxGap next rest := by
  induction rest generalizing next with
  | nil => cases he
  | cons d rest ih =>
    rw [spread]
    rcases List.mem_cons.mp he with rfl | he
    · exact List.mem_append_right _ List.mem_cons_self
    · exact List.mem_append_right _ (List.mem_cons_of_mem _ (ih he))

/-- What is no entry is a zero in a gap, after the entry before. -/
theorem gap_of_mem_spread {p : ℕ × UInt8}
    (hsorted : (p :: rest).Pairwise fun e e' => e.1 < e'.1)
    (hx : x ∈ spread maxGap (p.1 + 1) rest) :
    x ∈ rest ∨ x.2 = 0 ∧ InGap maxGap ((p :: rest).map (·.1)) x.1 := by
  induction rest generalizing p with
  | nil => cases hx
  | cons e rest ih =>
    obtain ⟨hlater, hrest⟩ := List.pairwise_cons.mp hsorted
    have hbefore := hlater e List.mem_cons_self
    rw [spread] at hx
    rcases List.mem_append.mp hx with hx | hx
    · right
      split at hx
      next hgap =>
        have hin := mem_cellsFrom hx
        rw [List.length_replicate] at hin
        refine ⟨snd_of_mem_zeros hx, p.1, by simp, e.1, by simp, by omega, by omega, by omega, ?_⟩
        -- the entries after it are later still
        intro k hk
        rcases List.mem_cons.mp hk with rfl | hk
        · exact .inl (Nat.le_refl _)
        · obtain ⟨d, hd, rfl⟩ := List.mem_map.mp hk
          rcases List.mem_cons.mp hd with rfl | hd
          · exact .inr (Nat.le_refl _)
          · exact .inr (Nat.le_of_lt ((List.pairwise_cons.mp hrest).1 d hd))
      · cases hx
    · rcases List.mem_cons.mp hx with rfl | hx
      · exact .inl List.mem_cons_self
      · rcases ih hrest hx with hx | ⟨hzero, lo, hlo, hi, hhi, hlt, hlt', hgap, hnone⟩
        · exact .inl (List.mem_cons_of_mem _ hx)
        · right
          refine ⟨hzero, lo, List.mem_cons_of_mem _ hlo, hi, List.mem_cons_of_mem _ hhi, hlt, hlt',
            hgap, fun k hk => ?_⟩
          rcases List.mem_cons.mp hk with rfl | hk
          · obtain ⟨d, hd, rfl⟩ := List.mem_map.mp hlo
            exact .inl (Nat.le_of_lt (hlater d hd))
          · exact hnone k hk

end Spread

/-! ### The writes are what they have to be -/

section Writes

variable {image : Image} {chunks : List (ℕ × Bytes)} {ram : ℕ → UInt8}

theorem after_eq : after ram chunks = Memory.store ram (chunks.flatMap cells) := by
  induction chunks generalizing ram with
  | nil => rfl
  | cons c chunks ih =>
    rw [List.flatMap_cons, Memory.store_append]
    exact ih

theorem has_iff {c : ℕ × Bytes} {a : ℕ} : Has c a ↔ ∃ x ∈ cells c, x.1 = a := by
  constructor
  · rintro ⟨hlo, hhi⟩
    exact exists_cell hlo hhi
  · rintro ⟨x, hx, rfl⟩
    exact mem_cellsFrom hx

/-- Entries in order are up to the last of them. -/
theorem le_getLastD {e d : ℕ × UInt8} {rest : List (ℕ × UInt8)}
    (hsorted : (e :: rest).Pairwise fun e e' => e.1 < e'.1) (hd : d ∈ e :: rest) :
    d.1 ≤ (rest.getLastD e).1 := by
  induction rest generalizing e d with
  | nil =>
    obtain rfl := List.mem_singleton.mp hd
    exact Nat.le_refl _
  | cons f rest ih =>
    obtain ⟨hlater, hrest⟩ := List.pairwise_cons.mp hsorted
    rw [List.getLastD_cons]
    rcases List.mem_cons.mp hd with rfl | hd
    · have hnext := hlater f List.mem_cons_self
      have hlast := ih hrest List.mem_cons_self
      omega
    · exact ih hrest hd

/-- Cells in order have each address once. -/
theorem agree_of_pairwise {l : List (ℕ × UInt8)} (h : l.Pairwise fun x y => x.1 < y.1) :
    Memory.Agree l := by
  have hne : l.Pairwise fun x y => x.1 ≠ y.1 := h.imp fun hlt => Nat.ne_of_lt hlt
  intro x hx y hy heq
  by_contra hother
  have : Std.Symm fun x y : ℕ × UInt8 => x.1 ≠ y.1 := ⟨fun _ _ => Ne.symm⟩
  exact hne.forall hx hy hother heq

/-- Writes whose cells are in order, each of them an entry or a zero in a gap. -/
theorem placed_of_cells (hsmall : ∀ c ∈ chunks, 0 < c.2.length ∧ c.2.length ≤ CHUNK)
    (hpairwise : (chunks.flatMap cells).Pairwise fun x y => x.1 < y.1)
    (hbelow : ∀ x ∈ chunks.flatMap cells, x.1 < CODE_RAM_END)
    (hheld : ∀ e ∈ image.entries, e ∈ chunks.flatMap cells)
    (hkind : ∀ x ∈ chunks.flatMap cells,
      x ∈ image.entries ∨ x.2 = 0 ∧ InGap MAX_GAP (image.entries.map (·.1)) x.1) :
    Placed image chunks := by
  have hagree := agree_of_pairwise hpairwise
  have hlast : ∀ c ∈ chunks, ∃ x ∈ cells c, x.1 = c.1 + c.2.length - 1 := by
    intro c hc
    have hlength := (hsmall c hc).1
    exact exists_cell (by omega) (by omega)
  refine ⟨hsmall, fun c hc => ?_, ?_, fun ram e he => ?_, fun ram a ⟨c, hc, ha⟩ hkey => ?_,
    fun ram a hnone => ?_⟩
  · obtain ⟨x, hx, heq⟩ := hlast c hc
    have hlt := hbelow x (List.mem_flatMap.mpr ⟨c, hc, hx⟩)
    omega
  · refine (List.pairwise_flatMap.mp hpairwise).2.imp_of_mem fun {c d} hc hd hlt => ?_
    obtain ⟨x, hx, heq⟩ := hlast c hc
    have hlength := (hsmall d hd).1
    obtain ⟨y, hy, heq'⟩ : ∃ y ∈ cells d, y.1 = d.1 :=
      exists_cell (Nat.le_refl _) (by omega)
    have hxy := hlt x hx y hy
    omega
  · rw [after_eq]
    exact Memory.store_of_mem hagree (hheld e he)
  · obtain ⟨x, hx, rfl⟩ := has_iff.mp ha
    have hmem := List.mem_flatMap.mpr ⟨c, hc, hx⟩
    rcases hkind x hmem with hentry | ⟨hzero, hgap⟩
    · exact absurd (List.mem_map_of_mem hentry) hkey
    · rw [after_eq, Memory.store_of_mem hagree hmem]
      exact ⟨hzero, hgap⟩
  · rw [after_eq]
    apply Memory.store_of_forall_ne
    intro x hx heq
    obtain ⟨c, hc, hx⟩ := List.mem_flatMap.mp hx
    exact hnone c hc (has_iff.mpr ⟨x, hx, heq⟩)

theorem placed_of_imageChunks (h : imageChunks image MAX_GAP = .ok chunks) :
    Placed image chunks := by
  unfold imageChunks at h
  split at h
  · cases h
  next addr b rest hentries =>
    dsimp only at h
    split at h
    · cases h
    next hmax =>
      cases h
      have hsorted := image.sorted
      rw [hentries] at hsorted
      obtain ⟨hlater, hrest⟩ := List.pairwise_cons.mp hsorted
      have hcells : ((groupFrom MAX_GAP addr [b] rest).flatMap split).flatMap cells =
          (addr, b) :: spread MAX_GAP (addr + 1) rest := by
        rw [List.flatMap_assoc]
        simp only [cells_split]
        exact cells_groupFrom hrest hlater
      have hpairwise : ((addr, b) :: spread MAX_GAP (addr + 1) rest).Pairwise
          fun x y => x.1 < y.1 :=
        .cons (fun y hy => le_of_mem_spread hrest hlater hy) (spread_pairwise hrest hlater)
      have hkind : ∀ x ∈ (addr, b) :: spread MAX_GAP (addr + 1) rest, x ∈ (addr, b) :: rest ∨
          x.2 = 0 ∧ InGap MAX_GAP (((addr, b) :: rest).map (·.1)) x.1 := by
        intro x hx
        rcases List.mem_cons.mp hx with rfl | hx
        · exact .inl List.mem_cons_self
        · exact (gap_of_mem_spread (p := (addr, b)) hsorted hx).imp_left (List.mem_cons_of_mem _)
      have hbelow : ∀ x ∈ (addr, b) :: spread MAX_GAP (addr + 1) rest, x.1 < CODE_RAM_END := by
        intro x hx
        have hlast {d : ℕ × UInt8} (hd : d ∈ (addr, b) :: rest) := le_getLastD hsorted hd
        rcases hkind x hx with hx | ⟨-, -, -, hi, hhi, -, hlt, -⟩
        · have hle := hlast hx
          omega
        · obtain ⟨d, hd, rfl⟩ := List.mem_map.mp hhi
          have hle := hlast hd
          omega
      have hheld : ∀ e ∈ (addr, b) :: rest, e ∈ (addr, b) :: spread MAX_GAP (addr + 1) rest := by
        intro e he
        rcases List.mem_cons.mp he with rfl | he
        · exact List.mem_cons_self
        · exact List.mem_cons_of_mem _ (mem_spread he)
      rw [← hcells, ← hentries] at hkind hheld
      rw [← hcells] at hpairwise hbelow
      refine placed_of_cells (fun d hd => ?_) hpairwise hbelow hheld hkind
      obtain ⟨c, -, hd⟩ := List.mem_flatMap.mp hd
      exact small_of_mem_split hd

end Writes

/-! ### A load is a part of its plan -/

section Runs

variable {t : Transport} {image : Image} {chunks : List (ℕ × Bytes)}

theorem writeAll_spec (t : Transport) (chunks : List (ℕ × Bytes)) (log : List Transfer) :
    ∃ done, done <+: chunks.map write ∧
    (writeAll t log chunks).1 = log ++ done ∧
      ((writeAll t log chunks).2 = .ok () → done = chunks.map write) := by
  induction chunks generalizing log with
  | nil => exact ⟨[], List.prefix_refl _, (List.append_nil log).symm, fun _ => rfl⟩
  | cons c rest ih =>
    rw [writeAll, List.map_cons]
    split
    · refine ⟨[write c], ?_, rfl, nofun⟩
      exact List.prefix_append [write c] _
    · obtain ⟨done, hdone, hlog, hall⟩ := ih (log ++ [write c])
      refine ⟨write c :: done, List.prefix_cons_inj _ |>.mpr hdone, ?_, fun hok => ?_⟩
      · rw [hlog, List.append_assoc]
        rfl
      · rw [hall hok]

theorem verifyAll_spec (t : Transport) (chunks : List (ℕ × Bytes)) (log : List Transfer) :
    ∃ done, done <+: chunks.map readBack ∧
    (verifyAll t log chunks).1 = log ++ done ∧
      ((verifyAll t log chunks).2 = .ok () → done = chunks.map readBack ∧
        ∀ before c rest, chunks = before ++ c :: rest →
          t (log ++ before.map readBack ++ [readBack c]) = .ok c.2) := by
  induction chunks generalizing log with
  | nil =>
    refine ⟨[], List.prefix_refl _, (List.append_nil log).symm, fun _ => ⟨rfl, ?_⟩⟩
    intro before c rest hnil
    simp at hnil
  | cons c chunks ih =>
    rw [verifyAll, List.map_cons]
    split
    · exact ⟨[readBack c], List.prefix_append [readBack c] _, rfl, nofun⟩
    next back hback =>
      split
      · exact ⟨[readBack c], List.prefix_append [readBack c] _, rfl, nofun⟩
      next hsame =>
        obtain ⟨done, hdone, hlog, hall⟩ := ih (log ++ [readBack c])
        refine ⟨readBack c :: done, List.prefix_cons_inj _ |>.mpr hdone, ?_, fun hok => ?_⟩
        · rw [hlog, List.append_assoc]
          rfl
        · obtain ⟨heq, hread⟩ := hall hok
          refine ⟨by rw [heq], fun before d rest hsplit => ?_⟩
          cases before with
          | nil =>
            cases hsplit
            rw [List.map_nil, List.append_nil, hback, not_not.mp hsame]
          | cons f before =>
            cases hsplit
            have hlater := hread before d rest rfl
            simpa using hlater

/-- Without the release, a load is a part of the transfers before it. -/
def begun (chunks : List (ℕ × Bytes)) : List Transfer :=
  hold :: (chunks.map write ++ chunks.map readBack)

theorem loadRam_eq (h : imageChunks image MAX_GAP = .ok chunks) :
    (loadRam t image).1 <+: begun chunks ∨
      (loadRam t image).1 = plan chunks ∧ ReadBack t chunks := by
  unfold loadRam
  rw [h]
  simp only
  obtain ⟨written, hwritten, hlog, hall⟩ := writeAll_spec t chunks [hold]
  generalize writeAll t [hold] chunks = w at hlog hall
  obtain ⟨log, r⟩ := w
  obtain rfl : log = [hold] ++ written := hlog
  split
  · exact .inl (List.prefix_append [hold] _)
  · cases r with
    | error e =>
      left
      exact List.prefix_cons_inj _ |>.mpr (hwritten.trans (List.prefix_append _ _))
    | ok u =>
      obtain rfl := hall rfl
      obtain ⟨read, hread, hlog, hall⟩ := verifyAll_spec t chunks
        ([hold] ++ chunks.map write)
      simp only
      generalize verifyAll t ([hold] ++ chunks.map write) chunks = v at hlog hall
      obtain ⟨log, r⟩ := v
      obtain rfl : log = [hold] ++ chunks.map write ++ read := hlog
      cases r with
      | error e =>
        left
        exact List.prefix_cons_inj _ |>.mpr ((List.prefix_append_right_inj _).mpr hread)
      | ok u =>
        obtain ⟨rfl, hback⟩ := hall rfl
        simp only
        have hplan : [hold] ++ chunks.map write ++ chunks.map readBack ++ [release] =
            plan chunks := by
          simp [plan]
        split
        · exact .inr ⟨hplan, hback⟩
        · exact .inr ⟨hplan, hback⟩

theorem release_notMem_begun (h : ∀ c ∈ chunks, c.1 + c.2.length ≤ CODE_RAM_END) :
    release ∉ begun chunks := by
  intro hmem
  rcases List.mem_cons.mp hmem with heq | hmem
  · cases heq
  · rcases List.mem_append.mp hmem with hmem | hmem
    · obtain ⟨c, hc, heq⟩ := List.mem_map.mp hmem
      have hinside := h c hc
      have haddr : c.1 = CPUCS_ADDR := (Transfer.ctrlOut.inj heq).2.2.1
      rw [haddr] at hinside
      exact absurd (Nat.le_trans (Nat.le_add_right _ _) hinside) (by decide)
    · obtain ⟨c, -, heq⟩ := List.mem_map.mp hmem
      cases heq

end Runs

end HamsOpen.StationIo.Loader
