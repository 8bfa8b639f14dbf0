import HamsOpen.Lib.Delimited
import Mathlib.Data.List.DropRight
import Mathlib.Data.List.Chain

/-!
# Framing of ASCII commands

The tokenizer of the Kenwood family cuts what a rig sends after each `;` (`kenwood.rs`). It drops a
beginning that stalls, and one that grows too long.
-/

namespace HamsOpen.Ascii

/-- Command terminator, `;`. -/
def TERMINATOR : UInt8 := 0x3B

def isTerminator (b : UInt8) : Bool := b = TERMINATOR

/-- Buffered bytes beyond this without a terminator are dropped. -/
def MAX_PENDING : ℕ := 256

/-- In milliseconds. -/
def PARTIAL_FRAME_TIMEOUT : ℕ := 500

/-- What the tokenizer found. -/
inductive Token
  /-- A command or reply without its terminator. -/
  | command (text : List UInt8)
  /-- Bytes that were not a printable command. -/
  | junk (bytes : List UInt8)
  deriving DecidableEq

/-- White space of ASCII. -/
def isSpace (b : UInt8) : Bool := b = 0x20 || (0x09 ≤ b && b ≤ 0x0D)

def trimStart (text : List UInt8) : List UInt8 := text.dropWhile isSpace

def trim (text : List UInt8) : List UInt8 := (trimStart text).rdropWhile isSpace

def printable (body : List UInt8) : Bool :=
  body.all fun b => 0x20 ≤ b && b < 0x7F && b ≠ TERMINATOR

/-- What is reported of a body; a `KY` message keeps its trailing spaces. Of a body that is not
printable the text is not looked at. -/
def text (body : List UInt8) : List UInt8 :=
  if [0x4B, 0x59].isPrefixOf body then trimStart body else trim body

/-- What is reported of the bytes up to a terminator. -/
def tokenOf (raw : List UInt8) : Token :=
  if printable raw.dropLast ∧ text raw.dropLast ≠ [] then .command (text raw.dropLast)
  else .junk raw

/-- Splits a byte stream on `;`, and holds a partial command between calls. -/
structure Tokenizer where
  pending : List UInt8
  lastByteAt : ℕ
  /-- 0 means `MAX_PENDING`. -/
  maxPending : ℕ
  deriving DecidableEq

namespace Tokenizer

def withMaxPending (maxPending : ℕ) : Tokenizer := ⟨[], 0, maxPending⟩

def default : Tokenizer := withMaxPending 0

def limit (t : Tokenizer) : ℕ := if t.maxPending = 0 then MAX_PENDING else t.maxPending

/-- A partial command is older than the timeout. -/
def stale (t : Tokenizer) (now : ℕ) : Bool :=
  PARTIAL_FRAME_TIMEOUT < now - t.lastByteAt && t.pending ≠ []

/-- The pieces up to each terminator, and what is left over. -/
def split (t : Tokenizer) (bytes : List UInt8) (now : ℕ) : List (List UInt8) × List UInt8 :=
  Delimited.pieces isTerminator [] ((if t.stale now then [] else t.pending) ++ bytes)

/-- Adds bytes received at `now`, and returns every complete token. -/
def feed (t : Tokenizer) (bytes : List UInt8) (now : ℕ) : List Token × Tokenizer :=
  let dropped := if t.stale now then [.junk t.pending] else []
  let (raws, rest) := t.split bytes now
  if t.limit < rest.length then
    (dropped ++ raws.map tokenOf ++ [.junk rest], { t with pending := [], lastByteAt := now })
  else (dropped ++ raws.map tokenOf, { t with pending := rest, lastByteAt := now })

/-- The tokens of a run of chunks, each with the time it is received at. -/
def feedAll (t : Tokenizer) : List (List UInt8 × ℕ) → List Token × Tokenizer
  | [] => ([], t)
  | (bytes, now) :: chunks =>
    ((t.feed bytes now).1 ++ ((t.feed bytes now).2.feedAll chunks).1,
      ((t.feed bytes now).2.feedAll chunks).2)

end Tokenizer

/-! ### What tokens are made of -/

/-- Bytes that are reported together. -/
inductive Piece
  /-- Bytes up to a terminator. -/
  | framed (raw : List UInt8)
  /-- A beginning that was dropped for its age: how long after the chunk before it the next came. -/
  | stalled (bytes : List UInt8) (gap : ℕ)
  /-- A beginning that was dropped for its length. -/
  | overlong (bytes : List UInt8)
  deriving DecidableEq

namespace Piece

def bytes : Piece → List UInt8
  | framed raw => raw
  | stalled bytes _ => bytes
  | overlong bytes => bytes

def token : Piece → Token
  | framed raw => tokenOf raw
  | stalled bytes _ => .junk bytes
  | overlong bytes => .junk bytes

/-- A piece ends with its only terminator, or it was dropped without one, for its age or for its
length. -/
def Due (limit : ℕ) : Piece → Prop
  | framed raw => ∃ body, raw = body ++ [TERMINATOR] ∧ TERMINATOR ∉ body
  | stalled bytes gap => TERMINATOR ∉ bytes ∧ bytes ≠ [] ∧ PARTIAL_FRAME_TIMEOUT < gap
  | overlong bytes => TERMINATOR ∉ bytes ∧ limit < bytes.length

end Piece

namespace Tokenizer

variable {t : Tokenizer}

/-- What is reported of the bytes received at `now`. -/
def feedPieces (t : Tokenizer) (bytes : List UInt8) (now : ℕ) : List Piece :=
  (if t.stale now then [.stalled t.pending (now - t.lastByteAt)] else []) ++
    (t.split bytes now).1.map .framed ++
    (if t.limit < (t.split bytes now).2.length then [.overlong (t.split bytes now).2] else [])

def allPieces (t : Tokenizer) : List (List UInt8 × ℕ) → List Piece
  | [] => []
  | (bytes, now) :: chunks => t.feedPieces bytes now ++ (t.feed bytes now).2.allPieces chunks

/-- Every byte that was received is reported once, in order, or still pending. -/
structure Accounted (t : Tokenizer) (chunks : List (List UInt8 × ℕ)) : Prop where
  tokens : (t.feedAll chunks).1 = (t.allPieces chunks).map Piece.token
  bytes : (t.allPieces chunks).flatMap Piece.bytes ++ (t.feedAll chunks).2.pending =
    t.pending ++ chunks.flatMap Prod.fst
  due : ∀ p ∈ t.allPieces chunks, p.Due t.limit

theorem feed_pending (t : Tokenizer) (bytes : List UInt8) (now : ℕ) :
    (t.feed bytes now).2.pending =
      if t.limit < (t.split bytes now).2.length then [] else (t.split bytes now).2 := by
  unfold feed
  dsimp only
  split <;> rfl

theorem feed_limit (t : Tokenizer) (bytes : List UInt8) (now : ℕ) :
    (t.feed bytes now).2.limit = t.limit := by
  unfold feed
  dsimp only
  split <;> rfl

theorem feed_lastByteAt (t : Tokenizer) (bytes : List UInt8) (now : ℕ) :
    (t.feed bytes now).2.lastByteAt = now := by
  unfold feed
  dsimp only
  split <;> rfl

theorem feed_tokens (t : Tokenizer) (bytes : List UInt8) (now : ℕ) :
    (t.feed bytes now).1 = (t.feedPieces bytes now).map Piece.token := by
  have hmap : (t.split bytes now).1.map tokenOf =
      ((t.split bytes now).1.map Piece.framed).map Piece.token := by
    rw [List.map_map]
    rfl
  unfold feed feedPieces
  dsimp only
  rw [hmap, List.map_append, List.map_append]
  cases t.stale now <;> split <;> simp [Piece.token]

/-- A held beginning has no terminator. -/
theorem feed_clear (t : Tokenizer) (bytes : List UInt8) (now : ℕ) :
    TERMINATOR ∉ (t.feed bytes now).2.pending := by
  rw [feed_pending]
  split
  · exact List.not_mem_nil
  · intro hmem
    have hstop := Delimited.rest_clear (List.forall_mem_nil _) _ hmem
    exact absurd rfl (of_decide_eq_false hstop)

theorem feedPieces_bytes (t : Tokenizer) (bytes : List UInt8) (now : ℕ) :
    (t.feedPieces bytes now).flatMap Piece.bytes ++ (t.feed bytes now).2.pending =
      t.pending ++ bytes := by
  have hframed : ((t.split bytes now).1.map Piece.framed).flatMap Piece.bytes =
      (t.split bytes now).1.flatten := by
    rw [List.flatMap_map]
    exact List.flatMap_id
  have hsplit : (t.split bytes now).1.flatten ++ (t.split bytes now).2 =
      (if t.stale now then [] else t.pending) ++ bytes := by
    unfold split
    rw [Delimited.flatten_pieces, List.nil_append]
  rw [feed_pending]
  unfold feedPieces
  rw [List.flatMap_append, List.flatMap_append, hframed]
  generalize t.split bytes now = cut at hsplit
  cases hstale : t.stale now with
  | true =>
    -- what was held is a piece of its own
    rw [hstale, if_pos rfl, List.nil_append] at hsplit
    rw [if_pos rfl, ← hsplit]
    split <;> simp [Piece.bytes]
  | false =>
    rw [hstale, if_neg Bool.false_ne_true] at hsplit
    rw [if_neg Bool.false_ne_true, ← hsplit]
    split <;> simp [Piece.bytes]

theorem feedPieces_due (hclear : TERMINATOR ∉ t.pending) (bytes : List UInt8) (now : ℕ) :
    ∀ p ∈ t.feedPieces bytes now, p.Due t.limit := by
  intro p hp
  rcases List.mem_append.mp hp with hp | hp
  · rcases List.mem_append.mp hp with hp | hp
    · split at hp
      next hstale =>
        rw [List.mem_singleton.mp hp]
        obtain ⟨hgap, hne⟩ := Bool.and_eq_true_iff.mp hstale
        exact ⟨hclear, of_decide_eq_true hne, of_decide_eq_true hgap⟩
      next => cases hp
    · obtain ⟨raw, hraw, rfl⟩ := List.mem_map.mp hp
      obtain ⟨body, b, rfl, hb, hbody⟩ := Delimited.piece_ends (List.forall_mem_nil _) hraw
      obtain rfl := of_decide_eq_true hb
      refine ⟨body, rfl, ?_⟩
      intro hmem
      exact absurd rfl (of_decide_eq_false (hbody _ hmem))
  · split at hp
    next hover =>
      rw [List.mem_singleton.mp hp]
      refine ⟨?_, hover⟩
      intro hmem
      have hstop := Delimited.rest_clear (List.forall_mem_nil _) _ hmem
      exact absurd rfl (of_decide_eq_false hstop)
    next => cases hp

theorem accounted (hclear : TERMINATOR ∉ t.pending) (chunks : List (List UInt8 × ℕ)) :
    t.Accounted chunks := by
  induction chunks generalizing t with
  | nil => exact ⟨rfl, (List.append_nil _).symm, nofun⟩
  | cons chunk chunks ih =>
    obtain ⟨bytes, now⟩ := chunk
    have hrest := ih (t.feed_clear bytes now)
    constructor
    · simp only [feedAll, allPieces, List.map_append]
      rw [feed_tokens, hrest.tokens]
    · simp only [feedAll, allPieces, List.flatMap_append, List.flatMap_cons]
      rw [List.append_assoc, hrest.bytes, ← List.append_assoc, feedPieces_bytes, List.append_assoc]
    · intro p hp
      rcases List.mem_append.mp hp with hp | hp
      · exact feedPieces_due hclear bytes now p hp
      · rw [← feed_limit t bytes now]
        exact hrest.due p hp

/-! ### Commands, however they are cut -/

/-- A printable command, not blank and within the limit. -/
structure IsCommand (limit : ℕ) (body : List UInt8) : Prop where
  printable : printable body = true
  visible : ∃ b ∈ body, b ≠ 0x20
  within : body.length ≤ limit

/-- A chunk comes before the beginning held is too old. -/
def InTime (chunk next : List UInt8 × ℕ) : Prop := next.2 - chunk.2 ≤ PARTIAL_FRAME_TIMEOUT

theorem not_stop_of_printable {body : List UInt8} (h : printable body = true) :
    ∀ b ∈ body, isTerminator b = false := by
  intro b hb
  have hplain := List.all_eq_true.mp h b hb
  rw [Bool.and_eq_true_iff] at hplain
  exact decide_eq_false (of_decide_eq_true hplain.2)

/-- The text of a printable body that is not blank is not empty. -/
theorem text_ne_nil {limit : ℕ} {body : List UInt8} (h : IsCommand limit body) : text body ≠ [] := by
  obtain ⟨b, hb, hne⟩ := h.visible
  have hplain := List.all_eq_true.mp h.printable b hb
  have hspace : isSpace b = false := by
    simp only [Bool.and_eq_true, decide_eq_true_eq] at hplain
    unfold isSpace
    simp only [Bool.or_eq_false_iff, Bool.and_eq_false_iff, decide_eq_false_iff_not]
    refine ⟨hne, .inr ?_⟩
    intro hle
    have hlt := UInt8.le_trans hplain.1.1 hle
    revert hlt
    decide
  have hstart : trimStart body ≠ [] := by
    intro hnil
    have hall := List.dropWhile_eq_nil_iff.mp hnil b hb
    rw [hspace] at hall
    cases hall
  unfold text
  split
  · exact hstart
  · -- what the start keeps begins with a byte that is no space
    intro hnil
    have hall := List.rdropWhile_eq_nil_iff.mp hnil
    have hfirst := List.head_dropWhile_not isSpace hstart
    exact Bool.false_ne_true (hfirst.symm.trans (hall _ (List.head_mem hstart)))

theorem tokenOf_command {limit : ℕ} {body : List UInt8} (h : IsCommand limit body) :
    tokenOf (body ++ [TERMINATOR]) = .command (text body) := by
  unfold tokenOf
  rw [List.dropLast_concat]
  exact if_pos ⟨h.printable, text_ne_nil h⟩

/-- In time and within the limit, the chunks are framed as the bytes are at once. -/
theorem feedAll_in_time {chunks : List (List UInt8 × ℕ)} (hclear : TERMINATOR ∉ t.pending)
    (hfirst : ∀ c ∈ chunks.head?, t.pending ≠ [] → c.2 - t.lastByteAt ≤ PARTIAL_FRAME_TIMEOUT)
    (htime : chunks.IsChain InTime)
    (hfits : ∀ part rest, part ++ rest = chunks.flatMap Prod.fst →
      (Delimited.pieces isTerminator t.pending part).2.length ≤ t.limit) :
    (t.feedAll chunks).1 =
        (Delimited.pieces isTerminator t.pending (chunks.flatMap Prod.fst)).1.map tokenOf ∧
      (t.feedAll chunks).2.pending =
        (Delimited.pieces isTerminator t.pending (chunks.flatMap Prod.fst)).2 := by
  induction chunks generalizing t with
  | nil => exact ⟨rfl, rfl⟩
  | cons chunk chunks ih =>
    obtain ⟨bytes, now⟩ := chunk
    have hnone : ∀ b ∈ t.pending, isTerminator b = false := by
      intro b hb
      apply decide_eq_false
      rintro rfl
      exact hclear hb
    have hstale : t.stale now = false := by
      apply Bool.and_eq_false_iff.mpr
      by_cases hpending : t.pending = []
      · exact .inr (decide_eq_false (not_not.mpr hpending))
      · exact .inl (decide_eq_false (Nat.not_lt.mpr (hfirst _ rfl hpending)))
    have hsplit : t.split bytes now = Delimited.pieces isTerminator t.pending bytes := by
      unfold split
      rw [hstale, if_neg Bool.false_ne_true, ← Delimited.pieces_left hnone]
    have hwithin : ¬ t.limit < (t.split bytes now).2.length := by
      rw [hsplit]
      exact Nat.not_lt.mpr (hfits bytes _ rfl)
    have hpending : (t.feed bytes now).2.pending = (t.split bytes now).2 := by
      rw [feed_pending, if_neg hwithin]
    have htokens : (t.feed bytes now).1 = (t.split bytes now).1.map tokenOf := by
      unfold feed
      dsimp only
      rw [hstale, if_neg hwithin]
      rfl
    rw [hsplit] at hpending htokens
    have hrest := ih (t.feed_clear bytes now) ?_ htime.tail ?_
    · rw [hpending] at hrest
      simp only [feedAll, List.flatMap_cons, Delimited.pieces_append, List.map_append]
      rw [htokens, hrest.1, hrest.2]
      exact ⟨rfl, rfl⟩
    · intro next hnext _
      rw [feed_lastByteAt]
      cases chunks with
      | nil => cases hnext
      | cons other chunks =>
        cases hnext
        exact (List.isChain_cons_cons.mp htime).1
    · intro part rest hpart
      rw [hpending, feed_limit]
      have hfit := hfits (bytes ++ part) rest (by rw [List.append_assoc, hpart, List.flatMap_cons])
      rwa [Delimited.pieces_append] at hfit

/-- Commands are reported, in order and trimmed, however they are cut. -/
theorem feedAll_commands {commands : List (List UInt8)} {chunks : List (List UInt8 × ℕ)}
    (hempty : t.pending = []) (hcommands : ∀ c ∈ commands, IsCommand t.limit c)
    (htime : chunks.IsChain InTime)
    (hwire : chunks.flatMap Prod.fst = commands.flatMap (· ++ [TERMINATOR])) :
    (t.feedAll chunks).1 = commands.map (.command <| text ·) ∧
      (t.feedAll chunks).2.pending = [] := by
  have hstop : isTerminator TERMINATOR = true := decide_eq_true rfl
  have hclear : ∀ m ∈ commands, ∀ c ∈ m, isTerminator c = false :=
    fun m hm => not_stop_of_printable (hcommands m hm).printable
  have hcut := Delimited.pieces_wire hstop hclear
  have hall : (t.feedAll chunks).1 =
        (Delimited.pieces isTerminator t.pending (chunks.flatMap Prod.fst)).1.map tokenOf ∧
      (t.feedAll chunks).2.pending =
        (Delimited.pieces isTerminator t.pending (chunks.flatMap Prod.fst)).2 := by
    apply feedAll_in_time (by rw [hempty]; exact List.not_mem_nil)
      (fun _ _ hne => absurd hempty hne) htime
    -- what is held is a part of one command
    intro part rest hpart
    rw [hempty]
    rw [hwire] at hpart
    rcases Delimited.rest_prefix hstop hclear hpart with hnil | ⟨m, hm, hpre⟩
    · rw [hnil]
      exact Nat.zero_le _
    · exact hpre.length_le.trans (hcommands m hm).within
  rw [hempty, hwire, hcut] at hall
  refine ⟨?_, hall.2⟩
  rw [hall.1, List.map_map]
  apply List.map_congr_left
  intro c hc
  exact tokenOf_command (hcommands c hc)

/-- Commands that come in time are reported, in order and trimmed, however they are cut. And
whatever comes, every byte is reported once, in order, or still pending: with its command's
terminator, or with a beginning that was dropped for its age or for its length. -/
theorem commands_framed :
    (∀ (t : Tokenizer) (commands : List (List UInt8)) (chunks : List (List UInt8 × ℕ)),
      t.pending = [] → (∀ c ∈ commands, IsCommand t.limit c) → chunks.IsChain InTime →
      chunks.flatMap Prod.fst = commands.flatMap (· ++ [TERMINATOR]) →
      (t.feedAll chunks).1 = commands.map (.command <| text ·)) ∧
    ∀ (maxPending : ℕ) (chunks : List (List UInt8 × ℕ)),
      (withMaxPending maxPending).Accounted chunks := by
  constructor
  · intro t commands chunks hempty hcommands htime hwire
    exact (feedAll_commands hempty hcommands htime hwire).1
  · intro maxPending chunks
    exact accounted List.not_mem_nil chunks

/-- `FA;` and `MD2;` are reported when they are cut in the middle of `FA`. -/
theorem commands_framed_cut :
    (default.feedAll [([0x46], 1000), ([0x41, 0x3B, 0x4D, 0x44, 0x32, 0x3B], 1500)]).1 =
      [.command [0x46, 0x41], .command [0x4D, 0x44, 0x32]] := by
  have hcommands : ∀ c ∈ [[0x46, 0x41], [0x4D, 0x44, 0x32]], IsCommand default.limit c := by
    intro c hc
    simp only [List.mem_cons, List.not_mem_nil, or_false] at hc
    rcases hc with rfl | rfl
    · exact ⟨by decide, ⟨0x46, by decide⟩, by decide⟩
    · exact ⟨by decide, ⟨0x4D, by decide⟩, by decide⟩
  have htime : List.IsChain InTime
      [([0x46], 1000), ([0x41, 0x3B, 0x4D, 0x44, 0x32, 0x3B], 1500)] :=
    List.isChain_pair.mpr (by unfold InTime; decide)
  exact commands_framed.1 default _ _ rfl hcommands htime rfl

/-- No command directly follows the dropped beginning of one. -/
def TailsDropped (tokens : List Token) : Prop :=
  ∀ bytes text, [.junk bytes, .command text] <:+: tokens → TERMINATOR ∈ bytes

/-- `FA` stalls, and what comes after it is reported as the command `MD2`. -/
theorem tail_reported :
    (default.feedAll [([0x46, 0x41], 1000), ([0x4D, 0x44, 0x32, 0x3B], 1501)]).1 =
        [.junk [0x46, 0x41], .command [0x4D, 0x44, 0x32]] ∧
      ¬ ∀ chunks, TailsDropped (default.feedAll chunks).1 := by
  have hrun : (default.feedAll [([0x46, 0x41], 1000), ([0x4D, 0x44, 0x32, 0x3B], 1501)]).1 =
      [.junk [0x46, 0x41], .command [0x4D, 0x44, 0x32]] := by decide
  refine ⟨hrun, ?_⟩
  intro hall
  have hdropped := hall [([0x46, 0x41], 1000), ([0x4D, 0x44, 0x32, 0x3B], 1501)] [0x46, 0x41]
    [0x4D, 0x44, 0x32] (hrun.symm ▸ List.infix_rfl)
  revert hdropped
  decide

end Tokenizer

end HamsOpen.Ascii
