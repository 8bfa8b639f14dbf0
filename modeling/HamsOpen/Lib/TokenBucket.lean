import Mathlib.Data.List.Pairwise
import Mathlib.Tactic.Ring

/-!
# Token buckets

A bucket holds at most `capacity` tokens. A call takes one, or is refused. A token comes back for
every whole `period` since the mark, which is then set anew; what is left of a period is lost. The
periods are counted in a register of `modulus` values, so that a long time may count as a short one.
-/

/-- The numbers that a bucket works with. -/
structure TokenBucket where
  capacity : ℕ
  period : ℕ
  modulus : ℕ
  capacity_pos : 0 < capacity
  period_pos : 0 < period

namespace TokenBucket

/-- The tokens that are there, and when they were last made more. -/
structure Bucket where
  tokens : ℕ
  mark : ℕ
  deriving DecidableEq

variable (L : TokenBucket) {b : Bucket} {now : ℕ}

/-- The tokens that come back. -/
def due (b : Bucket) (now : ℕ) : ℕ := (now - b.mark) / L.period % L.modulus

/-- The bucket with the tokens that came back. -/
def refill (b : Bucket) (now : ℕ) : Bucket :=
  if 0 < L.due b now then ⟨min (b.tokens + L.due b now) L.capacity, now⟩ else b

/-- A call: whether it gets a token, and the bucket after it. -/
def take (b : Bucket) (now : ℕ) : Bool × Bucket :=
  let b := L.refill b now
  if b.tokens = 0 then (false, b) else (true, ⟨b.tokens - 1, b.mark⟩)

/-- The bucket of the first call: it is full. -/
def fresh (now : ℕ) : Bucket := ⟨L.capacity, now⟩

/-- The bucket after some calls. -/
def after (b : Bucket) (times : List ℕ) : Bucket := times.foldl (fun b now => (L.take b now).2) b

/-- What the calls are answered. -/
def answers (b : Bucket) : List ℕ → List Bool
  | [] => []
  | now :: times => (L.take b now).1 :: answers (L.take b now).2 times

/-- The bucket holds no more than it may, and its mark is not in the future. -/
structure Sound (b : Bucket) (now : ℕ) : Prop where
  tokens_le : b.tokens ≤ L.capacity
  mark_le : b.mark ≤ now

variable {L}

theorem sound_fresh : L.Sound (L.fresh now) now := ⟨le_rfl, le_rfl⟩

theorem Sound.later {now' : ℕ} (h : L.Sound b now) (hle : now ≤ now') : L.Sound b now' :=
  ⟨h.tokens_le, h.mark_le.trans hle⟩

theorem tokens_refill (h : b.tokens ≤ L.capacity) :
    (L.refill b now).tokens = min (b.tokens + L.due b now) L.capacity := by
  unfold refill
  split
  next => rfl
  next hnone => rw [Nat.eq_zero_of_not_pos hnone, Nat.add_zero, min_eq_left h]

theorem mark_refill_le (h : b.mark ≤ now) : (L.refill b now).mark ≤ now := by
  unfold refill
  split
  next => exact le_rfl
  next => exact h

theorem take_fst : (L.take b now).1 = decide (0 < (L.refill b now).tokens) := by
  unfold take
  dsimp only
  split
  next hnone => rw [hnone]; rfl
  next hsome => exact (decide_eq_true (Nat.pos_of_ne_zero hsome)).symm

theorem take_snd :
    (L.take b now).2 = ⟨(L.refill b now).tokens - 1, (L.refill b now).mark⟩ := by
  unfold take
  dsimp only
  split
  next hnone => rw [hnone, Nat.zero_sub, ← hnone]
  next => rfl

theorem Sound.take (h : L.Sound b now) : L.Sound (L.take b now).2 now := by
  rw [take_snd]
  constructor
  · dsimp only
    rw [tokens_refill h.tokens_le]
    omega
  · exact mark_refill_le h.mark_le

/-- After a call the bucket is not full. -/
theorem tokens_take_lt (h : b.tokens ≤ L.capacity) : (L.take b now).2.tokens < L.capacity := by
  have hpos := L.capacity_pos
  rw [take_snd, tokens_refill h]
  dsimp only
  omega

/-- Calls at times that do not decrease keep the bucket sound. -/
theorem Sound.after {times : List ℕ} {last : ℕ} (hb : b.tokens ≤ L.capacity)
    (hmark : ∀ t ∈ times, b.mark ≤ t) (hsorted : times.Pairwise (· ≤ ·))
    (hlast : ∀ t ∈ times, t ≤ last) (hmark' : b.mark ≤ last) : L.Sound (L.after b times) last := by
  induction times generalizing b with
  | nil => exact ⟨hb, hmark'⟩
  | cons now times ih =>
    obtain ⟨hnow, htimes⟩ := List.pairwise_cons.mp hsorted
    have hsound : L.Sound (L.take b now).2 now := Sound.take ⟨hb, hmark now List.mem_cons_self⟩
    apply ih hsound.tokens_le _ htimes
    · intro t ht
      exact hlast t (List.mem_cons_of_mem _ ht)
    · exact hsound.mark_le.trans (hlast now List.mem_cons_self)
    · intro t ht
      exact hsound.mark_le.trans (hnow t ht)

/-- Calls at one time, as long as nothing comes back. -/
theorem after_at_once (h : L.due b now = 0) (n : ℕ) :
    L.after b (List.replicate n now) = ⟨b.tokens - n, b.mark⟩ := by
  induction n generalizing b with
  | zero => rfl
  | succ n ih =>
    have hkeep : L.refill b now = b := by
      rw [refill, h, if_neg (Nat.lt_irrefl 0)]
    have hnext : (L.take b now).2 = ⟨b.tokens - 1, b.mark⟩ := by rw [take_snd, hkeep]
    have hrest := ih (b := (L.take b now).2) (by rw [hnext]; exact h)
    rw [hnext] at hrest
    rw [List.replicate_succ, TokenBucket.after, List.foldl_cons, hnext, Nat.sub_add_eq,
      Nat.sub_right_comm]
    exact hrest

/-! ### Credit -/

variable (L) in
/-- What a bucket may give: a period for each token, and the time that is not yet counted. -/
def credit (b : Bucket) (now : ℕ) : ℕ :=
  b.tokens * L.period + (now - b.mark) % (L.period * L.modulus)

/-- With time a bucket may give no more than that time. -/
theorem credit_le_add {now' : ℕ} (hmark : b.mark ≤ now) (hle : now ≤ now') :
    L.credit b now' ≤ L.credit b now + (now' - now) := by
  have hsplit : now' - b.mark = now - b.mark + (now' - now) := by omega
  have hmod : (now - b.mark + (now' - now)) % (L.period * L.modulus) ≤
      (now - b.mark) % (L.period * L.modulus) + (now' - now) := by
    rw [Nat.add_mod]
    exact (Nat.mod_le _ _).trans (Nat.add_le_add_left (Nat.mod_le _ _) _)
  unfold credit
  rw [hsplit]
  omega

/-- The time that is not yet counted: the tokens that are due, and a part of a period. -/
theorem mod_eq_due (b : Bucket) (now : ℕ) :
    (now - b.mark) % (L.period * L.modulus) =
      L.due b now * L.period + (now - b.mark) % L.period := by
  rw [due, Nat.mod_mul, Nat.mul_comm, Nat.add_comm]

/-- What comes back is not more than was credit before. -/
theorem credit_refill (b : Bucket) (now : ℕ) :
    L.credit (L.refill b now) now ≤ L.credit b now := by
  unfold refill
  split
  next =>
    unfold credit
    dsimp only
    rw [Nat.sub_self, Nat.zero_mod, Nat.add_zero, mod_eq_due, ← Nat.add_assoc, ← Nat.add_mul]
    exact (Nat.mul_le_mul_right _ (min_le_left _ _)).trans (Nat.le_add_right _ _)
  next => exact le_rfl

/-- What is taken is paid for. -/
theorem credit_take (b : Bucket) (now : ℕ) :
    L.credit (L.take b now).2 now + (L.take b now).1.toNat * L.period =
      L.credit (L.refill b now) now := by
  rw [take_fst, take_snd]
  unfold credit
  dsimp only
  rcases Nat.eq_zero_or_pos (L.refill b now).tokens with hnone | hsome
  · rw [hnone]
    simp
  · obtain ⟨n, hn⟩ := Nat.exists_eq_add_one_of_ne_zero hsome.ne'
    rw [hn, decide_eq_true (Nat.succ_pos n), Nat.add_sub_cancel, Bool.toNat_true]
    ring

/-- A bucket that was called before, or is fresh, has no credit over its capacity. -/
theorem credit_refill_le
    (h : b.tokens < L.capacity ∨ b.tokens ≤ L.capacity ∧ now ≤ b.mark) :
    L.credit (L.refill b now) now ≤ L.capacity * L.period := by
  unfold refill
  split
  next =>
    unfold credit
    dsimp only
    rw [Nat.sub_self, Nat.zero_mod, Nat.add_zero]
    exact Nat.mul_le_mul_right _ (min_le_right _ _)
  next hnone =>
    unfold credit
    rw [mod_eq_due, Nat.eq_zero_of_not_pos hnone, Nat.zero_mul, Nat.zero_add]
    rcases h with hless | ⟨hle, hmark⟩
    · have hpart := Nat.mod_lt (now - b.mark) L.period_pos
      calc b.tokens * L.period + (now - b.mark) % L.period
          ≤ b.tokens * L.period + L.period := Nat.add_le_add_left hpart.le _
        _ = (b.tokens + 1) * L.period := (Nat.succ_mul _ _).symm
        _ ≤ L.capacity * L.period := Nat.mul_le_mul_right _ hless
    · rw [Nat.sub_eq_zero_of_le hmark, Nat.zero_mod, Nat.add_zero]
      exact Nat.mul_le_mul_right _ hle

/-! ### Windows -/

variable (L) in
/-- How many calls of a window get a token. -/
def count (b : Bucket) (times : List ℕ) (first last : ℕ) : ℕ :=
  (times.zip (L.answers b times)).countP fun x => decide (first ≤ x.1 ∧ x.1 ≤ last) && x.2

theorem count_cons (b : Bucket) (now : ℕ) (times : List ℕ) (first last : ℕ) :
    L.count b (now :: times) first last = L.count (L.take b now).2 times first last +
      (if first ≤ now ∧ now ≤ last then (L.take b now).1.toNat else 0) := by
  unfold count
  rw [answers, List.zip_cons_cons, List.countP_cons]
  congr 1
  by_cases hin : first ≤ now ∧ now ≤ last
  · dsimp only
    rw [if_pos hin, decide_eq_true hin, Bool.true_and]
    cases (L.take b now).1 <;> rfl
  · dsimp only
    rw [if_neg hin, decide_eq_false hin, Bool.false_and]
    rfl

/-- Past its end nothing counts for a window. -/
theorem count_of_past {times : List ℕ} {first last : ℕ} (h : ∀ t ∈ times, last < t)
    (b : Bucket) : L.count b times first last = 0 := by
  induction times generalizing b with
  | nil => rfl
  | cons now times ih =>
    have hpast : ¬(first ≤ now ∧ now ≤ last) := fun hin =>
      absurd (h now List.mem_cons_self) (Nat.not_lt.mpr hin.2)
    rw [count_cons, if_neg hpast, ih fun t ht => h t (List.mem_cons_of_mem _ ht)]

/-- What a window takes is paid for with the credit before it, and the time it lasts. -/
theorem count_mul_le {times : List ℕ} {start first last : ℕ} (hmark : b.mark ≤ start)
    (hsorted : (start :: times).Pairwise (· ≤ ·)) (hlast : start ≤ last) :
    L.count b times first last * L.period ≤ L.credit b start + (last - start) := by
  induction times generalizing b start with
  | nil => exact (Nat.zero_mul _).trans_le (Nat.zero_le _)
  | cons now times ih =>
    obtain ⟨hstart, htimes⟩ := List.pairwise_cons.mp hsorted
    have hnow : start ≤ now := hstart now List.mem_cons_self
    rcases Nat.lt_or_ge last now with hpast | hwithin
    · have hall : ∀ t ∈ now :: times, last < t := by
        intro t ht
        rcases List.mem_cons.mp ht with rfl | ht
        · exact hpast
        · exact hpast.trans_le ((List.pairwise_cons.mp htimes).1 t ht)
      rw [count_of_past hall, Nat.zero_mul]
      exact Nat.zero_le _
    · have hmark' : (L.take b now).2.mark ≤ now := by
        rw [take_snd]
        exact mark_refill_le (hmark.trans hnow)
      have hrest := ih hmark' htimes hwithin
      have hpaid := credit_take (L := L) b now
      have hback := credit_refill (L := L) b now
      have htime := credit_le_add (L := L) hmark hnow
      have hone : (if first ≤ now ∧ now ≤ last then (L.take b now).1.toNat else 0) * L.period ≤
          (L.take b now).1.toNat * L.period := by
        apply Nat.mul_le_mul_right
        split
        · exact le_rfl
        · exact Nat.zero_le _
      rw [count_cons, Nat.add_mul]
      omega

/-- In a window no more is taken than the capacity, and one for each period of its length. -/
theorem count_le {times : List ℕ} {first length : ℕ}
    (hb : b.tokens < L.capacity ∨ b.tokens ≤ L.capacity ∧ ∀ t ∈ times.head?, t ≤ b.mark)
    (hmark : ∀ t ∈ times, b.mark ≤ t) (hsorted : times.Pairwise (· ≤ ·)) :
    L.count b times first (first + length) ≤ L.capacity + length / L.period := by
  induction times generalizing b with
  | nil => exact Nat.zero_le _
  | cons now times ih =>
    obtain ⟨hnow, htimes⟩ := List.pairwise_cons.mp hsorted
    have hle : b.tokens ≤ L.capacity := hb.elim Nat.le_of_lt And.left
    have hmark' : (L.take b now).2.mark ≤ now := by
      rw [take_snd]
      exact mark_refill_le (hmark now List.mem_cons_self)
    rw [count_cons]
    by_cases hin : first ≤ now ∧ now ≤ first + length
    · -- the first call of the window: what is there is no more than the capacity
      have hfirst : b.tokens < L.capacity ∨ b.tokens ≤ L.capacity ∧ now ≤ b.mark :=
        hb.imp_right fun h => ⟨h.1, h.2 now rfl⟩
      have hcap := credit_refill_le (L := L) hfirst
      have hpaid := credit_take (L := L) b now
      have hrest : L.count (L.take b now).2 times first (first + length) * L.period ≤
          L.credit (L.take b now).2 now + (first + length - now) := count_mul_le hmark' hsorted hin.2
      have hsum : (L.count (L.take b now).2 times first (first + length) +
          (L.take b now).1.toNat) * L.period ≤ L.capacity * L.period + length := by
        rw [Nat.add_mul]
        omega
      have hdiv : L.capacity + length / L.period =
          (L.capacity * L.period + length) / L.period := by
        rw [Nat.add_comm (L.capacity * L.period), Nat.add_mul_div_right _ _ L.period_pos,
          Nat.add_comm]
      rwa [if_pos hin, hdiv, Nat.le_div_iff_mul_le L.period_pos]
    · rw [if_neg hin, Nat.add_zero]
      apply ih (.inl (tokens_take_lt hle)) _ htimes
      intro t ht
      exact hmark'.trans (hnow t ht)

/-! ### Bursts and refusals -/

/-- With tokens for all of them, calls are answered. -/
theorem answers_of_tokens {times : List ℕ} {n : ℕ} (hn : times.length ≤ n)
    (hle : b.tokens ≤ L.capacity) (htokens : n ≤ b.tokens) :
    L.answers b times = List.replicate times.length true := by
  induction times generalizing b n with
  | nil => rfl
  | cons now times ih =>
    rw [List.length_cons] at hn
    have hback : b.tokens ≤ (L.refill b now).tokens := by
      rw [tokens_refill hle]
      omega
    have hgiven : (L.take b now).1 = true := by
      rw [take_fst]
      exact decide_eq_true (by omega)
    have hleft : n - 1 ≤ (L.take b now).2.tokens := by
      rw [take_snd]
      dsimp only
      omega
    have hrest := ih (by omega) (tokens_take_lt hle).le hleft
    rw [answers, hgiven, hrest]
    rfl

/-- At one time a bucket gives what it holds, and no more. -/
theorem answers_at_once (hb : L.Sound b now) (n : ℕ) :
    L.answers b (List.replicate n now) =
      (List.range n).map fun i => decide (i < (L.refill b now).tokens) := by
  induction n generalizing b with
  | zero => rfl
  | succ n ih =>
    -- after the first call nothing comes back
    have hagain : (L.refill (L.take b now).2 now).tokens = (L.refill b now).tokens - 1 := by
      have hmark : L.due (L.take b now).2 now = 0 ∨ (L.take b now).2.mark = now := by
        rw [take_snd]
        unfold refill
        split
        next => exact .inr rfl
        next hnone => exact .inl (Nat.eq_zero_of_not_pos hnone)
      have hdue : L.due (L.take b now).2 now = 0 := by
        rcases hmark with hdue | hmark
        · exact hdue
        · rw [due, hmark, Nat.sub_self, Nat.zero_div, Nat.zero_mod]
      rw [refill, hdue, if_neg (Nat.lt_irrefl 0), take_snd]
    rw [List.replicate_succ, answers, ih hb.take, hagain, List.range_succ_eq_map, List.map_cons,
      List.map_map, take_fst]
    congr 1
    apply List.map_congr_left
    intro i _
    rw [Function.comp_apply, decide_eq_decide]
    omega

/-- A burst is given in full, however it is spread, exactly when the bucket is full at its first
call. -/
theorem burst_iff (hb : L.Sound b now) :
    (∀ later : List ℕ, (now :: later).Pairwise (· ≤ ·) → later.length + 1 = L.capacity →
      L.answers b (now :: later) = List.replicate L.capacity true) ↔
      L.capacity ≤ b.tokens + L.due b now := by
  have hrefill : (L.refill b now).tokens = min (b.tokens + L.due b now) L.capacity :=
    tokens_refill hb.tokens_le
  have hpos := L.capacity_pos
  constructor
  · intro hall
    by_contra hless
    obtain ⟨n, hn⟩ := Nat.exists_eq_add_one_of_ne_zero hpos.ne'
    have hsorted : (now :: List.replicate n now).Pairwise (· ≤ ·) := by
      rw [← List.replicate_succ]
      exact List.pairwise_replicate.mpr (.inr le_rfl)
    have hanswers := hall (List.replicate n now) hsorted
      (by rw [List.length_replicate, hn])
    rw [← List.replicate_succ, answers_at_once hb, hn] at hanswers
    have hlast : decide (n < (L.refill b now).tokens) = true := by
      have hget := congrArg (fun l => l[n]?) hanswers
      simpa using hget
    have hmore := of_decide_eq_true hlast
    omega
  · intro hfull later hsorted hlength
    have htokens : (L.refill b now).tokens = L.capacity := by
      rw [hrefill]
      exact min_eq_right hfull
    have hgiven : (L.take b now).1 = true := by
      rw [take_fst, htokens]
      exact decide_eq_true hpos
    have hleft : L.capacity - 1 ≤ (L.take b now).2.tokens := by
      rw [take_snd, htokens]
    have hfew : later.length ≤ L.capacity - 1 := by omega
    have hrest := answers_of_tokens hfew (tokens_take_lt hb.tokens_le).le hleft
    rw [answers, hgiven, hrest, ← hlength]
    rfl

/-- After a refusal nothing is left. -/
theorem tokens_of_refused (h : (L.take b now).1 = false) : (L.take b now).2.tokens = 0 := by
  rw [take_fst] at h
  have hnone : ¬0 < (L.refill b now).tokens := of_decide_eq_false h
  rw [take_snd]
  dsimp only
  omega

/-- How much comes back, from the time since the mark. -/
theorem le_due_iff {n : ℕ} :
    n ≤ L.due b now ↔ n * L.period ≤ (now - b.mark) % (L.period * L.modulus) := by
  have hpart := Nat.mod_lt (now - b.mark) L.period_pos
  rw [mod_eq_due]
  constructor
  · intro h
    exact (Nat.mul_le_mul_right _ h).trans (Nat.le_add_right _ _)
  · intro h
    by_contra hless
    have hmul := Nat.mul_le_mul_right L.period (Nat.succ_le_of_lt (Nat.not_le.mp hless))
    rw [Nat.succ_mul] at hmul
    omega

/-- An empty bucket gives something exactly when something comes back. -/
theorem take_of_empty_iff (hb : b.tokens = 0) : (L.take b now).1 = true ↔ L.due b now ≠ 0 := by
  have hpos := L.capacity_pos
  rw [take_fst, decide_eq_true_eq, tokens_refill (by omega), hb]
  omega

/-! ### Buckets that are made at the first call -/

section From

variable (L) {o : Option Bucket} {times : List ℕ}

/-- The answers of a bucket, which is made at the first call unless it is there. -/
def answersFrom (o : Option Bucket) : List ℕ → List Bool
  | [] => []
  | now :: times => L.answers (o.getD (L.fresh now)) (now :: times)

/-- That bucket after the calls. -/
def afterFrom (o : Option Bucket) : List ℕ → Option Bucket
  | [] => o
  | now :: times => some (L.after (o.getD (L.fresh now)) (now :: times))

variable {L}

theorem answersFrom_some (b : Bucket) (times : List ℕ) :
    L.answersFrom (some b) times = L.answers b times := by
  cases times <;> rfl

theorem afterFrom_some (b : Bucket) (times : List ℕ) :
    L.afterFrom (some b) times = some (L.after b times) := by
  cases times <;> rfl

theorem answersFrom_cons (o : Option Bucket) (now : ℕ) (times : List ℕ) :
    L.answersFrom o (now :: times) = (L.take (o.getD (L.fresh now)) now).1 ::
      L.answersFrom (some (L.take (o.getD (L.fresh now)) now).2) times := by
  rw [answersFrom_some]
  rfl

theorem afterFrom_cons (o : Option Bucket) (now : ℕ) (times : List ℕ) :
    L.afterFrom o (now :: times) =
      L.afterFrom (some (L.take (o.getD (L.fresh now)) now).2) times := by
  rw [afterFrom_some]
  rfl

/-- The bucket of the next call is sound. -/
theorem sound_afterFrom (hsorted : times.Pairwise (· ≤ ·)) (hlast : ∀ t ∈ times, t ≤ now) :
    L.Sound ((L.afterFrom none times).getD (L.fresh now)) now := by
  cases times with
  | nil => exact sound_fresh
  | cons t times =>
    apply Sound.after le_rfl _ hsorted hlast (hlast t List.mem_cons_self)
    intro t' ht'
    rcases List.mem_cons.mp ht' with rfl | ht'
    · exact le_rfl
    · exact (List.pairwise_cons.mp hsorted).1 t' ht'

/-- The bucket after a refusal is empty. -/
theorem tokens_of_last_refused (h : (L.answersFrom o times).getLast? = some false) :
    ∃ b, L.afterFrom o times = some b ∧ b.tokens = 0 := by
  induction times generalizing o with
  | nil => cases h
  | cons now times ih =>
    rw [answersFrom_cons] at h
    rw [afterFrom_cons]
    cases times with
    | nil => exact ⟨_, rfl, tokens_of_refused (Option.some.inj h)⟩
    | cons t times =>
      apply ih
      rwa [answersFrom_cons, List.getLast?_cons_cons, ← answersFrom_cons] at h

end From

end TokenBucket
