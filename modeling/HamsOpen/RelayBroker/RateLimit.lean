import HamsOpen.Lib.TokenBucket
import Mathlib

/-!
# The rate limit of the relay broker

The token buckets of `ratelimit.rs`, one for each uid. Times are nanoseconds. The map goes through
its entries in the order in which they were last put in; which of two entries of the same age is
dropped depends on that.

The periods since the last refill are counted with 32 bits, so a bucket that was left alone for
`2 ^ 32` periods or a little more is refilled with little or nothing.
-/

namespace HamsOpen.RelayBroker

open TokenBucket (Bucket)

/-- The limiter, with the tokens of each uid and the time of its last refill. -/
structure RateLimiter where
  capacity : ℕ
  refillEvery : ℕ
  buckets : AList fun _ : ℕ => Bucket

namespace RateLimiter

/-- A limiter of so many calls a minute. -/
def new (perMinute : UInt32) : RateLimiter :=
  let capacity := max perMinute.toNat 1
  ⟨capacity, 60 * 10 ^ 9 / capacity, ∅⟩

/-- The buckets, without the oldest one where a new one would be too many. -/
def makeRoom (s : RateLimiter) (uid : ℕ) : AList fun _ : ℕ => Bucket :=
  if 256 ≤ s.buckets.entries.length ∧ uid ∉ s.buckets then
    match s.buckets.entries.argmin fun e => e.2.mark with
    | some oldest => s.buckets.erase oldest.1
    | none => s.buckets
  else s.buckets

def allow (s : RateLimiter) (uid now : ℕ) : Bool × RateLimiter :=
  let buckets := s.makeRoom uid
  let entry := (buckets.lookup uid).getD ⟨s.capacity, now⟩
  let elapsed := now - entry.mark
  let refill := elapsed / max s.refillEvery 1 % 2 ^ 32
  let entry : Bucket :=
    if 0 < refill then ⟨min (min (entry.tokens + refill) (2 ^ 32 - 1)) s.capacity, now⟩ else entry
  if entry.tokens = 0 then (false, { s with buckets := buckets.insert uid entry })
  else (true, { s with buckets := buckets.insert uid ⟨entry.tokens - 1, entry.mark⟩ })

/-- What some calls are answered. Each has its uid and its time. -/
def answers (s : RateLimiter) : List (ℕ × ℕ) → List Bool
  | [] => []
  | (uid, now) :: calls => (s.allow uid now).1 :: answers (s.allow uid now).2 calls

/-- The limiter after some calls. -/
def after (s : RateLimiter) (calls : List (ℕ × ℕ)) : RateLimiter :=
  calls.foldl (fun s call => (s.allow call.1 call.2).2) s

/-- What the calls of a uid are answered, among others. -/
def answersOf (s : RateLimiter) (uid : ℕ) (calls : List (ℕ × ℕ)) : List Bool :=
  ((calls.zip (s.answers calls)).filter fun x => x.1.1 = uid).map Prod.snd

/-- How many calls of a uid are allowed in a window. -/
def allowed (s : RateLimiter) (uid : ℕ) (calls : List (ℕ × ℕ)) (first last : ℕ) : ℕ :=
  (calls.zip (s.answers calls)).countP fun x =>
    decide (x.1.1 = uid ∧ first ≤ x.1.2 ∧ x.1.2 ≤ last) && x.2

end RateLimiter

/-! ### Each uid has a bucket of its own -/

/-- The numbers of a limiter. -/
def limits (perMinute : UInt32) : TokenBucket where
  capacity := max perMinute.toNat 1
  period := 60 * 10 ^ 9 / max perMinute.toNat 1
  modulus := 2 ^ 32
  capacity_pos := Nat.lt_of_lt_of_le Nat.one_pos (Nat.le_max_right _ _)
  period_pos := by
    have hlt := perMinute.toNat_lt
    apply Nat.div_pos
    · omega
    · omega

/-- A limiter of so many calls a minute, with the buckets of some uids. -/
structure Serves (perMinute : UInt32) (uids : Finset ℕ) (s : RateLimiter) : Prop where
  capacity_eq : s.capacity = (limits perMinute).capacity
  refillEvery_eq : s.refillEvery = (limits perMinute).period
  mem_of_bucket : ∀ uid ∈ s.buckets, uid ∈ uids

section Own

variable {perMinute : UInt32} {uids : Finset ℕ} {s : RateLimiter} {uid now : ℕ}
  {calls : List (ℕ × ℕ)}

theorem serves_new (perMinute : UInt32) (uids : Finset ℕ) :
    Serves perMinute uids (.new perMinute) :=
  ⟨rfl, rfl, fun uid h => absurd h (AList.notMem_empty uid)⟩

/-- Few uids all have room. -/
theorem Serves.makeRoom_eq (h : Serves perMinute uids s) (hfew : uids.card ≤ 256)
    (huid : uid ∈ uids) : s.makeRoom uid = s.buckets := by
  apply if_neg
  rintro ⟨hmany, hnew⟩
  have hkeys : s.buckets.keys.toFinset ⊆ uids.erase uid := by
    intro u hu
    have hmem : u ∈ s.buckets := List.mem_toFinset.mp hu
    refine Finset.mem_erase.mpr ⟨?_, h.mem_of_bucket u hmem⟩
    rintro rfl
    exact hnew hmem
  have hcard := Finset.card_le_card hkeys
  rw [List.toFinset_card_of_nodup s.buckets.keys_nodup, Finset.card_erase_of_mem huid,
    AList.keys, List.keys, List.length_map] at hcard
  have hpos := Finset.card_pos.mpr ⟨uid, huid⟩
  omega

/-- The bucket of a uid, as it is found at a call. -/
def bucketOf (s : RateLimiter) (uid now : ℕ) : Bucket :=
  (s.buckets.lookup uid).getD ⟨s.capacity, now⟩

/-- A call is a call of the bucket of its uid. -/
theorem Serves.allow_eq (h : Serves perMinute uids s) (hfew : uids.card ≤ 256)
    (huid : uid ∈ uids) (now : ℕ) :
    s.allow uid now = (((limits perMinute).take (bucketOf s uid now) now).1,
      { s with buckets :=
        s.buckets.insert uid ((limits perMinute).take (bucketOf s uid now) now).2 }) := by
  have hperiod : max s.refillEvery 1 = (limits perMinute).period := by
    rw [h.refillEvery_eq]
    exact max_eq_left (limits perMinute).period_pos
  have hbits : (limits perMinute).capacity ≤ 2 ^ 32 - 1 := by
    have hlt := perMinute.toNat_lt
    unfold limits
    dsimp only
    omega
  have hrefill : (if 0 < (now - (bucketOf s uid now).mark) / max s.refillEvery 1 % 2 ^ 32 then
      (⟨min (min ((bucketOf s uid now).tokens +
        (now - (bucketOf s uid now).mark) / max s.refillEvery 1 % 2 ^ 32) (2 ^ 32 - 1))
          s.capacity, now⟩ : Bucket) else bucketOf s uid now) =
      (limits perMinute).refill (bucketOf s uid now) now := by
    rw [hperiod, h.capacity_eq, min_assoc, min_eq_right hbits]
    rfl
  unfold RateLimiter.allow TokenBucket.take
  unfold bucketOf at hrefill ⊢
  dsimp only
  rw [h.makeRoom_eq hfew huid, hrefill]
  split <;> rfl

theorem Serves.allow (h : Serves perMinute uids s) (hfew : uids.card ≤ 256) (huid : uid ∈ uids)
    (now : ℕ) : Serves perMinute uids (s.allow uid now).2 := by
  rw [h.allow_eq hfew huid]
  refine ⟨h.capacity_eq, h.refillEvery_eq, ?_⟩
  intro u hu
  rcases (AList.mem_insert _).mp hu with rfl | hu
  · exact huid
  · exact h.mem_of_bucket u hu

theorem Serves.after (h : Serves perMinute uids s) (hfew : uids.card ≤ 256)
    (huids : ∀ call ∈ calls, call.1 ∈ uids) : Serves perMinute uids (s.after calls) := by
  induction calls generalizing s with
  | nil => exact h
  | cons call calls ih =>
    apply ih (h.allow hfew (huids call List.mem_cons_self) call.2)
    intro c hc
    exact huids c (List.mem_cons_of_mem _ hc)

/-- The times of the calls of a uid. -/
def timesOf (uid : ℕ) (calls : List (ℕ × ℕ)) : List ℕ :=
  (calls.filter fun call => call.1 = uid).map Prod.snd

theorem timesOf_cons_self (now : ℕ) (calls : List (ℕ × ℕ)) :
    timesOf uid ((uid, now) :: calls) = now :: timesOf uid calls := by
  simp [timesOf]

theorem timesOf_cons_ne {u : ℕ} (hu : u ≠ uid) (now : ℕ) (calls : List (ℕ × ℕ)) :
    timesOf uid ((u, now) :: calls) = timesOf uid calls := by
  simp [timesOf, hu]

theorem answersOf_cons_self (s : RateLimiter) (now : ℕ) (calls : List (ℕ × ℕ)) :
    s.answersOf uid ((uid, now) :: calls) =
      (s.allow uid now).1 :: (s.allow uid now).2.answersOf uid calls := by
  simp [RateLimiter.answersOf, RateLimiter.answers]

theorem answersOf_cons_ne {u : ℕ} (hu : u ≠ uid) (s : RateLimiter) (now : ℕ)
    (calls : List (ℕ × ℕ)) :
    s.answersOf uid ((u, now) :: calls) = (s.allow u now).2.answersOf uid calls := by
  simp [RateLimiter.answersOf, RateLimiter.answers, hu]

/-- A uid is answered from its own bucket, and that is all that its calls change. -/
theorem Serves.answersOf_eq (h : Serves perMinute uids s) (hfew : uids.card ≤ 256)
    (huids : ∀ call ∈ calls, call.1 ∈ uids) (uid : ℕ) :
    s.answersOf uid calls =
        (limits perMinute).answersFrom (s.buckets.lookup uid) (timesOf uid calls) ∧
      (s.after calls).buckets.lookup uid =
        (limits perMinute).afterFrom (s.buckets.lookup uid) (timesOf uid calls) := by
  induction calls generalizing s with
  | nil => exact ⟨rfl, rfl⟩
  | cons call calls ih =>
    obtain ⟨u, now⟩ := call
    have hu : u ∈ uids := huids (u, now) List.mem_cons_self
    have hcalls : ∀ call ∈ calls, call.1 ∈ uids := fun c hc => huids c (List.mem_cons_of_mem _ hc)
    obtain ⟨hanswers, hafter⟩ := ih (h.allow hfew hu now) hcalls
    have hafter' : s.after ((u, now) :: calls) = (s.allow u now).2.after calls := rfl
    have hlookup : (s.allow u now).2.buckets =
        s.buckets.insert u ((limits perMinute).take (bucketOf s u now) now).2 := by
      rw [h.allow_eq hfew hu]
    by_cases hown : u = uid
    · subst hown
      have hfirst : (s.allow u now).1 = ((limits perMinute).take (bucketOf s u now) now).1 := by
        rw [h.allow_eq hfew hu]
      have hfresh : bucketOf s u now =
          (s.buckets.lookup u).getD ((limits perMinute).fresh now) := by
        rw [bucketOf, h.capacity_eq]
        rfl
      rw [hlookup, AList.lookup_insert] at hanswers hafter
      rw [answersOf_cons_self, timesOf_cons_self, TokenBucket.answersFrom_cons,
        TokenBucket.afterFrom_cons, ← hfresh, hfirst, hanswers, hafter', hafter]
      exact ⟨rfl, rfl⟩
    · rw [hlookup, AList.lookup_insert_ne (Ne.symm hown)] at hanswers hafter
      rw [answersOf_cons_ne hown, timesOf_cons_ne hown, hafter']
      exact ⟨hanswers, hafter⟩

/-- What is allowed in a window is counted over the calls of the uid. -/
theorem allowed_eq (s : RateLimiter) (uid : ℕ) (calls : List (ℕ × ℕ)) (first last : ℕ) :
    s.allowed uid calls first last =
      ((timesOf uid calls).zip (s.answersOf uid calls)).countP fun x =>
        decide (first ≤ x.1 ∧ x.1 ≤ last) && x.2 := by
  induction calls generalizing s with
  | nil => rfl
  | cons call calls ih =>
    obtain ⟨u, now⟩ := call
    have hrest := ih (s.allow u now).2
    unfold RateLimiter.allowed at hrest ⊢
    rw [RateLimiter.answers, List.zip_cons_cons, List.countP_cons, hrest]
    by_cases hown : u = uid
    · subst hown
      rw [timesOf_cons_self, answersOf_cons_self, List.zip_cons_cons, List.countP_cons]
      simp only [true_and]
    · rw [timesOf_cons_ne hown, answersOf_cons_ne hown]
      simp [hown]

/-- Where all calls are of the uid, all answers are. -/
theorem answersOf_own (s : RateLimiter) (h : ∀ call ∈ calls, call.1 = uid) :
    s.answersOf uid calls = s.answers calls := by
  induction calls generalizing s with
  | nil => rfl
  | cons call calls ih =>
    obtain ⟨u, now⟩ := call
    obtain rfl : u = uid := h (u, now) List.mem_cons_self
    rw [answersOf_cons_self, ih _ fun c hc => h c (List.mem_cons_of_mem _ hc)]
    rfl

theorem timesOf_own (times : List ℕ) : timesOf uid (times.map fun t => (uid, t)) = times := by
  unfold timesOf
  rw [List.filter_eq_self.mpr]
  · rw [List.map_map]
    exact List.map_id _
  · intro call hcall
    obtain ⟨t, -, rfl⟩ := List.mem_map.mp hcall
    exact decide_eq_true rfl

theorem timesOf_filter (calls : List (ℕ × ℕ)) :
    timesOf uid (calls.filter fun call => call.1 = uid) = timesOf uid calls := by
  unfold timesOf
  rw [List.filter_filter]
  simp only [Bool.and_self]

theorem timesOf_sorted (h : (calls.map Prod.snd).Pairwise (· ≤ ·)) :
    (timesOf uid calls).Pairwise (· ≤ ·) :=
  h.sublist (List.filter_sublist.map Prod.snd)

theorem mem_timesOf {t : ℕ} : t ∈ timesOf uid calls ↔ (uid, t) ∈ calls := by
  unfold timesOf
  constructor
  · intro h
    obtain ⟨⟨u, t'⟩, hcall, rfl⟩ := List.mem_map.mp h
    obtain ⟨hmem, hu⟩ := List.mem_filter.mp hcall
    obtain rfl : u = uid := of_decide_eq_true hu
    exact hmem
  · intro h
    exact List.mem_map.mpr ⟨(uid, t), List.mem_filter.mpr ⟨h, decide_eq_true rfl⟩, rfl⟩

end Own

/-- A bucket has enough time behind it for so many tokens, as far as that time is counted. -/
def Counted (s : RateLimiter) (b : Bucket) (now tokens : ℕ) : Prop :=
  tokens * s.refillEvery ≤ (now - b.mark) % (s.refillEvery * 2 ^ 32)

/-- Few uids at times that do not decrease: in a window no more is allowed than the capacity and one
for each period, and other uids change nothing. After a pause a burst is allowed, and after a
refusal a call, exactly when the time since the last refill counts for what is missing. -/
theorem allow_iff (perMinute : UInt32) {calls : List (ℕ × ℕ)} (uid now : ℕ)
    (hsorted : (calls.map Prod.snd).Pairwise (· ≤ ·)) (hnow : ∀ call ∈ calls, call.2 ≤ now)
    (hfew : (uid :: calls.map Prod.fst).toFinset.card ≤ 256) :
    let s := RateLimiter.new perMinute
    let b := bucketOf (s.after calls) uid now
    (∀ first length, s.allowed uid calls first (first + length) ≤
      s.capacity + length / s.refillEvery) ∧
    s.answersOf uid calls = s.answers (calls.filter fun call => call.1 = uid) ∧
    ((∀ call ∈ calls, call.1 = uid → call.2 + s.capacity * s.refillEvery ≤ now) →
      ((∀ later : List ℕ, (now :: later).Pairwise (· ≤ ·) → later.length + 1 = s.capacity →
        (s.after calls).answers ((now :: later).map fun t => (uid, t)) =
          List.replicate s.capacity true) ↔
        Counted s b now (s.capacity - b.tokens))) ∧
    ((s.answersOf uid calls).getLast? = some false →
      (∀ call ∈ calls, call.1 = uid → call.2 + s.refillEvery ≤ now) →
      (((s.after calls).allow uid now).1 = true ↔ Counted s b now 1)) := by
  intro s b
  have hserves : Serves perMinute (uid :: calls.map Prod.fst).toFinset s := serves_new _ _
  have hself : uid ∈ (uid :: calls.map Prod.fst).toFinset := by simp
  have hcalls : ∀ call ∈ calls, call.1 ∈ (uid :: calls.map Prod.fst).toFinset := by
    intro call hcall
    exact List.mem_toFinset.mpr (.tail _ (List.mem_map_of_mem hcall))
  have hafter := hserves.after hfew hcalls
  obtain ⟨hanswers, hbucket⟩ := hserves.answersOf_eq hfew hcalls uid
  have hnone : s.buckets.lookup uid = none := AList.lookup_empty uid
  rw [hnone] at hanswers hbucket
  have htimes : (timesOf uid calls).Pairwise (· ≤ ·) := timesOf_sorted hsorted
  have hlast : ∀ t ∈ timesOf uid calls, t ≤ now := by
    intro t ht
    exact hnow _ (mem_timesOf.mp ht)
  have hb : b = ((limits perMinute).afterFrom none (timesOf uid calls)).getD
      ((limits perMinute).fresh now) := by
    change bucketOf (s.after calls) uid now = _
    rw [bucketOf, hbucket, hafter.capacity_eq]
    rfl
  have hsound : (limits perMinute).Sound b now := by
    rw [hb]
    exact TokenBucket.sound_afterFrom htimes hlast
  refine ⟨?_, ?_, ?_, ?_⟩
  · intro first length
    rw [allowed_eq, hanswers]
    cases htimesOf : timesOf uid calls with
    | nil => exact Nat.zero_le _
    | cons t times =>
      rw [htimesOf] at htimes
      refine TokenBucket.count_le (.inr ⟨le_rfl, ?_⟩) ?_ htimes
      · rintro t' ⟨⟩
        exact le_rfl
      · intro t' ht'
        rcases List.mem_cons.mp ht' with rfl | ht'
        · exact le_rfl
        · exact (List.pairwise_cons.mp htimes).1 t' ht'
  · have hown : ∀ call ∈ calls.filter fun call => call.1 = uid, call.1 = uid := by
      intro call hcall
      exact of_decide_eq_true (List.mem_filter.mp hcall).2
    have hmem : ∀ call ∈ calls.filter fun call => call.1 = uid,
        call.1 ∈ (uid :: calls.map Prod.fst).toFinset := by
      intro call hcall
      exact hcalls call (List.mem_filter.mp hcall).1
    have hsame := (hserves.answersOf_eq hfew hmem uid).1
    rw [hanswers, ← answersOf_own s hown, hsame, hnone, timesOf_filter]
  · intro _
    have hburst (later : List ℕ) :
        (s.after calls).answers ((now :: later).map fun t => (uid, t)) =
          (limits perMinute).answers b (now :: later) := by
      have hown : ∀ call ∈ (now :: later).map fun t => (uid, t), call.1 = uid := by
        intro call hcall
        obtain ⟨t, -, rfl⟩ := List.mem_map.mp hcall
        rfl
      have hmem : ∀ call ∈ (now :: later).map fun t => (uid, t),
          call.1 ∈ (uid :: calls.map Prod.fst).toFinset := by
        intro call hcall
        rw [hown call hcall]
        exact hself
      have heach := (hafter.answersOf_eq hfew hmem uid).1
      rw [← answersOf_own _ hown, heach, timesOf_own, hbucket, hb]
      rfl
    simp only [hburst]
    have hiff := TokenBucket.burst_iff hsound
    have hdue : (limits perMinute).capacity ≤ b.tokens + (limits perMinute).due b now ↔
        (limits perMinute).capacity - b.tokens ≤ (limits perMinute).due b now :=
      Nat.sub_le_iff_le_add'.symm
    rw [hdue, TokenBucket.le_due_iff] at hiff
    exact hiff
  · intro hrefused _
    rw [hanswers] at hrefused
    obtain ⟨b', hb', hempty⟩ := TokenBucket.tokens_of_last_refused hrefused
    have hcall : ((s.after calls).allow uid now).1 = ((limits perMinute).take b now).1 := by
      rw [hafter.allow_eq hfew hself]
    have htokens : b.tokens = 0 := by
      rw [hb, hb']
      exact hempty
    have hdue : (limits perMinute).due b now ≠ 0 ↔ 1 ≤ (limits perMinute).due b now :=
      Nat.one_le_iff_ne_zero.symm
    rw [hcall, TokenBucket.take_of_empty_iff htokens, hdue, TokenBucket.le_due_iff]
    exact Iff.rfl

theorem allow_iff_three :
    (RateLimiter.new 3).allowed 1000 [(1000, 0), (1000, 1), (1001, 2), (1000, 5)] 0 (0 + 5) ≤
      3 + 5 / (60 * 10 ^ 9 / 3) :=
  (allow_iff 3 1000 5 (by decide) (by decide) (by decide)).1 0 5

/-- More calls at one time than the capacity leave an empty bucket. -/
theorem exhausted (perMinute : UInt32) (uid now : ℕ) :
    let s := RateLimiter.new perMinute
    let calls := List.replicate (s.capacity + 1) (uid, now)
    Serves perMinute {uid} (s.after calls) ∧ (s.answersOf uid calls).getLast? = some false ∧
      (s.after calls).buckets.lookup uid = some ⟨0, now⟩ := by
  intro s calls
  have hserves : Serves perMinute {uid} s := serves_new _ _
  have huids : ∀ call ∈ calls, call.1 ∈ ({uid} : Finset ℕ) := by
    intro call hcall
    rw [List.eq_of_mem_replicate hcall]
    exact Finset.mem_singleton_self uid
  have hfew : ({uid} : Finset ℕ).card ≤ 256 := by
    rw [Finset.card_singleton]
    decide
  have htimes : timesOf uid calls = List.replicate (s.capacity + 1) now := by
    have hmap : calls = (List.replicate (s.capacity + 1) now).map fun t => (uid, t) :=
      List.map_replicate.symm
    rw [hmap, timesOf_own]
  have hnone : s.buckets.lookup uid = none := AList.lookup_empty uid
  have hfresh : (limits perMinute).due ((limits perMinute).fresh now) now = 0 := by
    rw [TokenBucket.due, TokenBucket.fresh, Nat.sub_self, Nat.zero_div, Nat.zero_mod]
  obtain ⟨hanswers, hafter⟩ := hserves.answersOf_eq hfew huids uid
  rw [hnone, htimes] at hanswers hafter
  refine ⟨hserves.after hfew huids, ?_, ?_⟩
  · have hsound : (limits perMinute).Sound ((limits perMinute).fresh now) now :=
      TokenBucket.sound_fresh
    have hat := TokenBucket.answers_at_once hsound (s.capacity + 1)
    have htokens : ((limits perMinute).refill ((limits perMinute).fresh now) now).tokens =
        s.capacity := by
      rw [TokenBucket.refill, hfresh, if_neg (Nat.lt_irrefl 0)]
      rfl
    have hfrom : (limits perMinute).answersFrom none (List.replicate (s.capacity + 1) now) =
        (limits perMinute).answers ((limits perMinute).fresh now)
          (List.replicate (s.capacity + 1) now) := rfl
    rw [hanswers, hfrom, hat, htokens, List.range_succ, List.map_append]
    simp
  · have hat := TokenBucket.after_at_once hfresh (s.capacity + 1)
    have hfrom : (limits perMinute).afterFrom none (List.replicate (s.capacity + 1) now) =
        some ((limits perMinute).after ((limits perMinute).fresh now)
          (List.replicate (s.capacity + 1) now)) := rfl
    have hzero : ((limits perMinute).fresh now).tokens - (s.capacity + 1) = 0 :=
      Nat.sub_eq_zero_of_le (Nat.le_succ _)
    rw [hafter, hfrom, hat, hzero]
    rfl

/-- A limit of a million a second: a uid that was refused is refused again when it has been idle for
an hour, eleven minutes and thirty-four seconds, and a part of one. -/
theorem allow_wraps :
    let s := RateLimiter.new 60000000
    let calls := List.replicate (s.capacity + 1) (7, 0)
    (s.answersOf 7 calls).getLast? = some false ∧
      0 + s.capacity * s.refillEvery ≤ 4294967296000 ∧
      ((s.after calls).allow 7 4294967296000).1 = false := by
  intro s calls
  obtain ⟨hserves, hrefused, hlookup⟩ := exhausted 60000000 7 0
  refine ⟨hrefused, by decide, ?_⟩
  have hbucket : bucketOf (s.after calls) 7 4294967296000 = ⟨0, 0⟩ := by
    rw [bucketOf, hlookup]
    rfl
  have hdue : (limits 60000000).due ⟨0, 0⟩ 4294967296000 = 0 := by decide
  have hcall : ((s.after calls).allow 7 4294967296000).1 =
      ((limits 60000000).take ⟨0, 0⟩ 4294967296000).1 := by
    rw [hserves.allow_eq (by decide) (by decide), hbucket]
  rw [hcall, ← Bool.not_eq_true, TokenBucket.take_of_empty_iff rfl, hdue]
  exact fun h => h rfl

end HamsOpen.RelayBroker
