import HamsOpen.Rig.Numbers
import Mathlib

/-!
# Whose reply it is

`note_written` remembers each request that expects a reply for two reply timeouts, and `claim_reply`
gives what arrives to the oldest of them it fits. Against a rig that answers in the order it was
asked this is right as long as the request is still remembered when its reply is read: a reply that
arrived in time and lay unread behind a spacing, a backoff or a blocked write is taken for the
answer to a later command. The same goes for what a reply decodes to beside the answer itself.
-/

namespace HamsOpen.Rig

/-- What can answer a request. -/
def Inbound.isAnswer : Inbound → Bool
  | .observation _ | .ack | .nak => true
  | .scopeFrame | .filterScopeFrame | .unrecognised _ => false

/-- The entry `note_written` makes for a request on the wire. -/
def Wrote.owed (r : Wrote) (timeout : Duration) (index : Nat) : Outstanding :=
  ⟨r.kind, r.seq, deadlineAfter r.when (timeout * STALE_WINDOW_TIMEOUTS), index⟩

/-- A request that went out whole and expects a reply. -/
def Wrote.expectsReply (r : Wrote) : Bool := r.complete && r.kind != .none

/-- The requests that some decoded items answer. -/
def answered (items : List Item) : List Nat :=
  items.filterMap fun item => if item.1.isAnswer then item.2 else none

/-- The requests whose answers the actor has read, in order. -/
def answersRead : List Event → List Nat
  | [] => []
  | .absorbed items _ :: log => answersRead log ++ answered items
  | _ :: log => answersRead log

/-- The answers among decoded items are read in time: each while its request is the last on the
wire, or while the request is remembered, as its first answer, which fits it. -/
def readInTime (wire : List Wrote) (timeout : Duration) (now : Instant) :
    List Nat → List Item → Bool
  | _, [] => true
  | heard, (inbound, answers) :: items =>
    match if inbound.isAnswer then answers else none with
    | none => readInTime wire timeout now heard items
    | some w =>
      (w + 1 == wire.length || !heard.contains w && (wire[w]?).any fun r =>
        decide (now < (r.owed timeout w).expires) && Memory.fits inbound (r.owed timeout w)) &&
      readInTime wire timeout now (heard ++ [w]) items

/-- The rig answers requests that went out whole and expect a reply, in the order they were written
and each within two timeouts, and sends nothing else. -/
def RigAnswers {σ : Type} (cfg : Setup σ) (s : State σ) : Act → Bool
  | .deliver chunk => chunk.answers.any fun w => (s.wire[w]?).any fun r =>
      r.expectsReply && decide (s.env.now ≤ (r.owed cfg.engine.timeout w).expires) &&
        (answersRead s.log).all (· ≤ w) && (s.env.rx.filterMap (·.answers)).all (· ≤ w)
  | _ => true

/-- Where the actor reads, it reads what has arrived in time. -/
def RepliesRead {σ : Type} (cfg : Setup σ) (s : State σ) : Act → Bool
  | .actor _ => !s.phase.reads || readInTime s.wire cfg.engine.timeout s.env.now
      (answersRead s.log) (State.feedAll cfg.engine s.env.now s.engine s.env.rx).1
  | _ => true

/-- A command completed by what answers request `write` on the wire is the command that wrote it. -/
def Answers (wire : List Wrote) (seq : Nat) (write : Option Nat) : Prop :=
  ∃ w r, write = some w ∧ wire[w]? = some r ∧ r.seq = seq

theorem Answers.append {wire : List Wrote} {seq : Nat} {write : Option Nat}
    (h : Answers wire seq write) (wire' : List Wrote) : Answers (wire ++ wire') seq write := by
  obtain ⟨w, r, hwrite, hr, hseq⟩ := h
  refine ⟨w, r, hwrite, ?_, hseq⟩
  rwa [List.getElem?_append_left (List.getElem?_eq_some_iff.mp hr).1]

/-! ### What the memory owes -/

namespace Memory

variable {caps : CapabilitySet} {expect : ReplyKind} {seq : Nat} {source : Source}
  {timeout : Duration} {wire : List Wrote} {now : Instant} {heard : List Nat} {m m' : Memory}

/-- The list of requests whose reply is owed, against the wire: it is in the order of the wire, and
it holds every remembered request after the last one answered. -/
structure Owes (timeout : Duration) (wire : List Wrote) (now : Instant) (heard : List Nat)
    (m : Memory) : Prop where
  sorted : m.outstanding.Pairwise (·.write < ·.write)
  noted : ∀ o ∈ m.outstanding, ∃ r, wire[o.write]? = some r ∧ o = r.owed timeout o.write
  owed : ∀ w r, wire[w]? = some r → r.expectsReply = true → now < (r.owed timeout w).expires →
    (∀ v ∈ heard, v < w) → r.owed timeout w ∈ m.outstanding

/-- Requests are forgotten, but none that is still to be remembered at a later time. -/
theorem Owes.forget {now' : Instant} (h : m.Owes timeout wire now heard) (hnow : now ≤ now')
    (hforgotten : m'.outstanding.Sublist m.outstanding)
    (hexpected : ∀ o ∈ m.outstanding, now' < o.expires → o ∈ m'.outstanding) :
    m'.Owes timeout wire now' heard where
  sorted := h.sorted.sublist hforgotten
  noted o ho := h.noted o (hforgotten.subset ho)
  owed w r hw hr hw' hheard :=
    hexpected _ (h.owed w r hw hr (Nat.lt_of_le_of_lt hnow hw') hheard) hw'

theorem Owes.of_eq (h : m.Owes timeout wire now heard) (heq : m'.outstanding = m.outstanding) :
    m'.Owes timeout wire now heard := by
  refine h.forget (Nat.le_refl _) ?_ fun o ho _ => ?_
  · simp only [heq, List.Sublist.refl]
  · rwa [heq]

theorem Owes.prune (h : m.Owes timeout wire now heard) :
    (m.pruneOutstanding now).Owes timeout wire now heard :=
  h.forget (Nat.le_refl _) List.filter_sublist fun _ ho hnow =>
    List.mem_filter.mpr ⟨ho, by simpa using hnow⟩

/-- A request that expects a reply and went out whole is remembered. -/
theorem Owes.noteWritten (h : m.Owes timeout wire now heard) {r : Wrote} (hwhen : r.when = now) :
    (if r.complete then m.noteWritten r.kind r.seq timeout wire.length r.when else m).Owes
      timeout (wire ++ [r]) now heard := by
  have hnew {w : Nat} {r' : Wrote} (hr' : (wire ++ [r])[w]? = some r') :
      wire[w]? = some r' ∨ w = wire.length ∧ r' = r := by
    rcases Nat.lt_or_ge w wire.length with hlt | hge
    · exact .inl (by rwa [List.getElem?_append_left hlt] at hr')
    · rw [List.getElem?_append_right hge, List.getElem?_singleton] at hr'
      split at hr'
      · exact .inr ⟨by omega, (Option.some.inj hr').symm⟩
      · cases hr'
  have hold {w : Nat} {r' : Wrote} (hr' : wire[w]? = some r') : (wire ++ [r])[w]? = some r' := by
    rwa [List.getElem?_append_left (List.getElem?_eq_some_iff.mp hr').1]
  have hprune := h.prune
  by_cases hreply : r.expectsReply = true
  · rw [Wrote.expectsReply, Bool.and_eq_true, bne_iff_ne] at hreply
    rw [if_pos hreply.1, Memory.noteWritten, if_neg hreply.2, hwhen]
    refine ⟨?_, fun o ho => ?_, fun w r' hr' hreply' hnow hheard => ?_⟩
    · refine List.pairwise_append.mpr ⟨hprune.sorted, List.pairwise_singleton _ _, ?_⟩
      intro o ho o' ho'
      obtain rfl := List.mem_singleton.mp ho'
      obtain ⟨r', hr', -⟩ := hprune.noted o ho
      exact (List.getElem?_eq_some_iff.mp hr').1
    · rcases List.mem_append.mp ho with ho | ho
      · obtain ⟨r', hr', heq⟩ := hprune.noted o ho
        exact ⟨r', hold hr', heq⟩
      · obtain rfl := List.mem_singleton.mp ho
        exact ⟨r, by simp, by simp [Wrote.owed, hwhen]⟩
    · rcases hnew hr' with hr' | ⟨rfl, rfl⟩
      · exact List.mem_append_left _ (hprune.owed w r' hr' hreply' hnow hheard)
      · exact List.mem_append_right _ (by simp [Wrote.owed, hwhen])
  · have hsame : (if r.complete then m.noteWritten r.kind r.seq timeout wire.length r.when else m)
        = m := by
      split
      · rename_i hcomplete
        rw [Memory.noteWritten, if_pos (by simpa [Wrote.expectsReply, hcomplete] using hreply)]
      · rfl
    rw [hsame]
    refine ⟨h.sorted, fun o ho => ?_, fun w r' hr' hreply' hnow hheard => ?_⟩
    · obtain ⟨r', hr', heq⟩ := h.noted o ho
      exact ⟨r', hold hr', heq⟩
    · rcases hnew hr' with hr' | ⟨rfl, rfl⟩
      · exact h.owed w r' hr' hreply' hnow hheard
      · exact absurd hreply' hreply

/-- What answers nothing is claimed by nobody. -/
theorem Owes.claimNothing (h : m.Owes timeout wire now heard) {inbound : Inbound}
    (hinbound : inbound.isAnswer = false) :
    (m.claimReply inbound now).2.Owes timeout wire now heard := by
  have hfits (o : Outstanding) : ¬fits inbound o = true := by
    cases inbound <;> simp_all [Inbound.isAnswer, fits]
  exact h.prune.of_eq (List.eraseP_of_forall_not fun o _ => hfits o)

/-- An answer read in time goes to its own request or to an earlier one. After it, every remembered
request after its own is still there. -/
theorem Owes.claimReply (h : m.Owes timeout wire now heard)
    (hseqs : wire.Pairwise (·.seq ≤ ·.seq)) {inbound : Inbound} {w : Nat} {r : Wrote}
    (hw : wire[w]? = some r) (hreply : r.expectsReply = true) (hafter : ∀ v ∈ heard, v ≤ w)
    (hread : w + 1 = wire.length ∨ w ∉ heard ∧ now < (r.owed timeout w).expires ∧
      fits inbound (r.owed timeout w) = true) :
    (m.claimReply inbound now).2.Owes timeout wire now (heard ++ [w]) ∧
      (∀ seq, (m.claimReply inbound now).1 = some seq → seq ≤ r.seq) ∧
      ((m.claimReply inbound now).1 = none → w + 1 = wire.length) := by
  have hprune := h.prune
  have hlater {v : Nat} (hheard : ∀ u ∈ heard ++ [w], u < v) : w < v ∧ ∀ u ∈ heard, u < v :=
    ⟨hheard w (by simp), fun u hu => hheard u (by simp [hu])⟩
  have hmem : w + 1 = wire.length ∨
      r.owed timeout w ∈ (m.pruneOutstanding now).outstanding ∧
        fits inbound (r.owed timeout w) = true := by
    refine hread.imp_right fun ⟨hnew, hnow, hfits⟩ => ⟨?_, hfits⟩
    refine hprune.owed w r hw hreply hnow fun v hv => ?_
    refine Nat.lt_of_le_of_ne (hafter v hv) ?_
    rintro rfl
    exact hnew hv
  simp only [Memory.claimReply]
  cases hfind : (m.pruneOutstanding now).outstanding.find? (fits inbound) with
  | none =>
    have hnot := List.find?_eq_none.mp hfind
    refine ⟨?_, nofun, fun _ => ?_⟩
    · refine Owes.of_eq ?_ (List.eraseP_of_forall_not hnot)
      exact ⟨hprune.sorted, hprune.noted, fun v r' hr' hreply' hnow hheard =>
        hprune.owed v r' hr' hreply' hnow (hlater hheard).2⟩
    · exact hmem.resolve_right fun ⟨howed, hfits⟩ => hnot _ howed hfits
  | some o =>
    obtain ⟨ho, before, behind, hlist, hbefore⟩ := List.find?_eq_some_iff_append.mp hfind
    have herase : (m.pruneOutstanding now).outstanding.eraseP (fits inbound) = before ++ behind := by
      rw [hlist, List.eraseP_append_right _ fun b hb => by simpa using hbefore b hb,
        List.eraseP_cons_of_pos ho]
    obtain ⟨r', hr', heq⟩ := hprune.noted o (List.mem_of_find?_eq_some hfind)
    have hsorted := hprune.sorted
    rw [hlist] at hsorted
    -- The request found is the answered one or stands before it.
    have hle : o.write ≤ w := by
      rcases hmem with hlast | ⟨howed, hfits⟩
      · have hlt := (List.getElem?_eq_some_iff.mp hr').1
        omega
      · rw [hlist] at howed
        rcases List.mem_append.mp howed with hin | hin
        · exact absurd hfits (by simpa using hbefore _ hin)
        rcases List.mem_cons.mp hin with rfl | hin
        · exact Nat.le_refl _
        · exact Nat.le_of_lt
            (List.rel_of_pairwise_cons (List.pairwise_append.mp hsorted).2.1 hin)
    refine ⟨⟨?_, fun o' ho' => ?_, fun v r₁ hr₁ hreply' hnow hheard => ?_⟩, ?_, nofun⟩
    · exact hprune.sorted.sublist List.eraseP_sublist
    · exact hprune.noted o' (List.mem_of_mem_eraseP ho')
    · have howed := hprune.owed v r₁ hr₁ hreply' hnow (hlater hheard).2
      rw [hlist, List.mem_append, List.mem_cons] at howed
      change _ ∈ List.eraseP _ _
      rw [herase, List.mem_append]
      rcases howed with hin | heq' | hin
      · exact .inl hin
      · have hv : v = o.write := congrArg Outstanding.write heq'
        have hlt := (hlater hheard).1
        omega
      · exact .inr hin
    · intro seq hseq
      obtain rfl := Option.some.inj hseq
      rw [heq]
      rcases Nat.eq_or_lt_of_le hle with hsame | hlt
      · rw [hsame, hw] at hr'
        exact Nat.le_of_eq (congrArg Wrote.seq (Option.some.inj hr').symm)
      · obtain ⟨hi, rfl⟩ := List.getElem?_eq_some_iff.mp hr'
        obtain ⟨hj, rfl⟩ := List.getElem?_eq_some_iff.mp hw
        exact List.pairwise_iff_getElem.mp hseqs _ _ hi hj hlt

/-- What one item decides. -/
theorem absorbItem_decides (m : Memory) (done : Option Decided) (item : Item) :
    (absorbItem caps expect seq source now m done item).2 = done ∨
      item.1.isAnswer = true ∧ expect ≠ .none ∧
      (∀ o, (m.claimReply item.1 now).1 = some o → o = seq) ∧
      ∃ result, (absorbItem caps expect seq source now m done item).2 = some (result, item.2) := by
  have howner (hstale : (!(m.claimReply item.1 now).1.any fun o => o != seq) = true) :
      ∀ o, (m.claimReply item.1 now).1 = some o → o = seq := by
    intro o ho
    simpa [ho] using hstale
  obtain ⟨inbound, write⟩ := item
  cases inbound with
  | observation value =>
    simp only [absorbItem]
    split
    · rename_i hwanted
      rw [Bool.and_eq_true, Bool.and_eq_true, beq_iff_eq] at hwanted
      exact .inr ⟨rfl, by simp [hwanted.2], howner hwanted.1.2, _, rfl⟩
    · exact .inl rfl
  | ack =>
    simp only [absorbItem]
    split
    · rename_i hwanted
      rw [Bool.and_eq_true, Bool.and_eq_true, beq_iff_eq] at hwanted
      exact .inr ⟨rfl, by simp [hwanted.2], howner hwanted.1.2, _, rfl⟩
    · exact .inl rfl
  | nak =>
    simp only [absorbItem]
    split
    · rename_i hwanted
      rw [Bool.and_eq_true, Bool.and_eq_true, bne_iff_ne] at hwanted
      exact .inr ⟨rfl, hwanted.2, howner hwanted.1.2, _, rfl⟩
    · exact .inl rfl
  | scopeFrame | filterScopeFrame | unrecognised => exact .inl rfl

theorem absorbItem_outstanding (m : Memory) (done : Option Decided) (item : Item) :
    (absorbItem caps expect seq source now m done item).1.outstanding =
      (m.claimReply item.1 now).2.outstanding := by
  obtain ⟨inbound, write⟩ := item
  cases inbound with
  | observation value =>
    simp only [absorbItem]
    split
    · exact observe_outstanding _ _ _ _
    · split <;> simp
  | ack | nak =>
    simp only [absorbItem]
    split <;> rfl
  | scopeFrame | filterScopeFrame | unrecognised => rfl

/-- Items read in time decide the command that waits by its own reply only. -/
theorem Owes.absorb (caps : CapabilitySet) (source : Source) (items : List Item)
    {done : Option Decided} (h : m.Owes timeout wire now heard)
    (hseqs : wire.Pairwise (·.seq ≤ ·.seq))
    (hlatest : expect = .none ∨
      (∀ r ∈ wire, r.seq ≤ seq) ∧ ∃ r, wire.getLast? = some r ∧ r.seq = seq)
    (hitems : ∀ w ∈ answered items, ∃ r, wire[w]? = some r ∧ r.expectsReply = true)
    (hordered : (answered items).Pairwise (· ≤ ·))
    (hafter : ∀ v ∈ heard, ∀ w ∈ answered items, v ≤ w)
    (hread : readInTime wire timeout now heard items = true)
    (hanswers : ∀ item ∈ items, item.2 ≠ none)
    (hdone : ∀ d, done = some d → Answers wire seq d.2) :
    (absorb caps expect seq source now m done items).1.Owes timeout wire now
        (heard ++ answered items) ∧
      ∀ d, (absorb caps expect seq source now m done items).2 = some d →
        Answers wire seq d.2 := by
  induction items generalizing m done heard with
  | nil => exact ⟨by simpa [answered, Memory.absorb] using h, hdone⟩
  | cons item items ih =>
    have hitem := @absorbItem_outstanding caps expect seq source now m done item
    have hrest : ∀ item' ∈ items, item'.2 ≠ none := fun item' h' => hanswers item' (by simp [h'])
    obtain ⟨inbound, write⟩ := item
    rw [Memory.absorb]
    by_cases hanswer : inbound.isAnswer = true
    · have hwrite : write ≠ none := hanswers (inbound, write) (by simp)
      obtain ⟨w, rfl⟩ := Option.ne_none_iff_exists'.mp hwrite
      have hcons : answered ((inbound, some w) :: items) = w :: answered items := by
        simp [answered, hanswer]
      rw [hcons] at hitems hordered hafter ⊢
      simp only [readInTime, hanswer, if_true, Bool.and_eq_true, Bool.or_eq_true, beq_iff_eq,
        Option.any_eq_true, decide_eq_true_eq, Bool.not_eq_true', List.contains_eq_mem,
        decide_eq_false_iff_not] at hread
      obtain ⟨r, hw, hreply⟩ := hitems w (by simp)
      obtain ⟨hnow, hthen⟩ := hread
      have hclaim := h.claimReply hseqs hw hreply
        (fun v hv => hafter v hv w (by simp)) (hnow.imp_right (by
          rintro ⟨hnew, r', hw', hexpires⟩
          obtain rfl := Option.some.inj (hw.symm.trans hw')
          exact ⟨hnew, hexpires⟩))
      rw [List.append_cons]
      refine ih (hclaim.1.of_eq hitem) (fun v hv => hitems v (by simp [hv]))
        (List.Pairwise.of_cons hordered) ?_ hthen hrest fun d hd => ?_
      · intro v hv u hu
        rcases List.mem_append.mp hv with hv | hv
        · exact hafter v hv u (by simp [hu])
        · obtain rfl := List.mem_singleton.mp hv
          exact List.rel_of_pairwise_cons hordered hu
      · rcases @absorbItem_decides caps expect seq source now m done (inbound, some w) with
          hsame | ⟨-, hexpect, howner, result, heq⟩
        · exact hdone d (hsame.symm.trans hd)
        · obtain rfl := Option.some.inj (heq.symm.trans hd)
          obtain ⟨hbound, last, hlast, hlastseq⟩ := hlatest.resolve_left hexpect
          refine ⟨w, r, rfl, hw, ?_⟩
          cases howned : (m.claimReply inbound now).1 with
          | some o =>
            have hle := hclaim.2.1 o howned
            obtain rfl := howner o howned
            exact Nat.le_antisymm (hbound r (List.mem_of_getElem? hw)) hle
          | none =>
            -- Nobody is owed this reply, so its request is the last on the wire.
            have hlength := hclaim.2.2 howned
            rw [List.getLast?_eq_getElem?, ← hlength, Nat.add_sub_cancel, hw] at hlast
            rw [Option.some.inj hlast, hlastseq]
    · rw [Bool.not_eq_true] at hanswer
      have hcons : answered ((inbound, write) :: items) = answered items := by
        simp [answered, hanswer]
      rw [hcons] at hitems hordered hafter ⊢
      simp only [readInTime, hanswer, Bool.false_eq_true, if_false] at hread
      refine ih ((h.claimNothing hanswer).of_eq hitem) hitems hordered hafter hread hrest ?_
      intro d hd
      rcases @absorbItem_decides caps expect seq source now m done (inbound, write) with hsame | ⟨htrue, -⟩
      · exact hdone d (hsame.symm.trans hd)
      · simp [hanswer] at htrue

end Memory

/-! ### Reading -/

theorem answered_sublist (items : List Item) :
    (answered items).Sublist (items.filterMap (·.2)) := by
  induction items with
  | nil => exact List.Sublist.refl _
  | cons item items ih =>
    obtain ⟨inbound, _ | w⟩ := item
    · simpa [answered] using ih
    · by_cases hanswer : inbound.isAnswer = true
      · simpa [answered, hanswer] using ih
      · have hskip := ih.cons w
        simpa [answered, hanswer] using hskip

theorem readInTime_of_append {wire : List Wrote} {timeout : Duration} {now : Instant}
    {items items' : List Item} {heard : List Nat}
    (h : readInTime wire timeout now heard (items ++ items') = true) :
    readInTime wire timeout now heard items = true := by
  induction items generalizing heard with
  | nil => rfl
  | cons item items ih =>
    rw [List.cons_append] at h
    unfold readInTime at h ⊢
    split at h
    · exact ih h
    · rw [Bool.and_eq_true] at h ⊢
      exact ⟨h.1, ih h.2⟩

namespace State

variable {σ : Type} {cfg : Setup σ} {s t u : State σ}

section Feed

variable (engine : Engine σ) (now : Instant)

theorem feedAll_append (e : σ) (cs ds : List Chunk) :
    (feedAll engine now e (cs ++ ds)).1 =
      (feedAll engine now e cs).1 ++ (feedAll engine now (feedAll engine now e cs).2 ds).1 := by
  induction cs generalizing e with
  | nil => rfl
  | cons c cs ih => simp [feedAll, ih]

/-- What is decoded from some chunks answers the requests these answer, in their order. -/
theorem feedAll_answers (e : σ) (cs : List Chunk) :
    ∀ item ∈ (feedAll engine now e cs).1, ∃ c ∈ cs, item.2 = c.answers := by
  induction cs generalizing e with
  | nil => nofun
  | cons c cs ih =>
    intro item hitem
    rcases List.mem_append.mp hitem with hitem | hitem
    · obtain ⟨inbound, -, rfl⟩ := List.mem_map.mp hitem
      exact ⟨c, by simp, rfl⟩
    · obtain ⟨c', hc', heq⟩ := ih _ item hitem
      exact ⟨c', by simp [hc'], heq⟩

theorem feedAll_ordered (e : σ) {cs : List Chunk}
    (h : (cs.filterMap (·.answers)).Pairwise (· ≤ ·)) :
    ((feedAll engine now e cs).1.filterMap (·.2)).Pairwise (· ≤ ·) := by
  induction cs generalizing e with
  | nil => exact List.Pairwise.nil
  | cons c cs ih =>
    have hcs := ih (engine.feed e c.bytes now).2 (h.sublist ((List.sublist_cons_self c cs).filterMap _))
    have hhead : ∀ w ∈ ((engine.feed e c.bytes now).1.map (·, c.answers)).filterMap (·.2),
        c.answers = some w := by
      intro w hw
      obtain ⟨item, hitem, heq⟩ := List.mem_filterMap.mp hw
      obtain ⟨inbound, -, rfl⟩ := List.mem_map.mp hitem
      exact heq
    rw [feedAll, List.filterMap_append]
    refine List.pairwise_append.mpr ⟨?_, hcs, fun v hv w hw => ?_⟩
    · refine List.pairwise_of_forall_mem_list fun v hv w hw => ?_
      exact Nat.le_of_eq (Option.some.inj ((hhead v hv).symm.trans (hhead w hw)))
    · obtain ⟨item, hitem, heq⟩ := List.mem_filterMap.mp hw
      obtain ⟨c', hc', hc'eq⟩ := feedAll_answers engine now _ cs item hitem
      rw [List.filterMap_cons_some (hhead v hv)] at h
      exact List.rel_of_pairwise_cons h
        (List.mem_filterMap.mpr ⟨c', hc', hc'eq.symm.trans heq⟩)

end Feed

/-! ### Any run -/

/-- The invariant: the memory owes what the wire says, what arrives answers requests in their order,
and every command completed so far was completed by its own reply. -/
structure Credited (cfg : Setup σ) (s : State σ) : Prop where
  owes : s.memory.Owes cfg.engine.timeout s.wire s.env.now (answersRead s.log)
  arriving : ∀ c ∈ s.env.rx, ∃ w r, c.answers = some w ∧ s.wire[w]? = some r ∧
    r.expectsReply = true
  ordered : (s.env.rx.filterMap (·.answers)).Pairwise (· ≤ ·)
  after : ∀ v ∈ answersRead s.log, ∀ w ∈ s.env.rx.filterMap (·.answers), v ≤ w
  own : ∀ seq result write, .credited seq result write ∈ s.log → Answers s.wire seq write

theorem answersRead_still {es : List Event} (log : List Event) (h : ∀ e ∈ es, e.still = true) :
    answersRead (es ++ log) = answersRead log := by
  induction es with
  | nil => rfl
  | cons e es ih =>
    have hrest := ih fun e' he' => h e' (List.mem_cons_of_mem e he')
    have he := h e (by simp)
    cases e <;> first | exact hrest | cases he

theorem Credited.still (h : s.Credited cfg) (hstill : Still cfg s t) : t.Credited cfg := by
  obtain ⟨es, hlog, hes⟩ := hstill.log
  have hread : answersRead t.log = answersRead s.log := by rw [hlog, answersRead_still _ hes]
  refine ⟨?_, ?_, ?_, ?_, ?_⟩
  · rw [hstill.wire, hstill.now, hread]
    exact h.owes.forget (Nat.le_refl _) hstill.forgotten hstill.expected
  · rw [hstill.rx, hstill.wire]
    exact h.arriving
  · rw [hstill.rx]
    exact h.ordered
  · rw [hread, hstill.rx]
    exact h.after
  · intro seq result write hmem
    rw [hstill.wire]
    rw [hlog] at hmem
    rcases List.mem_append.mp hmem with hmem | hmem
    · cases hes _ hmem
    · exact h.own seq result write hmem

theorem Credited.disarm (h : s.Credited cfg) : s.disarm.Credited cfg where
  owes := h.owes.of_eq rfl
  arriving := h.arriving
  ordered := h.ordered
  after := h.after
  own seq result write hmem := (List.mem_cons.mp hmem).elim nofun (h.own seq result write)

theorem Credited.wrote (h : s.Credited cfg) {w : Wrote} (hwritten : Written cfg s w u) :
    u.Credited cfg := by
  have hwhen : w.when = s.env.now := by
    cases hwritten.writes with
    | run complete hphase hw | unkey complete hphase hw | session seq complete hphase hw => rw [hw]
  have hread : answersRead u.log = answersRead s.log := by
    rw [hwritten.log]
    rfl
  refine ⟨?_, ?_, ?_, ?_, ?_⟩
  · rw [hwritten.wire, hwritten.env, hread, hwritten.memory]
    exact h.owes.noteWritten hwhen
  · rw [hwritten.env, hwritten.wire]
    intro c hc
    obtain ⟨v, r, hv, hr, hreply⟩ := h.arriving c hc
    refine ⟨v, r, hv, ?_, hreply⟩
    rwa [List.getElem?_append_left (List.getElem?_eq_some_iff.mp hr).1]
  · rw [hwritten.env]
    exact h.ordered
  · rw [hread, hwritten.env]
    exact h.after
  · intro seq result write hmem
    rw [hwritten.log] at hmem
    rw [hwritten.wire]
    rcases List.mem_cons.mp hmem with hmem | hmem
    · cases hmem
    · exact (h.own seq result write hmem).append [w]

/-- What is read in time completes the command that waits, if any, by its own reply. -/
theorem Credited.read (h : s.Credited cfg) (hnumbered : s.Numbered) {n : Nat}
    {expect : ReplyKind} {seq : Nat} {source : Source} {result : Option Reply}
    (hawaits : expect = .none ∨ ∃ v, s.phase.awaits = some (v, seq))
    (hread : readInTime s.wire cfg.engine.timeout s.env.now (answersRead s.log)
      (feedAll cfg.engine s.env.now s.engine s.env.rx).1 = true)
    (habsorb : s.absorb cfg n expect seq source = (u, result)) : u.Credited cfg := by
  have hheard := absorb_heard habsorb
  have hsplit := List.take_append_drop (n + 1) s.env.rx
  have hordered := h.ordered
  rw [← hsplit, List.filterMap_append] at hordered
  obtain ⟨htaken, hleft, hbetween⟩ := List.pairwise_append.mp hordered
  have hchunks : ∀ item ∈ (s.read cfg n).1, ∃ c ∈ s.env.rx.take (n + 1), item.2 = c.answers :=
    feedAll_answers cfg.engine s.env.now s.engine _
  have hsorted : ((s.read cfg n).1.filterMap (·.2)).Pairwise (· ≤ ·) :=
    feedAll_ordered cfg.engine s.env.now s.engine htaken
  -- Whatever is read answers a request that one of the chunks read answers.
  have hfrom : ∀ w ∈ answered (s.read cfg n).1,
      w ∈ (s.env.rx.take (n + 1)).filterMap (·.answers) := by
    intro w hw
    obtain ⟨item, hitem, heq⟩ := List.mem_filterMap.mp ((answered_sublist _).subset hw)
    obtain ⟨c, hc, hceq⟩ := hchunks item hitem
    exact List.mem_filterMap.mpr ⟨c, hc, hceq.symm.trans heq⟩
  have htakes : ∀ w ∈ (s.env.rx.take (n + 1)).filterMap (·.answers),
      w ∈ s.env.rx.filterMap (·.answers) := fun w hw =>
    ((List.take_sublist _ _).filterMap _).subset hw
  have hlatest : expect = .none ∨
      (∀ r ∈ s.wire, r.seq ≤ seq) ∧ ∃ r, s.wire.getLast? = some r ∧ r.seq = seq := by
    refine hawaits.imp_right fun ⟨v, hawaits⟩ => ⟨fun r hr => ?_, ?_⟩
    · rw [hnumbered.phase seq (Phase.seq_of_awaits hawaits)]
      exact hnumbered.bound r hr
    · obtain ⟨w, hw, -, hseq, -⟩ := hnumbered.last v seq hawaits
      exact ⟨w, hw, hseq⟩
  have hnone : ∀ d : Memory.Decided, none = some d → Answers s.wire seq d.2 := fun d hd => by cases hd
  obtain ⟨howes, hdone⟩ := Memory.Owes.absorb cfg.engine.capabilities source (s.read cfg n).1 h.owes
    hnumbered.wire hlatest
    (fun w hw => by
      obtain ⟨c, hc, hceq⟩ := List.mem_filterMap.mp (htakes w (hfrom w hw))
      obtain ⟨w', r, hw', hr, hreply⟩ := h.arriving c hc
      obtain rfl := Option.some.inj (hw'.symm.trans hceq)
      exact ⟨r, hr, hreply⟩)
    (hsorted.sublist (answered_sublist _))
    (fun v hv w hw => h.after v hv w (htakes w (hfrom w hw)))
    (by
      rw [← hsplit, feedAll_append] at hread
      exact readInTime_of_append hread)
    (fun item hitem => by
      obtain ⟨c, hc, hceq⟩ := hchunks item hitem
      obtain ⟨w, r, hw, -⟩ := h.arriving c (List.mem_of_mem_take hc)
      simp [hceq, hw])
    hnone
  obtain ⟨hmemory, hlog⟩ := absorb_cases habsorb rfl
  have hanswers : answersRead u.log = answersRead s.log ++ answered (s.read cfg n).1 := by
    rcases hlog with ⟨-, hlog⟩ | ⟨reply, write, -, hlog⟩ <;> rw [hlog] <;> rfl
  refine ⟨?_, ?_, ?_, ?_, ?_⟩
  · rw [hmemory, hanswers, hheard.wire, hheard.env]
    exact howes
  · rw [hheard.wire, hheard.env]
    exact fun c hc => h.arriving c (List.mem_of_mem_drop hc)
  · rw [hheard.env]
    exact hleft
  · rw [hanswers, hheard.env]
    intro v hv w hw
    rcases List.mem_append.mp hv with hv | hv
    · exact h.after v hv w (((List.drop_sublist _ _).filterMap _).subset hw)
    · exact hbetween v (hfrom v hv) w hw
  · intro seq' result' write' hmem
    rw [hheard.wire]
    rcases hlog with ⟨-, hlog⟩ | ⟨reply, write, hdecided, hlog⟩ <;> rw [hlog] at hmem
    · rcases List.mem_cons.mp hmem with hmem | hmem
      · cases hmem
      · exact h.own _ _ _ hmem
    · rcases List.mem_cons.mp hmem with hmem | hmem
      · obtain ⟨rfl, rfl, rfl⟩ := Event.credited.inj hmem
        exact hdone _ hdecided
      rcases List.mem_cons.mp hmem with hmem | hmem
      · cases hmem
      · exact h.own _ _ _ hmem

theorem Credited.move (h : s.Credited cfg) (hnumbered : s.Numbered)
    (hread : s.phase.reads = true → readInTime s.wire cfg.engine.timeout s.env.now
      (answersRead s.log) (feedAll cfg.engine s.env.now s.engine s.env.rx).1 = true)
    (hmove : Move cfg s t) : t.Credited cfg := by
  cases hmove.traffic with
  | still hstill => exact h.still hstill
  | fired a hstill ht => exact h.disarm.still hstill
  | read n expect seq source hreads hawaits habsorb hstill =>
    exact (h.read hnumbered hawaits (hread hreads) habsorb).still hstill
  | wrote hwritten hstill => exact (h.wrote hwritten).still hstill

theorem Credited.beside (h : s.Credited cfg) {a : Act} (hbeside : Beside cfg s a t)
    (hrig : RigAnswers cfg s a = true) : t.Credited cfg := by
  have haside := hbeside.aside
  obtain ⟨es, hlog, hes⟩ := haside.log
  have hstill : ∀ e ∈ es, e.still = true := by
    intro e he
    have haside := hes e he
    cases e <;> first | rfl | cases haside
  have hread : answersRead t.log = answersRead s.log := by rw [hlog, answersRead_still _ hstill]
  have hown : ∀ seq result write, .credited seq result write ∈ t.log →
      Answers t.wire seq write := by
    intro seq result write hmem
    rw [hlog] at hmem
    rw [haside.wire]
    rcases List.mem_append.mp hmem with hmem | hmem
    · cases hes _ hmem
    · exact h.own seq result write hmem
  -- A step after which time has not gone back and nothing more has arrived.
  have hsame (hnow : s.env.now ≤ t.env.now) (hrx : t.env.rx = s.env.rx) : t.Credited cfg := by
    refine ⟨?_, ?_, ?_, ?_, hown⟩
    · rw [haside.memory, haside.wire, hread]
      exact h.owes.forget hnow (List.Sublist.refl _) fun o ho _ => ho
    · rw [hrx, haside.wire]
      exact h.arriving
    · rw [hrx]
      exact h.ordered
    · rw [hread, hrx]
      exact h.after
  cases hbeside with
  | tick n => exact hsame (Nat.le_add_right _ _) rfl
  | call i c hcall =>
    obtain ⟨_, _, _, _, _, _, _, heq, -⟩ := callStep_cases cfg s i c
    rw [heq] at hsame ⊢
    exact hsame (Nat.le_refl _) rfl
  | deliver chunk =>
    simp only [RigAnswers, Option.any_eq_true, Bool.and_eq_true, List.all_eq_true,
      decide_eq_true_eq] at hrig
    obtain ⟨w, hw, r, hr, ⟨⟨hreply, -⟩, hheard⟩, hrx⟩ := hrig
    have hlabels : (s.env.rx ++ [chunk]).filterMap (·.answers) =
        s.env.rx.filterMap (·.answers) ++ [w] := by simp [hw]
    refine ⟨h.owes, fun c hc => ?_, ?_, fun v hv u hu => ?_, hown⟩
    · rcases List.mem_append.mp hc with hc | hc
      · exact h.arriving c hc
      · obtain rfl := List.mem_singleton.mp hc
        exact ⟨w, r, hw, hr, hreply⟩
    · change ((s.env.rx ++ [chunk]).filterMap _).Pairwise _
      rw [hlabels]
      refine List.pairwise_append.mpr ⟨h.ordered, List.pairwise_singleton _ _, ?_⟩
      intro v hv u hu
      obtain rfl := List.mem_singleton.mp hu
      exact hrx v hv
    · have hu' : u ∈ (s.env.rx ++ [chunk]).filterMap (·.answers) := hu
      rw [hlabels] at hu'
      rcases List.mem_append.mp hu' with hu | hu
      · exact h.after v hv u hu
      · obtain rfl := List.mem_singleton.mp hu
        exact hheard v hv
  | _ => exact hsame (Nat.le_refl _) rfl

end State

/-- Against a rig that answers in order and in time, in every run in which each reply is read while
its request is remembered, a command is completed by the reply to its own request only. -/
theorem credited_own_reply {σ : Type} {cfg : Setup σ} {s : State σ}
    (h : (machine cfg).Reach (fun s a => RigAnswers cfg s a = true ∧ RepliesRead cfg s a = true) s)
    {seq : Nat} {result : Reply} {write : Option Nat}
    (hcredited : .credited seq result write ∈ s.log) :
    ∃ w r, write = some w ∧ s.wire[w]? = some r ∧ r.seq = seq := by
  have hinvariant : s.Credited cfg := by
    apply h.invariant_with (K := State.Numbered)
    · exact fun hs => Reachable.numbered hs.reachable
    · intro s hs
      obtain ⟨-, hwire, hlog, hout, hrx, -⟩ := State.Initial.start hs
      refine ⟨⟨?_, ?_, ?_⟩, ?_, ?_, ?_, ?_⟩ <;> simp [hwire, hlog, hout, hrx, answersRead]
    · intro s a t hnumbered hs hok hstep
      rcases State.step_cases hstep with ⟨i, rfl, hmove⟩ | hbeside
      · refine hs.move hnumbered (fun hreads => ?_) hmove
        simpa [RepliesRead, hreads] using hok.2
      · exact hs.beside hbeside hok.1
  exact hinvariant.own seq result write hcredited

/-! #### A reply that lay unread

A read of the frequency is given up after 200 ms. Its reply arrives within 400 ms, while the actor
sleeps off the spacing of the next command, and completes that command, after 2 s. -/

/-- A rig with 200 ms to answer and 2 s between commands. -/
def slowBench : Engine Unit :=
  benchEngine [.readFrequency] 200 0 2000 (fun _ => .observation (.frequency .a))
    [.observation (.frequency .a 14000000)]

/-- A read of the frequency that is given up. -/
def readGivenUp : List Act :=
  [.go, .go, .submit (.getFrequency .a) 1000 .api, .call 0, .go, .go, .go, .tick 200, .go]

theorem late_reply_credited :
    ∃ s, (machine (bench slowBench)).Reach (fun s a => RigAnswers (bench slowBench) s a = true) s ∧
      .credited 2 (.ok (some (.frequency .a 14000000))) (some 0) ∈ s.log ∧
      s.wire.map (·.seq) = [1, 2] := by
  have hstart : (machine (bench slowBench)).Reach
      (fun s a => RigAnswers (bench slowBench) s a = true) (benchStart slowBench) :=
    .init ⟨(), 0, .connected 1, 1, true, false, by simp⟩
  exact hstart.exists_of_runWhile
    (readGivenUp ++ [.submit (.getFrequency .a) 5000 .api, .call 0, .go, .go, .tick 100,
      .deliver ⟨[0], some 0⟩, .tick 1700, .go, .go, .go]) (by decide)

theorem credited_own_reply_late :
    ∃ s : State Unit, ∃ seq result write, .credited seq result write ∈ s.log ∧
      ∃ w r, write = some w ∧ s.wire[w]? = some r ∧ r.seq = seq := by
  have hstart : (machine (bench slowBench)).Reach (fun s a =>
      RigAnswers (bench slowBench) s a = true ∧ RepliesRead (bench slowBench) s a = true)
      (benchStart slowBench) := .init ⟨(), 0, .connected 1, 1, true, false, by simp⟩
  obtain ⟨s, hs, hcredited⟩ := hstart.exists_of_runWhile
    (P := fun s => .credited 2 (.ok (some (.frequency .a 14000000))) (some 1) ∈ s.log)
    (readGivenUp ++ [.deliver ⟨[0], some 0⟩, .go, .submit (.getFrequency .a) 5000 .api, .call 0,
      .go, .go, .tick 2000, .go, .go, .deliver ⟨[0], some 1⟩, .go]) (by decide)
  exact ⟨s, 2, _, _, hcredited, credited_own_reply hs hcredited⟩

end HamsOpen.Rig
