import HamsOpen.StationIo.Confined

/-!
# What an accepted map says

The steps of loading a map keep its entries sound, and committing it checks the rest: a keyline is
the keyline of exactly one ptt channel, and every ptt channel has a time-out.
-/

namespace HamsOpen.StationIo

namespace Engine

variable {s t : Engine} {c d : Ch} {P : Engine → Prop} {Q : Ch → Engine → Prop}
  {f : Ch → Engine → Engine}

/-! ### Doing something for each channel -/

/-- What each turn keeps is kept. -/
theorem forCh_kept (h : ∀ c s, P s → P (f c s)) (hs : P s) : P (s.forCh f) :=
  List.foldlRecOn _ _ hs fun s hs c _ => h c s hs

/-- What the turn of a channel brings about, and the other turns keep, holds of every channel. -/
theorem forCh_each (hP : ∀ c s, P s → P (f c s)) (hQ : ∀ c s, P s → Q c (f c s))
    (hkeep : ∀ c d s, d ≠ c → P s → Q d s → Q d (f c s)) (hs : P s) (c : Ch) : Q c (s.forCh f) := by
  have hall (l : List Ch) : ∀ s, P s → ∀ d, d ∈ l ∨ Q d s → Q d (l.foldl (fun s c => f c s) s) := by
    induction l with
    | nil =>
      intro s _ d hd
      exact hd.resolve_left List.not_mem_nil
    | cons c l ih =>
      intro s hs d hd
      refine ih (f c s) (hP c s hs) d ?_
      by_cases hdc : d = c
      · subst hdc
        exact .inr (hQ d s hs)
      · rcases hd with hd | hd
        · exact .inl ((List.mem_cons.mp hd).resolve_left hdc)
        · exact .inr (hkeep c d s hdc hs hd)
  exact hall _ s hs c (.inl (List.mem_finRange c))

end Engine

/-! ### Entries -/

/-- What holds of the entries while a map is loaded. -/
structure Sound (map : Ch → Entry) : Prop where
  safe : ∀ c, (map c).func ≠ .none → (map c).safe ≠ (map c).active true
  params : ∀ c, (map c).func ≠ .ptt →
    (map c).partner = none ∧ (map c).lead = 0 ∧ (map c).lag = 0

/-- What holds of the entries of a valid map. -/
structure Wired (map : Ch → Entry) : Prop extends Sound map where
  maxOn : ∀ c, (map c).func = .ptt → (map c).maxOn ≠ 0
  partner : ∀ c k, (map c).partner = some k →
    (map k).func = .keyline ∧ (map k).owner = some c
  alone : ∀ c, (map c).partner = none → (map c).lead = 0 ∧ (map c).lag = 0
  keyline : ∀ k, (map k).func = .keyline → ∃ c, (map c).partner = some k

namespace Wired

variable {map : Ch → Entry} {c d k : Ch}

/-- Only a ptt channel has a keyline. -/
theorem ptt (h : Wired map) (hk : (map c).partner = some k) : (map c).func = .ptt := by
  by_contra hfunc
  rw [(h.params c hfunc).1] at hk
  cases hk

theorem keyline_ne (h : Wired map) (hk : (map c).partner = some k) : k ≠ c := by
  rintro rfl
  have hfunc := (h.partner k k hk).1
  rw [h.ptt hk] at hfunc
  cases hfunc

/-- Two channels do not share a keyline. -/
theorem partner_inj (h : Wired map) (hc : (map c).partner = some k)
    (hd : (map d).partner = some k) : c = d := by
  have howner := (h.partner c k hc).2
  rw [(h.partner d k hd).2] at howner
  exact (Option.some.inj howner).symm

/-- A keyline keys nothing. -/
theorem not_primary (h : Wired map) (hk : (map c).partner = some k) :
    (map k).isPrimary = false := by
  rw [Entry.isPrimary, (h.partner c k hk).1]
  rfl

theorem sequences {s : Engine} (h : Wired s.map) (c : Ch) : s.Sequences c := by
  intro k hk
  rw [(h.partner c k hk).1]
  decide

end Wired

/-- The entries stay sound when one of them becomes another that is sound. -/
theorem Sound.update {map : Ch → Entry} {c : Ch} {e : Entry} (h : Sound map)
    (hsafe : e.func ≠ .none → e.safe ≠ e.active true)
    (hparams : e.func ≠ .ptt → e.partner = none ∧ e.lead = 0 ∧ e.lag = 0) :
    Sound (Function.update map c e) := by
  constructor
  · intro d
    by_cases hd : d = c
    · subst hd
      rw [Function.update_self]
      exact hsafe
    · rw [Function.update_of_ne hd]
      exact h.safe d
  · intro d
    by_cases hd : d = c
    · subst hd
      rw [Function.update_self]
      exact hparams
    · rw [Function.update_of_ne hd]
      exact h.params d

namespace Engine

variable {s t : Engine} {c d k : Ch} {f : Chan → Chan}

/-! ### Loading a map -/

theorem setCh_map : (s.setCh c f).map =
    Function.update s.map c (f (s.ch c)).toEntry := by
  funext d
  by_cases hd : d = c
  · subst hd
    rw [map, setCh_ch, Function.update_self, Function.update_self]
  · rw [map, setCh_ch, Function.update_of_ne hd, Function.update_of_ne hd]
    rfl

/-- A step of loading a map changes entries, and keeps them sound. -/
structure Loads (s t : Engine) : Prop where
  rest : t = { s with ch := t.ch, mapError := t.mapError }
  chan : ∀ d, t.ch d = { s.ch d with toEntry := (t.ch d).toEntry }
  sound : Sound s.map → Sound t.map

theorem Loads.refl (s : Engine) : Loads s s := ⟨rfl, fun _ => rfl, id⟩

theorem Loads.trans {u : Engine} (h : Loads s t) (h' : Loads t u) : Loads s u where
  rest := by
    have hu := h'.rest
    rw [h.rest] at hu
    exact hu
  chan d := by
    have hu := h'.chan d
    rw [h.chan d] at hu
    exact hu
  sound hs := h'.sound (h.sound hs)

theorem loads_fail (e : MapError) : Loads s (s.fail e).2 := ⟨rfl, fun _ => rfl, id⟩

/-- The entry of a channel becomes another, which is sound if the others are. -/
theorem loads_setCh (g : Entry → Entry) (hf : ∀ ch : Chan, f ch = { ch with toEntry := g ch.toEntry })
    (hsafe : Sound s.map → (g (s.map c)).func ≠ .none →
      (g (s.map c)).safe ≠ (g (s.map c)).active true)
    (hparams : Sound s.map → (g (s.map c)).func ≠ .ptt →
      (g (s.map c)).partner = none ∧ (g (s.map c)).lead = 0 ∧ (g (s.map c)).lag = 0) :
    Loads s (s.setCh c f) where
  rest := rfl
  chan d := by
    by_cases hd : d = c
    · subst hd
      rw [setCh_ch, Function.update_self, hf]
    · rw [setCh_ch, Function.update_of_ne hd]
  sound hs := by
    rw [setCh_map, hf]
    exact hs.update (hsafe hs) (hparams hs)

theorem loads_ioMapPin (pin func flags : U8) : Loads s (s.ioMapPin pin func flags).2 := by
  unfold ioMapPin
  split
  · exact loads_fail _
  split
  · exact loads_fail _
  next c _ =>
  split
  · exact loads_fail _
  next func _ =>
  by_cases hfree : (s.ch c).func = .none
  · rw [if_neg (not_not_intro hfree)]
    split
    · exact loads_fail _
    next safe _ =>
      have hparams (hs : Sound s.map) := hs.params c (by rw [map, hfree]; decide)
      have hset : Loads s (s.setCh c fun ch =>
          { ch with safe := safe, activeHigh := flags &&& 4 != 0 }) :=
        loads_setCh (fun e => { e with safe := safe, activeHigh := flags &&& 4 != 0 }) (fun _ => rfl)
          (fun _ hfunc => absurd hfree hfunc) (fun hs _ => hparams hs)
      dsimp only
      split
      · exact hset.trans (loads_fail _)
      next hactive =>
        refine hset.trans ?_
        have hmap : (s.setCh c fun ch => { ch with safe := safe, activeHigh := flags &&& 4 != 0 }).map c =
            { s.map c with safe := safe, activeHigh := flags &&& 4 != 0 } := by
          rw [setCh_map, Function.update_self]
          rfl
        refine loads_setCh (fun e => { e with func := func }) (fun _ => rfl) ?_ ?_
        · intro _ _ hsafe
          apply hactive
          rw [hmap] at hsafe
          rw [setCh_ch, Function.update_self]
          exact hsafe
        · intro hs _
          refine hs.params c ?_
          rw [hmap, map, hfree]
          decide
  · rw [if_pos hfree]
    exact loads_fail _

theorem loads_ioMapParam (pin param : U8) (value : U16) :
    Loads s (s.ioMapParam pin param value).2 := by
  unfold ioMapParam
  split
  · exact loads_fail _
  split
  · exact loads_fail _
  next c _ =>
  by_cases hptt : (s.ch c).func = .ptt
  · have hset (g : Entry → Entry) (hfunc : ∀ e, (g e).func = e.func)
        (hlevels : ∀ e, (g e).safe = e.safe ∧ (g e).active true = e.active true) :
        Loads s (s.setCh c fun ch => { ch with toEntry := g ch.toEntry }) := by
      refine loads_setCh g (fun _ => rfl) ?_ ?_
      · intro hs hne
        rw [(hlevels _).1, (hlevels _).2]
        rw [hfunc] at hne
        exact hs.safe c hne
      · intro _ hne
        rw [hfunc] at hne
        exact absurd hptt hne
    rw [if_neg (not_not_intro hptt)]
    split
    · exact hset (fun e => { e with maxOn := value }) (fun _ => rfl) fun _ => ⟨rfl, rfl⟩
    split
    · exact hset (fun e => { e with minOff := value }) (fun _ => rfl) fun _ => ⟨rfl, rfl⟩
    split
    · exact hset (fun e => { e with lead := value }) (fun _ => rfl) fun _ => ⟨rfl, rfl⟩
    split
    · exact hset (fun e => { e with lag := value }) (fun _ => rfl) fun _ => ⟨rfl, rfl⟩
    split
    · split
      · exact loads_fail _
      next k _ =>
        split
        · exact loads_fail _
        · exact hset (fun e => { e with partner := some k }) (fun _ => rfl) fun _ => ⟨rfl, rfl⟩
    · exact loads_fail _
  · rw [if_pos hptt]
    exact loads_fail _

/-! ### Committing a map -/

/-- What the checks of some channels find, and the keylines they take. -/
structure Takes (cs : List Ch) (s t : Engine) : Prop where
  entry : ∀ d, t.map d = { s.map d with owner := (t.map d).owner }
  kept : ∀ k c, (s.map k).owner = some c → (t.map k).owner = some c
  taken : ∀ k c, (t.map k).owner = some c → (s.map k).owner = some c ∨ (s.map c).partner = some k
  maxOn : ∀ c ∈ cs, (s.map c).func = .ptt → (s.map c).maxOn ≠ 0
  partner : ∀ c ∈ cs, (s.map c).func = .ptt → ∀ k, (s.map c).partner = some k →
    (s.map k).func = .keyline ∧ (t.map k).owner = some c
  alone : ∀ c ∈ cs, (s.map c).func = .ptt → (s.map c).partner = none →
    (s.map c).lead = 0 ∧ (s.map c).lag = 0

theorem Takes.cons {cs : List Ch} {u : Engine} (h : Takes [c] s t) (h' : Takes cs t u) :
    Takes (c :: cs) s u where
  entry d := by
    have hu := h'.entry d
    rw [h.entry d] at hu
    exact hu
  kept k d hd := h'.kept k d (h.kept k d hd)
  taken k d hd := by
    rcases h'.taken k d hd with hd | hd
    · exact h.taken k d hd
    · rw [h.entry d] at hd
      exact .inr hd
  maxOn d hd hfunc := by
    rcases List.mem_cons.mp hd with rfl | hd
    · exact h.maxOn d (List.mem_singleton_self d) hfunc
    · have hmax := h'.maxOn d hd
      rw [h.entry d] at hmax
      exact hmax hfunc
  partner d hd hfunc k hk := by
    rcases List.mem_cons.mp hd with rfl | hd
    · have hkey := h.partner d (List.mem_singleton_self d) hfunc k hk
      exact ⟨hkey.1, h'.kept k d hkey.2⟩
    · have hkey := h'.partner d hd
      rw [h.entry d] at hkey
      obtain ⟨hline, howner⟩ := hkey hfunc k hk
      rw [h.entry k] at hline
      exact ⟨hline, howner⟩
  alone d hd hfunc hnone := by
    rcases List.mem_cons.mp hd with rfl | hd
    · exact h.alone d (List.mem_singleton_self d) hfunc hnone
    · have halone := h'.alone d hd
      rw [h.entry d] at halone
      exact halone hfunc hnone

/-- A mapped channel that passes its check. -/
theorem takes_commitChan (hs : Sound s.map) (h : s.commitChan c = .ok t) : Takes [c] s t := by
  have hself (hfunc : (s.map c).func ≠ .ptt) (hmap : t.map = s.map) : Takes [c] s t := by
    have hnot (d : Ch) (hd : d ∈ [c]) : (s.map d).func ≠ .ptt := by
      rwa [List.mem_singleton.mp hd]
    constructor
    · exact fun d => by rw [hmap]
    · exact fun k d hd => hmap ▸ hd
    · exact fun k d hd => .inl (hmap ▸ hd)
    · exact fun d hd hptt => absurd hptt (hnot d hd)
    · exact fun d hd hptt => absurd hptt (hnot d hd)
    · exact fun d hd hptt => absurd hptt (hnot d hd)
  unfold commitChan at h
  split at h
  next hptt =>
    split at h
    · cases h
    next hmax =>
      have hmaxOn (d : Ch) (hd : d ∈ [c]) : (s.map d).func = .ptt → (s.map d).maxOn ≠ 0 := by
        rw [List.mem_singleton.mp hd]
        exact fun _ => hmax
      split at h
      next k hk =>
        split at h
        · cases h
        next hfree =>
          obtain rfl := Except.ok.inj h
          obtain ⟨hline, howner⟩ := not_or.mp hfree
          have hmap : (s.setCh k fun ch => { ch with owner := some c }).map =
              Function.update s.map k { s.map k with owner := some c } := setCh_map
          constructor
          · intro d
            by_cases hd : d = k
            · subst hd
              rw [hmap, Function.update_self]
            · rw [hmap, Function.update_of_ne hd]
          · intro b d hd
            by_cases hb : b = k
            · subst hb
              have hnone : (s.map b).owner = none := not_not.mp howner
              rw [hnone] at hd
              cases hd
            · rw [hmap, Function.update_of_ne hb]
              exact hd
          · intro b d hd
            by_cases hb : b = k
            · subst hb
              rw [hmap, Function.update_self] at hd
              obtain rfl := Option.some.inj hd
              exact .inr hk
            · rw [hmap, Function.update_of_ne hb] at hd
              exact .inl hd
          · exact hmaxOn
          · intro d hd _ b hb
            obtain rfl := List.mem_singleton.mp hd
            obtain rfl : k = b := Option.some.inj (hk.symm.trans hb)
            rw [hmap, Function.update_self]
            exact ⟨not_not.mp hline, rfl⟩
          · intro d hd _ hnone
            obtain rfl := List.mem_singleton.mp hd
            cases hk.symm.trans hnone
      next hnone =>
        split at h
        · cases h
        next hzero =>
          obtain rfl := Except.ok.inj h
          obtain ⟨hlead, hlag⟩ := not_or.mp hzero
          constructor
          · exact fun d => rfl
          · exact fun k d hd => hd
          · exact fun k d hd => .inl hd
          · exact hmaxOn
          · intro d hd _ k hk
            obtain rfl := List.mem_singleton.mp hd
            cases hk.symm.trans hnone
          · intro d hd _ _
            obtain rfl := List.mem_singleton.mp hd
            exact ⟨not_not.mp hlead, not_not.mp hlag⟩
  next hpower =>
    obtain rfl := Except.ok.inj h
    have hfunc : (s.map c).func ≠ .ptt := by
      rw [map, hpower]
      decide
    refine hself hfunc ?_
    have hnone := (hs.params c hfunc).1
    rw [setCh_map]
    exact Function.update_eq_self_iff.mpr (by rw [← hnone]; rfl)
  next hfunc _ =>
    obtain rfl := Except.ok.inj h
    exact hself hfunc rfl

theorem loads_owner (o : Option Ch) :
    Loads s (s.setCh c fun ch => { ch with owner := o }) :=
  loads_setCh (fun e => { e with owner := o }) (fun _ => rfl) (fun hs => hs.safe c)
    fun hs => hs.params c

theorem loads_commitChan (h : s.commitChan c = .ok t) : Loads s t := by
  unfold commitChan at h
  split at h
  next =>
    split at h
    · cases h
    split at h
    · split at h
      · cases h
      · obtain rfl := Except.ok.inj h
        exact loads_owner _
    · split at h
      · cases h
      · obtain rfl := Except.ok.inj h
        exact .refl s
  next hpower =>
    obtain rfl := Except.ok.inj h
    refine loads_setCh (fun e => { e with partner := none }) (fun _ => rfl) (fun hs => hs.safe c) ?_
    exact fun hs hfunc => ⟨rfl, (hs.params c hfunc).2⟩
  next =>
    obtain rfl := Except.ok.inj h
    exact .refl s

theorem loads_commitChans (cs : List Ch) : Loads s (commitChans cs s).2 := by
  induction cs generalizing s with
  | nil => exact .refl s
  | cons c cs ih =>
    unfold commitChans
    split
    next t ht => exact (loads_commitChan ht).trans ih
    next => exact .refl s

/-- The mapped channels pass their checks. -/
theorem takes_commitChans (cs : List Ch) (hs : Sound s.map) (h : (commitChans cs s).1 = none) :
    Takes cs s (commitChans cs s).2 := by
  induction cs generalizing s with
  | nil =>
    constructor
    · exact fun _ => rfl
    · exact fun _ _ h => h
    · exact fun _ _ h => .inl h
    · exact fun _ hd => absurd hd List.not_mem_nil
    · exact fun _ hd => absurd hd List.not_mem_nil
    · exact fun _ hd => absurd hd List.not_mem_nil
  | cons c cs ih =>
    unfold commitChans at h ⊢
    split at h
    next t ht => exact (takes_commitChan hs ht).cons (ih ((loads_commitChan ht).sound hs) h)
    next => cases h

/-- A map whose channels pass their checks, with no keyline left over, is valid. -/
theorem Takes.wired (h : Takes (List.finRange IO_NCH) s t) (hs : Sound s.map)
    (hfree : ∀ c, (s.map c).owner = none)
    (hline : ∀ k, (t.map k).func = .keyline → (t.map k).owner ≠ none) : Wired t.map := by
  have hentry (c : Ch) : t.map c = { s.map c with owner := (t.map c).owner } := h.entry c
  have hptt {c k : Ch} (hk : (s.map c).partner = some k) : (s.map c).func = .ptt := by
    by_contra hfunc
    rw [(hs.params c hfunc).1] at hk
    cases hk
  constructor
  · constructor
    · intro c hc
      rw [hentry c] at hc ⊢
      exact hs.safe c hc
    · intro c hc
      rw [hentry c] at hc ⊢
      exact hs.params c hc
  · intro c hc
    rw [hentry c] at hc ⊢
    exact h.maxOn c (List.mem_finRange c) hc
  · intro c k hk
    rw [hentry c] at hk
    obtain ⟨hfunc, howner⟩ := h.partner c (List.mem_finRange c) (hptt hk) k hk
    refine ⟨?_, howner⟩
    rw [hentry k]
    exact hfunc
  · intro c hnone
    rw [hentry c] at hnone ⊢
    by_cases hc : (s.map c).func = .ptt
    · exact h.alone c (List.mem_finRange c) hc hnone
    · exact (hs.params c hc).2
  · intro k hk
    obtain ⟨c, hc⟩ := Option.ne_none_iff_exists'.mp (hline k hk)
    rcases h.taken k c hc with hold | hpartner
    · rw [hfree k] at hold
      cases hold
    · refine ⟨c, ?_⟩
      rw [hentry c]
      exact hpartner

/-- A loaded map that passed its checks. -/
structure Commits (s t : Engine) : Prop where
  loading : s.mapState = .loading
  loads : Loads s t
  wired : Wired t.map
  /-- Beside the owners of the keylines the map is as it was loaded. -/
  entry : ∀ d, t.map d = { s.map d with owner := (t.map d).owner }
  mapped : ∃ c, (s.map c).func ≠ .none

/-- A map is refused, or it is valid from then on. -/
theorem ioMapCommit_cases (hs : Sound s.map) : Loads s s.ioMapCommit.2 ∨
    ∃ t, Commits s t ∧ s.ioMapCommit.2 = t.settle := by
  unfold ioMapCommit
  split
  · exact .inl (loads_fail _)
  next hloading =>
    let freed := s.forCh fun c s => s.setCh c fun ch => { ch with owner := none }
    have hfreed : Loads s freed :=
      forCh_kept (fun c _ h => h.trans (loads_owner none)) (.refl s)
    have hnone : ∀ c, freed.map c = { s.map c with owner := none } := by
      refine forCh_each
        (P := fun t => ∀ c, t.map c = { s.map c with owner := (t.map c).owner })
        (Q := fun c t => t.map c = { s.map c with owner := none }) ?_ ?_ ?_ fun _ => rfl
      · intro c t ht d
        rw [setCh_map]
        by_cases hd : d = c
        · subst hd
          rw [Function.update_self]
          exact congrArg (fun e : Entry => { e with owner := none }) (ht d)
        · rw [Function.update_of_ne hd]
          exact ht d
      · intro c t ht
        rw [setCh_map, Function.update_self]
        exact congrArg (fun e : Entry => { e with owner := none }) (ht c)
      · intro c d t hd _ hQ
        rw [setCh_map, Function.update_of_ne hd]
        exact hQ
    have hsound := hfreed.sound hs
    have hload := hfreed.trans (loads_commitChans (s := freed) (List.finRange IO_NCH))
    have htakes := takes_commitChans (List.finRange IO_NCH) hsound
    dsimp only
    split
    next heq =>
      rw [heq] at hload
      exact .inl (hload.trans (loads_fail _))
    next t heq =>
      rw [heq] at hload htakes
      have htakes := htakes rfl
      have hentry (d : Ch) : t.map d = { s.map d with owner := (t.map d).owner } := by
        have hd := htakes.entry d
        rw [hnone d] at hd
        exact hd
      split
      · exact .inl (hload.trans (loads_fail _))
      next hline =>
        split
        · exact .inl (hload.trans (loads_fail _))
        next hany =>
          refine .inr ⟨t, ⟨not_not.mp hloading, hload, ?_, hentry, ?_⟩, rfl⟩
          · exact htakes.wired hsound (fun c => by rw [hnone c])
              fun k hk howner => hline ⟨k, hk, howner⟩
          · obtain ⟨c, hc⟩ := not_forall.mp hany
            refine ⟨c, fun hfunc => hc ?_⟩
            show (t.map c).func = .none
            rw [hentry c]
            exact hfunc

end Engine

end HamsOpen.StationIo
