import HamsOpen.Station.Drives
import HamsOpen.Station.History
import Mathlib

/-!
# Confirmed states and the lines

A confirmed state should say how the lines of its channel were last observed, and that nobody has
begun to drive them since. The switchboard leaves the confirmed state as it is while a channel is
driven, so this is so only where channels are driven as long as they are not confirmed.
-/

namespace HamsOpen.Station

/-! ### What a confirmed state says -/

/-- The event begins a drive of the line. -/
def Event.touches (w : Wire) : Event → Bool
  | .write _ w' _ | .force _ w' => w' == w
  | _ => false

/-- The job read the line at the level, and nobody began to drive it since. -/
def sees (k : Nat) (w : Wire) (level : Bool) : List Event → Bool
  | [] => false
  | e :: old => e == .read k w (some level) || (!e.touches w && sees k w level old)

/-- The levels of the lines of a channel in a state. -/
def ChannelDef.levels (c : ChannelDef) (v : Value) : List (Wire × Bool) :=
  match c.kind with
  | .selector _ _ => c.lines.zipIdx.map fun x => ((c.driver, x.1), v == .port (x.2 + 1))
  | _ => [(c.wire, v == .on)]

/-- What the event says of the confirmed state of a channel, and which job recorded it (`none`: it is
a debounced input). -/
def Event.confirms (id : ChannelId) : Event → Option (Option Nat × Option Value)
  | .stored k id' _ (some got) => if id' = id then some (some k, got) else none
  | .sampled id' level => if id' = id then some (none, level.map levelValue) else none
  | _ => none

/-- The job that recorded a state had read each line of the channel at its level there; an input is
debounced apart. -/
def justified (c : ChannelDef) (v : Value) (old : List Event) : Option Nat → Bool
  | some k => (c.levels v).all fun p => sees k p.1 p.2 old
  | none => c.kind.isInput

/-- The last state recorded of the channel is the given one, it was observed, and nobody has begun to
drive a line of the channel since. -/
def stands (c : ChannelDef) (v : Value) : List Event → Bool
  | [] => false
  | e :: old =>
    match e.confirms c.id with
    | some (k, got) => got == some v && justified c v old k
    | none => !c.wires.any e.touches && stands c v old

/-- Every confirmed state stands. -/
def Truthful (site : Site) (s : Plant) : Prop :=
  ∀ id v, (s.chans id).confirmed = some v →
    ∃ c, site.station.channel id = some c ∧ stands c v s.log = true

/-! ### When it does -/

/-- The line that an action begins to drive. -/
def Act.begins : Act → Option Wire
  | .write w _ | .force w => some w
  | _ => none

/-- The channels of the line are neither confirmed nor being read. -/
def Open (site : Site) (w : State) (wire : Wire) : Prop :=
  ∀ c ∈ site.station.channels, wire ∈ c.wires →
    (w.shared.chans c.id).confirmed = none ∧
      ∀ j < w.jobs.length, w.shared.watching j ≠ some c.id

instance (site : Site) (w : State) (wire : Wire) : Decidable (Open site w wire) :=
  inferInstanceAs (Decidable (∀ c ∈ site.station.channels, wire ∈ c.wires →
    (w.shared.chans c.id).confirmed = none ∧ ∀ j < w.jobs.length, w.shared.watching j ≠ some c.id))

/-- A drive of a line begins only while its channels are neither confirmed nor being read. -/
def undisturbed (site : Site) (w : State) : Turn Call Choice Outside → Prop
  | .turn k _ => ∀ wire ∈ (w.current k).bind Act.begins, Open site w wire
  | _ => True

instance (site : Site) (w : State) :
    (e : Turn Call Choice Outside) → Decidable (undisturbed site w e)
  | .turn k _ => inferInstanceAs
    (Decidable (∀ wire ∈ (w.current k).bind Act.begins, Open site w wire))
  | .call _ | .elapse _ _ | .drop _ | .env _ => .isTrue trivial

/-! ### Reading a channel -/

/-- The ways of closed lines, from way `n` on. -/
def closedWays : Nat → List Bool → List Nat
  | _, [] => []
  | n, b :: bs => if b then n :: closedWays (n + 1) bs else closedWays (n + 1) bs

theorem mem_closedWays {m n : Nat} {bs : List Bool} :
    m ∈ closedWays n bs ↔ ∃ i, bs[i]? = some true ∧ m = n + i := by
  induction bs generalizing n with
  | nil => simp [closedWays]
  | cons b bs ih =>
    have hcons : (∃ i, (b :: bs)[i]? = some true ∧ m = n + i) ↔
        (b = true ∧ m = n) ∨ ∃ i, bs[i]? = some true ∧ m = n + 1 + i := by
      constructor
      · rintro ⟨i, hi, rfl⟩
        cases i with
        | zero => exact .inl ⟨by simpa using hi, rfl⟩
        | succ i => exact .inr ⟨i, by simpa using hi, by omega⟩
      · rintro (⟨rfl, rfl⟩ | ⟨i, hi, rfl⟩)
        · exact ⟨0, rfl, rfl⟩
        · exact ⟨i + 1, by simpa using hi, by omega⟩
    rw [hcons, ← ih]
    cases b <;> simp [closedWays]

/-- A selector is at the way that is closed, or at none. -/
theorem level_of_waysValue {bs : List Bool} {v : Value} (h : waysValue (closedWays 1 bs) = some v)
    {i : Nat} {b : Bool} (hb : bs[i]? = some b) : b = (v == .port (i + 1)) := by
  have hmem : b = true ↔ i + 1 ∈ closedWays 1 bs := by
    rw [mem_closedWays]
    constructor
    · rintro rfl
      exact ⟨i, hb, by omega⟩
    · rintro ⟨i', hi', heq⟩
      obtain rfl : i = i' := by omega
      exact Option.some.inj (hb.symm.trans hi')
  rw [Bool.eq_iff_iff, hmem, beq_iff_eq]
  cases hways : closedWays 1 bs with
  | nil =>
    rw [hways] at h
    obtain rfl := Option.some.inj h
    simp
  | cons m rest =>
    cases rest with
    | nil =>
      rw [hways] at h
      obtain rfl := Option.some.inj h
      rw [List.mem_singleton, Value.port.injEq]
      exact eq_comm
    | cons =>
      rw [hways] at h
      cases h

/-- The channel that a job is reading, and the levels that it has read. -/
abbrev Reading := Option (ChannelId × List (Wire × Bool))

/-- A job drives no line while it reads a channel, reads only the lines of that channel then, and
records a state when it has read each line at its level there. -/
def seeing (site : Site) : Protocol Act Act.Answer Reading where
  allows
    | l, .write _ _ | l, .force _ => l = none
    | l, .store id _ (some (some v)) =>
      ∃ c rs, site.station.channel id = some c ∧ l = some (id, rs) ∧ c.levels v ⊆ rs
    | l, .level w => ∀ id rs, l = some (id, rs) → ∃ c, site.station.channel id = some c ∧ w ∈ c.wires
    | _, _ => True
  after
    | _, .watches id, _ => id.map fun id => (id, [])
    | l, .level w, .ok level => l.map fun x => (x.1, x.2 ++ [(w, level)])
    | l, _, _ => l
  lost _ := none

section Seeing

variable {site : Site} {c : ChannelDef} {rs : List (Wire × Bool)}

open Prog in
theorem readLine_seeing {line : Nat} (hc : site.station.channel c.id = some c)
    (hl : (c.driver, line) ∈ c.wires) :
    (Site.readLine c line).run.Follows (seeing site) (some (c.id, rs)) fun l r => match r with
      | .ok b => l = some (c.id, rs ++ [((c.driver, line), b)])
      | .error _ => l = some (c.id, rs) := by
  refine follows_act.mpr ⟨trivial, fun _ => ⟨?_, fun r => ?_⟩⟩
  · intro id rs' heq
    obtain ⟨rfl, -⟩ := Prod.mk.inj (Option.some.inj heq)
    exact ⟨c, hc, hl⟩
  · cases r <;> rfl

open Prog in
theorem readWays_seeing {n : Nat} {lines : List Nat} (hc : site.station.channel c.id = some c)
    (hl : ∀ line ∈ lines, (c.driver, line) ∈ c.wires) :
    (Site.readWays c n lines).run.Follows (seeing site) (some (c.id, rs)) fun l r => match r with
      | .ok ways => ∃ bs, ways = closedWays n bs ∧ bs.length = lines.length ∧
          l = some (c.id, rs ++ (lines.map (c.driver, ·)).zip bs)
      | .error _ => ∃ rs', l = some (c.id, rs') := by
  induction lines generalizing n rs with
  | nil => exact ⟨[], rfl, rfl, by simp⟩
  | cons line rest ih =>
    refine follows_try_bind.mpr ((readLine_seeing hc (hl line (.head _))).mono ?_)
    rintro l (e | b) hline
    · exact ⟨rs, hline⟩
    obtain rfl := hline
    refine follows_try_bind.mpr ((ih fun line hline => hl line (.tail _ hline)).mono ?_)
    rintro l (e | ways) hrest
    · exact hrest
    obtain ⟨bs, rfl, hlength, rfl⟩ := hrest
    exact ⟨b :: bs, rfl, by simp [hlength], by simp⟩

open Prog in
/-- Reading a channel reads each line of it at its level in the state that is read. -/
theorem readValue_seeing (hc : site.station.channel c.id = some c) :
    (Site.readValue c).run.Follows (seeing site) (some (c.id, [])) fun l r => match r with
      | .ok got => ∃ rs, l = some (c.id, rs) ∧ ∀ v, got = some v → c.levels v ⊆ rs
      | .error _ => ∃ rs, l = some (c.id, rs) := by
  unfold Site.readValue
  split
  next ways settle hkind =>
    have hlines : ∀ line ∈ c.lines, (c.driver, line) ∈ c.wires := fun line hline =>
      List.mem_map_of_mem hline
    refine follows_try_bind.mpr ((readWays_seeing hc hlines).mono ?_)
    rintro l (e | closed) hread
    · exact hread
    obtain ⟨bs, rfl, hlength, rfl⟩ := hread
    refine ⟨_, rfl, fun v hv p hp => ?_⟩
    simp only [ChannelDef.levels, hkind, List.mem_map] at hp
    obtain ⟨⟨line, i⟩, hi, rfl⟩ := hp
    have hline := List.mk_mem_zipIdx_iff_getElem?.mp hi
    have hlt : i < bs.length := hlength ▸ (List.getElem?_eq_some_iff.mp hline).1
    have hb := List.getElem?_eq_getElem hlt
    rw [← level_of_waysValue hv hb]
    refine List.mem_append_right _ (List.mem_of_getElem? (i := i) ?_)
    refine List.getElem?_zip_eq_some.mpr ⟨?_, hb⟩
    simp [hline]
  next hkind =>
    have hwire := mem_wires (ways_eq_none hkind)
    refine follows_try_bind.mpr ((readLine_seeing hc hwire).mono ?_)
    rintro l (e | b) hread
    · exact ⟨_, hread⟩
    refine ⟨_, hread, fun v hv p hp => ?_⟩
    have hlevels : c.levels v = [(c.wire, v == .on)] := by
      unfold ChannelDef.levels
      split
      next ways settle hk => exact absurd hk (hkind ways settle)
      · rfl
    rw [hlevels] at hp
    obtain rfl := List.mem_singleton.mp hp
    obtain rfl := Option.some.inj hv
    cases b <;> exact .head _

open Prog in
/-- What is done with a channel that was read may record what was read. -/
theorem watching_seeing {α : Type} {next : Except StationError (Option Value) → Op α}
    {Q : Reading → Except StationError α → Prop} (hc : site.station.channel c.id = some c)
    (hok : ∀ got rs, (∀ v, got = some v → c.levels v ⊆ rs) →
      (next (.ok got)).run.Follows (seeing site) (some (c.id, rs)) Q)
    (herror : ∀ e rs, (next (.error e)).run.Follows (seeing site) (some (c.id, rs)) Q) :
    (Site.watching c next).run.Follows (seeing site) none Q := by
  refine follows_act.mpr ⟨trivial, fun _ => ?_⟩
  refine follows_try_bind.mpr (follows_bind.mpr ((readValue_seeing hc).mono ?_))
  rintro l (e | got) hread
  · obtain ⟨rs, rfl⟩ := hread
    exact herror e rs
  · obtain ⟨rs, rfl, hlevels⟩ := hread
    exact hok got rs hlevels

open Prog in
theorem confirm_seeing {got : Option Value} (hc : site.station.channel c.id = some c)
    (hlevels : ∀ v, got = some v → c.levels v ⊆ rs) :
    (Site.confirm c got).run.Follows (seeing site) (some (c.id, rs)) fun l _ => l = none := by
  refine follows_act.mpr ⟨?_, fun _ => follows_act.mpr ⟨trivial, fun _ => rfl⟩⟩
  cases got with
  | none => trivial
  | some v => exact ⟨c, rs, hc, rfl, hlevels v rfl⟩

open Prog in
theorem fault_seeing (e : StationError) (l : Reading) :
    (Site.fault c e).run.Follows (seeing site) l fun l' r => l' = l ∧ r = .ok () :=
  follows_act.mpr ⟨trivial, fun _ => follows_act.mpr ⟨trivial, fun _ => ⟨rfl, rfl⟩⟩⟩

open Prog in
theorem unwatch_seeing (l : Reading) :
    Site.unwatch.run.Follows (seeing site) l fun l' _ => l' = none :=
  follows_act.mpr ⟨trivial, fun _ => rfl⟩

end Seeing

variable {site : Site}

theorem calm_seeing : Calm (seeing site) (· = none) where
  asks a l ha hl := by
    subst hl
    cases a
    case now | sleep | status | emit | key | answers => exact ⟨trivial, fun _ => rfl⟩
    all_goals cases ha

open Prog in
/-- What was read is recorded, and then the rest. -/
theorem confirm_then {α : Type} {c : ChannelDef} {rs : List (Wire × Bool)} {got : Option Value}
    {next : Op α} (hc : site.station.channel c.id = some c)
    (hlevels : ∀ v, got = some v → c.levels v ⊆ rs) (hnext : next.Steady (seeing site) (· = none)) :
    (Site.confirm c got >>= fun _ => next).run.Follows (seeing site) (some (c.id, rs))
      fun l _ => l = none := by
  refine follows_try_bind.mpr ((confirm_seeing hc hlevels).mono ?_)
  rintro l (e | _) hl
  · exact hl
  · exact hnext l hl

open Prog in
theorem checkOpen_seeing {c : ChannelDef} (hc : site.station.channel c.id = some c) (value : Value)
    (target n : Nat) (lines : List Nat) :
    (Site.checkOpen c value target n lines).Steady (seeing site) (· = none) := by
  induction lines generalizing n with
  | nil => exact .try_pure _
  | cons line rest ih =>
    have hread : (Site.readLine c line).Steady (seeing site) (· = none) := by
      rintro l rfl
      refine follows_act.mpr ⟨trivial, fun _ => ⟨fun id rs => nofun, fun r => ?_⟩⟩
      cases r <;> rfl
    unfold Site.checkOpen
    split
    · refine .try_bind (steady_attempt hread) fun r => ?_
      split
      · exact .try_bind (fun l hl => (fault_seeing _ l).mono fun l' _ h => h.1.trans hl)
          fun _ => .throw _
      · refine .try_bind ?_ fun _ => ih (n + 1)
        rintro l rfl
        have hstop (got : Option Value) : Op.Steady (α := Unit) (seeing site) (· = none) (do
            Site.emit (.mismatch c.id value got)
            throw ⟨.notConfirmed,
              s!"channel {c.id}: way {n} did not open, not closing way {target}"⟩) :=
          .try_bind (calm_seeing.emit _) fun _ => .throw _
        exact watching_seeing hc (fun got rs hlevels => confirm_then hc hlevels (hstop _))
          fun e rs => confirm_then hc (fun v hv => by cases hv) (hstop _)
      · exact ih (n + 1)
    · exact ih (n + 1)

open Prog in
/-- A channel that cannot be read is no longer confirmed, and no longer being read. -/
theorem fault_then {α : Type} {c : ChannelDef} {rs : List (Wire × Bool)} (e : StationError) :
    ((do
      Site.fault c e
      Site.unwatch
      throw e : Op α)).run.Follows (seeing site) (some (c.id, rs)) fun l _ => l = none := by
  refine follows_try_bind.mpr ((fault_seeing e _).mono ?_)
  rintro l r ⟨rfl, rfl⟩
  refine follows_try_bind.mpr ((unwatch_seeing _).mono ?_)
  rintro l (e | _) hl
  · exact hl
  · exact hl

theorem verify_seeing {c : ChannelDef} (hc : site.station.channel c.id = some c) (want : Value) :
    (site.verify c want).Steady (seeing site) (· = none) := by
  unfold Site.verify
  split
  · exact .act (fun l hl => ⟨trivial, fun _ => hl⟩) fun _ => .try_pure _
  · rintro l rfl
    refine watching_seeing hc (fun got rs hlevels => confirm_then hc hlevels ?_)
      fun e rs => fault_then e
    split
    · exact .try_bind (calm_seeing.emit _) fun _ => .try_pure _
    · exact .try_bind (calm_seeing.emit _) fun _ => .throw _

open Prog in
theorem reread_seeing {c : ChannelDef} (hc : site.station.channel c.id = some c) :
    (site.reread c).Steady (seeing site) (· = none) := by
  unfold Site.reread
  split
  · rintro l rfl
    exact watching_seeing hc (fun got rs hlevels => confirm_seeing hc hlevels)
      fun e rs => unwatch_seeing _
  · exact .try_pure _

theorem handling_seeing : Handling (seeing site) (· = none) (fun _ _ => True) site where
  plain a l ha hl := by
    subst hl
    cases a
    case lock | unlock | now | sleep | status | emit | key | answers | written | read | forced =>
      exact ⟨trivial, fun _ => rfl⟩
    case force => exact ⟨rfl, fun _ => rfl⟩
    all_goals cases ha
  writes w on l _ hl := ⟨hl, hl⟩
  stores id commanded confirmed l hc hl := by
    refine ⟨?_, hl⟩
    rcases hc with rfl | rfl
    · trivial
    · trivial
  verify c want hc := verify_seeing (channel_of_chan hc) want
  checkOpen c value target n lines hc _ := checkOpen_seeing (channel_of_chan hc) value target n lines
  reread c hc := reread_seeing (channel_of_chan hc)

open Prog in
theorem readBack_seeing (id : ChannelId) : (site.readBack id).Steady (seeing site) (· = none) := by
  refine steady_of_bind fun c hc => handling_seeing.locked id ?_
  have hchannel := channel_of_chan (chan_self hc)
  rintro l rfl
  refine watching_seeing hchannel (fun got rs hlevels => ?_) fun e rs => fault_then e
  exact confirm_then hchannel hlevels (.try_pure _)

theorem checkMinOff_seeing (c : ChannelDef) (value : Value) :
    (Site.checkMinOff c value).Steady (seeing site) (· = none) := by
  unfold Site.checkMinOff
  split
  · refine .act (fun l hl => ⟨trivial, fun _ => hl⟩) fun t => ?_
    split
    · refine calm_seeing.ask rfl fun now => ?_
      split
      · exact .throw _
      · exact .try_pure _
    · exact .try_pure _
  · exact .try_pure _

/-- Every command keeps to the protocol. -/
theorem run_seeing (call : Call) : (site.run call).Steady (seeing site) (· = none) :=
  steady_run calm_seeing (fun _ => rfl) (fun _ _ _ hl => ⟨trivial, hl⟩) (fun _ _ hl => ⟨trivial, hl⟩)
    (fun _ value => handling_seeing.set (fun c _ => checkMinOff_seeing c value)
      fun _ _ _ _ _ _ => trivial)
    (fun _ => handling_seeing.pulseLine fun _ _ _ _ => trivial)
    (fun id _ => handling_seeing.forceOff id) readBack_seeing call

/-! ### The invariant -/

theorem sees_cons {k : Nat} {w : Wire} {level : Bool} {e : Event} {log : List Event}
    (h : sees k w level log = true) (he : e.touches w = false) :
    sees k w level (e :: log) = true := by
  simp [sees, he, h]

theorem sees_read (k : Nat) (w : Wire) (level : Bool) (log : List Event) :
    sees k w level (.read k w (some level) :: log) = true := by
  simp [sees]

theorem stands_cons {c : ChannelDef} {v : Value} {e : Event} {log : List Event}
    (h : stands c v log = true) (hconfirms : e.confirms c.id = none)
    (htouches : ∀ w ∈ c.wires, e.touches w = false) : stands c v (e :: log) = true := by
  simpa [stands, hconfirms, h] using htouches

/-- Every confirmed state stands, and so do the levels that a job has read. -/
structure Seen (site : Site) (s : Plant) (locals : Nat → Reading) : Prop where
  watching : ∀ k, s.watching k = (locals k).map Prod.fst
  levels : ∀ k id rs, locals k = some (id, rs) → ∀ p ∈ rs, ∃ c,
    site.station.channel id = some c ∧ p.1 ∈ c.wires ∧ sees k p.1 p.2 s.log = true
  truthful : Truthful site s

/-- The event says nothing of a confirmed state, and begins no drive of a line of a channel that is
confirmed or being read. -/
structure Unmoved (site : Site) (s : Plant) (e : Event) : Prop where
  confirms : ∀ id, e.confirms id = none
  touches : ∀ id c, site.station.channel id = some c →
    ((s.chans id).confirmed ≠ none ∨ ∃ k, s.watching k = some id) →
    ∀ w ∈ c.wires, e.touches w = false

namespace Seen

variable {s s' : Plant} {locals : Nat → Reading}

theorem init (h : site.executor.init s) : Seen site s fun _ => none where
  watching k := h.2.2.2.2.2.2.1 k
  levels k id rs hk := by cases hk
  truthful id v hv := by simp [h.2.1 id] at hv

/-- What says nothing of a confirmed state leaves what is known. -/
theorem next (h : Seen site s locals) (hwatching : s'.watching = s.watching)
    (hchans : ∀ id, (s'.chans id).confirmed = (s.chans id).confirmed)
    (hlog : s'.log = s.log ∨ ∃ e, s'.log = e :: s.log ∧ Unmoved site s e) :
    Seen site s' locals := by
  rcases hlog with hlog | ⟨e, hlog, hunmoved⟩
  · refine ⟨by rw [hwatching]; exact h.watching, by rw [hlog]; exact h.levels, fun id v hv => ?_⟩
    rw [hlog]
    exact h.truthful id v (hchans id ▸ hv)
  · refine ⟨by rw [hwatching]; exact h.watching, fun k id rs hk p hp => ?_, fun id v hv => ?_⟩
    · obtain ⟨c, hc, hw, hsees⟩ := h.levels k id rs hk p hp
      have hreading : ∃ k, s.watching k = some id := ⟨k, by rw [h.watching, hk]; rfl⟩
      refine ⟨c, hc, hw, ?_⟩
      rw [hlog]
      exact sees_cons hsees (hunmoved.touches id c hc (.inr hreading) _ hw)
    · rw [hchans id] at hv
      obtain ⟨c, hc, hstands⟩ := h.truthful id v hv
      have hconfirmed : (s.chans id).confirmed ≠ none := by simp [hv]
      refine ⟨c, hc, ?_⟩
      rw [hlog]
      exact stands_cons hstands (hunmoved.confirms _) (hunmoved.touches id c hc (.inl hconfirmed))

/-- A job goes on to read another channel, or none. -/
theorem watches (h : Seen site s locals) (k : Nat) (id : Option ChannelId) :
    Seen site { s with watching := Function.update s.watching k id }
      (Function.update locals k (id.map fun id => (id, []))) where
  watching j := by
    by_cases hj : j = k
    · subst hj
      cases id <;> simp
    · simpa [hj] using h.watching j
  levels j id' rs hj p hp := by
    by_cases hjk : j = k
    · subst hjk
      rw [Function.update_self] at hj
      obtain ⟨_, -, heq⟩ := Option.map_eq_some_iff.mp hj
      obtain ⟨-, rfl⟩ := Prod.mk.inj heq
      cases hp
    · rw [Function.update_of_ne hjk] at hj
      exact h.levels j id' rs hj p hp
  truthful := h.truthful

theorem unmoved_read {site : Site} (s : Plant) (k : Nat) (w : Wire) (level : Option Bool) :
    Unmoved site s (.read k w level) :=
  ⟨fun _ => rfl, fun _ _ _ _ _ _ => rfl⟩

/-- A job has read a line of its channel. -/
theorem read (h : Seen site s locals) {k : Nat} {w : Wire} (level : Bool)
    (hallows : (seeing site).allows (locals k) (.level w)) :
    Seen site { s with log := .read k w (some level) :: s.log }
      (Function.update locals k ((locals k).map fun x => (x.1, x.2 ++ [(w, level)]))) := by
  have hnext : Seen site { s with log := .read k w (some level) :: s.log } locals :=
    h.next rfl (fun _ => rfl) (.inr ⟨_, rfl, unmoved_read s k w _⟩)
  refine ⟨fun j => ?_, fun j id rs hj p hp => ?_, hnext.truthful⟩
  · by_cases hjk : j = k
    · subst hjk
      rw [hnext.watching j, Function.update_self, Option.map_map]
      rfl
    · rw [Function.update_of_ne hjk]
      exact hnext.watching j
  · by_cases hjk : j = k
    · subst hjk
      rw [Function.update_self] at hj
      obtain ⟨⟨id', rs'⟩, hlocal, heq⟩ := Option.map_eq_some_iff.mp hj
      obtain ⟨rfl, rfl⟩ := Prod.mk.inj heq
      rcases List.mem_append.mp hp with hp | hp
      · exact hnext.levels j id' rs' hlocal p hp
      · obtain rfl := List.mem_singleton.mp hp
        obtain ⟨c, hc, hw⟩ := hallows id' rs' hlocal
        exact ⟨c, hc, hw, sees_read j w level s.log⟩
    · rw [Function.update_of_ne hjk] at hj
      exact hnext.levels j id rs hj p hp

theorem store_confirmed (now : Instant) (commanded : Option (Option Value))
    (confirmed : Option (Option Value)) (st : ChanState) :
    (st.store now commanded confirmed).confirmed = confirmed.getD st.confirmed := by
  cases commanded <;> cases confirmed <;> rfl

/-- A job records a state that it has read, or that the state is not known. -/
theorem store (h : Seen site s locals) {k : Nat} {id : ChannelId}
    {commanded confirmed : Option (Option Value)}
    (hallows : (seeing site).allows (locals k) (.store id commanded confirmed)) :
    Seen site { s with
      chans := Function.update s.chans id ((s.chans id).store s.now commanded confirmed)
      log := .stored k id commanded confirmed :: s.log } locals := by
  refine ⟨h.watching, fun j id' rs hj p hp => ?_, fun id' v hv => ?_⟩
  · obtain ⟨c, hc, hw, hsees⟩ := h.levels j id' rs hj p hp
    exact ⟨c, hc, hw, sees_cons hsees rfl⟩
  dsimp only at hv ⊢
  by_cases hid : id' = id
  · subst hid
    rw [Function.update_self, store_confirmed] at hv
    cases confirmed with
    | none =>
      obtain ⟨c, hc, hstands⟩ := h.truthful id' v hv
      exact ⟨c, hc, stands_cons hstands rfl fun _ _ => rfl⟩
    | some got =>
      obtain rfl : got = some v := hv
      obtain ⟨c, rs, hc, hlocal, hlevels⟩ := hallows
      refine ⟨c, hc, ?_⟩
      have hcid : id' = c.id := (StationDef.mem_of_channel hc).2.symm
      simp only [stands, Event.confirms, if_pos hcid, beq_self_eq_true, Bool.true_and, justified,
        List.all_eq_true]
      intro p hp
      obtain ⟨_, -, -, hsees⟩ := h.levels k id' rs hlocal p (hlevels hp)
      exact hsees
  · rw [Function.update_of_ne hid] at hv
    obtain ⟨c, hc, hstands⟩ := h.truthful id' v hv
    have hcid : ¬ id = c.id := fun heq => hid ((StationDef.mem_of_channel hc).2 ▸ heq.symm)
    refine ⟨c, hc, stands_cons hstands ?_ fun _ _ => rfl⟩
    cases confirmed with
    | none => rfl
    | some got => simp [Event.confirms, hcid]

/-- A debounced input is believed, or unknown. -/
theorem input (h : Seen site s locals) {id : ChannelId} {level : Option Bool}
    (hinput : site.isInput id = true) :
    Seen site { s with
      chans := Function.update s.chans id
        ((s.chans id).store s.now none (some (level.map levelValue)))
      log := .sampled id level :: s.log } locals := by
  refine ⟨h.watching, fun j id' rs hj p hp => ?_, fun id' v hv => ?_⟩
  · obtain ⟨c, hc, hw, hsees⟩ := h.levels j id' rs hj p hp
    exact ⟨c, hc, hw, sees_cons hsees rfl⟩
  dsimp only at hv ⊢
  by_cases hid : id' = id
  · subst hid
    rw [Function.update_self, store_confirmed] at hv
    obtain ⟨c, hc, hkind⟩ := (Option.any_eq_true _ _).mp hinput
    have hcid : id' = c.id := (StationDef.mem_of_channel hc).2.symm
    have hv : level.map levelValue = some v := hv
    refine ⟨c, hc, ?_⟩
    simp [stands, Event.confirms, hcid, justified, hkind, hv]
  · rw [Function.update_of_ne hid] at hv
    obtain ⟨c, hc, hstands⟩ := h.truthful id' v hv
    have hcid : ¬ id = c.id := fun heq => hid ((StationDef.mem_of_channel hc).2 ▸ heq.symm)
    refine ⟨c, hc, stands_cons hstands ?_ fun _ _ => rfl⟩
    simp [Event.confirms, hcid]

/-- An action of a job that drives lines only when they are open. -/
theorem perform {w : State} (h : Seen site w.shared locals)
    (hfresh : ∀ j, w.jobs.length ≤ j → locals j = none) {k : Nat} {choice : Choice} {a : Act}
    {r : a.Answer} (hopen : ∀ wire ∈ a.begins, Open site w wire)
    (hallows : (seeing site).allows (locals k) a)
    (hexec : a.perform site k choice w.shared = some (r, s')) :
    Seen site s' (Function.update locals k ((seeing site).after (locals k) a r)) := by
  obtain ⟨-, rfl⟩ := perform_iff.mp hexec
  have hquiet : (seeing site).after (locals k) a r = locals k →
      Seen site (a.after site k r w.shared) locals →
      Seen site (a.after site k r w.shared)
        (Function.update locals k ((seeing site).after (locals k) a r)) := by
    intro heq hnext
    rwa [heq, Function.update_eq_self]
  have hdrive (e : Event) (wire : Wire) (hconfirms : ∀ id, e.confirms id = none)
      (htouches : ∀ w', e.touches w' = true → w' = wire) (hopen : Open site w wire) :
      Unmoved site w.shared e := by
    refine ⟨hconfirms, fun id c hc hkept w' hw' => ?_⟩
    by_contra htouched
    obtain rfl := htouches w' (by simpa using htouched)
    obtain ⟨hmem, rfl⟩ := StationDef.mem_of_channel hc
    obtain ⟨hunconfirmed, hunwatched⟩ := hopen c hmem hw'
    rcases hkept with hconfirmed | ⟨j, hj⟩
    · exact hconfirmed hunconfirmed
    · by_cases hlt : j < w.jobs.length
      · exact hunwatched j hlt hj
      · rw [h.watching, hfresh j (Nat.le_of_not_lt hlt)] at hj
        cases hj
  cases a with
  | watches id => exact h.watches k id
  | level w =>
    cases r with
    | ok level => exact h.read level hallows
    | error e =>
      refine hquiet rfl (h.next rfl (fun _ => rfl) (.inr ⟨_, rfl, unmoved_read _ _ _ _⟩))
  | store id commanded confirmed => exact hquiet rfl (h.store hallows)
  | write w on =>
    refine hquiet rfl (h.next rfl (fun _ => rfl) (.inr ⟨_, rfl, hdrive _ w (fun _ => rfl) ?_ ?_⟩))
    · exact fun w' hw' => (beq_iff_eq.mp hw').symm
    · exact hopen w rfl
  | force w =>
    refine hquiet rfl (h.next rfl (fun _ => rfl) (.inr ⟨_, rfl, hdrive _ w (fun _ => rfl) ?_ ?_⟩))
    · exact fun w' hw' => (beq_iff_eq.mp hw').symm
    · exact hopen w rfl
  | emit | key | written | forced =>
    exact hquiet rfl (h.next rfl (fun _ => rfl)
      (.inr ⟨_, rfl, fun _ => rfl, fun _ _ _ _ _ _ => rfl⟩))
  | lock | unlock | now | sleep | status | lastOff | answers | read | relies | scans =>
    exact hquiet rfl (h.next rfl (fun _ => rfl) (.inl rfl))

theorem release (h : Seen site s locals) (k : Nat) :
    Seen site (s.release k) (Function.update locals k none) :=
  h.watches k none |>.next rfl (fun _ => rfl) (.inl rfl)

theorem outside (h : Seen site s locals) {o : Outside}
    (henv : site.executor.env o s = some s') : Seen site s' locals := by
  cases o with
  | input id level =>
    obtain ⟨hinput, heq⟩ := Option.ite_none_right_eq_some.mp henv
    rw [← Option.some.inj heq]
    exact h.input hinput
  | land i =>
    obtain ⟨d, -, rfl⟩ := Option.map_eq_some_iff.mp henv
    exact h.next rfl (fun _ => rfl) (.inl rfl)
  | tick | lose | flip | rewrite =>
    rw [← Option.some.inj henv]
    exact h.next rfl (fun _ => rfl) (.inl rfl)

end Seen

end HamsOpen.Station
