import HamsOpen.Station.Drives
import HamsOpen.Station.History
import Mathlib

/-!
# The minimum off time

A power channel is switched on only when it has been off for its minimum time, as far as the
switchboard knows: it stamps the time when a known state that is not off becomes off. A line that is
turned off by a route that leaves no stamp, or an earlier one, is not held back. Where the stamp is
as late as the last time that a drive turned the line off, the minimum time is kept.
-/

namespace HamsOpen.Station

/-- The minimum off time of a channel. -/
def ChannelKind.minOff : ChannelKind → Duration
  | .power _ minOff _ => minOff
  | _ => 0

def StationDef.minOff (s : StationDef) (id : ChannelId) : Duration :=
  ((s.channel id).map fun c => c.kind.minOff).getD 0

/-- The channel whose stamp an operation has looked at, the stamp, and whether it is old enough. -/
abbrev Spacing := Option (ChannelId × Option Instant × Bool)

/-- What is found when the time is read: whether the stamp is old enough by then. -/
def ripened (s : StationDef) (now : Instant) (x : ChannelId × Option Instant × Bool) :
    ChannelId × Option Instant × Bool :=
  (x.1, x.2.1, x.2.2 || x.2.1.any fun t => decide (s.minOff x.1 ≤ now - t))

/-- A power channel is driven on when its stamp was found old enough. -/
def spacing (site : Site) : Protocol Act Act.Answer Spacing where
  allows l
    | .write w true => ∀ c ∈ site.station.channels, c.kind.isPower = true → w = c.wire →
      ∃ last, l = some (c.id, last, true)
    | _ => True
  after l
    | .lastOff id, last => some (id, last, last.isNone)
    | .now, now => l.map (ripened site.station now)
    | .write _ _, _ | .unlock _, _ => none
    | _, _ => l
  lost _ := none

section Spacing

variable {site : Site}

/-- The drives that are not the power-on of a power channel. -/
def NoPowerOn (site : Site) (w : Wire) (on : Bool) : Prop :=
  on = true → ∀ c ∈ site.station.channels, c.kind.isPower = true → w ≠ c.wire

variable (site) in
theorem lenient_spacing : Lenient (spacing site) (fun _ => True) (NoPowerOn site) where
  writes w on l hw _ := by
    refine ⟨?_, trivial⟩
    cases on with
    | false => trivial
    | true => exact fun c hc hpower heq => absurd heq (hw rfl c hc hpower)
  others a l hwrite _ _ _ := by
    refine ⟨?_, fun _ => trivial⟩
    cases a with
    | write w on => exact absurd rfl (hwrite w on)
    | _ => trivial

open Prog in
/-- A check that passes finds the stamp old enough. -/
theorem checkMinOff_spacing {c : ChannelDef} (hc : site.station.channel c.id = some c)
    (hpower : c.kind.isPower = true) (l : Spacing) :
    (Site.checkMinOff c .on).run.Follows (spacing site) l fun l' r =>
      r = .ok () → ∃ last, l' = some (c.id, last, true) := by
  cases hkind : c.kind with
  | power stagger minOff shared =>
    have hmin : site.station.minOff c.id = minOff := by
      simp [StationDef.minOff, hc, hkind, ChannelKind.minOff]
    simp only [Site.checkMinOff, hkind]
    refine follows_act.mpr ⟨trivial, fun last => ?_⟩
    cases last with
    | none => exact fun _ => ⟨none, rfl⟩
    | some t =>
      refine follows_act.mpr ⟨trivial, fun now => ?_⟩
      split
      · nofun
      next hlate =>
        refine fun _ => ⟨some t, ?_⟩
        simp [spacing, ripened, hmin, Nat.le_of_not_lt hlate]
  | _ => simp [hkind, ChannelKind.isPower] at hpower

variable (hvalid : Valid site.station)

include hvalid

open Prog in
/-- After the check a power channel is driven on. -/
theorem writeLine_spacing {c : ChannelDef} (hc : c ∈ site.station.channels)
    (hpower : c.kind.isPower = true) (last : Option Instant) :
    (Site.writeLine c c.line true).run.Follows (spacing site) (some (c.id, last, true))
      fun _ _ => True := by
  have hhandling := (lenient_spacing site).handling site
  refine follows_act.mpr ⟨fun c' hc' hpower' heq => ⟨last, ?_⟩, fun _ => ?_⟩
  · have hwire : c.wire ∈ c'.wires := by
      rw [show c.wire = c'.wire from heq]
      exact mem_wires (ways_of_stops (stops_of_power hpower'))
    rw [hvalid.wire_owner hc' hc hwire (mem_wires (ways_of_stops (stops_of_power hpower)))]
  · suffices hrest : Op.Steady (spacing site) (fun _ => True) _ from hrest _ trivial
    refine .try_bind (steady_attempt (hhandling.task rfl)) fun r => ?_
    cases r with
    | ok _ => exact .try_pure _
    | error e => exact .try_bind (hhandling.fault c e) fun _ => .throw _

open Prog in
/-- Setting a power channel on drives its line after the check. -/
theorem set_on_spacing {id : ChannelId} {c : ChannelDef} (hc : site.chan id = .ok c)
    (hpower : c.kind.isPower = true) :
    (site.set id .on).Steady (spacing site) fun _ => True := by
  have hhandling := (lenient_spacing site).handling site
  have hself := chan_self hc
  refine steady_of_bind fun c' hc' => ?_
  obtain rfl := Except.ok.inj (hc.symm.trans hc')
  refine hhandling.locked id fun l _ => ?_
  refine follows_try_bind.mpr ((checkMinOff_spacing (channel_of_chan hself) hpower l).mono ?_)
  rintro l' (e | _) hpassed
  · trivial
  obtain ⟨last, rfl⟩ := hpassed rfl
  cases hkind : c.kind with
  | power stagger minOff shared =>
    simp only [Site.settable, Bool.not_true, Bool.false_eq_true, if_false]
    refine follows_try_bind.mpr ((follows_status hc).mpr ⟨trivial, fun s => ?_⟩)
    dsimp only
    rw [if_neg fun h => nomatch h.2]
    refine follows_act.mpr ⟨trivial, fun _ => follows_emit.mpr ⟨trivial, ?_⟩⟩
    refine follows_try_bind.mpr ?_
    simp only [Site.drive, hkind]
    refine (writeLine_spacing hvalid (mem_of_chan hc).1 hpower last).mono ?_
    rintro l'' (e | _) -
    · trivial
    · exact hhandling.verify c .on hself _ trivial
  | _ => simp [hkind, ChannelKind.isPower] at hpower

/-- Setting a channel keeps to the protocol. -/
theorem set_spacing (id : ChannelId) (value : Value) :
    (site.set id value).Steady (spacing site) fun _ => True := by
  by_cases hon : ∃ c, site.chan id = .ok c ∧ c.kind.isPower = true ∧ value = .on
  · obtain ⟨c, hc, hpower, rfl⟩ := hon
    exact set_on_spacing hvalid hc hpower
  refine ((lenient_spacing site).handling site).set
    (fun c _ => (lenient_spacing site).checkMinOff c value) fun c hc _ w on hdrives => ?_
  rintro rfl c' hc' hpower rfl
  have hdriven := drives_on hvalid hc' (stops_of_power hpower) hc hdrives
  refine hon ⟨c, hc, ?_, hdriven.2⟩
  rwa [hvalid.wire_owner (mem_of_chan hc).1 hc' (wire_of_drives hdrives)
    (mem_wires (ways_of_stops (stops_of_power hpower)))]

theorem pulseLine_spacing (id : ChannelId) :
    (site.pulseLine id).Steady (spacing site) fun _ => True :=
  ((lenient_spacing site).handling site).pulseLine fun _ hc hwidth _ _ _ hc' hpower heq =>
    pulse_ne hvalid hc' (stops_of_power hpower) hc hwidth heq

/-- Every command keeps to the protocol. -/
theorem run_spacing (call : Call) : (site.run call).Steady (spacing site) fun _ => True :=
  steady_run ((lenient_spacing site).handling site).calm (fun _ => trivial)
    (fun _ _ _ _ => ⟨trivial, trivial⟩)
    (fun _ _ _ => ⟨trivial, trivial⟩) (set_spacing hvalid) (pulseLine_spacing hvalid)
    (fun id _ => ((lenient_spacing site).handling site).forceOff id)
    ((lenient_spacing site).readBack site) call

end Spacing

/-! ### When the minimum time is kept -/

/-- The stamp is as late as the last turn-off. -/
def upToDate (stamp turnedOff : Option Instant) : Bool := turnedOff.all fun t => stamp.any (t ≤ ·)

theorem le_of_upToDate {stamp turnedOff : Option Instant} (h : upToDate stamp turnedOff = true)
    {t : Instant} (ht : turnedOff = some t) : ∃ t', stamp = some t' ∧ t ≤ t' := by
  simpa [upToDate, ht, Option.any_eq_true] using h

theorem elapsed {t t' now min : Nat} (hle : t ≤ t') (htime : t ≤ now) (hmin : min ≤ now - t') :
    t + min ≤ now := by
  omega

/-- No job is between its look at the stamp of a channel of the line and its drive. -/
def Unchecked (site : Site) (w : State) (wire : Wire) : Prop :=
  ∀ c ∈ site.station.channels, c.wire = wire → ∀ j < w.jobs.length, w.shared.checked j ≠ some c.id

instance (site : Site) (w : State) (wire : Wire) : Decidable (Unchecked site w wire) :=
  inferInstanceAs (Decidable (∀ c ∈ site.station.channels, c.wire = wire →
    ∀ j < w.jobs.length, w.shared.checked j ≠ some c.id))

/-- The stamp of a channel is looked at only when it is as late as the last turn-off of its line, and
no drive turns a line off between that look and the drive that follows it. -/
def stamped (site : Site) (w : State) : Turn Call Choice Outside → Prop
  | .turn k _ => match w.current k with
    | some (.lastOff id) => ∀ c ∈ site.station.channel id,
        upToDate (w.shared.chans id).lastOff (w.shared.turnedOff c.wire) = true
    | _ => True
  | .env (.land i) => ∀ d ∈ w.shared.drives[i]?,
      w.shared.lines d.2.1 = true → d.2.2 = false → Unchecked site w d.2.1
  | _ => True

instance (site : Site) (w : State) (e : Turn Call Choice Outside) : Decidable (stamped site w e) := by
  unfold stamped
  split
  · split <;> infer_instance
  · infer_instance
  · infer_instance

/-- What a job has found of a stamp is so. -/
structure Spaced (site : Site) (s : Plant) (locals : Nat → Spacing) : Prop where
  checked : ∀ k, s.checked k = (locals k).map Prod.fst
  time : ∀ wire t, s.turnedOff wire = some t → t ≤ s.now
  spaced : ∀ k id last enough, locals k = some (id, last, enough) →
    ∀ c, site.station.channel id = some c → ∀ t, s.turnedOff c.wire = some t →
      (∃ t', last = some t' ∧ t ≤ t') ∧ (enough = true → t + site.station.minOff id ≤ s.now)

namespace Spaced

variable {site : Site} {s s' : Plant} {locals : Nat → Spacing}

theorem init (h : site.executor.init s) : Spaced site s fun _ => none where
  checked k := h.2.2.2.2.2.2.2.1 k
  time wire t ht := by simp [h.2.2.1 wire] at ht
  spaced k id last enough hk := by cases hk

/-- Time passes, and nothing else that matters. -/
theorem next (h : Spaced site s locals) (hchecked : s'.checked = s.checked)
    (hoff : s'.turnedOff = s.turnedOff) (hnow : s.now ≤ s'.now) : Spaced site s' locals where
  checked k := by rw [hchecked]; exact h.checked k
  time wire t ht := Nat.le_trans (h.time wire t (hoff ▸ ht)) hnow
  spaced k id last enough hk c hc t ht := by
    obtain ⟨hlast, henough⟩ := h.spaced k id last enough hk c hc t (hoff ▸ ht)
    exact ⟨hlast, fun he => Nat.le_trans (henough he) hnow⟩

/-- A job has found something of a stamp, or forgets what it has found. -/
theorem update (h : Spaced site s locals) {k : Nat} {l : Spacing}
    (hl : ∀ id last enough, l = some (id, last, enough) →
      ∀ c, site.station.channel id = some c → ∀ t, s.turnedOff c.wire = some t →
        (∃ t', last = some t' ∧ t ≤ t') ∧ (enough = true → t + site.station.minOff id ≤ s.now))
    (hchecked : s'.checked = Function.update s.checked k (l.map Prod.fst))
    (hoff : s'.turnedOff = s.turnedOff) (hnow : s'.now = s.now) :
    Spaced site s' (Function.update locals k l) where
  checked j := by
    rw [hchecked]
    by_cases hj : j = k
    · subst hj
      simp
    · simpa [hj] using h.checked j
  time wire t ht := hnow ▸ h.time wire t (hoff ▸ ht)
  spaced j id last enough hj c hc t ht := by
    rw [hoff] at ht
    rw [hnow]
    by_cases hjk : j = k
    · subst hjk
      rw [Function.update_self] at hj
      exact hl id last enough hj c hc t ht
    · rw [Function.update_of_ne hjk] at hj
      exact h.spaced j id last enough hj c hc t ht

theorem perform (h : Spaced site s locals) {k : Nat} {choice : Choice} {a : Act} {r : a.Answer}
    (hstamp : ∀ id, a = .lastOff id → ∀ c, site.station.channel id = some c →
      upToDate (s.chans id).lastOff (s.turnedOff c.wire) = true)
    (hexec : a.perform site k choice s = some (r, s')) :
    Spaced site s' (Function.update locals k ((spacing site).after (locals k) a r)) := by
  obtain ⟨hanswer, rfl⟩ := perform_iff.mp hexec
  have hquiet : (spacing site).after (locals k) a r = locals k →
      (a.after site k r s).checked = s.checked →
      Spaced site (a.after site k r s)
        (Function.update locals k ((spacing site).after (locals k) a r)) := by
    intro heq hchecked
    rw [heq, Function.update_eq_self]
    exact h.next hchecked Act.after_turnedOff (Nat.le_of_eq Act.after_now.symm)
  cases a with
  | lastOff id =>
    obtain rfl := Option.some.inj hanswer
    refine h.update ?_ rfl rfl rfl
    rintro id' last enough heq c hc t ht
    obtain ⟨rfl, rfl, rfl⟩ := heq
    obtain ⟨t', hlast, hle⟩ := le_of_upToDate (hstamp id rfl c hc) ht
    exact ⟨⟨t', hlast, hle⟩, fun hnone => by simp [hlast] at hnone⟩
  | now =>
    obtain rfl := Option.some.inj hanswer
    refine h.update ?_ ?_ rfl rfl
    · rintro id last enough heq c hc t ht
      obtain ⟨⟨id, last, before⟩, hlocal, heq⟩ := Option.map_eq_some_iff.mp heq
      obtain ⟨rfl, rfl, rfl⟩ := heq
      obtain ⟨⟨t', rfl, hle⟩, hbefore⟩ := h.spaced k id last before hlocal c hc t ht
      refine ⟨⟨t', rfl, hle⟩, fun henough => ?_⟩
      have htime := h.time _ _ ht
      simp only [Option.any_some, Bool.or_eq_true, decide_eq_true_eq] at henough
      rcases henough with hold | hmin
      · exact hbefore hold
      · exact elapsed hle htime hmin
    · have hsame : ((locals k).map (ripened site.station s.now)).map Prod.fst =
          (locals k).map Prod.fst := by
        rw [Option.map_map]
        rfl
      refine Eq.trans ?_ (congrArg _ hsame.symm)
      rw [← h.checked, Function.update_eq_self]
      rfl
  | write w on => exact h.update (fun _ _ _ heq => by cases heq) rfl rfl rfl
  | unlock id => exact h.update (fun _ _ _ heq => by cases heq) rfl rfl rfl
  | _ => exact hquiet rfl rfl

theorem release (h : Spaced site s locals) (k : Nat) :
    Spaced site (s.release k) (Function.update locals k none) :=
  h.update (fun _ _ _ heq => by cases heq) rfl rfl rfl

theorem outside {w : State} (h : Spaced site w.shared locals)
    (hfresh : ∀ j, w.jobs.length ≤ j → locals j = none) {o : Outside}
    (hok : stamped site w (.env o)) (henv : site.executor.env o w.shared = some s') :
    Spaced site s' locals := by
  cases o with
  | land i =>
    obtain ⟨d, hd, rfl⟩ := Option.map_eq_some_iff.mp henv
    by_cases hoff : (w.shared.lines d.2.1 && !d.2.2) = true
    · obtain ⟨hline, hlevel⟩ := Bool.and_eq_true_iff.mp hoff
      have hunchecked : Unchecked site w d.2.1 := hok d hd hline (by simpa using hlevel)
      have hturned : (w.shared.setLine d.2.1 d.2.2).turnedOff =
          Function.update w.shared.turnedOff d.2.1 (some w.shared.now) := if_pos hoff
      have hother {wire : Wire} (hwire : wire ≠ d.2.1) :
          (w.shared.setLine d.2.1 d.2.2).turnedOff wire = w.shared.turnedOff wire := by
        rw [hturned, Function.update_of_ne hwire]
      refine ⟨h.checked, fun wire t ht => ?_, fun k id last enough hk c hc t ht => ?_⟩
      · by_cases hwire : wire = d.2.1
        · rw [hwire] at ht
          have hnow : some w.shared.now = some t := by rwa [hturned, Function.update_self] at ht
          exact Nat.le_of_eq (Option.some.inj hnow).symm
        · exact h.time wire t ((hother hwire).symm.trans ht)
      · have hwire : c.wire ≠ d.2.1 := by
          intro hwire
          obtain ⟨hmem, rfl⟩ := StationDef.mem_of_channel hc
          have hlt : k < w.jobs.length := by
            by_contra hge
            cases (hfresh k (Nat.le_of_not_lt hge)).symm.trans hk
          exact hunchecked c hmem hwire k hlt (by rw [h.checked, hk]; rfl)
        exact h.spaced k id last enough hk c hc t ((hother hwire).symm.trans ht)
    · have hturned : (w.shared.setLine d.2.1 d.2.2).turnedOff = w.shared.turnedOff := if_neg hoff
      exact h.next rfl hturned (Nat.le_refl _)
  | tick d =>
    rw [← Option.some.inj henv]
    exact h.next rfl rfl (Nat.le_add_right _ _)
  | input id level =>
    obtain ⟨-, heq⟩ := Option.ite_none_right_eq_some.mp henv
    rw [← Option.some.inj heq]
    exact h.next rfl rfl (Nat.le_refl _)
  | lose | flip | rewrite =>
    rw [← Option.some.inj henv]
    exact h.next rfl rfl (Nat.le_refl _)

end Spaced

end HamsOpen.Station
