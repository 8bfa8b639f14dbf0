import HamsOpen.Station.Drives
import HamsOpen.Station.History

/-!
# The emergency all-off and commands in flight

The emergency all-off neither waits for a command in flight nor stops it. So a line that it has
driven off can be driven on again by a command that was already there, but only by one that is meant
to switch that very channel on, and that had still to do so.
-/

namespace HamsOpen.Station

variable {site : Site} {c : ChannelDef}

/-- The channel powers the device. -/
def Site.powers (site : Site) (c : ChannelDef) (device : DeviceId) : Bool :=
  (site.station.device device).any (·.poweredBy c.id)

/-- The command switches the channel on. -/
def Site.energises (site : Site) (c : ChannelDef) : Call → Bool
  | .setChannel id value => id == c.id && value == .on
  | .powerOn device => site.powers c device
  | .runProfile name => (site.station.profiles.find? (·.name == name)).any fun p =>
      p.steps.any fun
        | .power device => site.powers c device
        | .select _ _ => false
  | _ => false

section Energises

variable (hvalid : Valid site.station) (hc : c ∈ site.station.channels) (hstops : c.kind.stops = true)

include hvalid hc hstops

/-- The protocol of a command that never drives the line of the channel on. -/
abbrev silent (c : ChannelDef) : Protocol Act Act.Answer Unit :=
  .only fun a => a ≠ .write c.wire true

omit hvalid hc hstops in
theorem silent_lenient :
    Lenient (silent c) (fun _ => True) fun w on => ¬ (w = c.wire ∧ on = true) where
  others a _ hwrite _ _ _ := ⟨hwrite _ _, fun _ => trivial⟩
  writes w on _ hw _ := by
    refine ⟨?_, trivial⟩
    intro heq
    obtain ⟨rfl, rfl⟩ := Act.write.inj heq
    exact hw ⟨rfl, rfl⟩

theorem set_silent {id : ChannelId} {value : Value} (hne : ¬ (id = c.id ∧ value = .on)) :
    (site.set id value).Steady (silent c) fun _ => True := by
  refine (silent_lenient.handling site).set (fun c _ => silent_lenient.checkMinOff c value)
    fun c' hc' _ w on hdrives => ?_
  rintro ⟨rfl, rfl⟩
  exact hne (drives_on hvalid hc hstops hc' hdrives)

theorem pulseLine_silent (id : ChannelId) :
    (site.pulseLine id).Steady (silent c) fun _ => True :=
  (silent_lenient.handling site).pulseLine fun _ hc' hwidth _ heq =>
    pulse_ne hvalid hc hstops hc' hwidth heq.1

omit hvalid hc hstops in
theorem relying_silent {α : Type} (d : DeviceId) (checks : Bool) {body : Op α}
    (hbody : body.Steady (silent c) fun _ => True) :
    (Site.relying d checks body).Steady (silent c) fun _ => True :=
  .bind (.perform fun _ _ => ⟨nofun, fun _ => trivial⟩) fun _ => .bind hbody fun r =>
    .bind (.perform fun _ _ => ⟨nofun, fun _ => trivial⟩) fun _ => .pure r

theorem powerOn_silent {device : DeviceId} (hne : site.powers c device = false) :
    (site.powerOn device).Steady (silent c) fun _ => True := by
  have hcalm := (silent_lenient (c := c)|>.handling site).calm
  refine steady_of_bind fun d hd => ?_
  refine .try_bind (hcalm.guardAction site _ _) fun _ => ?_
  refine .try_bind (relying_silent d.id true (.try_bind (hcalm.checkPowerOn site d) fun _ => ?_))
    fun _ => ?_
  · unfold Site.switchOn
    split
    · exact .try_pure _
    next channel hpower =>
      refine .try_bind (set_silent hvalid hc hstops fun heq => ?_) fun _ => .try_pure _
      simp [Site.powers, device_of_ok hd, DeviceDef.poweredBy, hpower, heq.1] at hne
    · exact pulseLine_silent hvalid hc hstops _
  · split
    · exact .try_pure _
    · exact hcalm.settle site d

theorem runStep_silent {step : ProfileStep}
    (hne : ∀ device, step = .power device → site.powers c device = false) :
    (site.runStep step).Steady (silent c) fun _ => True := by
  cases step with
  | power device => exact powerOn_silent hvalid hc hstops (hne device rfl)
  | select channel port =>
    exact (silent_lenient.handling site).calm.select site
      (fun id port => set_silent hvalid hc hstops nofun) _ _

theorem powerOff_silent (device : DeviceId) :
    (site.powerOff device).Steady (silent c) fun _ => True := by
  have hcalm := (silent_lenient (c := c)|>.handling site).calm
  refine hcalm.powerOff site (fun _ _ _ => ⟨nofun, trivial⟩) (fun target d _ => ?_) device
  exact hcalm.powerDown site (fun _ => set_silent hvalid hc hstops nofun)
    (fun _ off _ => pulseLine_silent hvalid hc hstops off) target

/-- A command that is not meant to switch the channel on never drives its line on. -/
theorem run_silent {call : Call} (hne : site.energises c call = false) :
    (site.run call).Steady (silent c) fun _ => True := by
  have hcalm := (silent_lenient (c := c)|>.handling site).calm
  have hset (id : ChannelId) : (site.set id .off).Steady (silent c) fun _ => True :=
    set_silent hvalid hc hstops nofun
  cases call with
  | setChannel id value =>
    refine .try_map _ (.try_bind (hcalm.guardAction site _ _) fun _ => ?_)
    have hset : (site.setOperated id value).Steady (silent c) fun _ => True :=
      hcalm.setOperated site (set_silent hvalid hc hstops (by simpa [Site.energises] using hne))
    split
    · exact relying_silent _ true (.try_bind (hcalm.checkPowerOn site _) fun _ => hset)
    · exact hset
  | select id port =>
    exact .try_map _ (hcalm.select site (fun id port => set_silent hvalid hc hstops nofun) id port)
  | pulse id =>
    refine .try_map _ (.try_bind (hcalm.guardAction site _ _) fun _ => ?_)
    refine .try_bind (hcalm.checkTune site id) fun _ => ?_
    unfold Site.press
    split
    · exact relying_silent _ false (pulseLine_silent hvalid hc hstops id)
    · exact pulseLine_silent hvalid hc hstops id
  | powerOn device => exact .try_map _ (powerOn_silent hvalid hc hstops hne)
  | powerOff device => exact .try_map _ (powerOff_silent hvalid hc hstops device)
  | standby device => exact .try_map _ (hcalm.standby site hset device)
  | runProfile name =>
    refine .try_map _ (hcalm.runProfile site (fun _ => trivial) name fun p hp step hstep => ?_)
    refine runStep_silent hvalid hc hstops ?_
    rintro device rfl
    unfold Site.profile at hp
    split at hp
    next p' hfind =>
      obtain rfl := Except.ok.inj hp
      have hall := hne
      simp only [Site.energises, hfind, Option.any_some, List.any_eq_false] at hall
      simpa using hall _ hstep
    · cases hp
  | stopProfile name =>
    exact .try_map _ (hcalm.stopProfile site (powerOff_silent hvalid hc hstops) name)
  | allOff =>
    exact .map _ (hcalm.allOff site (fun _ => trivial) fun id _ =>
      (silent_lenient.handling site).forceOff id)
  | readBack id => exact .try_map _ (silent_lenient.readBack site id)

/-- Only a command that switches the channel on has a drive-on of its line ahead. -/
theorem energises_of_ahead {call : Call} (h : (site.run call).Ahead (.write c.wire true)) :
    site.energises c call = true := by
  by_contra hne
  have hsilent := run_silent hvalid hc hstops (Bool.eq_false_iff.mpr hne)
  exact hsilent.ahead_only h rfl

end Energises

/-! ### After the all-off -/

/-- Command `k` is an all-off that has driven the line off: the driver said so. -/
def Stopped (w : State) (k : Nat) (wire : Wire) : Prop :=
  (w.jobs[k]?.map Job.call) = some .allOff ∧ .forced k wire true ∈ w.shared.log

/-- Command `j` drives the line on after the moment `w`: it begins to, or a drive of its that was
under way still is. -/
def DrivesOn (w w' : State) (j : Nat) (wire : Wire) : Prop :=
  (∃ new, w'.shared.log = new ++ w.shared.log ∧ .write j wire true ∈ new) ∨
    (j, wire, true) ∈ w'.shared.drives

/-- No command that was there when the all-off, still at work, had driven the line of an
amplifier-operate or power channel off drives it on afterwards. -/
def AllOffDominates (site : Site) : Prop :=
  ∀ c ∈ site.station.channels, c.kind.stops = true → Plant.safeLevel site c.wire = false →
    ∀ w w' k j, site.machine.Reachable w → Stopped w k c.wire → w.result k = none →
      j < w.jobs.length → (site.machine.startedIn w).Reachable w' → ¬ DrivesOn w w' j c.wire

/-- The all-off, as command `k`, drives off the three channels of the bench in their order, each drive
landing before the driver answers; it is at work until its next turn after these. -/
def stopping (k : Nat) : List (Turn Call Choice Outside) :=
  [.call .allOff] ++ turns k 2 .go ++ [.env (.land 0)] ++ turns k 5 .go ++ [.env (.land 0)] ++
    turns k 5 .go ++ [.env (.land 0)] ++ turns k 1 .go

/-- The power channel of the radio of the bench. -/
abbrev radioPower : ChannelDef := ⟨"radio_pwr", .power 0 500 false, "bank", 0, some .off⟩

/-- The radio is being powered on when the all-off drives it off: it goes on all the same. -/
theorem overtaken : ∃ w w', (bench false).machine.Reachable w ∧ Stopped w 1 radioPower.wire ∧
    w.result 1 = none ∧ 0 < w.jobs.length ∧ ((bench false).machine.startedIn w).Reachable w' ∧
    DrivesOn w w' 0 radioPower.wire := by
  obtain ⟨w, hw, hcall, hforced, hrunning, hlength, hfresh, hrun⟩ :=
    Machine.Reachable.exists_of_run (start_reach (bench false) (fun _ => false) (fun _ => none))
      (P := fun w => w.jobs[1]?.map Job.call = some .allOff ∧
        .forced 1 ("bank", 0) true ∈ w.shared.log ∧ w.result 1 = none ∧ 0 < w.jobs.length ∧
        .write 0 ("bank", 0) true ∉ w.shared.log ∧
        ((bench false).machine.run (turns 0 5 .go) w).any
          (fun w' => decide (.write 0 ("bank", 0) true ∈ w'.shared.log)) = true)
      ([.call (.powerOn "radio")] ++ turns 0 2 .go ++ stopping 1) (by decide)
  obtain ⟨w', hw', hwrite⟩ := (Option.any_eq_true _ _).mp hrun
  have hlater : ((bench false).machine.startedIn w).Reachable w' := .startedIn hw'
  obtain ⟨new, hnew, -⟩ := later_log hlater
  refine ⟨w, w', hw, ⟨hcall, hforced⟩, hrunning, hlength, hlater, .inl ⟨new, hnew, ?_⟩⟩
  have hmem := of_decide_eq_true hwrite
  rw [hnew] at hmem
  exact (List.mem_append.mp hmem).resolve_right hfresh

theorem all_off_overtaken : ¬ AllOffDominates (bench false) := by
  intro hclaim
  obtain ⟨w, w', hw, hstopped, hrunning, hlength, hlater, hon⟩ := overtaken
  exact hclaim radioPower (.head _) rfl rfl w w' 1 0 hw hstopped hrunning hlength hlater hon

/-- Whatever the interleaving, when the all-off has driven the line of an amplifier-operate or power
channel off, a command that was there drives it on afterwards only if it is one that switches this
channel on, and had its drive under way or still ahead. -/
theorem driven_on_after_all_off (hvalid : site.station.validate = .ok ())
    (hc : c ∈ site.station.channels) (hstops : c.kind.stops = true)
    (hsafe : Plant.safeLevel site c.wire = false) {w w' : State} {k j : Nat}
    (hw : site.machine.Reachable w) (hstopped : Stopped w k c.wire) (hj : j < w.jobs.length)
    (hlater : (site.machine.startedIn w).Reachable w') (hon : DrivesOn w w' j c.wire) :
    ∃ t, w.jobs[j]? = some t ∧ j ≠ k ∧ site.energises c t.call = true ∧
      ((j, c.wire, true) ∈ w.shared.drives ∨
        ∃ p, t.prog = some p ∧ p.Ahead (.write c.wire true)) := by
  have hvalid := Valid.of_validate hvalid
  obtain ⟨t, ht⟩ : ∃ t, w.jobs[j]? = some t := ⟨_, List.getElem?_eq_getElem hj⟩
  obtain ⟨new, hnew, hahead⟩ := later_log hlater
  have hwritten : .write j c.wire true ∈ new → ∃ p, t.prog = some p ∧ p.Ahead (.write c.wire true) :=
    fun hx => hahead _ hx j _ t rfl ht
  have hflight : (j, c.wire, true) ∈ w.shared.drives ∨
      ∃ p, t.prog = some p ∧ p.Ahead (.write c.wire true) := by
    rcases hon with ⟨new', hnew', hx⟩ | hd
    · obtain rfl := List.append_cancel_right (hnew'.symm.trans hnew)
      exact .inr (hwritten hx)
    · refine (later_drives hlater hd).imp_right fun hbegun => ?_
      obtain ⟨x, hx, rfl | ⟨rfl, hlevel⟩⟩ := hbegun new hnew
      · exact hwritten hx
      · exact absurd (hlevel.trans hsafe) nofun
  have henergises : site.energises c t.call = true := by
    refine energises_of_ahead hvalid hc hstops ?_
    rcases hflight with hd | ⟨p, hp, hahead⟩
    · obtain ⟨x, hx, rfl | ⟨rfl, hlevel⟩⟩ := reach_drives hw hd
      · obtain ⟨t', ht', hahead⟩ := reach_log hw hx rfl
        obtain rfl := Option.some.inj (ht.symm.trans ht')
        exact hahead
      · exact absurd (hlevel.trans hsafe) nofun
    · exact Executor.reach_ahead hw ht hp hahead
  refine ⟨t, ht, ?_, henergises, hflight⟩
  rintro rfl
  have hcall : t.call = .allOff := by simpa [Stopped, ht] using hstopped.1
  rw [hcall] at henergises
  cases henergises

/-- The radio that goes on all the same is being powered on. -/
theorem driven_on_after_all_off_radio : ∃ (w w' : State) (t : Job Act Act.Answer Call Result),
    (bench false).machine.Reachable w ∧ Stopped w 1 radioPower.wire ∧
    DrivesOn w w' 0 radioPower.wire ∧ w.jobs[0]? = some t ∧
    (bench false).energises radioPower t.call = true := by
  obtain ⟨w, w', hw, hstopped, -, hlength, hlater, hon⟩ := overtaken
  obtain ⟨t, ht, -, henergises, -⟩ := driven_on_after_all_off (bench_valid false) (.head _) rfl rfl
    hw hstopped hlength hlater hon
  exact ⟨w, w', t, hw, hstopped, hon, ht, henergises⟩

end HamsOpen.Station
