import HamsOpen.Station.Drives
import HamsOpen.Station.History
import Mathlib

/-!
# What a device needs before it is powered on

A device is powered on after the devices it depends on were found on, and its antennas selected. The
commands look before they drive its line, except that a pulse of its button does not look; and what
they found may be no more so when they drive. Where it stays so, and a button is pulsed only when the
device may go on, its line is driven on only then.
-/

namespace HamsOpen.Station

/-- What may be known of a channel: it is on, or at a way. -/
inductive Fact
  | on (id : ChannelId)
  | way (id : ChannelId)
  deriving DecidableEq

/-- What a value says of its channel. -/
def facts (id : ChannelId) (value : Option Value) : List Fact :=
  (if value = some .on then [.on id] else []) ++ if value.any Value.isPort then [.way id] else []

/-- What the station knows. -/
def Plant.shows (site : Site) (s : Plant) : Fact → Bool
  | .on id => s.known site id == some .on
  | .way id => (s.known site id).any Value.isPort

theorem shows_of_mem_facts {site : Site} {s : Plant} {id : ChannelId} {f : Fact}
    (h : f ∈ facts id (s.known site id)) : s.shows site f = true := by
  rcases List.mem_append.mp h with h | h
  · split at h
    next hon =>
      obtain rfl := List.mem_singleton.mp h
      simpa [Plant.shows] using hon
    · cases h
  · split at h
    next hport =>
      obtain rfl := List.mem_singleton.mp h
      exact hport
    · cases h

namespace Site

variable (site : Site)

/-- The line that powers a device on. -/
def onLine (d : DeviceDef) : Option Wire :=
  match d.power with
  | .alwaysOn => none
  | .channel id | .momentary id _ => (site.station.channel id).map ChannelDef.wire

/-- A device is known on. -/
def Powered (K : Fact → Prop) (dep : DeviceId) : Prop :=
  match (site.station.device dep).map DeviceDef.power with
  | some .alwaysOn => True
  | some (.channel id) => K (.on id)
  | _ => False

/-- The devices that a device depends on are known on, and its antennas are selected. -/
def Ready (K : Fact → Prop) (d : DeviceDef) : Prop :=
  (∀ dep ∈ d.dependsOn, site.Powered K dep) ∧ ∀ a ∈ d.needsAntenna, K (.way a)

/-- What has to be known before a device is powered on. -/
def needs (d : DeviceDef) : List Fact :=
  (d.dependsOn.filterMap fun dep =>
    match (site.station.device dep).map DeviceDef.power with
    | some (.channel id) => some (.on id)
    | _ => none) ++ d.needsAntenna.map .way

variable {site} {K K' : Fact → Prop} {d : DeviceDef} {dep : DeviceId}

instance [DecidablePred K] : Decidable (site.Powered K dep) := by
  unfold Powered
  split <;> infer_instance

instance [DecidablePred K] : Decidable (site.Ready K d) :=
  inferInstanceAs (Decidable (_ ∧ _))

theorem Powered.mono (h : site.Powered K dep) (hK : ∀ f, K f → K' f) : site.Powered K' dep := by
  unfold Powered at h ⊢
  split
  · trivial
  next hpower =>
    rw [hpower] at h
    exact hK _ h
  next halways hchannel =>
    split at h
    next hpower => exact halways hpower
    next id hpower => exact hchannel id hpower
    · exact h

/-- A device stays ready while what it needs stays known. -/
theorem Ready.of_needs (h : site.Ready K d) (hK : ∀ f ∈ site.needs d, K f → K' f) :
    site.Ready K' d := by
  constructor
  · intro dep hdep
    have hdark := h.1 dep hdep
    unfold Powered at hdark ⊢
    split
    · trivial
    next id hpower =>
      rw [hpower] at hdark
      refine hK _ (List.mem_append_left _ ?_) hdark
      exact List.mem_filterMap.mpr ⟨dep, hdep, by rw [hpower]⟩
    next halways hchannel =>
      split at hdark
      next hpower => exact halways hpower
      next id hpower => exact hchannel id hpower
      · exact hdark
  · exact fun a ha => hK _ (List.mem_append_right _ (List.mem_map_of_mem ha)) (h.2 a ha)

end Site

/-! ### Power-on lines -/

section Lines

variable {site : Site} {d d' : DeviceDef} {w : Wire}

/-- The power-on line of a device is the line of a channel that powers it. -/
theorem channel_of_onLine (hvalid : Valid site.station) (hd : d ∈ site.station.devices)
    (hline : site.onLine d = some w) : ∃ c momentary, c ∈ site.station.channels ∧ c.wire = w ∧
      c.kind.powers momentary = true ∧ (c.id, momentary) ∈ d.power.sources ∧
      (d.power = .channel c.id ∧ momentary = false ∨
        ∃ off, d.power = .momentary c.id off ∧ momentary = true) := by
  have hchannel {id : ChannelId} {momentary : Bool} (hsource : (id, momentary) ∈ d.power.sources)
      (hline : (site.station.channel id).map ChannelDef.wire = some w) :
      ∃ c, c ∈ site.station.channels ∧ c.wire = w ∧ c.kind.powers momentary = true ∧ c.id = id := by
    obtain ⟨c, hc, hwire⟩ := Option.map_eq_some_iff.mp hline
    obtain ⟨c', hc', hpowers⟩ := hvalid.source hd hsource
    obtain rfl := Option.some.inj (hc.symm.trans hc')
    exact ⟨c, (StationDef.mem_of_channel hc).1, hwire, hpowers, (StationDef.mem_of_channel hc).2⟩
  cases hpower : d.power with
  | alwaysOn => simp [Site.onLine, hpower] at hline
  | channel id =>
    have hsource : (id, false) ∈ d.power.sources := by simp [hpower, PowerSource.sources]
    simp only [Site.onLine, hpower] at hline
    obtain ⟨c, hc, hwire, hpowers, rfl⟩ := hchannel hsource hline
    exact ⟨c, false, hc, hwire, hpowers, hpower ▸ hsource, .inl ⟨rfl, rfl⟩⟩
  | momentary id off =>
    have hsource : (id, true) ∈ d.power.sources := by simp [hpower, PowerSource.sources]
    simp only [Site.onLine, hpower] at hline
    obtain ⟨c, hc, hwire, hpowers, rfl⟩ := hchannel hsource hline
    exact ⟨c, true, hc, hwire, hpowers, hpower ▸ hsource, .inr ⟨off, rfl, rfl⟩⟩

theorem ways_of_powers {kind : ChannelKind} {momentary : Bool} (h : kind.powers momentary = true) :
    kind.ways = none := by
  cases kind <;> first | rfl | cases h

/-- A power-on line is of one device. -/
theorem onLine_unique (hvalid : Valid site.station) (hd : d ∈ site.station.devices)
    (hd' : d' ∈ site.station.devices) (hline : site.onLine d = some w)
    (hline' : site.onLine d' = some w) : d = d' := by
  obtain ⟨c, m, hc, rfl, hpowers, hsource, -⟩ := channel_of_onLine hvalid hd hline
  obtain ⟨c', m', hc', hwire, hpowers', hsource', -⟩ := channel_of_onLine hvalid hd' hline'
  have hw := mem_wires (ways_of_powers hpowers')
  rw [hwire] at hw
  obtain rfl := hvalid.wire_owner hc hc' (mem_wires (ways_of_powers hpowers)) hw
  exact hvalid.source_unique hd hd' (List.mem_map.mpr ⟨_, hsource, rfl⟩)
    (List.mem_map.mpr ⟨_, hsource', rfl⟩)

/-- Setting a channel drives a power-on line on only where it sets the power channel on. -/
theorem onLine_of_set (hvalid : Valid site.station) (hd : d ∈ site.station.devices)
    (hline : site.onLine d = some w) {id : ChannelId} {value : Value} {c : ChannelDef}
    (hc : site.chan id = .ok c) (hsettable : Site.settable c.kind value = true)
    (hdrives : c.Drives value w true) : d.power = .channel id ∧ value = .on := by
  obtain ⟨c', m, hc', rfl, hpowers, -, hsource⟩ := channel_of_onLine hvalid hd hline
  obtain ⟨hmem, rfl⟩ := mem_of_chan hc
  obtain rfl := hvalid.wire_owner hmem hc' (wire_of_drives hdrives)
    (mem_wires (ways_of_powers hpowers))
  rcases hsource with ⟨hpower, rfl⟩ | ⟨off, hpower, rfl⟩
  · refine ⟨hpower, ?_⟩
    cases hkind : c.kind with
    | power =>
      simp only [ChannelDef.Drives, hkind] at hdrives
      exact beq_iff_eq.mp hdrives.2.symm
    | _ => simp [hkind, ChannelKind.powers] at hpowers
  · cases hkind : c.kind with
    | momentary => simp [hkind, Site.settable] at hsettable
    | _ => simp [hkind, ChannelKind.powers] at hpowers

/-- Pulsing a channel drives a power-on line on only where it is the button of the device. -/
theorem onLine_of_pulse (hvalid : Valid site.station) (hd : d ∈ site.station.devices)
    {id : ChannelId} {c : ChannelDef} (hc : site.chan id = .ok c)
    (hwidth : (Site.pulseWidth c.kind).isSome = true) (hline : site.onLine d = some c.wire) :
    ∃ off, d.power = .momentary id off := by
  obtain ⟨c', m, hc', hwire, hpowers, -, hsource⟩ := channel_of_onLine hvalid hd hline
  obtain ⟨hmem, rfl⟩ := mem_of_chan hc
  have hways : c.kind.ways = none := by
    cases hkind : c.kind with
    | selector => simp [hkind, Site.pulseWidth] at hwidth
    | _ => rfl
  have hw := mem_wires (ways_of_powers hpowers)
  rw [hwire] at hw
  obtain rfl := hvalid.wire_owner hmem hc' (mem_wires hways) hw
  rcases hsource with ⟨-, rfl⟩ | ⟨off, hpower, -⟩
  · cases hkind : c.kind with
    | power => simp [hkind, Site.pulseWidth] at hwidth
    | _ => simp [hkind, ChannelKind.powers] at hpowers
  · exact ⟨off, hpower⟩

end Lines

/-! ### Looking before driving -/

/-- The device that a command is about to power on, whether it looks first, and what it has found. -/
structure Asked where
  device : DeviceId
  checks : Bool
  found : List Fact

/-- What a command is about to power on, and the lines that it has driven on. -/
structure Relied where
  asked : Option Asked
  drove : List Wire

/-- A power-on line is driven on by a command that is about to power its device on, and has found what
the device needs when it looks. -/
def needing (site : Site) : Protocol Act Act.Answer Relied where
  allows
    | l, .write w true => ∀ d ∈ site.station.devices, site.onLine d = some w →
      ∃ a, l.asked = some a ∧ a.device = d.id ∧ (a.checks = true → site.Ready (· ∈ a.found) d)
    | _, _ => True
  after
    | l, .relies device checks, _ => { l with asked := device.map (⟨·, checks, []⟩) }
    | l, .status id, r =>
      { l with
        asked := l.asked.map fun a => { a with found := facts id (r.1.confirmed.or r.2) ++ a.found } }
    | l, .write w on, _ => { l with drove := if on then w :: l.drove else l.drove }
    | l, _, _ => l
  lost l := { l with asked := none }

/-- The drives that power no device on. -/
def NoOnLine (site : Site) (w : Wire) (on : Bool) : Prop :=
  on = true → ∀ d ∈ site.station.devices, site.onLine d ≠ some w

/-- The power-on lines that a command is for. -/
def Site.aims (site : Site) : Call → List Wire
  | .powerOn device => ((site.station.device device).bind site.onLine).toList
  | .setChannel id value =>
    ((if value = .on then site.poweredDevice id else none).bind site.onLine).toList
  | .pulse id => ((site.buttonDevice id).bind site.onLine).toList
  | _ => []

/-- A command that ends well has driven lines on. -/
def Ends {α : Type} (ws : List Wire) (l : Relied) (r : Except StationError α) : Prop :=
  ∀ o, r = .ok o → ws ⊆ l.drove

/-- A command is about to power the device on, and has found enough. -/
def Finds (d : DeviceDef) (R : (Fact → Prop) → Prop) (l : Relied) : Prop :=
  ∃ a, l.asked = some a ∧ a.device = d.id ∧ (a.checks = true → R (· ∈ a.found))

/-- More is found than was. -/
def Grows (R : (Fact → Prop) → Prop) : Prop := ∀ K K' : Fact → Prop, (∀ f, K f → K' f) → R K → R K'

section Needing

variable {site : Site} {d : DeviceDef} {ws : List Wire} {R R' : (Fact → Prop) → Prop} {l : Relied}

theorem lenient_needing : Lenient (needing site) (fun l => ws ⊆ l.drove) (NoOnLine site) where
  writes w on l hw hl := by
    cases on with
    | false => exact ⟨trivial, hl⟩
    | true =>
      exact ⟨fun d hd hline => absurd hline (hw rfl d hd), List.Subset.trans hl (List.subset_cons_self _ _)⟩
  others a l hwrite hrelies _ hl := by
    cases a with
    | write w on => exact absurd rfl (hwrite w on)
    | relies d checks => exact absurd rfl (hrelies d checks)
    | _ => exact ⟨trivial, fun _ => hl⟩

theorem calm_needing : Calm (needing site) fun l => ws ⊆ l.drove :=
  (lenient_needing.handling site).calm

theorem Finds.mono (h : Finds d R l) (hR : ∀ K, R K → R' K) : Finds d R' l := by
  obtain ⟨a, ha, hdevice, hfound⟩ := h
  exact ⟨a, ha, hdevice, fun hchecks => hR _ (hfound hchecks)⟩

/-- What is found in the status of a channel is added to what was found. -/
theorem Finds.status (h : Finds d R l) (hR : Grows R) (id : ChannelId) (r : ChanState × Option Value) :
    Finds d (fun K => R K ∧ ∀ f ∈ facts id (r.1.confirmed.or r.2), K f)
      ((needing site).after l (.status id) r) := by
  obtain ⟨a, ha, hdevice, hfound⟩ := h
  refine ⟨{ a with found := facts id (r.1.confirmed.or r.2) ++ a.found }, by simp [needing, ha],
    hdevice, fun hchecks => ?_⟩
  constructor
  · exact hR _ _ (fun f hf => List.mem_append_right _ hf) (hfound hchecks)
  · exact fun f hf => List.mem_append_left _ hf

/-- Nothing but to begin to power another device on loses what was found. -/
theorem lenient_finds (hR : Grows R) :
    Lenient (needing site) (Finds d R) fun _ _ => False where
  writes _ _ _ hw _ := hw.elim
  others a l hwrite hrelies _ hl := by
    cases a with
    | write w on => exact absurd rfl (hwrite w on)
    | relies d checks => exact absurd rfl (hrelies d checks)
    | status id => exact ⟨trivial, fun r => (hl.status hR id r).mono fun _ h => h.1⟩
    | _ => exact ⟨trivial, fun _ => hl⟩

/-! ### The check -/

open Prog in
theorem known_finds (hR : Grows R) (id : ChannelId) (hl : Finds d R l) :
    (site.known id).run.Follows (needing site) l fun l' r => ∀ v, r = .ok v →
      Finds d (fun K => R K ∧ ∀ f ∈ facts id v, K f) l' := by
  refine follows_try_bind.mpr ?_
  cases hc : site.chan id with
  | error e =>
    simp only [Site.status, hc]
    exact fun v hv => by cases hv
  | ok c =>
    refine (follows_status hc).mpr ⟨trivial, fun r v hv => ?_⟩
    obtain rfl := Except.ok.inj hv
    exact hl.status hR id r

open Prog in
/-- A device that is found on is powered, by what was found. -/
theorem devicePower_finds (hR : Grows R) (dep : DeviceId) (hl : Finds d R l) :
    (site.devicePower dep).run.Follows (needing site) l fun l' r => r = .ok (some .on) →
      Finds d (fun K => R K ∧ site.Powered K dep) l' := by
  unfold Site.devicePower
  cases hdev : site.deviceOf dep with
  | error e => exact fun h => by cases h
  | ok d' =>
    have hdevice := device_of_ok hdev
    refine follows_try_bind.mpr ?_
    change Follows (needing site) (match d'.power with
      | .alwaysOn => _
      | .channel id => _
      | .momentary _ _ => _ : Op (Option Value)).run l _
    cases hpower : d'.power with
    | alwaysOn =>
      refine fun _ => hl.mono fun K hK => ⟨hK, ?_⟩
      simp [Site.Powered, hdevice, hpower]
    | channel id =>
      refine (known_finds hR id hl).mono fun l' r hfound hr => ?_
      refine (hfound _ hr).mono fun K hK => ⟨hK.1, ?_⟩
      simp only [Site.Powered, hdevice, hpower, Option.map_some]
      exact hK.2 _ (by simp [facts])
    | momentary on off => exact fun h => by cases h

open Prog in
theorem checkDependencies_finds (hR : Grows R) (deps : List DeviceId) (hl : Finds d R l) :
    (site.checkDependencies d deps).run.Follows (needing site) l fun l' r => r = .ok () →
      Finds d (fun K => R K ∧ ∀ dep ∈ deps, site.Powered K dep) l' := by
  induction deps generalizing R l with
  | nil => exact fun _ => hl.mono fun K hK => ⟨hK, by simp⟩
  | cons dep rest ih =>
    refine follows_try_bind.mpr ((devicePower_finds hR dep hl).mono ?_)
    rintro l' (e | p) hfound
    · exact nofun
    dsimp only
    split
    · exact nofun
    next hon =>
    rw [not_not] at hon
    have hgrows : Grows fun K => R K ∧ site.Powered K dep :=
      fun K K' hK h => ⟨hR K K' hK h.1, h.2.mono hK⟩
    refine (ih hgrows (hfound (by rw [hon]))).mono fun l'' r hrest hr => (hrest hr).mono ?_
    rintro K ⟨⟨hK, hdep⟩, hdeps⟩
    exact ⟨hK, List.forall_mem_cons.mpr ⟨hdep, hdeps⟩⟩

open Prog in
theorem checkAntennas_finds (hR : Grows R) (antennas : List ChannelId) (hl : Finds d R l) :
    (site.checkAntennas d antennas).run.Follows (needing site) l fun l' r => r = .ok () →
      Finds d (fun K => R K ∧ ∀ a ∈ antennas, K (.way a)) l' := by
  induction antennas generalizing R l with
  | nil => exact fun _ => hl.mono fun K hK => ⟨hK, by simp⟩
  | cons a rest ih =>
    refine follows_try_bind.mpr ((known_finds hR a hl).mono ?_)
    rintro l' (e | v) hfound
    · exact nofun
    dsimp only
    split
    · exact nofun
    next hport =>
    rw [Bool.not_eq_true', Bool.not_eq_false] at hport
    have hgrows : Grows fun K => R K ∧ K (.way a) := fun K K' hK h => ⟨hR K K' hK h.1, hK _ h.2⟩
    have hway : Finds d (fun K => R K ∧ K (.way a)) l' :=
      (hfound v rfl).mono fun K hK => ⟨hK.1, hK.2 _ (by simp [facts, hport])⟩
    refine (ih hgrows hway).mono fun l'' r hrest hr => (hrest hr).mono ?_
    rintro K ⟨⟨hK, ha⟩, hantennas⟩
    exact ⟨hK, List.forall_mem_cons.mpr ⟨ha, hantennas⟩⟩

theorem grows_ready : Grows fun K => site.Ready K d :=
  fun _ _ hK h => h.of_needs fun f _ => hK f

open Prog in
/-- A check that passes has found what the device needs. -/
theorem checkPowerOn_finds (hl : Finds d (fun _ => True) l) :
    (site.checkPowerOn d).run.Follows (needing site) l fun l' r => r = .ok () →
      Finds d (fun K => site.Ready K d) l' := by
  refine follows_try_bind.mpr ((checkDependencies_finds (fun _ _ _ _ => trivial) d.dependsOn hl).mono ?_)
  rintro l' (e | _) hdeps
  · exact nofun
  have hgrows : Grows fun K => True ∧ ∀ dep ∈ d.dependsOn, site.Powered K dep :=
    fun K K' hK h => ⟨trivial, fun dep hdep => (h.2 dep hdep).mono hK⟩
  refine (checkAntennas_finds hgrows d.needsAntenna (hdeps rfl)).mono fun l'' r hrest hr => ?_
  exact (hrest hr).mono fun K hK => ⟨hK.1.2, hK.2⟩

/-! ### The commands -/

theorem ends_of_steady {α : Type} {x : Op α} (hx : x.Steady (needing site) fun l => ws ⊆ l.drove)
    (hl : ws ⊆ l.drove) : x.run.Follows (needing site) l (Ends ws) :=
  (hx l hl).mono fun _ _ h _ _ => h

theorem steady_of_ends {α : Type} {x : Op α}
    (hx : ∀ l, x.run.Follows (needing site) l fun _ _ => True) :
    x.Steady (needing site) fun l => [] ⊆ l.drove :=
  fun l _ => (hx l).mono fun _ _ _ => List.nil_subset _

open Prog in
theorem ends_bind {α β : Type} {x : Op α} {f : α → Op β} (hx : x.run.Follows (needing site) l (Ends ws))
    (hf : ∀ a, (f a).Steady (needing site) fun l => ws ⊆ l.drove) :
    (x >>= f).run.Follows (needing site) l (Ends ws) := by
  refine follows_try_bind.mpr (hx.mono ?_)
  rintro l' (e | a) hl'
  · exact nofun
  · exact ends_of_steady (hf a) (hl' a rfl)

open Prog in
/-- A step that neither asks nor drives a power-on line, and then the rest. -/
theorem ends_then {α β : Type} {x : Op α} {f : α → Op β}
    (hx : x.Steady (needing site) fun l => [] ⊆ l.drove)
    (hf : ∀ a l, (f a).run.Follows (needing site) l (Ends ws)) :
    (x >>= f).run.Follows (needing site) l (Ends ws) := by
  refine follows_try_bind.mpr ((hx l (List.nil_subset _)).mono ?_)
  rintro l' (e | a) -
  · exact nofun
  · exact hf a l'

open Prog in
theorem relying_ends {α : Type} {checks : Bool} {body : Op α} (hR : checks = true → R (· ∈ []))
    (hbody : ∀ l, Finds d R l → body.run.Follows (needing site) l (Ends ws)) :
    (Site.relying d.id checks body).run.Follows (needing site) l (Ends ws) := by
  refine follows_bind.mpr ⟨trivial, fun _ => follows_bind.mpr ?_⟩
  refine (hbody _ ⟨_, rfl, rfl, hR⟩).mono fun l' r hl' => ?_
  exact ⟨trivial, fun _ => hl'⟩

section Valid

variable (hvalid : Valid site.station)

include hvalid

/-- A device that was found ready may have its power-on line driven on. -/
theorem write_finds (hd : d ∈ site.station.devices) {w : Wire} (hline : site.onLine d = some w)
    (hl : Finds d (fun K => site.Ready K d) l) : (needing site).allows l (.write w true) ∧
      (site.onLine d).toList ⊆ ((needing site).after l (.write w true) ()).drove := by
  constructor
  · intro d' hd' hline'
    obtain rfl := onLine_unique hvalid hd hd' hline hline'
    exact hl
  · rw [hline]
    exact List.cons_subset.mpr ⟨.head _, List.nil_subset _⟩

theorem set_ends (hd : d ∈ site.station.devices) {id : ChannelId} (hpower : d.power = .channel id)
    (hl : Finds d (fun K => site.Ready K d) l) :
    (site.set id .on).run.Follows (needing site) l (Ends (site.onLine d).toList) := by
  have hsource : (id, false) ∈ d.power.sources := by simp [hpower, PowerSource.sources]
  obtain ⟨c, hc, hpowers⟩ := hvalid.source hd hsource
  have hline : site.onLine d = some c.wire := by simp [Site.onLine, hpower, hc]
  have hfinds : Lenient (needing site) (Finds d fun K => site.Ready K d) fun _ _ => False :=
    lenient_finds grows_ready
  refine (reaches_set (hfinds.handling site) (lenient_needing.handling site) (chan_of_channel hc)
    (ways_of_powers hpowers) rfl (hfinds.checkMinOff c .on)
    (fun l hl => write_finds hvalid hd hline hl) hl).mono ?_
  rintro l' (e | o) hl'
  · exact nofun
  · exact fun _ _ => hl'

theorem pulseLine_ends (hd : d ∈ site.station.devices) {id : ChannelId} {off : Option ChannelId}
    (hpower : d.power = .momentary id off) (hl : Finds d (fun K => site.Ready K d) l) :
    (site.pulseLine id).run.Follows (needing site) l (Ends (site.onLine d).toList) := by
  have hsource : (id, true) ∈ d.power.sources := by simp [hpower, PowerSource.sources]
  obtain ⟨c, hc, -⟩ := hvalid.source hd hsource
  have hline : site.onLine d = some c.wire := by simp [Site.onLine, hpower, hc]
  have hfinds : Lenient (needing site) (Finds d fun K => site.Ready K d) fun _ _ => False :=
    lenient_finds grows_ready
  refine (reaches_pulseLine (hfinds.handling site) (lenient_needing.handling site)
    (chan_of_channel hc) (fun l hl => write_finds hvalid hd hline hl) nofun hl).mono ?_
  rintro l' (e | o) hl'
  · exact nofun
  · exact fun _ _ => hl'

theorem set_needing {id : ChannelId} {value : Value}
    (hne : ∀ d ∈ site.station.devices, d.power = .channel id → value ≠ .on) :
    (site.set id value).Steady (needing site) fun l => ws ⊆ l.drove := by
  refine (lenient_needing.handling site).set (fun c _ => lenient_needing.checkMinOff c value)
    fun c hc hsettable w on hdrives => ?_
  rintro rfl d hd hline
  obtain ⟨hpower, hon⟩ := onLine_of_set hvalid hd hline hc hsettable hdrives
  exact hne d hd hpower hon

theorem pulseLine_needing {id : ChannelId}
    (hne : ∀ d ∈ site.station.devices, ∀ off, d.power ≠ .momentary id off) :
    (site.pulseLine id).Steady (needing site) fun l => ws ⊆ l.drove := by
  refine (lenient_needing.handling site).pulseLine fun c hc hwidth on _ d hd hline => ?_
  obtain ⟨off, hpower⟩ := onLine_of_pulse hvalid hd hc hwidth hline
  exact hne d hd off hpower

open Prog in
theorem powerOn_ends (device : DeviceId) :
    (site.powerOn device).run.Follows (needing site) l (Ends (site.aims (.powerOn device))) := by
  unfold Site.powerOn
  cases hdev : site.deviceOf device with
  | error e => exact nofun
  | ok d =>
    have hdevice := device_of_ok hdev
    have hd := (StationDef.mem_of_device hdevice).1
    rw [Site.aims, hdevice]
    refine follows_try_bind.mpr (ends_then
      (calm_needing.guardAction site (site.classifyOn d) s!"power on {device}") fun _ l => ?_)
    refine ends_bind (relying_ends (R := fun _ => True) (fun _ => trivial) fun l hl => ?_) fun _ => ?_
    · refine follows_try_bind.mpr ((checkPowerOn_finds hl).mono ?_)
      rintro l' (e | _) hready
      · exact nofun
      have hready := hready rfl
      have hswitch : (site.switchOn d).run.Follows (needing site) l'
          (Ends (site.onLine d).toList) := by
        unfold Site.switchOn
        cases hpower : d.power with
        | alwaysOn =>
          refine fun _ _ => ?_
          rw [Site.onLine, hpower]
          exact List.nil_subset _
        | channel id => exact ends_bind (set_ends hvalid hd hpower hready) fun _ => .try_pure _
        | momentary on off => exact pulseLine_ends hvalid hd hpower hready
      exact hswitch
    · split
      · exact .try_pure _
      · exact calm_needing.settle site d

theorem setChannel_ends (id : ChannelId) (value : Value) :
    (site.setChannel id value).run.Follows (needing site) l
      (Ends (site.aims (.setChannel id value))) := by
  refine ends_then (calm_needing.guardAction site _ _) fun _ l => ?_
  simp only [Site.aims]
  split
  next d hfind =>
    rw [hfind]
    obtain ⟨rfl, hfind⟩ := Option.ite_none_right_eq_some.mp hfind
    have hd := List.mem_of_find?_eq_some hfind
    have hpower : d.power = .channel id := by
      simpa [DeviceDef.poweredBy] using List.find?_some hfind
    refine relying_ends (R := fun _ => True) (fun _ => trivial) fun l hl => ?_
    refine Prog.follows_try_bind.mpr ((checkPowerOn_finds hl).mono ?_)
    rintro l' (e | _) hready
    · exact nofun
    have hsource : (id, false) ∈ d.power.sources := by simp [hpower, PowerSource.sources]
    obtain ⟨c, hc, hpowers⟩ := hvalid.source hd hsource
    have hcheck : site.checkOperate c = pure () := by
      unfold Site.checkOperate
      split
      next hkind => simp [hkind, ChannelKind.powers] at hpowers
      · rfl
    simp only [Site.setOperated, hc, hcheck, if_true]
    exact Prog.follows_try_bind.mpr
      (ends_bind (set_ends hvalid hd hpower (hready rfl)) fun _ => .try_pure _)
  next hnone =>
    rw [hnone]
    refine ends_of_steady (calm_needing.setOperated site (set_needing hvalid ?_)) (List.nil_subset _)
    rintro d hd hpower rfl
    have hfind := List.find?_eq_none.mp (by simpa [Site.poweredDevice] using hnone) d hd
    simp [DeviceDef.poweredBy, hpower] at hfind

theorem pulse_ends (id : ChannelId) :
    (site.pulse id).run.Follows (needing site) l (Ends (site.aims (.pulse id))) := by
  refine ends_then (calm_needing.guardAction site _ _) fun _ l => ?_
  refine ends_then (calm_needing.checkTune site id) fun _ l => ?_
  simp only [Site.aims]
  unfold Site.press
  split
  next d hfind =>
    rw [hfind]
    have hd := List.mem_of_find?_eq_some hfind
    have hbutton := List.find?_some hfind
    split at hbutton
    next on off hpower =>
      obtain rfl := beq_iff_eq.mp hbutton
      exact relying_ends nofun fun l hl => pulseLine_ends hvalid hd hpower hl
    · cases hbutton
  next hnone =>
    refine ends_of_steady (pulseLine_needing hvalid fun d hd off hpower => ?_) ?_
    · have hfind := List.find?_eq_none.mp hnone d hd
      simp [hpower] at hfind
    · rw [hnone]
      exact List.nil_subset _

/-- The line that powers a device off powers none on. -/
theorem powerDown_needing (target : DeviceId) (hd : d ∈ site.station.devices) :
    (site.powerDown target d).Steady (needing site) fun l => [] ⊆ l.drove := by
  refine (lenient_needing.handling site).calm.powerDown site
    (fun _ => set_needing hvalid fun _ _ _ => nofun) (fun on off hpower => ?_) target
  refine pulseLine_needing hvalid fun d' hd' off' hpower' => ?_
  have hoff : off ∈ d.power.sources.map Prod.fst := by simp [hpower, PowerSource.sources]
  obtain rfl := hvalid.source_unique hd hd' hoff (by simp [hpower', PowerSource.sources])
  obtain ⟨rfl, rfl⟩ := PowerSource.momentary.inj (hpower.symm.trans hpower')
  have hnodup := (List.nodup_flatMap.mp hvalid.sources).1 d hd
  simp [hpower, PowerSource.sources] at hnodup

theorem powerOff_needing (device : DeviceId) :
    (site.powerOff device).Steady (needing site) fun l => [] ⊆ l.drove :=
  calm_needing.powerOff site (fun _ _ hl => ⟨trivial, hl⟩)
    (fun target _ hd => powerDown_needing hvalid target hd) device

theorem select_needing (id : ChannelId) (port : Nat) :
    (site.select id port).Steady (needing site) fun l => [] ⊆ l.drove :=
  calm_needing.select site (fun _ _ => set_needing hvalid fun _ _ _ => nofun) id port

/-- Every command keeps to the protocol, and when it ends well it has driven on what it is for. -/
theorem run_ends (call : Call) :
    (site.run call).Follows (needing site) l (Ends (site.aims call)) := by
  have hnone {r : Task Result} (h : r.Steady (needing site) fun l => [] ⊆ l.drove) :
      r.Follows (needing site) l (Ends []) :=
    (h l (List.nil_subset _)).mono fun _ _ hl _ _ => hl
  have hdone {x : Op Unit} {ws : List Wire} (h : x.run.Follows (needing site) l (Ends ws)) :
      ((fun _ => Outcome.done) <$> x).run.Follows (needing site) l (Ends ws) := by
    refine Prog.follows_try_map.mpr (h.mono ?_)
    rintro l' (e | o) hl'
    · exact nofun
    · exact fun _ _ => hl' o rfl
  cases call with
  | setChannel id value => exact hdone (setChannel_ends hvalid id value)
  | select id port => exact hnone (.try_map _ (select_needing hvalid id port))
  | pulse id => exact hdone (pulse_ends hvalid id)
  | powerOn device => exact hdone (powerOn_ends hvalid device)
  | powerOff device => exact hnone (.try_map _ (powerOff_needing hvalid device))
  | standby device =>
    refine hnone (.try_map _ (calm_needing.standby site (fun id => ?_) device))
    exact set_needing hvalid fun _ _ _ => nofun
  | runProfile name =>
    refine hnone (.try_map _ (calm_needing.runProfile site (fun _ => List.nil_subset _) name ?_))
    intro p _ step _
    cases step with
    | power device =>
      refine steady_of_ends fun l => ?_
      exact (powerOn_ends hvalid device).mono fun _ _ _ => trivial
    | select id port => exact select_needing hvalid id port
  | stopProfile name =>
    exact hnone (.try_map _ (calm_needing.stopProfile site (powerOff_needing hvalid) name))
  | allOff =>
    exact hnone (.map _ (calm_needing.allOff site (fun _ => List.nil_subset _)
      fun id _ => (lenient_needing.handling site).forceOff id))
  | readBack id => exact hnone (.try_map _ (lenient_needing.readBack site id))

end Valid

end Needing

/-! ### When a device is powered on ready -/

/-- A button is pulsed only when its device is ready. -/
def Act.mayPress (site : Site) (s : Plant) : Act → Prop
  | .relies (some id) false =>
    ∀ d ∈ site.station.device id, site.Ready (fun f => s.shows site f = true) d
  | _ => True

instance (site : Site) (s : Plant) (a : Act) : Decidable (a.mayPress site s) := by
  unfold Act.mayPress
  split <;> infer_instance

/-- What is known of the needs of the devices that commands are about to power on stays known. -/
def Sustained (site : Site) (w : State) (s' : Plant) : Prop :=
  ∀ j < w.jobs.length, ∀ id ∈ w.shared.relying j, ∀ d ∈ site.station.device id,
    ∀ f ∈ site.needs d, w.shared.shows site f = true → s'.shows site f = true

instance (site : Site) (w : State) (s' : Plant) : Decidable (Sustained site w s') :=
  inferInstanceAs (Decidable (∀ j < w.jobs.length, ∀ id ∈ w.shared.relying j,
    ∀ d ∈ site.station.device id, ∀ f ∈ site.needs d,
      w.shared.shows site f = true → s'.shows site f = true))

/-- Buttons are pulsed only when their devices are ready, and while a command powers a device on, what
is known of its needs stays known. -/
def needed (site : Site) (w : State) : Turn Call Choice Outside → Prop
  | .turn k choice => ∀ a ∈ w.current k, a.mayPress site w.shared ∧
      ∀ o ∈ a.perform site k choice w.shared, Sustained site w o.2
  | .env o => ∀ s' ∈ site.executor.env o w.shared, Sustained site w s'
  | _ => True

instance (site : Site) (w : State) :
    (e : Turn Call Choice Outside) → Decidable (needed site w e)
  | .turn k choice => inferInstanceAs (Decidable (∀ a ∈ w.current k, a.mayPress site w.shared ∧
      ∀ o ∈ a.perform site k choice w.shared, Sustained site w o.2))
  | .env o => inferInstanceAs (Decidable (∀ s' ∈ site.executor.env o w.shared, Sustained site w s'))
  | .call _ | .elapse _ _ | .drop _ => .isTrue trivial

/-- What a command has found is so, and what it has driven on is told. -/
structure Relies (site : Site) (s : Plant) (k : Nat) (l : Relied) : Prop where
  relying : s.relying k = l.asked.map Asked.device
  found : ∀ a, l.asked = some a → a.checks = true → ∀ d, site.station.device a.device = some d →
    ∀ f ∈ site.needs d, f ∈ a.found → s.shows site f = true
  pressed : ∀ a, l.asked = some a → a.checks = false → ∀ d, site.station.device a.device = some d →
    site.Ready (fun f => s.shows site f = true) d
  drove : ∀ w ∈ l.drove, .write k w true ∈ s.log

namespace Relies

variable {site : Site} {s s' : Plant} {k : Nat} {l : Relied} {w : State}

theorem init (h : site.executor.init s) (k : Nat) : Relies site s k ⟨none, []⟩ where
  relying := h.2.2.2.2.1 k
  found a ha := by cases ha
  pressed a ha := by cases ha
  drove w hw := by cases hw

/-- What the devices need stays known, and nothing else that matters changes. -/
theorem next (h : Relies site w.shared k l) (hfresh : w.jobs.length ≤ k → l = ⟨none, []⟩)
    (hkept : Sustained site w s') (hrelying : s'.relying k = w.shared.relying k)
    (hlog : w.shared.log ⊆ s'.log) : Relies site s' k l := by
  have hneeds {a : Asked} (ha : l.asked = some a) {d : DeviceDef}
      (hd : site.station.device a.device = some d) : ∀ f ∈ site.needs d,
        w.shared.shows site f = true → s'.shows site f = true := by
    have hlt : k < w.jobs.length := by
      by_contra hge
      rw [hfresh (Nat.le_of_not_lt hge)] at ha
      cases ha
    exact hkept k hlt a.device (by rw [h.relying, ha]; rfl) d hd
  refine ⟨by rw [hrelying]; exact h.relying, ?_, ?_, fun w hw => hlog (h.drove w hw)⟩
  · exact fun a ha hchecks d hd f hf hfound =>
      hneeds ha hd f hf (h.found a ha hchecks d hd f hf hfound)
  · exact fun a ha hchecks d hd => (h.pressed a ha hchecks d hd).of_needs (hneeds ha hd)

/-- The command begins to power a device on, or ends to. -/
theorem relies (h : Relies site s k l) {device : Option DeviceId} {checks : Bool}
    (hpress : (Act.relies device checks).mayPress site s) :
    Relies site ((Act.relies device checks).after site k () s) k
      ((needing site).after l (.relies device checks) ()) where
  relying := by cases device <;> simp [Act.after, Act.effect, needing]
  found a ha _ d _ f _ hfound := by
    obtain ⟨id, -, rfl⟩ := Option.map_eq_some_iff.mp ha
    cases hfound
  pressed a ha hchecks d hd := by
    obtain ⟨id, rfl, rfl⟩ := Option.map_eq_some_iff.mp ha
    obtain rfl : checks = false := hchecks
    exact hpress d hd
  drove := h.drove

/-- The command has looked at the status of a channel. -/
theorem status (h : Relies site s k l) (id : ChannelId) :
    Relies site s k
      ((needing site).after l (.status id) (s.chans id, s.recorded site id)) where
  relying := by simp [needing, h.relying, Function.comp_def]
  found a ha hchecks d hd f hf hfound := by
    obtain ⟨a, hlocal, rfl⟩ := Option.map_eq_some_iff.mp ha
    rcases List.mem_append.mp hfound with hnew | hold
    · exact shows_of_mem_facts hnew
    · exact h.found a hlocal hchecks d hd f hf hold
  pressed a ha hchecks d hd := by
    obtain ⟨a, hlocal, rfl⟩ := Option.map_eq_some_iff.mp ha
    exact h.pressed a hlocal hchecks d hd
  drove := h.drove

theorem perform {choice : Choice} {a : Act} {r : a.Answer} (h : Relies site w.shared k l)
    (hfresh : w.jobs.length ≤ k → l = ⟨none, []⟩) (hpress : a.mayPress site w.shared)
    (hkept : Sustained site w (a.after site k r w.shared))
    (hanswer : a.answer site k choice w.shared = some r) :
    Relies site (a.after site k r w.shared) k ((needing site).after l a r) := by
  have hlog : w.shared.log ⊆ (a.after site k r w.shared).log := List.subset_append_right _ _
  cases a with
  | relies device checks => exact h.relies hpress
  | status id =>
    obtain rfl := Option.some.inj hanswer
    exact h.status id
  | write wire on =>
    have hnext := h.next hfresh hkept rfl hlog
    cases on with
    | false => exact hnext
    | true => exact ⟨hnext.relying, hnext.found, hnext.pressed,
        List.forall_mem_cons.mpr ⟨.head _, hnext.drove⟩⟩
  | _ => exact h.next hfresh hkept rfl hlog

/-- A command that is gone no longer powers a device on. -/
theorem release (h : Relies site s k l) :
    Relies site (s.release k) k ((needing site).lost l) where
  relying := by simp [Plant.release, needing]
  found a ha := by cases ha
  pressed a ha := by cases ha
  drove := h.drove

theorem release_other (h : Relies site s k l) {j : Nat} (hj : k ≠ j) :
    Relies site (s.release j) k l :=
  ⟨by simpa [Plant.release, hj] using h.relying, h.found, h.pressed, h.drove⟩

end Relies

theorem after_relying_ne {site : Site} {s : Plant} {j k : Nat} (hj : j ≠ k) (a : Act) (r : a.Answer) :
    (a.after site k r s).relying j = s.relying j := by
  cases a with
  | relies => exact Function.update_of_ne hj _ _
  | _ => rfl

theorem env_relying {site : Site} {s s' : Plant} {o : Outside}
    (h : site.executor.env o s = some s') : s'.relying = s.relying ∧ s.log ⊆ s'.log := by
  cases o with
  | land i =>
    obtain ⟨d, -, rfl⟩ := Option.map_eq_some_iff.mp h
    exact ⟨rfl, List.Subset.refl _⟩
  | input id level =>
    obtain ⟨-, heq⟩ := Option.ite_none_right_eq_some.mp h
    rw [← Option.some.inj heq]
    exact ⟨rfl, List.subset_cons_self _ _⟩
  | tick | lose | flip | rewrite =>
    rw [← Option.some.inj h]
    exact ⟨rfl, List.Subset.refl _⟩

/-- Where buttons are pulsed only when their devices are ready, and what is known of the needs of a
device stays known while a command powers it on, a power-on line is driven on only at a moment when
every device that its device depends on is known on, and its antennas are known at a way. A command
that is to power a device on and ends well has driven it on so. -/
theorem driven_on_ready {site : Site} (hvalid : site.station.validate = .ok ()) {w : State}
    (h : site.machine.Reach (needed site) w) :
    (∀ k wire, w.current k = some (.write wire true) → ∀ d ∈ site.station.devices,
      site.onLine d = some wire → site.Ready (fun f => w.shared.shows site f = true) d) ∧
    ∀ k t o, w.jobs[k]? = some t → w.result k = some (.ok o) →
      ∀ wire ∈ site.aims t.call, .write k wire true ∈ w.shared.log := by
  have hvalid := Valid.of_validate hvalid
  obtain ⟨locals, hrelies, hkeeps⟩ := Executor.reach_invariant (needing site)
    (fun call => Ends (site.aims call)) ⟨none, []⟩
    (fun s locals => ∀ k, Relies site s k (locals k)) (fun call => run_ends hvalid call)
    (fun s hs => Relies.init hs)
    (fun w locals k choice a r s' hrelies hkeeps hok hcurrent _ hexec => by
      obtain ⟨hpress, hkept⟩ := hok a hcurrent
      have hkept := hkept _ hexec
      obtain ⟨hanswer, rfl⟩ := perform_iff.mp hexec
      refine (Function.forall_update_iff _ (Relies site _)).mpr ⟨?_, fun j hj => ?_⟩
      · exact (hrelies k).perform (hkeeps.fresh k) hpress hkept hanswer
      · exact (hrelies j).next (hkeeps.fresh j) hkept (after_relying_ne hj a r)
          (List.subset_append_right _ _))
    (fun s locals k a hrelies _ _ => (Function.forall_update_iff _ (Relies site _)).mpr
      ⟨(hrelies k).release, fun j hj => (hrelies j).release_other hj⟩)
    (fun w locals o s' hrelies hkeeps hok henv j => (hrelies j).next (hkeeps.fresh j) (hok s' henv)
      (congrFun (env_relying henv).1 j) (env_relying henv).2) h
  constructor
  · intro k wire hcurrent d hd hline
    obtain ⟨p, hp, hcurrent⟩ := Option.bind_eq_some_iff.mp hcurrent
    obtain ⟨job, hjob, hp⟩ := Option.bind_eq_some_iff.mp hp
    obtain ⟨a, ha, hdevice, hready⟩ :=
      (hkeeps.follows k job p hjob hp).allows hcurrent d hd hline
    have hd' : site.station.device a.device = some d := hdevice ▸ hvalid.device hd
    cases hchecks : a.checks with
    | true => exact (hready hchecks).of_needs ((hrelies k).found a ha hchecks d hd')
    | false => exact (hrelies k).pressed a ha hchecks d hd'
  · intro k t o ht hresult wire hwire
    exact (hrelies k).drove wire (hkeeps.result ht hresult o rfl hwire)

/-- The amplifier is powered on with its radio on and its antenna selected. -/
theorem driven_on_ready_amp : ∃ w, (bench true).machine.Reach (needed (bench true)) w ∧
    w.current 2 = some (.write ("bank", 1) true) ∧ ∀ d ∈ (bench true).station.devices,
      (bench true).onLine d = some ("bank", 1) →
        (bench true).Ready (fun f => w.shared.shows (bench true) f = true) d := by
  have hstart : (bench true).machine.Reach (needed (bench true)) ⟨.start _ _, []⟩ :=
    start_reach (bench true) (fun _ => false) (fun _ => none)
  obtain ⟨w, hw, hcurrent⟩ := hstart.exists_of_runWhile
    (P := fun w => w.current 2 = some (.write ("bank", 1) true))
    ([.call (.powerOn "radio")] ++ turns 0 7 .go ++ [.env (.land 0)] ++ turns 0 13 .go ++
      [.call (.select "ant" 1)] ++ turns 1 6 (.keys .unkeyed) ++ [.env (.land 0)] ++
      turns 1 4 .go ++ [.env (.tick 20)] ++ turns 1 2 .go ++ [.env (.land 0)] ++ turns 1 10 .go ++
      [.call (.powerOn "amp")] ++ turns 2 9 (.keys .unkeyed)) (by decide +kernel)
  exact ⟨w, hw, hcurrent, (driven_on_ready (bench_valid true) hw).1 2 _ hcurrent⟩

/-- The button of the computer is pulsed while the radio that it needs is not known on. -/
theorem driven_on_unready : ∃ w, (bench true).machine.Reachable w ∧
    w.current 0 = some (.write ("bank", 5) true) ∧ ∃ d ∈ (bench true).station.devices,
      (bench true).onLine d = some ("bank", 5) ∧
        ¬ (bench true).Ready (fun f => w.shared.shows (bench true) f = true) d := by
  obtain ⟨w, hw, hcurrent, hready⟩ := Machine.Reachable.exists_of_run
    (start_reach (bench true) (fun _ => false) (fun _ => none))
    (P := fun w => w.current 0 = some (.write ("bank", 5) true) ∧
      ∃ d ∈ (bench true).station.devices, (bench true).onLine d = some ("bank", 5) ∧
        ¬ (bench true).Ready (fun f => w.shared.shows (bench true) f = true) d)
    ([.call (.pulse "button")] ++ turns 0 4 (.keys .unkeyed)) (by decide +kernel)
  exact ⟨w, hw, hcurrent, hready⟩

end HamsOpen.Station
