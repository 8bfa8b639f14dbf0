import HamsOpen.Station.Drives
import HamsOpen.Station.History
import HamsOpen.Station.Order
import Mathlib

/-!
# What a power-off does on the way to its device

A power-off goes through the devices that depend on its own one, the most dependent first, and comes
to its own one last. A device that is known to be off is left alone, and one without a switch passed
over; of any other the off line is driven. When that fails, or there is no such line, the power-off
ends there, and does not come to its own device.
-/

namespace HamsOpen.Station

/-- An action of a command, with its answer. -/
abbrev Did := (a : Act) × a.Answer

/-- The protocol of a command of which everything is recorded. -/
def recording : Protocol Act Act.Answer (List Did) where
  allows _ _ := True
  after l a r := l ++ [⟨a, r⟩]
  lost l := l

/-- What stays when more is done. -/
def Lasts (J : List Did → Prop) : Prop := ∀ l d, J l → J (l ++ [d])

theorem Lasts.lenient {J : List Did → Prop} (h : Lasts J) :
    Lenient recording J fun _ _ => True where
  writes _ _ l _ hl := ⟨trivial, h l _ hl⟩
  others _ l _ _ _ hl := ⟨trivial, fun _ => h l _ hl⟩

theorem Lasts.handling {J : List Did → Prop} (h : Lasts J) (site : Site) :
    Handling recording J (fun _ _ => True) site := h.lenient.handling site

/-! ### What a program does -/

variable {α β : Type} {site : Site}

/-- Whatever it is answered, what the program does and its result meet the condition. -/
def Does (x : Op α) (X : List Did → Except StationError α → Prop) : Prop :=
  ∀ l, x.run.Follows recording l fun l' r => ∃ new, l' = l ++ new ∧ X new r

section Does

open Prog

variable {x : Op α} {f : α → Op β} {X X' : List Did → Except StationError α → Prop}
  {Y : α → List Did → Except StationError β → Prop} {Z : List Did → Except StationError β → Prop}

theorem Does.mono (h : Does x X) (hX : ∀ new r, X new r → X' new r) : Does x X' := by
  intro l
  refine (h l).mono ?_
  rintro l' r ⟨new, hnew, hr⟩
  exact ⟨new, hnew, hX new r hr⟩

theorem does_ok {a : α} (h : X [] (.ok a)) : Does (pure a) X :=
  fun l => ⟨[], (List.append_nil l).symm, h⟩

theorem does_error {e : StationError} (h : X [] (.error e)) : Does (throw e : Op α) X :=
  fun l => ⟨[], (List.append_nil l).symm, h⟩

theorem does_skip {f : Unit → Op β} (h : Does (f ()) Z) : Does (pure () >>= f) Z := h

/-- Parts of which it does not matter what they do. -/
theorem does_something (h : ∀ J, Lasts J → x.Steady recording J) : Does x fun _ _ => True := by
  intro l
  have hlasts : Lasts fun l' => ∃ new, l' = l ++ new := by
    rintro _ d ⟨new, rfl⟩
    exact ⟨new ++ [d], List.append_assoc ..⟩
  refine (h _ hlasts l ⟨[], (List.append_nil l).symm⟩).mono ?_
  rintro l' r ⟨new, hnew⟩
  exact ⟨new, hnew, trivial⟩

/-- One program after another. -/
theorem Does.bind (hx : Does x X) (hf : ∀ a, Does (f a) (Y a))
    (hok : ∀ a first second r, X first (.ok a) → Y a second r → Z (first ++ second) r)
    (herror : ∀ new e, X new (.error e) → Z new (.error e)) : Does (x >>= f) Z := by
  intro l
  refine follows_try_bind.mpr ((hx l).mono ?_)
  rintro l' (e | a) ⟨first, rfl, hfirst⟩
  · exact ⟨first, rfl, herror first e hfirst⟩
  · refine (hf a (l ++ first)).mono ?_
    rintro l' r ⟨second, rfl, hsecond⟩
    exact ⟨first ++ second, List.append_assoc .., hok a first second r hfirst hsecond⟩

/-- An action, and then the rest. -/
theorem does_act {a : Act} {f : a.Answer → Op β}
    {Y : a.Answer → List Did → Except StationError β → Prop}
    (hf : ∀ r, Does (f r) (Y r)) (hY : ∀ r new out, Y r new out → Z (⟨a, r⟩ :: new) out) :
    Does ((liftM (perform a) : Op a.Answer) >>= f) Z := by
  intro l
  refine follows_act.mpr ⟨trivial, fun r => (hf r _).mono ?_⟩
  rintro l' out ⟨new, rfl, hout⟩
  exact ⟨⟨a, r⟩ :: new, List.append_assoc .., hY r new out hout⟩

/-- With the operation lock of a channel held. -/
theorem does_locked {id : ChannelId} {body : Op α} (hbody : Does body X)
    (hX : ∀ new r, X new r → X' (⟨.lock id, ()⟩ :: (new ++ [⟨.unlock id, ()⟩])) r) :
    Does (locked id body) X' := by
  intro l
  refine follows_bind.mpr ⟨trivial, fun _ => follows_bind.mpr ((hbody _).mono ?_)⟩
  rintro l' r ⟨new, rfl, hr⟩
  refine follows_bind.mpr ⟨trivial, fun _ => ⟨_, ?_, hX new r hr⟩⟩
  simp [recording]

/-- A program whose error is kept as a value does not fail. -/
theorem does_attempt (h : Does x X) :
    Does (attempt x) fun new r => ∃ got, r = .ok got ∧ X new got := by
  intro l
  refine follows_bind.mpr ((h l).mono ?_)
  rintro l' r ⟨new, rfl, hr⟩
  exact ⟨new, rfl, r, rfl, hr⟩

end Does

/-! ### Driving a line -/

/-- The program begins to drive the line, whether it fails or not. -/
abbrev DoesWrite (x : Op α) (w : Wire) (on : Bool) : Prop :=
  Does x fun new _ => (⟨.write w on, ()⟩ : Did) ∈ new

theorem DoesWrite.andThen {x : Op α} {f : α → Op β} {w : Wire} {on : Bool} (h : DoesWrite x w on)
    (hf : ∀ a J, Lasts J → (f a).Steady recording J) : DoesWrite (x >>= f) w on :=
  h.bind (fun a => does_something (hf a)) (fun _ _ _ _ hfirst _ => List.mem_append_left _ hfirst)
    fun _ _ hnew => hnew

/-- The program does not fail. -/
abbrev Succeeds (x : Op α) : Prop := Does x fun _ r => ∃ a, r = .ok a

/-- What does not fail, and then a program that does something wherever it begins. -/
theorem Succeeds.before {x : Op α} {f : α → Op β} {Z : List Did → Except StationError β → Prop}
    (h : Succeeds x) (hf : ∀ a, Does (f a) Z)
    (hZ : ∀ first second r, Z second r → Z (first ++ second) r) : Does (x >>= f) Z :=
  h.bind hf (fun _ first second r _ hsecond => hZ first second r hsecond)
    fun _ _ ⟨_, herror⟩ => nomatch herror

theorem Succeeds.thenDoes {x : Op α} {f : α → Op β} {w : Wire} {on : Bool} (h : Succeeds x)
    (hf : ∀ a, DoesWrite (f a) w on) : DoesWrite (x >>= f) w on :=
  h.before hf fun _ _ _ hsecond => List.mem_append_right _ hsecond

theorem Succeeds.andThen {x : Op α} {f : α → Op β} (h : Succeeds x) (hf : ∀ a, Succeeds (f a)) :
    Succeeds (x >>= f) :=
  h.bind hf (fun _ _ _ _ _ hsecond => hsecond) fun _ _ ⟨_, herror⟩ => nomatch herror

theorem succeeds_pure (a : α) : Succeeds (pure a) := does_ok ⟨a, rfl⟩

theorem succeeds_perform (a : Act) : Succeeds (liftM (perform a) : Op a.Answer) :=
  fun _ => ⟨trivial, fun r => ⟨[⟨a, r⟩], rfl, r, rfl⟩⟩

theorem succeeds_attempt {x : Op α} (h : Does x fun _ _ => True) : Succeeds (attempt x) :=
  (does_attempt h).mono fun _ _ ⟨got, hgot, _⟩ => ⟨got, hgot⟩

theorem succeeds_emit (e : StationEvent) : Succeeds (Site.emit e) :=
  (succeeds_perform _).andThen fun _ => succeeds_pure _

theorem succeeds_sleep (d : Duration) : Succeeds (sleep d) :=
  (succeeds_perform _).andThen fun _ => (succeeds_perform _).andThen fun _ => succeeds_pure _

theorem writeLine_does (site : Site) (c : ChannelDef) (line : Nat) (on : Bool) :
    DoesWrite (Site.writeLine c line on) (c.driver, line) on :=
  does_act (Y := fun _ _ _ => True)
    (fun _ => does_something fun _ hJ => (hJ.handling site).written c line on)
    fun _ _ _ _ => List.mem_cons_self

theorem status_does {id : ChannelId} {c : ChannelDef} (hc : site.chan id = .ok c) :
    Does (site.status id) fun new r => ∃ s, new = [⟨.status id, s⟩] ∧ r = .ok s :=
  fun _ => (follows_status hc).mpr ⟨trivial, fun s => ⟨[⟨.status id, s⟩], rfl, s, rfl, rfl⟩⟩

theorem succeeds_status {id : ChannelId} {c : ChannelDef} (hc : site.chan id = .ok c) :
    Succeeds (site.status id) :=
  (status_does hc).mono fun _ _ ⟨s, _, hs⟩ => ⟨s, hs⟩

/-- Setting a power channel off always drives its line. -/
theorem set_off_does {id : ChannelId} {c : ChannelDef} (hc : site.chan id = .ok c)
    (hpower : c.kind.isPower = true) : DoesWrite (site.set id .off) c.wire false := by
  have hdrive : DoesWrite (do
      site.drive c .off
      site.verify c .off) c.wire false := by
    refine DoesWrite.andThen ?_ fun _ J hJ => (hJ.handling site).verify c .off (chan_self hc)
    unfold Site.drive
    split
    next hkind => simp [hkind, ChannelKind.isPower] at hpower
    · exact writeLine_does site c c.line false
  have hcheck : Site.checkMinOff c .off = pure () := by
    unfold Site.checkMinOff
    split
    · contradiction
    · rfl
  have hsettable : Site.settable c.kind .off = true := by
    cases hkind : c.kind with
    | power => rfl
    | _ => simp [hkind, ChannelKind.isPower] at hpower
  unfold Site.set
  rw [hc, of_ok_bind]
  refine does_locked (X := fun new _ => ⟨.write c.wire false, ()⟩ ∈ new) ?_ fun new r hnew =>
    List.mem_cons_of_mem _ (List.mem_append_left _ hnew)
  rw [hcheck, hsettable]
  refine (succeeds_pure ()).thenDoes fun _ => ?_
  dsimp only
  rw [if_neg (by rintro ⟨⟩)]
  refine (succeeds_status hc).thenDoes fun s => ?_
  rw [if_neg fun h => by simp [Value.target] at h]
  exact (succeeds_perform _).thenDoes fun _ => (succeeds_emit _).thenDoes fun _ => hdrive

/-- Pressing a button always drives its line on. -/
theorem pulseLine_does {id : ChannelId} {c : ChannelDef} (hc : site.chan id = .ok c)
    (hwidth : (Site.pulseWidth c.kind).isSome = true) :
    DoesWrite (site.pulseLine id) c.wire true := by
  obtain ⟨width, hwidth⟩ := Option.isSome_iff_exists.mp hwidth
  unfold Site.pulseLine
  rw [hc, of_ok_bind, hwidth]
  refine does_locked (X := fun new _ => ⟨.write c.wire true, ()⟩ ∈ new) ?_ fun new r hnew =>
    List.mem_cons_of_mem _ (List.mem_append_left _ hnew)
  refine (succeeds_emit _).thenDoes fun _ => (writeLine_does site c c.line true).andThen ?_
  intro _ J hJ
  have h := hJ.handling site
  refine Prog.Steady.try_bind (h.calm.sleep width) fun _ => ?_
  refine Prog.Steady.try_bind (steady_attempt (h.writeLine trivial)) fun r => ?_
  cases r with
  | ok => exact h.store (.inl rfl) fun _ => h.calm.emit _
  | error =>
    exact Prog.Steady.try_bind (h.writeLine trivial) fun _ =>
      h.store (.inl rfl) fun _ => h.calm.emit _

/-! ### One device after another -/

/-- The device was found off: that was the answer to the first question about its channel. -/
def FoundOff (d : DeviceDef) (did : List Did) : Prop :=
  ∃ id s rest, d.power = .channel id ∧
    did = ⟨.scans (some d.id), ()⟩ :: ⟨.status id, s⟩ :: rest ∧ s.1.confirmed.or s.2 = some .off

/-- The line that powers a device off, and the level that it is driven to for it. -/
def Site.offLine (site : Site) (d : DeviceDef) : Option (Wire × Bool) :=
  match d.power with
  | .alwaysOn => none
  | .channel id => (site.station.channel id).map fun c => (c.wire, false)
  | .momentary _ off => off.bind fun id => (site.station.channel id).map fun c => (c.wire, true)

theorem offLine_of_channel {d : DeviceDef} {id : ChannelId} {c : ChannelDef}
    (hpower : d.power = .channel id) (hc : site.station.channel id = some c) :
    site.offLine d = some (c.wire, false) := by
  simp [Site.offLine, hpower, hc]

theorem offLine_of_momentary {d : DeviceDef} {on id : ChannelId} {c : ChannelDef}
    (hpower : d.power = .momentary on (some id)) (hc : site.station.channel id = some c) :
    site.offLine d = some (c.wire, true) := by
  simp [Site.offLine, hpower, hc]

/-- The off line of the device was driven. -/
def Driven (site : Site) (d : DeviceDef) (did : List Did) : Prop :=
  ∃ w on, site.offLine d = some (w, on) ∧ ⟨.write w on, ()⟩ ∈ did

/-- The power-off goes on behind the device. -/
def Passed (site : Site) (d : DeviceDef) (did : List Did) : Prop :=
  d.power = .alwaysOn ∨ FoundOff d did ∨ Driven site d did

/-- The power-off ends at the device with an error: the device is the one that was to be powered off
and has no switch, or it has no power-off line, or its off line was driven in vain. -/
def EndsAt (site : Site) (target : DeviceId) (d : DeviceDef) (did : List Did)
    (e : StationError) : Prop :=
  (d.power = .alwaysOn ∧ d.id = target) ∨
    (∃ on, d.power = .momentary on none ∧ e = refused s!"{d.id} has no power-off line") ∨
    Driven site d did

/-- The power-off went on behind each of the devices in turn. -/
inductive Went (site : Site) : List DeviceId → List Did → Prop
  | nil : Went site [] []
  | cons {dev : DeviceId} {rest : List DeviceId} {d : DeviceDef} {own more : List Did} :
      site.station.device dev = some d → Passed site d own → Went site rest more →
        Went site (dev :: rest) (own ++ more)

/-- What a power-off does with devices in turn, and its result. -/
def Goes (site : Site) (target : DeviceId) (devs : List DeviceId) (did : List Did) :
    Except StationError (List DeviceId) → Prop
  | .ok _ => Went site devs did
  | .error e => ∃ front dev rest d before own, devs = front ++ dev :: rest ∧ did = before ++ own ∧
      Went site front before ∧ site.station.device dev = some d ∧ EndsAt site target d own e

theorem Driven.mono {d : DeviceDef} {did did' : List Did} (h : Driven site d did)
    (hsub : did ⊆ did') : Driven site d did' := by
  obtain ⟨w, on, hline, hmem⟩ := h
  exact ⟨w, on, hline, hsub hmem⟩

theorem Passed.append {d : DeviceDef} {did : List Did} (h : Passed site d did) (more : List Did) :
    Passed site d (did ++ more) := by
  refine h.imp_right (Or.imp ?_ fun hdriven => hdriven.mono (List.subset_append_left ..))
  rintro ⟨id, s, rest, hpower, rfl, hs⟩
  exact ⟨id, s, rest ++ more, hpower, rfl, hs⟩

theorem goes_cons {target dev : DeviceId} {devs : List DeviceId} {d : DeviceDef}
    {own more : List Did} {r : Except StationError (List DeviceId)}
    (hdev : site.station.device dev = some d)
    (hown : Passed site d own) (h : Goes site target devs more r) :
    Goes site target (dev :: devs) (own ++ more) r := by
  cases r with
  | ok a => exact .cons hdev hown h
  | error e =>
    obtain ⟨front, dev', rest, d', before, own', rfl, rfl, hwent, hdev', hstopped⟩ := h
    refine ⟨dev :: front, dev', rest, d', own ++ before, own', rfl, ?_, ?_, hdev', hstopped⟩
    · exact (List.append_assoc ..).symm
    · exact .cons hdev hown hwent

theorem succeeds_standby (device : DeviceId) : Succeeds (site.standby device) := by
  unfold Site.standby
  dsimp only
  split
  · refine (succeeds_attempt (does_something fun J hJ => ?_)).andThen fun s => ?_
    · exact (hJ.handling site).calm.status site _
    split
    · refine (succeeds_attempt (does_something fun J hJ => ?_)).andThen fun _ => succeeds_pure _
      exact (hJ.handling site).set (fun c _ => hJ.lenient.checkMinOff c .off)
        fun _ _ _ _ _ _ => trivial
    · exact succeeds_pure _
  · exact succeeds_pure _

section Devices

variable (h : Valid site.station)

include h

/-- What is known of the power of a device. -/
theorem devicePower_does {d : DeviceDef} (hd : d ∈ site.station.devices) :
    Does (site.devicePower d.id) fun new r => ∃ p, r = .ok p ∧ (p = some .off → ∃ id s,
      d.power = .channel id ∧ new = [⟨.status id, s⟩] ∧ s.1.confirmed.or s.2 = some .off) := by
  have hdevice : site.deviceOf d.id = .ok d := by
    unfold Site.deviceOf
    rw [h.device hd]
  unfold Site.devicePower
  rw [hdevice, of_ok_bind]
  cases hpower : d.power with
  | alwaysOn => exact does_ok ⟨_, rfl, nofun⟩
  | momentary => exact does_ok ⟨_, rfl, nofun⟩
  | channel id =>
    have hsource : (id, false) ∈ d.power.sources := hpower ▸ List.mem_cons_self
    obtain ⟨c, hc, -⟩ := h.source hd hsource
    refine (status_does (chan_of_channel hc)).bind
      (Y := fun s new r => new = [] ∧ r = .ok (s.1.confirmed.or s.2))
      (fun s => does_ok ⟨rfl, rfl⟩) ?_ fun _ _ ⟨_, _, herror⟩ => nomatch herror
    rintro s first second r ⟨s', rfl, hs⟩ ⟨rfl, rfl⟩
    obtain rfl := Except.ok.inj hs
    exact ⟨_, rfl, fun hoff => ⟨id, s, rfl, rfl, hoff⟩⟩

/-- What a power-off does with a device that is not known to be off. -/
def Downs (site : Site) (target : DeviceId) (d : DeviceDef) (did : List Did) :
    Except StationError Bool → Prop
  | .ok _ => d.power = .alwaysOn ∨ Driven site d did
  | .error e => EndsAt site target d did e

omit h in
theorem downs_prefix {target : DeviceId} {d : DeviceDef} (first second : List Did)
    (r : Except StationError Bool) (hr : Downs site target d second r) :
    Downs site target d (first ++ second) r := by
  have hsub : second ⊆ first ++ second := List.subset_append_right first second
  cases r with
  | ok off => exact hr.imp_right fun hdriven => hdriven.mono hsub
  | error e => exact hr.imp_right fun hr => hr.imp_right fun hdriven => hdriven.mono hsub

omit h in
/-- A device whose off line is driven in any case. -/
theorem downs_of_write {target : DeviceId} {d : DeviceDef} {x : Op α} {w : Wire} {on : Bool}
    (hx : DoesWrite x w on) (hline : site.offLine d = some (w, on)) :
    Does (do
      let _ ← x
      return true) (Downs site target d) := by
  have hdriven (new : List Did) (hnew : ⟨.write w on, ()⟩ ∈ new) : Driven site d new :=
    ⟨w, on, hline, hnew⟩
  refine hx.bind (Y := fun _ new r => new = [] ∧ r = .ok true) (fun _ => does_ok ⟨rfl, rfl⟩) ?_ ?_
  · rintro a first second r hfirst ⟨rfl, rfl⟩
    exact .inr (hdriven _ (List.mem_append_left _ hfirst))
  · exact fun new e hnew => .inr (.inr (hdriven new hnew))

theorem powerDown_does {d : DeviceDef} (hd : d ∈ site.station.devices) (target : DeviceId) :
    Does (site.powerDown target d) (Downs site target d) := by
  have hguard : site.guardAction .powerOff s!"power off {d.id}" = pure () := rfl
  unfold Site.powerDown
  rw [hguard]
  refine (succeeds_pure ()).before (fun _ => ?_) downs_prefix
  refine (succeeds_standby d.id).before (fun _ => ?_) downs_prefix
  refine (succeeds_sleep d.offDelayMs).before (fun _ => ?_) downs_prefix
  cases hpower : d.power with
  | alwaysOn =>
    dsimp only
    split
    next htarget => exact does_error (.inl ⟨hpower, htarget⟩)
    · exact does_ok (.inl hpower)
  | channel id =>
    have hsource : (id, false) ∈ d.power.sources := hpower ▸ List.mem_cons_self
    obtain ⟨c, hc, hkind⟩ := h.source hd hsource
    have hisPower : c.kind.isPower = true := by
      cases hc' : c.kind with
      | power => rfl
      | _ => simp [hc', ChannelKind.powers] at hkind
    exact downs_of_write (set_off_does (chan_of_channel hc) hisPower) (offLine_of_channel hpower hc)
  | momentary on off =>
    cases off with
    | none => exact does_error (.inr (.inl ⟨on, hpower, rfl⟩))
    | some id =>
      have hsource : (id, true) ∈ d.power.sources := by
        rw [hpower]
        exact List.mem_cons_of_mem _ List.mem_cons_self
      obtain ⟨c, hc, hkind⟩ := h.source hd hsource
      have hwidth : (Site.pulseWidth c.kind).isSome = true := by
        cases hc' : c.kind with
        | momentary => rfl
        | _ => simp [hc', ChannelKind.powers] at hkind
      exact downs_of_write (pulseLine_does (chan_of_channel hc) hwidth)
        (offLine_of_momentary hpower hc)

/-- Devices in turn. -/
theorem powerDownAll_does (target : DeviceId) {devs : List DeviceId}
    (hdevs : ∀ dev ∈ devs, dev ∈ site.station.devices.map (·.id)) :
    Does (site.powerDownAll target devs) (Goes site target devs) := by
  induction devs with
  | nil => exact does_ok .nil
  | cons dev rest ih =>
    obtain ⟨d, hd, rfl⟩ := List.mem_map.mp (hdevs dev List.mem_cons_self)
    have hdevice := h.device hd
    have hrest := ih fun dev hdev => hdevs dev (List.mem_cons_of_mem _ hdev)
    -- what comes after the device, when it was passed
    have hgo (off : Bool) : Does (do
        let done ← site.powerDownAll target rest
        return if off then d.id :: done else done) (Goes site target rest) := by
      refine hrest.bind (Y := fun _ new r => new = [] ∧ ∃ done, r = .ok done)
        (fun done => does_ok ⟨rfl, _, rfl⟩) ?_ fun _ _ hstopped => hstopped
      rintro done first second r hfirst ⟨rfl, done', rfl⟩
      rw [List.append_nil]
      exact hfirst
    unfold Site.powerDownAll
    have hdeviceOf : site.deviceOf d.id = .ok d := by
      unfold Site.deviceOf
      rw [hdevice]
    rw [hdeviceOf, of_ok_bind]
    refine does_act (Y := fun _ new r =>
      Goes site target (d.id :: rest) (⟨.scans (some d.id), ()⟩ :: new) r) (fun _ => ?_)
      fun _ _ _ hr => hr
    refine (devicePower_does h hd).bind (Y := fun p new r => if p = some .off
      then Goes site target rest new r
      else ∀ first, Goes site target (d.id :: rest) (first ++ new) r) (fun p => ?_) ?_ ?_
    · by_cases hp : p = some .off
      · simp only [if_pos hp]
        exact hgo false
      · simp only [if_neg hp]
        refine (powerDown_does h hd target).bind (fun off => hgo off) ?_ ?_
        · intro off own more r hdowns hmore first
          rw [← List.append_assoc]
          refine goes_cons hdevice ?_ hmore
          exact hdowns.imp_right fun hdriven => .inr (hdriven.mono (List.subset_append_right ..))
        · intro own e hstopped first
          exact ⟨[], d.id, rest, d, [], first ++ own, rfl, rfl, .nil, hdevice,
            downs_prefix first own (.error e) hstopped⟩
    · rintro p first second r ⟨p', hp', hoff⟩ hr
      obtain rfl := Except.ok.inj hp'
      by_cases hp : p = some .off
      · rw [if_pos hp] at hr
        obtain ⟨id, s, hpower, rfl, hs⟩ := hoff hp
        change Goes site target (d.id :: rest)
          ([⟨.scans (some d.id), ()⟩, ⟨.status id, s⟩] ++ second) r
        refine goes_cons hdevice ?_ hr
        exact .inr (.inl ⟨id, s, [], hpower, rfl, hs⟩)
      · rw [if_neg hp] at hr
        exact hr (⟨.scans (some d.id), ()⟩ :: first)
    · rintro new e ⟨p, hp, -⟩
      cases hp

omit h in
theorem went_concat {devs : List DeviceId} {id : DeviceId} {did : List Did}
    (hwent : Went site (devs ++ [id]) did) : ∃ before own d, did = before ++ own ∧
      Went site devs before ∧ site.station.device id = some d ∧ Passed site d own := by
  induction devs generalizing did with
  | nil =>
    cases hwent with
    | @cons _ _ d own more hdev hown hmore =>
      cases hmore
      exact ⟨[], own, d, List.append_nil own, .nil, hdev, hown⟩
  | cons dev devs ih =>
    cases hwent with
    | @cons _ _ d own more hdev hown hmore =>
      obtain ⟨before, last, d', rfl, hbefore, hd', hlast⟩ := ih hmore
      exact ⟨own ++ before, last, d', (List.append_assoc ..).symm, .cons hdev hown hbefore, hd',
        hlast⟩

/-- What a power-off of a device does: it goes on behind all dependents and comes to its own device,
or it ends with the error of a dependent that has no power-off line, or whose off line it drove. -/
def PowersOff (site : Site) (d : DeviceDef) (did : List Did)
    (r : Except StationError (List DeviceId)) : Prop :=
  (∃ before own, did = before ++ own ∧ Went site (site.station.dependents d.id) before ∧
    Passed site d own) ∨
  ∃ front dev rest x before own e, site.station.dependents d.id = front ++ dev :: rest ∧
    did = before ++ own ∧ Went site front before ∧ site.station.device dev = some x ∧
    ((∃ on, x.power = .momentary on none ∧ e = refused s!"{x.id} has no power-off line") ∨
      Driven site x own) ∧ r = .error e

theorem powerOff_does {d : DeviceDef} {id : ChannelId} (hd : d ∈ site.station.devices)
    (hpower : d.power = .channel id) :
    Does (site.powerOff d.id) (PowersOff site d) := by
  have hdevice := h.device hd
  have hdeviceOf : site.deviceOf d.id = .ok d := by
    unfold Site.deviceOf
    rw [hdevice]
  have hguard : site.guardAction .powerOff s!"power off {d.id}" = pure () := rfl
  obtain ⟨order, horder⟩ := h.order
  have hknown (dev : DeviceId) (hdev : dev ∈ site.station.dependents d.id ++ [d.id]) :
      dev ∈ site.station.devices.map (·.id) := by
    rcases List.mem_append.mp hdev with hdev | hdev
    · obtain ⟨p, ⟨x, hx, -⟩, -⟩ := Relation.TransGen.head'_iff.mp
        ((StationDef.mem_dependents_iff h.devices horder).mp hdev)
      obtain ⟨hin, rfl⟩ := StationDef.mem_of_device hx
      exact List.mem_map_of_mem hin
    · exact List.mem_singleton.mp hdev ▸ List.mem_map_of_mem hd
  unfold Site.powerOff
  rw [hdeviceOf, of_ok_bind, hguard]
  refine does_skip ((powerDownAll_does h d.id hknown).bind
    (Y := fun done new r => new = [⟨.scans none, ()⟩] ∧ r = .ok done) (fun done => ?_) ?_ ?_)
  · exact does_act (Y := fun _ new r => new = [] ∧ r = .ok done) (fun _ => does_ok ⟨rfl, rfl⟩)
      fun _ _ _ ⟨hnew, hr⟩ => ⟨hnew ▸ rfl, hr⟩
  · rintro done first second r hwent ⟨rfl, rfl⟩
    obtain ⟨before, own, d', rfl, hbefore, hd', hown⟩ := went_concat hwent
    obtain rfl := Option.some.inj (hdevice.symm.trans hd')
    exact .inl ⟨before, own ++ [⟨.scans none, ()⟩], List.append_assoc .., hbefore,
      hown.append _⟩
  · rintro new e ⟨front, dev, rest, x, before, own, hsplit, rfl, hwent, hx, hstopped⟩
    obtain rfl | ⟨rest, last, rfl⟩ := List.eq_nil_or_concat rest
    · -- it ended at its own device
      obtain ⟨rfl, hlast⟩ := List.append_inj' hsplit rfl
      obtain rfl := List.singleton_inj.mp hlast
      obtain rfl := Option.some.inj (hdevice.symm.trans hx)
      refine .inl ⟨before, own, rfl, hwent, ?_⟩
      rcases hstopped with ⟨halways, -⟩ | ⟨on, hnone, -⟩ | hdriven
      · cases hpower.symm.trans halways
      · cases hpower.symm.trans hnone
      · exact .inr (.inr hdriven)
    · -- it ended at a dependent
      rw [List.concat_eq_append, ← List.cons_append, ← List.append_assoc] at hsplit
      obtain ⟨hdeps, -⟩ := List.append_inj' hsplit rfl
      refine .inr ⟨front, dev, rest, x, before, own, e, hdeps, rfl, hwent, hx, ?_, rfl⟩
      refine hstopped.resolve_left ?_
      rintro ⟨-, htarget⟩
      obtain ⟨-, rfl⟩ := StationDef.mem_of_device hx
      obtain ⟨hmem, hordered⟩ := StationDef.powerOnOrder_ordered h.devices horder
      have hdep : x.id ∈ site.station.dependents d.id :=
        hdeps ▸ List.mem_append_right _ List.mem_cons_self
      have hcycle := (StationDef.mem_dependents_iff h.devices horder).mp hdep
      rw [htarget] at hcycle
      exact hordered.irrefl ((hmem _).mpr (List.mem_map_of_mem hd)) hcycle

end Devices

/-! ### What is told of it -/

/-- What is told of an action of command `k`. -/
def Did.event (k : Nat) (d : Did) : Option Event := d.1.event k d.2

/-- What is told of command `k`, the first event first. -/
def told (k : Nat) (log : List Event) : List Event :=
  (log.filter fun x => (x.act.map Prod.fst) == some k).reverse

theorem told_after {a : Act} (r : a.Answer) (j k : Nat) (s : Plant) :
    told j (a.after site k r s).log = told j s.log ++
      if j = k then (Did.event k ⟨a, r⟩).toList else [] := by
  unfold told Did.event
  rw [Act.after_log, List.filter_append, List.reverse_append]
  refine congrArg _ ?_
  cases hevent : a.event k r with
  | none => split <;> rfl
  | some x =>
    have hact := act_of_event hevent
    by_cases hjk : j = k
    · subst hjk
      simp [hact]
    · simp [hact, hjk, Ne.symm hjk]

theorem recording_run (call : Call) : (site.run call).Follows recording [] fun _ _ => True := by
  have hlasts : Lasts fun _ => True := fun _ _ _ => trivial
  have h := hlasts.handling site
  exact steady_run h.calm (fun _ => trivial) (fun _ _ _ _ => ⟨trivial, trivial⟩)
    (fun _ _ _ => ⟨trivial, trivial⟩)
    (fun _ value => h.set (fun c _ => hlasts.lenient.checkMinOff c value)
      fun _ _ _ _ _ _ => trivial)
    (fun _ => h.pulseLine fun _ _ _ _ => trivial) (fun id _ => h.forceOff id)
    (hlasts.lenient.readBack site) call [] trivial

/-- What each command did is what is told of it, and meets what is asked of its call. -/
theorem reach_recorded {X : Call → List Did → Result → Prop}
    (hrun : ∀ call, (site.run call).Follows recording [] (X call)) {w : State} {k : Nat}
    {t : Job Act Act.Answer Call Result} (hw : site.machine.Reachable w) (hk : w.jobs[k]? = some t)
    {r : Result} (hr : w.result k = some r) :
    ∃ did, told k w.shared.log = did.filterMap (Did.event k) ∧ X t.call did r := by
  have hreach := Executor.reach_invariant recording X []
    (fun s locals => ∀ j, told j s.log = (locals j).filterMap (Did.event j)) hrun ?_ ?_ ?_ ?_ hw
  · obtain ⟨locals, htold, hkeeps⟩ := hreach
    exact ⟨locals k, htold k, hkeeps.result hk hr⟩
  · intro s hs j
    rw [hs.2.2.2.2.2.2.2.2]
    rfl
  · rintro w locals k choice a r s' htold - - - - hexec j
    obtain ⟨-, rfl⟩ := perform_iff.mp hexec
    rw [told_after, htold j]
    by_cases hjk : j = k
    · subst hjk
      rw [if_pos rfl, Function.update_self]
      simp only [recording, List.filterMap_append, List.filterMap_cons, List.filterMap_nil]
      cases Did.event j ⟨a, r⟩ <;> rfl
    · rw [if_neg hjk, Function.update_of_ne hjk, List.append_nil]
  · rintro s locals k i htold - - j
    have hsame : Function.update locals k (recording.lost (locals k)) = locals :=
      Function.update_eq_self k locals
    rw [hsame]
    exact htold j
  · rintro w locals e s' htold - - henv j
    rw [← htold j]
    cases e with
    | input id level =>
      obtain ⟨-, heq⟩ := Option.ite_none_right_eq_some.mp henv
      rw [← Option.some.inj heq]
      rfl
    | land i =>
      obtain ⟨d, -, hs⟩ := Option.map_eq_some_iff.mp henv
      rw [← hs]
      rfl
    | tick | lose | flip | rewrite =>
      rw [← Option.some.inj henv]

/-! ### Every power-off -/

/-- A power-off that has ended has driven the power line of its device off. -/
def PowerOffReaches (site : Site) : Prop :=
  ∀ d ∈ site.station.devices, ∀ id c, d.power = .channel id → site.station.channel id = some c →
    ∀ (w : State) (k : Nat) (t : Job Act Act.Answer Call Result) (r : Result),
      site.machine.Reachable w → w.jobs[k]? = some t → t.call = .powerOff d.id →
      w.result k = some r → .write k c.wire false ∈ w.shared.log

/-- The bench, with a computer that has a power button but no power-off line. -/
def headless : Site :=
  { bench false with
    station := { (bench false).station with
      devices := [
        ⟨"radio", .radio, .channel "radio_pwr", [], [], 0, 0, 0⟩,
        ⟨"amp", .amplifier, .channel "amp_pwr", ["radio"], ["ant"], 0, 0, 0⟩,
        ⟨"pc", .computer, .momentary "button" none, ["radio"], [], 0, 0, 0⟩] } }

theorem headless_valid : headless.station.validate = .ok () := by decide

/-- The computer depends on the radio, and the power-off of the radio ends at it. -/
theorem turned_away : ∃ w : State, headless.machine.Reachable w ∧
    w.jobs[0]?.map Job.call = some (.powerOff "radio") ∧
    w.result 0 = some (.error (refused "pc has no power-off line")) ∧
    .write 0 ("bank", 0) false ∉ w.shared.log :=
  Machine.Reachable.exists_of_run (start_reach headless (fun _ => true) (fun _ => none))
    ([.call (.powerOff "radio")] ++ turns 0 3 .go) (by decide)

theorem power_off_turned_away : ¬ PowerOffReaches headless := by
  intro hclaim
  obtain ⟨w, hw, hcall, hr, hnone⟩ := turned_away
  obtain ⟨t, ht, hcall⟩ := Option.map_eq_some_iff.mp hcall
  exact hnone (hclaim ⟨"radio", .radio, .channel "radio_pwr", [], [], 0, 0, 0⟩ (.head _) "radio_pwr"
    ⟨"radio_pwr", .power 0 500 false, "bank", 0, some .off⟩ rfl rfl w 0 t _ hw ht hcall hr)

/-- Whatever the state and however the drivers fail, a power-off of a device with a power channel
that has ended went on behind all that depends on the device, and then found it off or drove its
power line off; or it ended with the error of one of these, which has no power-off line, or whose
off line it drove. -/
theorem power_off_attempts (hvalid : site.station.validate = .ok ()) {d : DeviceDef}
    {id : ChannelId} {c : ChannelDef} (hd : d ∈ site.station.devices)
    (hpower : d.power = .channel id) (hc : site.station.channel id = some c) {w : State} {k : Nat}
    {t : Job Act Act.Answer Call Result} {r : Result} (hw : site.machine.Reachable w)
    (hk : w.jobs[k]? = some t) (hcall : t.call = .powerOff d.id) (hr : w.result k = some r) :
    ∃ did, told k w.shared.log = did.filterMap (Did.event k) ∧
      ((∃ before own, did = before ++ own ∧ Went site (site.station.dependents d.id) before ∧
        (FoundOff d own ∨ ⟨.write c.wire false, ()⟩ ∈ own)) ∨
      ∃ front dev rest x before own e, site.station.dependents d.id = front ++ dev :: rest ∧
        did = before ++ own ∧ Went site front before ∧ site.station.device dev = some x ∧
        ((∃ on, x.power = .momentary on none ∧ e = refused s!"{x.id} has no power-off line") ∨
          Driven site x own) ∧ r = .error e) := by
  have hvalid := Valid.of_validate hvalid
  have hrun (call : Call) : (site.run call).Follows recording [] fun did r =>
      call = .powerOff d.id → ∃ r', PowersOff site d did r' ∧ r = r'.map Outcome.off := by
    by_cases hthis : call = .powerOff d.id
    · subst hthis
      refine Prog.follows_try_map.mpr ((powerOff_does hvalid hd hpower []).mono ?_)
      rintro did r ⟨new, rfl, hr⟩ -
      exact ⟨r, hr, rfl⟩
    · exact (recording_run call).mono fun _ _ _ h => absurd h hthis
  obtain ⟨did, htold, hasked⟩ := reach_recorded hrun hw hk hr
  obtain ⟨r', hdid, rfl⟩ := hasked hcall
  refine ⟨did, htold, ?_⟩
  rcases hdid with ⟨before, own, hsplit, hwent, hown⟩ |
    ⟨front, dev, rest, x, before, own, e, hdeps, hsplit, hwent, hx, hstopped, rfl⟩
  · refine .inl ⟨before, own, hsplit, hwent, ?_⟩
    rcases hown with halways | hfound | ⟨wire, on, hline, hmem⟩
    · cases hpower.symm.trans halways
    · exact .inl hfound
    · obtain ⟨rfl, rfl⟩ := Prod.mk.inj (Option.some.inj
        (hline.symm.trans (offLine_of_channel hpower hc)))
      exact .inr hmem
  · exact .inr ⟨front, dev, rest, x, before, own, e, hdeps, hsplit, hwent, hx, hstopped, rfl⟩

/-- The power-off of the radio that is turned away ends with the error of the computer. -/
theorem power_off_attempts_headless : ∃ (w : State) (did : List Did), headless.machine.Reachable w ∧
    told 0 w.shared.log = did.filterMap (Did.event 0) ∧
    headless.station.dependents "radio" = ["pc", "amp"] ∧
    w.result 0 = some (.error (refused "pc has no power-off line")) := by
  obtain ⟨w, hw, hcall, hr, -⟩ := turned_away
  obtain ⟨t, ht, hcall⟩ := Option.map_eq_some_iff.mp hcall
  obtain ⟨did, htold, -⟩ := power_off_attempts headless_valid
    (d := ⟨"radio", .radio, .channel "radio_pwr", [], [], 0, 0, 0⟩) (.head _) rfl
    (c := ⟨"radio_pwr", .power 0 500 false, "bank", 0, some .off⟩) rfl hw ht hcall hr
  exact ⟨w, did, hw, htold, by decide +kernel, hr⟩

end HamsOpen.Station
