import HamsOpen.Lib.Checks
import HamsOpen.Station.Model
import Mathlib.Data.List.Nodup
import Mathlib.Data.List.Pairwise
import Mathlib.Tactic.ByContra

/-!
# What a valid definition promises

The checks of a station definition, told as what they say of the channels and devices of a
definition that passes them.
-/

namespace HamsOpen.Station

open Except (ok_of_bind ok_of_check)

variable {s : StationDef}

namespace StationDef

theorem mem_of_channel {id : ChannelId} {c : ChannelDef} (h : s.channel id = some c) :
    c ∈ s.channels ∧ c.id = id :=
  ⟨List.mem_of_find?_eq_some h, by simpa using List.find?_some h⟩

theorem mem_of_device {id : DeviceId} {d : DeviceDef} (h : s.device id = some d) :
    d ∈ s.devices ∧ d.id = id :=
  ⟨List.mem_of_find?_eq_some h, by simpa using List.find?_some h⟩

/-- What is found by name among things with different names. -/
theorem find?_of_nodup {α : Type} {name : α → String} {xs : List α} {x : α}
    (h : (xs.map name).Nodup) (hx : x ∈ xs) : xs.find? (name · == name x) = some x := by
  induction xs with
  | nil => cases hx
  | cons y ys ih =>
    obtain ⟨hy, hys⟩ := List.nodup_cons.mp h
    rcases List.mem_cons.mp hx with rfl | hx
    · simp
    · have hne : name y ≠ name x := fun heq => hy (heq ▸ List.mem_map_of_mem hx)
      simpa [hne] using ih hys hx

theorem nodup_of_twice {α : Type} [DecidableEq α] {seen xs : List α} (h : twice seen xs = none) :
    xs.Nodup ∧ ∀ x ∈ xs, x ∉ seen := by
  induction xs generalizing seen with
  | nil => simp
  | cons x xs ih =>
    simp only [twice] at h
    split at h
    · cases h
    next hseen =>
      obtain ⟨hnodup, hnew⟩ := ih h
      have hx : x ∉ xs := fun hx => hnew x hx (.head _)
      refine ⟨List.nodup_cons.mpr ⟨hx, hnodup⟩, fun y hy => ?_⟩
      rcases List.mem_cons.mp hy with rfl | hy
      · exact hseen
      · exact fun hin => hnew y hy (.tail _ hin)

/-- A channel passes its own checks, and a shared supply powers a radio. -/
def ChannelOk (s : StationDef) (c : ChannelDef) : Prop :=
  c.validate = .ok () ∧ (c.kind.sharedSupply = true →
    ∃ d ∈ s.devices, d.kind = .radio ∧ d.power = .channel c.id)

theorem ok_of_checkChannels {seen : List ChannelId} {cs : List ChannelDef}
    (h : s.checkChannels seen cs = .ok ()) :
    (cs.map (·.id)).Nodup ∧ ∀ c ∈ cs, c.id ∉ seen ∧ s.ChannelOk c := by
  induction cs generalizing seen with
  | nil => simp
  | cons c cs ih =>
    obtain ⟨⟨⟩, hvalid, h⟩ := ok_of_bind h
    obtain ⟨hseen, h⟩ := ok_of_check h
    obtain ⟨hshared, h⟩ := ok_of_check h
    obtain ⟨hnodup, hrest⟩ := ih h
    have hc : c.id ∉ cs.map (·.id) := by
      intro hc
      obtain ⟨c', hc', heq⟩ := List.mem_map.mp hc
      exact (hrest c' hc').1 (heq ▸ .head _)
    refine ⟨List.nodup_cons.mpr ⟨hc, hnodup⟩, fun c' hc' => ?_⟩
    rcases List.mem_cons.mp hc' with rfl | hc'
    · refine ⟨hseen, hvalid, fun hsupply => ?_⟩
      simpa [hsupply] using hshared
    · exact ⟨fun hin => (hrest c' hc').1 (.tail _ hin), (hrest c' hc').2⟩

/-- A power source uses channels of its type, none of which was used before. -/
theorem ok_of_checkSources {d : DeviceDef} {sources : List (ChannelId × Bool)}
    {powered powered' : List ChannelId} (h : s.checkSources d powered sources = .ok powered') :
    (sources.map Prod.fst).Nodup ∧ (∀ x ∈ powered, x ∈ powered') ∧
      ∀ x ∈ sources, x.1 ∉ powered ∧ x.1 ∈ powered' ∧
        ∃ c, s.channel x.1 = some c ∧ c.kind.powers x.2 = true := by
  induction sources generalizing powered with
  | nil =>
    obtain rfl := Except.ok.inj h
    simp
  | cons x rest ih =>
    obtain ⟨id, momentary⟩ := x
    simp only [checkSources] at h
    split at h
    · cases h
    next c hc =>
      obtain ⟨hpowers, h⟩ := ok_of_check h
      obtain ⟨hnew, h⟩ := ok_of_check h
      obtain ⟨hnodup, hkept, hrest⟩ := ih h
      have hid : id ∉ rest.map Prod.fst := by
        intro hid
        obtain ⟨x, hx, rfl⟩ := List.mem_map.mp hid
        exact (hrest x hx).1 (.head _)
      refine ⟨List.nodup_cons.mpr ⟨hid, hnodup⟩, fun x hx => hkept x (.tail _ hx), fun x hx => ?_⟩
      rcases List.mem_cons.mp hx with rfl | hx
      · exact ⟨hnew, hkept _ (.head _), c, hc, by simpa using hpowers⟩
      · exact ⟨fun hin => (hrest x hx).1 (.tail _ hin), (hrest x hx).2⟩

theorem ok_of_checkAntennas {d : DeviceDef} {antennas : List ChannelId}
    (h : s.checkAntennas d antennas = .ok ()) :
    ∀ a ∈ antennas, ∃ c, s.channel a = some c ∧ c.kind.ways.isSome = true := by
  induction antennas with
  | nil => simp
  | cons a rest ih =>
    simp only [checkAntennas] at h
    split at h
    next ha =>
      obtain ⟨c, hc, hways⟩ := (Option.any_eq_true _ _).mp ha
      intro a' ha'
      rcases List.mem_cons.mp ha' with rfl | ha'
      · exact ⟨c, hc, hways⟩
      · exact ih h a' ha'
    · cases h

/-- The channels of the power sources of devices. -/
def sources (ds : List DeviceDef) : List ChannelId :=
  ds.flatMap fun d => d.power.sources.map Prod.fst

/-- A device's power source and antennas are channels of the types they need. -/
def DeviceOk (s : StationDef) (d : DeviceDef) : Prop :=
  (∀ x ∈ d.power.sources, ∃ c, s.channel x.1 = some c ∧ c.kind.powers x.2 = true) ∧
    ∀ a ∈ d.needsAntenna, ∃ c, s.channel a = some c ∧ c.kind.ways.isSome = true

theorem ok_of_checkDevices {seen : List DeviceId} {powered : List ChannelId} {ds : List DeviceDef}
    (h : s.checkDevices seen powered ds = .ok ()) :
    (ds.map (·.id)).Nodup ∧ (sources ds).Nodup ∧ (∀ x ∈ sources ds, x ∉ powered) ∧
      ∀ d ∈ ds, d.id ∉ seen ∧ s.DeviceOk d := by
  induction ds generalizing seen powered with
  | nil => simp [sources]
  | cons d ds ih =>
    obtain ⟨hseen, h⟩ := ok_of_check h
    obtain ⟨powered', hsources, h⟩ := ok_of_bind h
    obtain ⟨⟨⟩, hantennas, h⟩ := ok_of_bind h
    obtain ⟨hnodup, hkept, hnew⟩ := ok_of_checkSources hsources
    obtain ⟨hids, hpowers, hlater, hrest⟩ := ih h
    have hd : d.id ∉ ds.map (·.id) := by
      intro hd
      obtain ⟨d', hd', heq⟩ := List.mem_map.mp hd
      exact (hrest d' hd').1 (heq ▸ .head _)
    refine ⟨List.nodup_cons.mpr ⟨hd, hids⟩, ?_, ?_, fun d' hd' => ?_⟩
    · refine List.nodup_append.mpr ⟨hnodup, hpowers, fun x hx y hy => ?_⟩
      obtain ⟨p, hp, rfl⟩ := List.mem_map.mp hx
      exact fun heq => hlater y hy (heq ▸ (hnew p hp).2.1)
    · intro x hx
      rcases List.mem_append.mp hx with hx | hx
      · obtain ⟨p, hp, rfl⟩ := List.mem_map.mp hx
        exact (hnew p hp).1
      · exact fun hin => hlater x hx (hkept x hin)
    · rcases List.mem_cons.mp hd' with rfl | hd'
      · exact ⟨hseen, fun x hx => (hnew x hx).2.2, ok_of_checkAntennas hantennas⟩
      · exact ⟨fun hin => (hrest d' hd').1 (.tail _ hin), (hrest d' hd').2⟩

end StationDef

/-- What the checks of a definition say. -/
structure Valid (s : StationDef) : Prop where
  channels : (s.channels.map (·.id)).Nodup
  channel_ok : ∀ c ∈ s.channels, s.ChannelOk c
  wires : (s.channels.flatMap ChannelDef.wires).Nodup
  devices : (s.devices.map (·.id)).Nodup
  sources : (StationDef.sources s.devices).Nodup
  device_ok : ∀ d ∈ s.devices, s.DeviceOk d
  depends : ∀ d ∈ s.devices, ∀ dep ∈ d.dependsOn, ∃ d', s.device dep = some d'
  order : ∃ order, s.powerOnOrder = .ok order

namespace Valid

open StationDef

theorem of_validate (h : s.validate = .ok ()) : Valid s := by
  obtain ⟨⟨⟩, hchannels, h⟩ := ok_of_bind h
  obtain ⟨⟨⟩, hwires, h⟩ := ok_of_bind h
  obtain ⟨⟨⟩, -, h⟩ := ok_of_bind h
  obtain ⟨⟨⟩, hdevices, h⟩ := ok_of_bind h
  obtain ⟨⟨⟩, hdepends, h⟩ := ok_of_bind h
  obtain ⟨⟨⟩, -, h⟩ := ok_of_bind h
  obtain ⟨order, horder, -⟩ := ok_of_bind h
  obtain ⟨hids, hchannel⟩ := ok_of_checkChannels hchannels
  obtain ⟨hnames, hsources, -, hdevice⟩ := ok_of_checkDevices hdevices
  refine ⟨hids, fun c hc => (hchannel c hc).2, ?_, hnames, hsources,
    fun d hd => (hdevice d hd).2, ?_, order, horder⟩
  · simp only [checkWires] at hwires
    split at hwires
    · cases hwires
    · exact (nodup_of_twice ‹_›).1
  · intro d hd dep hdep
    simp only [checkDepends] at hdepends
    split at hdepends
    · cases hdepends
    next hnone =>
      have hin : (d.id, dep) ∈ s.devices.flatMap fun d => d.dependsOn.map (d.id, ·) :=
        List.mem_flatMap.mpr ⟨d, hd, List.mem_map_of_mem hdep⟩
      have hsome := List.find?_eq_none.mp hnone _ hin
      exact Option.ne_none_iff_exists'.mp (by simpa using hsome)

theorem channel (h : Valid s) {c : ChannelDef} (hc : c ∈ s.channels) : s.channel c.id = some c :=
  find?_of_nodup h.channels hc

theorem device (h : Valid s) {d : DeviceDef} (hd : d ∈ s.devices) : s.device d.id = some d :=
  find?_of_nodup h.devices hd

/-- A member of a list is in one of its parts, when no part shares an element with another. -/
theorem eq_of_mem_flatMap {α β : Type} {f : α → List β} {xs : List α} (h : (xs.flatMap f).Nodup)
    {x y : α} (hx : x ∈ xs) (hy : y ∈ xs) {b : β} (hbx : b ∈ f x) (hby : b ∈ f y) : x = y := by
  by_contra hne
  have hdisjoint := (List.nodup_flatMap.mp h).2
  have : Std.Symm (Function.onFun List.Disjoint f) := ⟨fun _ _ hd _ hy hx => hd hx hy⟩
  exact hdisjoint.forall hx hy hne hbx hby

/-- A line belongs to one channel. -/
theorem wire_owner (h : Valid s) {c c' : ChannelDef} (hc : c ∈ s.channels) (hc' : c' ∈ s.channels)
    {w : String × Nat} (hw : w ∈ c.wires) (hw' : w ∈ c'.wires) : c = c' :=
  eq_of_mem_flatMap h.wires hc hc' hw hw'

/-- The channel of a power source is of its type. -/
theorem source (h : Valid s) {d : DeviceDef} (hd : d ∈ s.devices) {id : ChannelId}
    {momentary : Bool} (hid : (id, momentary) ∈ d.power.sources) :
    ∃ c, s.channel id = some c ∧ c.kind.powers momentary = true :=
  (h.device_ok d hd).1 _ hid

/-- A channel powers one device. -/
theorem source_unique (h : Valid s) {d d' : DeviceDef} (hd : d ∈ s.devices) (hd' : d' ∈ s.devices)
    {id : ChannelId} (hid : id ∈ d.power.sources.map Prod.fst)
    (hid' : id ∈ d'.power.sources.map Prod.fst) : d = d' :=
  eq_of_mem_flatMap h.sources hd hd' hid hid'

end Valid

end HamsOpen.Station
