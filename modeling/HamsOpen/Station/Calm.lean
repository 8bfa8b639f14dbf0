import HamsOpen.Lib.Steady
import HamsOpen.Station.Plant
import HamsOpen.Station.Valid

/-!
# Commands that keep what holds of their local state

The commands of the station ask, wait and tell, and leave the driving to the operations of the
switchboard. So where these keep a condition on the local state of a protocol, the commands do.
-/

namespace HamsOpen.Station

/-- The actions of a command itself: it asks, waits and tells. -/
def Act.asks : Act → Bool
  | .now | .sleep _ | .status _ | .emit _ | .key _ | .answers _ => true
  | _ => false

variable {L : Type} {P : Protocol Act Act.Answer L} {J : L → Prop} {α : Type}

theorem device_of_ok {site : Site} {id : DeviceId} {d : DeviceDef} (h : site.deviceOf id = .ok d) :
    site.station.device id = some d := by
  unfold Site.deviceOf at h
  split at h
  next hd => rw [hd, Except.ok.inj h]
  · cases h

/-- An operation keeps a condition on its local state. -/
abbrev Op.Steady (P : Protocol Act Act.Answer L) (J : L → Prop) (x : Op α) : Prop :=
  Prog.Steady P J x.run

/-- A condition that the actions of a command itself keep. -/
structure Calm (P : Protocol Act Act.Answer L) (J : L → Prop) : Prop where
  asks : ∀ (a : Act) (l : L), a.asks = true → J l → P.allows l a ∧ ∀ r, J (P.after l a r)

open Prog.Steady

theorem steady_of (r : Except StationError α) : (Op.of r).Steady P J := fun _ hl => hl

/-- A value computed at once, and then the rest. -/
theorem steady_of_bind {β : Type} {r : Except StationError α} {f : α → Op β}
    (h : ∀ a, r = .ok a → (f a).Steady P J) : Op.Steady P J (Op.of r >>= f) := by
  cases r with
  | error e => exact throw e
  | ok a => exact h a rfl

theorem steady_attempt {x : Op α} (h : x.Steady P J) : (attempt x).Steady P J :=
  Prog.Steady.bind h fun r => Prog.Steady.pure (Except.ok r)

namespace Calm

variable (h : Calm P J) (site : Site)

include h

/-- An action of a command itself, and then the rest. -/
theorem ask {a : Act} {f : a.Answer → Op α} (ha : a.asks = true) (hf : ∀ r, (f r).Steady P J) :
    Op.Steady P J ((liftM (perform a) : Op a.Answer) >>= f) :=
  Prog.Steady.act (fun l hl => h.asks a l ha hl) hf

theorem askTask {a : Act} (ha : a.asks = true) : Prog.Steady P J (perform a) :=
  Prog.Steady.perform fun l hl => h.asks a l ha hl

theorem sleep (d : Duration) : (sleep d).Steady P J :=
  h.ask rfl fun _ => h.ask rfl fun _ => try_pure _

theorem status (id : ChannelId) : (site.status id).Steady P J :=
  try_bind (steady_of _) fun _ => lift (h.askTask rfl)

theorem known (id : ChannelId) : (site.known id).Steady P J :=
  try_bind (h.status site id) fun _ => try_pure _

theorem emit (e : StationEvent) : (Site.emit e).Steady P J := h.ask rfl fun _ => try_pure _

theorem askKeyed (what : String) (n : Nat) (names : List String) :
    (Site.askKeyed what n names).Steady P J := by
  induction names generalizing n with
  | nil => exact try_pure _
  | cons name rest ih =>
    refine h.ask rfl fun state => ?_
    cases state with
    | unkeyed => exact ih (n + 1)
    | keyed => exact try_bind (h.emit _) fun _ => throw _
    | unknown => exact try_bind (h.emit _) fun _ => throw _

theorem guardAction (action : Action) (what : String) :
    (site.guardAction action what).Steady P J := by
  unfold Site.guardAction
  split
  · exact try_pure _
  · exact h.askKeyed what 0 site.keyed

theorem devicePower (id : DeviceId) : (site.devicePower id).Steady P J := by
  refine try_bind (steady_of _) fun d => ?_
  cases d.power with
  | alwaysOn => exact try_pure _
  | channel id => exact h.known site id
  | momentary => exact try_pure _

theorem checkAmpPowered (device : DeviceId) : (site.checkAmpPowered device).Steady P J := by
  refine try_bind (h.devicePower site device) fun p => ?_
  split
  · exact throw _
  · exact try_pure _

theorem checkOperate (c : ChannelDef) : (site.checkOperate c).Steady P J := by
  unfold Site.checkOperate
  split
  · refine try_bind (h.checkAmpPowered site _) fun _ => ?_
    split
    · refine try_bind (h.status site _) fun s => ?_
      split
      · exact try_pure _
      · exact throw _
      · exact throw _
    · exact try_pure _
  · exact try_pure _

theorem checkDependencies (d : DeviceDef) (deps : List DeviceId) :
    (site.checkDependencies d deps).Steady P J := by
  induction deps with
  | nil => exact try_pure _
  | cons dep rest ih =>
    refine try_bind (h.devicePower site dep) fun p => ?_
    split
    · exact throw _
    · exact ih

theorem checkAntennas (d : DeviceDef) (antennas : List ChannelId) :
    (site.checkAntennas d antennas).Steady P J := by
  induction antennas with
  | nil => exact try_pure _
  | cons a rest ih =>
    refine try_bind (h.known site a) fun v => ?_
    split
    · exact throw _
    · exact ih

theorem checkPowerOn (d : DeviceDef) : (site.checkPowerOn d).Steady P J :=
  try_bind (h.checkDependencies site d _) fun _ => h.checkAntennas site d _

theorem checkTune (id : ChannelId) : (site.checkTune id).Steady P J := by
  unfold Site.checkTune
  split
  · exact h.checkAmpPowered site _
  · exact try_pure _

theorem setOperated {id : ChannelId} {value : Value} (hset : (site.set id value).Steady P J) :
    (site.setOperated id value).Steady P J := by
  have hrest : Op.Steady P J (do
      let _ ← site.set id value) :=
    try_bind hset fun _ => try_pure _
  unfold Site.setOperated
  dsimp only
  split
  · split
    · exact try_bind (h.checkOperate site _) fun _ => hrest
    · exact hrest
  · exact hrest

theorem standby (hset : ∀ id, (site.set id .off).Steady P J) (device : DeviceId) :
    (site.standby device).Steady P J := by
  unfold Site.standby
  dsimp only
  split
  · refine try_bind (steady_attempt (h.status site _)) fun s => ?_
    split
    · exact try_bind (steady_attempt (hset _)) fun _ => try_pure _
    · exact try_pure _
  · exact try_pure _

theorem waitReady (d : DeviceDef) : (site.waitReady d).Steady P J := by
  unfold Site.waitReady
  split
  · exact try_pure _
  · refine h.ask rfl fun now => ?_
    refine Prog.Steady.iterate fun _ => ?_
    refine Prog.Steady.bind (h.askTask rfl) fun yes => ?_
    cases yes with
    | true => exact Prog.Steady.pure _
    | false =>
      refine Prog.Steady.bind (h.askTask rfl) fun now => ?_
      split
      · exact Prog.Steady.pure _
      · exact Prog.Steady.bind (h.sleep _) fun _ => Prog.Steady.pure _

theorem settle (d : DeviceDef) : (site.settle d).Steady P J := by
  have hrest : Op.Steady P J (do
      HamsOpen.Station.sleep d.settleMs
      site.waitReady d) :=
    try_bind (h.sleep _) fun _ => h.waitReady site d
  unfold Site.settle
  dsimp only
  split
  · exact try_bind (h.sleep _) fun _ => hrest
  · exact hrest

theorem powerDown {d : DeviceDef} (hset : ∀ id, (site.set id .off).Steady P J)
    (hpulse : ∀ on off, d.power = .momentary on (some off) → (site.pulseLine off).Steady P J)
    (target : DeviceId) : (site.powerDown target d).Steady P J := by
  refine try_bind (h.guardAction site _ _) fun _ => ?_
  refine try_bind (h.standby site hset _) fun _ => ?_
  refine try_bind (h.sleep _) fun _ => ?_
  split
  · split
    · exact throw _
    · exact try_pure _
  · exact try_bind (hset _) fun _ => try_pure _
  next on off hpower => exact try_bind (hpulse on off hpower) fun _ => try_pure _
  · exact throw _

theorem powerDownAll (hscan : ∀ d l, J l → P.allows l (.scans d) ∧ J (P.after l (.scans d) ()))
    (hdown : ∀ target, ∀ d ∈ site.station.devices, (site.powerDown target d).Steady P J)
    (target : DeviceId) (devices : List DeviceId) :
    (site.powerDownAll target devices).Steady P J := by
  induction devices with
  | nil => exact try_pure _
  | cons dev rest ih =>
    refine steady_of_bind fun d hd => ?_
    have hd := (StationDef.mem_of_device (device_of_ok hd)).1
    refine Prog.Steady.act (fun l hl => ⟨(hscan _ l hl).1, fun _ => (hscan _ l hl).2⟩) fun _ => ?_
    refine try_bind (h.devicePower site dev) fun p => ?_
    split
    · exact try_bind (try_pure _) fun _ => try_bind ih fun _ => try_pure _
    · exact try_bind (hdown _ d hd) fun _ => try_bind ih fun _ => try_pure _

theorem powerOff (hscan : ∀ d l, J l → P.allows l (.scans d) ∧ J (P.after l (.scans d) ()))
    (hdown : ∀ target, ∀ d ∈ site.station.devices, (site.powerDown target d).Steady P J)
    (id : DeviceId) :
    (site.powerOff id).Steady P J := by
  refine try_bind (steady_of _) fun target => ?_
  refine try_bind (h.guardAction site _ _) fun _ => ?_
  refine try_bind (h.powerDownAll site hscan hdown _ _) fun done => ?_
  exact Prog.Steady.act (fun l hl => ⟨(hscan _ l hl).1, fun _ => (hscan _ l hl).2⟩)
    fun _ => try_pure _

theorem select (hset : ∀ id port, (site.set id (.port port)).Steady P J) (id : ChannelId)
    (port : Nat) : (site.select id port).Steady P J :=
  try_bind (h.guardAction site _ _) fun _ => try_bind (hset id port) fun _ => try_pure _

theorem runSteps (p : ProfileDef) (i : Nat) {steps : List ProfileStep}
    (hstep : ∀ step ∈ steps, (site.runStep step).Steady P J) :
    (site.runSteps p i steps).Steady P J := by
  induction steps generalizing i with
  | nil => exact try_pure _
  | cons step rest ih =>
    refine try_bind (h.emit _) fun _ => ?_
    refine try_bind ?_ fun skip => ?_
    · cases step with
      | power device => exact try_bind (h.devicePower site device) fun _ => try_pure _
      | select => exact try_pure _
    refine try_bind (steady_attempt ?_) fun r => ?_
    · split
      · exact try_pure _
      · exact hstep step (.head _)
    cases r with
    | error e => exact try_bind (h.emit _) fun _ => throw _
    | ok _ => exact ih (i + 1) fun step hs => hstep step (.tail _ hs)

theorem runProfile (hlost : ∀ l, J (P.lost l)) (name : String)
    (hstep : ∀ p, site.profile name = .ok p →
      ∀ step ∈ p.steps, (site.runStep step).Steady P J) :
    (site.runProfile name).Steady P J := by
  refine steady_of_bind fun p hp => h.ask rfl fun now => ?_
  refine try_bind (lift (Prog.Steady.within hlost ?_)) fun r => ?_
  · exact h.runSteps site p 0 (hstep p hp)
  cases r with
  | some r => exact steady_of r
  | none => exact throw _

theorem stopDevices (hoff : ∀ id, (site.powerOff id).Steady P J) (p : ProfileDef) (i : Nat)
    (devices : List DeviceId) : (site.stopDevices p i devices).Steady P J := by
  induction devices generalizing i with
  | nil => exact try_pure _
  | cons device rest ih =>
    refine try_bind (h.emit _) fun _ => ?_
    refine try_bind (h.devicePower site device) fun v => ?_
    split
    · exact try_bind (hoff device) fun _ => ih (i + 1)
    · exact ih (i + 1)

theorem stopProfile (hoff : ∀ id, (site.powerOff id).Steady P J) (name : String) :
    (site.stopProfile name).Steady P J :=
  try_bind (steady_of _) fun p => h.stopDevices site hoff p 0 _

theorem forceAll (hlost : ∀ l, J (P.lost l)) (report : AllOffReport) {ids : List ChannelId}
    (hforce : ∀ id ∈ ids, (site.forceOff id).Steady P J) :
    Prog.Steady P J (site.forceAll report ids) := by
  induction ids generalizing report with
  | nil => exact Prog.Steady.pure _
  | cons ch rest ih =>
    have hrest := fun report => ih report fun id hid => hforce id (.tail _ hid)
    refine Prog.Steady.bind (h.askTask rfl) fun now => ?_
    refine Prog.Steady.bind (Prog.Steady.within hlost (hforce ch (.head _))) fun r => ?_
    split
    · exact hrest _
    · exact hrest _
    · exact hrest _

theorem allOff (hlost : ∀ l, J (P.lost l))
    (hforce : ∀ id ∈ site.allOffOrder, (site.forceOff id).Steady P J) :
    Prog.Steady P J site.allOff :=
  Prog.Steady.bind (h.forceAll site hlost _ hforce) fun _ =>
    Prog.Steady.bind (h.askTask rfl) fun _ => Prog.Steady.pure _

end Calm

end HamsOpen.Station
