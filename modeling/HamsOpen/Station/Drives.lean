import HamsOpen.Station.Calm
import Mathlib

/-!
# What the operations of the switchboard drive

An operation of the switchboard drives the lines of its channel and no other, and what it drives them
to is settled by what it was asked for. Where a protocol allows these drives, the operation keeps to
it.
-/

namespace HamsOpen.Station

/-- The line of a channel that has one. -/
def ChannelDef.wire (c : ChannelDef) : Wire := (c.driver, c.line)

/-- Setting the channel to the value may drive the line to the level. -/
def ChannelDef.Drives (c : ChannelDef) (value : Value) (w : Wire) (on : Bool) : Prop :=
  match c.kind with
  | .selector _ _ => w ∈ c.wires ∧ (on = true → value.target.isSome)
  | _ => w = c.wire ∧ on = (value == .on)

section Channels

variable {site : Site} {c : ChannelDef}

theorem channel_of_chan {id : ChannelId} (h : site.chan id = .ok c) :
    site.station.channel id = some c := by
  unfold Site.chan at h
  split at h
  next hc => rw [hc, Except.ok.inj h]
  · cases h

theorem chan_of_channel {id : ChannelId} (h : site.station.channel id = some c) :
    site.chan id = .ok c := by
  unfold Site.chan
  rw [h]

theorem mem_of_chan {id : ChannelId} (h : site.chan id = .ok c) :
    c ∈ site.station.channels ∧ c.id = id :=
  StationDef.mem_of_channel (channel_of_chan h)

theorem chan_self {id : ChannelId} (h : site.chan id = .ok c) : site.chan c.id = .ok c := by
  rw [(mem_of_chan h).2, h]

theorem of_ok_bind {α β : Type} (a : α) (f : α → Op β) : Op.of (.ok a) >>= f = f a := rfl

theorem ways_eq_none (h : ∀ ways settle, c.kind ≠ .selector ways settle) : c.kind.ways = none := by
  cases hkind : c.kind with
  | selector ways settle => exact absurd hkind (h ways settle)
  | _ => rfl

theorem mem_wires (h : c.kind.ways = none) : c.wire ∈ c.wires := by
  unfold ChannelDef.wires ChannelDef.lines
  split
  next hkind => simp [hkind, ChannelKind.ways] at h
  · exact .head _

theorem wire_of_drives {value : Value} {w : Wire} {on : Bool} (h : c.Drives value w on) :
    w ∈ c.wires := by
  unfold ChannelDef.Drives at h
  split at h
  · exact h.1
  next hkind => exact h.1 ▸ mem_wires (ways_eq_none hkind)

/-- An amplifier-operate or power channel. -/
def ChannelKind.stops (kind : ChannelKind) : Bool := kind.isPower || kind.isOperate

theorem stops_of_power {kind : ChannelKind} (h : kind.isPower = true) : kind.stops = true := by
  simp [ChannelKind.stops, h]

theorem ways_of_stops (h : c.kind.stops = true) : c.kind.ways = none := by
  cases hkind : c.kind with
  | selector => simp [hkind, ChannelKind.stops, ChannelKind.isPower, ChannelKind.isOperate] at h
  | _ => rfl

theorem pulseWidth_of_stops (h : c.kind.stops = true) : Site.pulseWidth c.kind = none := by
  cases hkind : c.kind with
  | momentary => simp [hkind, ChannelKind.stops, ChannelKind.isPower, ChannelKind.isOperate] at h
  | amplifier _ function =>
    cases function with
    | tune => simp [hkind, ChannelKind.stops, ChannelKind.isPower, ChannelKind.isOperate] at h
    | operate => rfl
  | _ => rfl

section Stops

variable (hvalid : Valid site.station) (hc : c ∈ site.station.channels) (hstops : c.kind.stops = true)

include hvalid hc hstops

/-- Only setting the channel on drives its line on. -/
theorem drives_on {id : ChannelId} {value : Value} {c' : ChannelDef} (hc' : site.chan id = .ok c')
    (hon : c'.Drives value c.wire true) : id = c.id ∧ value = .on := by
  obtain ⟨hmem, rfl⟩ := mem_of_chan hc'
  obtain rfl := hvalid.wire_owner hmem hc (wire_of_drives hon) (mem_wires (ways_of_stops hstops))
  refine ⟨rfl, ?_⟩
  unfold ChannelDef.Drives at hon
  split at hon
  next hkind => simp [hkind, ChannelKind.stops, ChannelKind.isPower, ChannelKind.isOperate] at hstops
  · simpa using hon.2.symm

/-- No pulse is on the line of the channel. -/
theorem pulse_ne {id : ChannelId} {c' : ChannelDef} (hc' : site.chan id = .ok c')
    (hwidth : (Site.pulseWidth c'.kind).isSome = true) : c'.wire ≠ c.wire := by
  intro heq
  obtain ⟨hmem, -⟩ := mem_of_chan hc'
  have hways : c'.kind.ways = none := by
    cases hkind : c'.kind with
    | selector => simp [hkind, Site.pulseWidth] at hwidth
    | _ => rfl
  obtain rfl := hvalid.wire_owner hmem hc (heq ▸ mem_wires hways)
    (mem_wires (ways_of_stops hstops))
  simp [pulseWidth_of_stops hstops] at hwidth

end Stops

end Channels

open Prog in
theorem follows_status {L : Type} {P : Protocol Act Act.Answer L} {site : Site} {id : ChannelId}
    {c : ChannelDef} (hc : site.chan id = .ok c) {l : L}
    {Q : L → Except StationError (ChanState × Option Value) → Prop} :
    (site.status id).run.Follows P l Q ↔
      P.allows l (.status id) ∧ ∀ r, Q (P.after l (.status id) r) (.ok r) := by
  unfold Site.status
  rw [hc]
  exact follows_lift

open Prog in
theorem follows_emit {L α : Type} {P : Protocol Act Act.Answer L} {e : StationEvent} {f : Unit → Op α}
    {l : L} {Q : L → Except StationError α → Prop} :
    (Site.emit e >>= f).run.Follows P l Q ↔
      P.allows l (.emit e) ∧ (f ()).run.Follows P (P.after l (.emit e) ()) Q := by
  refine follows_try_bind.trans (follows_act.trans (and_congr Iff.rfl ?_))
  exact ⟨fun h => h (), fun h _ => h⟩

/-- The actions that begin no drive and record nothing. -/
def Act.plain : Act → Bool
  | .write _ _ | .relies _ _ | .scans _ | .store _ _ _ | .level _ | .watches _ | .lastOff _ => false
  | _ => true

variable {L : Type} {P : Protocol Act Act.Answer L} {J : L → Prop} {W : Wire → Bool → Prop}
  {site : Site} {α : Type}

/-- The protocol allows the drives in `W`, everything that begins no drive and records nothing, to
record that a channel is not confirmed, and the parts of an operation that read a channel. -/
structure Handling (P : Protocol Act Act.Answer L) (J : L → Prop) (W : Wire → Bool → Prop)
    (site : Site) : Prop where
  plain : ∀ (a : Act) (l : L), a.plain = true → J l → P.allows l a ∧ ∀ r, J (P.after l a r)
  writes : ∀ w on l, W w on → J l → P.allows l (.write w on) ∧ J (P.after l (.write w on) ())
  stores : ∀ id commanded confirmed l, (confirmed = none ∨ confirmed = some none) → J l →
    P.allows l (.store id commanded confirmed) ∧ J (P.after l (.store id commanded confirmed) ())
  verify : ∀ c want, site.chan c.id = .ok c → (site.verify c want).Steady P J
  checkOpen : ∀ c value target n lines, site.chan c.id = .ok c → lines ⊆ c.lines →
    (Site.checkOpen c value target n lines).Steady P J
  reread : ∀ c, site.chan c.id = .ok c → (site.reread c).Steady P J

/-- An action that begins no drive, not even to safety, and records nothing. -/
def Act.quiet (a : Act) : Bool :=
  match a with
  | .force _ => false
  | a => a.plain

/-- The protocol allows the drives in `W` and no drive to safety in general, and otherwise what
`Handling` says. -/
structure Operating (P : Protocol Act Act.Answer L) (J : L → Prop) (W : Wire → Bool → Prop)
    (site : Site) : Prop where
  quiet : ∀ (a : Act) (l : L), a.quiet = true → J l → P.allows l a ∧ ∀ r, J (P.after l a r)
  writes : ∀ w on l, W w on → J l → P.allows l (.write w on) ∧ J (P.after l (.write w on) ())
  stores : ∀ id commanded confirmed l, (confirmed = none ∨ confirmed = some none) → J l →
    P.allows l (.store id commanded confirmed) ∧ J (P.after l (.store id commanded confirmed) ())
  verify : ∀ c want, site.chan c.id = .ok c → (site.verify c want).Steady P J
  checkOpen : ∀ c value target n lines, site.chan c.id = .ok c → lines ⊆ c.lines →
    (Site.checkOpen c value target n lines).Steady P J
  reread : ∀ c, site.chan c.id = .ok c → (site.reread c).Steady P J

theorem plain_of_quiet {a : Act} (h : a.quiet = true) : a.plain = true := by
  cases a with
  | force => cases h
  | _ => exact h

theorem Handling.operating (h : Handling P J W site) : Operating P J W site where
  quiet a l ha hl := h.plain a l (plain_of_quiet ha) hl
  writes := h.writes
  stores := h.stores
  verify := h.verify
  checkOpen := h.checkOpen
  reread := h.reread

open Prog.Steady

namespace Operating

variable (h : Operating P J W site)

include h

theorem calm : Calm P J where
  asks a l ha hl := by
    refine h.quiet a l ?_ hl
    cases a <;> first | rfl | cases ha

/-- An action that begins no drive and records nothing, and then the rest. -/
theorem step {a : Act} {f : a.Answer → Op α} (ha : a.quiet = true)
    (hf : ∀ r, (f r).Steady P J) :
    Op.Steady P J ((liftM (perform a) : Op a.Answer) >>= f) :=
  Prog.Steady.act (fun l hl => h.quiet a l ha hl) hf

theorem task {a : Act} (ha : a.quiet = true) : Prog.Steady P J (perform a) :=
  Prog.Steady.perform fun l hl => h.quiet a l ha hl

/-- Something is recorded, but no confirmed state, and then the rest. -/
theorem store {id : ChannelId} {commanded confirmed : Option (Option Value)} {f : Unit → Op α}
    (hc : confirmed = none ∨ confirmed = some none) (hf : ∀ r, (f r).Steady P J) :
    Op.Steady P J ((liftM (perform (.store id commanded confirmed)) : Op Unit) >>= f) :=
  Prog.Steady.act (fun l hl => ⟨(h.stores id commanded confirmed l hc hl).1,
    fun _ => (h.stores id commanded confirmed l hc hl).2⟩) hf

theorem locked (id : ChannelId) {body : Op α} (hbody : body.Steady P J) :
    (locked id body).Steady P J :=
  Prog.Steady.bind (h.task rfl) fun _ => Prog.Steady.bind hbody fun r =>
    Prog.Steady.bind (h.task rfl) fun _ => Prog.Steady.pure r

theorem fault (c : ChannelDef) (e : StationError) : (Site.fault c e).Steady P J :=
  h.store (.inr rfl) fun _ => h.calm.emit _

/-- What follows the beginning of a drive. -/
theorem written (c : ChannelDef) (line : Nat) (on : Bool) : Op.Steady P J (do
    match ← attempt (ExceptT.mk (perform (.written (c.driver, line) on))) with
    | .ok _ => return ()
    | .error e => do
      Site.fault c e
      MonadExcept.throw e) := by
  refine try_bind (steady_attempt (h.task rfl)) fun r => ?_
  cases r with
  | ok _ => exact try_pure _
  | error e => exact try_bind (h.fault c e) fun _ => throw _

theorem writeLine {c : ChannelDef} {line : Nat} {on : Bool} (hw : W (c.driver, line) on) :
    (Site.writeLine c line on).Steady P J :=
  Prog.Steady.act (fun l hl => ⟨(h.writes _ _ l hw hl).1, fun _ => (h.writes _ _ l hw hl).2⟩)
    fun _ => h.written c line on

theorem openWays {c : ChannelDef} {target : Option Nat} {n : Nat} {lines : List Nat}
    (hw : ∀ line ∈ lines, W (c.driver, line) false) :
    (Site.openWays c target n lines).Steady P J := by
  induction lines generalizing n with
  | nil => exact try_pure _
  | cons line rest ih =>
    have hrest := ih (n := n + 1) fun line hl => hw line (.tail _ hl)
    unfold Site.openWays
    split
    · exact try_bind (h.writeLine (hw line (.head _))) fun _ => hrest
    · exact hrest

/-- Driving a channel to a value drives its lines to what the value asks for. -/
theorem drive {c : ChannelDef} {value : Value} (hc : site.chan c.id = .ok c)
    (hw : ∀ w on, c.Drives value w on → W w on) : (site.drive c value).Steady P J := by
  unfold Site.drive
  unfold ChannelDef.Drives at hw
  cases hkind : c.kind with
  | selector ways settle =>
    simp only [hkind] at hw
    have hlines {line : Nat} {on : Bool} (hl : line ∈ c.lines)
        (hon : on = true → value.target.isSome) : W (c.driver, line) on :=
      hw _ _ ⟨List.mem_map_of_mem hl, hon⟩
    dsimp only
    refine try_bind (h.openWays fun line hl => hlines hl (by intros; contradiction)) fun _ => ?_
    cases htarget : value.target with
    | none => exact try_pure _
    | some t =>
      dsimp only
      split
      on_goal 1 => refine try_bind (h.checkOpen c value t 1 c.lines hc fun _ => id) fun _ => ?_
      -- with the check and without it, the way is closed
      all_goals
        refine try_bind (h.calm.sleep _) fun _ => ?_
        split
        next line hline =>
          exact h.writeLine (hlines (List.mem_of_getElem? hline) fun _ => by rw [htarget]; rfl)
        · exact throw _
  | _ =>
    simp only [hkind] at hw ⊢
    exact h.writeLine (hw _ _ ⟨rfl, rfl⟩)

/-- Setting a channel drives its lines to what the value asks for. -/
theorem set {id : ChannelId} {value : Value}
    (hcheck : ∀ c, site.chan id = .ok c → (Site.checkMinOff c value).Steady P J)
    (hw : ∀ c, site.chan id = .ok c → Site.settable c.kind value = true →
      ∀ w on, c.Drives value w on → W w on) :
    (site.set id value).Steady P J := by
  refine steady_of_bind fun c hc => h.locked id ?_
  refine try_bind (hcheck c hc) fun _ => ?_
  split
  · exact throw _
  next hsettable =>
  have hw := hw c hc (by simpa using hsettable)
  refine try_bind (h.calm.status site id) fun s => ?_
  split
  · exact try_pure _
  refine h.store (.inl rfl) fun _ => try_bind (h.calm.emit _) fun _ => ?_
  exact try_bind (h.drive (chan_self hc) hw) fun _ => h.verify c value (chan_self hc)

/-- Pulsing a channel drives its line. -/
theorem pulseLine {id : ChannelId}
    (hw : ∀ c, site.chan id = .ok c → (Site.pulseWidth c.kind).isSome → ∀ on, W c.wire on) :
    (site.pulseLine id).Steady P J := by
  refine steady_of_bind fun c hc => ?_
  dsimp only
  split
  · exact throw _
  next width hwidth =>
    have hline (on : Bool) : (Site.writeLine c c.line on).Steady P J :=
      h.writeLine (hw c hc (by rw [hwidth]; rfl) on)
    refine h.locked id ?_
    refine try_bind (h.calm.emit _) fun _ => try_bind (hline true) fun _ => ?_
    refine try_bind (h.calm.sleep _) fun _ => try_bind (steady_attempt (hline false)) fun r => ?_
    cases r with
    | ok _ => exact h.store (.inl rfl) fun _ => h.calm.emit _
    | error e => exact try_bind (hline false) fun _ => h.store (.inl rfl) fun _ => h.calm.emit _

theorem forceLines {c : ChannelDef} {lines : List Nat} (failed : Option StationError)
    (hforce : ∀ line ∈ lines, ∀ l, J l →
      P.allows l (.force (c.driver, line)) ∧ J (P.after l (.force (c.driver, line)) ())) :
    (Site.forceLines c failed lines).Steady P J := by
  induction lines generalizing failed with
  | nil => exact try_pure _
  | cons line rest ih =>
    have hrest := fun failed => ih failed fun line hl => hforce line (.tail _ hl)
    have hline := hforce line (.head _)
    refine Prog.Steady.act (fun l hl => ⟨(hline l hl).1, fun _ => (hline l hl).2⟩) fun _ => ?_
    refine try_bind (steady_attempt (h.task rfl)) fun r => ?_
    cases r with
    | ok _ => exact hrest failed
    | error e => exact hrest (some e)

/-- The emergency all-off drives the lines of a channel to safety. -/
theorem forceOff {id : ChannelId} (hforce : ∀ c, site.chan id = .ok c → ∀ line ∈ c.lines, ∀ l,
    J l → P.allows l (.force (c.driver, line)) ∧ J (P.after l (.force (c.driver, line)) ())) :
    (site.forceOff id).Steady P J := by
  refine steady_of_bind fun c hc => ?_
  split
  · exact try_pure _
  refine try_bind (h.forceLines none (hforce c hc)) fun failed => ?_
  cases failed with
  | none => exact h.store (.inr rfl) fun _ => h.reread c (chan_self hc)
  | some e => exact try_bind (h.fault c e) fun _ => throw _

end Operating

namespace Handling

variable (h : Handling P J W site)

include h

theorem calm : Calm P J := h.operating.calm

theorem task {a : Act} (ha : a.plain = true) : Prog.Steady P J (perform a) :=
  Prog.Steady.perform fun l hl => h.plain a l ha hl

/-- Something is recorded, but no confirmed state, and then the rest. -/
theorem store {id : ChannelId} {commanded confirmed : Option (Option Value)} {f : Unit → Op α}
    (hc : confirmed = none ∨ confirmed = some none) (hf : ∀ r, (f r).Steady P J) :
    Op.Steady P J ((liftM (perform (.store id commanded confirmed)) : Op Unit) >>= f) :=
  h.operating.store hc hf

theorem locked (id : ChannelId) {body : Op α} (hbody : body.Steady P J) :
    (locked id body).Steady P J := h.operating.locked id hbody

theorem fault (c : ChannelDef) (e : StationError) : (Site.fault c e).Steady P J :=
  h.operating.fault c e

/-- What follows the beginning of a drive. -/
theorem written (c : ChannelDef) (line : Nat) (on : Bool) : Op.Steady P J (do
    match ← attempt (ExceptT.mk (perform (.written (c.driver, line) on))) with
    | .ok _ => return ()
    | .error e => do
      Site.fault c e
      MonadExcept.throw e) := h.operating.written c line on

theorem writeLine {c : ChannelDef} {line : Nat} {on : Bool} (hw : W (c.driver, line) on) :
    (Site.writeLine c line on).Steady P J := h.operating.writeLine hw

/-- Setting a channel drives its lines to what the value asks for. -/
theorem set {id : ChannelId} {value : Value}
    (hcheck : ∀ c, site.chan id = .ok c → (Site.checkMinOff c value).Steady P J)
    (hw : ∀ c, site.chan id = .ok c → Site.settable c.kind value = true →
      ∀ w on, c.Drives value w on → W w on) :
    (site.set id value).Steady P J := h.operating.set hcheck hw

/-- Pulsing a channel drives its line. -/
theorem pulseLine {id : ChannelId}
    (hw : ∀ c, site.chan id = .ok c → (Site.pulseWidth c.kind).isSome → ∀ on, W c.wire on) :
    (site.pulseLine id).Steady P J := h.operating.pulseLine hw

/-- The emergency all-off begins no drive but to safety. -/
theorem forceOff (id : ChannelId) : (site.forceOff id).Steady P J :=
  h.operating.forceOff fun c _ line _ l hl =>
    (h.plain (.force (c.driver, line)) l rfl hl).imp_right fun hafter => hafter ()

end Handling

/-! ### Operations that drive their line -/

/-- From one condition on the local state an operation that ends well leads to another. -/
def Reaches (J J' : L → Prop) : L → Except StationError α → Prop
  | l, .ok _ => J' l
  | l, .error _ => J l ∨ J' l

section Reaches

variable {J' : L → Prop} {W' : Wire → Bool → Prop}

theorem reaches_of_steady {x : Op α} (hx : x.Steady P J') {l : L} (hl : J' l) :
    x.run.Follows P l (Reaches J J') := by
  refine (hx l hl).mono ?_
  rintro l' (e | a) hl'
  · exact .inr hl'
  · exact hl'

open Prog in
/-- What keeps the first condition, and then the rest. -/
theorem reaches_then {β : Type} {x : Op α} {f : α → Op β} (hx : x.Steady P J)
    (hf : ∀ a l, J l → (f a).run.Follows P l (Reaches J J')) {l : L} (hl : J l) :
    (x >>= f).run.Follows P l (Reaches J J') := by
  refine follows_try_bind.mpr ((hx l hl).mono ?_)
  rintro l' (e | a) hl'
  · exact .inl hl'
  · exact hf a l' hl'

open Prog in
/-- What leads to the second condition, and then the rest. -/
theorem reaches_bind {β : Type} {x : Op α} {f : α → Op β} {l : L}
    (hx : x.run.Follows P l (Reaches J J')) (hf : ∀ a, (f a).Steady P J') :
    (x >>= f).run.Follows P l (Reaches J J') := by
  refine follows_try_bind.mpr (hx.mono ?_)
  rintro l' (e | a) hl'
  · exact hl'
  · exact reaches_of_steady (hf a) hl'

variable (h : Handling P J W site) (h' : Handling P J' W' site)

include h h'

open Prog in
theorem reaches_locked {id : ChannelId} {body : Op α}
    (hbody : ∀ l, J l → body.run.Follows P l (Reaches J J')) {l : L} (hl : J l) :
    (locked id body).run.Follows P l (Reaches J J') := by
  refine follows_bind.mpr ⟨(h.plain (.lock id) l rfl hl).1, fun _ => ?_⟩
  refine follows_bind.mpr ((hbody _ ((h.plain (.lock id) l rfl hl).2 ())).mono ?_)
  rintro l' (e | a) hl'
  · rcases hl' with hl' | hl'
    · obtain ⟨hallows, hafter⟩ := h.plain (.unlock id) l' rfl hl'
      exact ⟨hallows, fun r => .inl (hafter r)⟩
    · obtain ⟨hallows, hafter⟩ := h'.plain (.unlock id) l' rfl hl'
      exact ⟨hallows, fun r => .inr (hafter r)⟩
  · exact h'.plain (.unlock id) l' rfl hl'

omit h in
open Prog in
theorem reaches_writeLine {c : ChannelDef} {line : Nat} {on : Bool}
    (hwrite : ∀ l, J l → P.allows l (.write (c.driver, line) on) ∧
      J' (P.after l (.write (c.driver, line) on) ())) {l : L} (hl : J l) :
    (Site.writeLine c line on).run.Follows P l (Reaches J J') := by
  refine follows_act.mpr ⟨(hwrite l hl).1, fun _ => ?_⟩
  exact reaches_of_steady (h'.written c line on) (hwrite l hl).2

/-- Setting a channel of one line ends well only when the line was driven. -/
theorem reaches_set {id : ChannelId} {c : ChannelDef} {value : Value} (hc : site.chan id = .ok c)
    (hways : c.kind.ways = none) (htarget : value.target = none)
    (hcheck : (Site.checkMinOff c value).Steady P J)
    (hwrite : ∀ l, J l → P.allows l (.write c.wire (value == .on)) ∧
      J' (P.after l (.write c.wire (value == .on)) ())) {l : L} (hl : J l) :
    (site.set id value).run.Follows P l (Reaches J J') := by
  unfold Site.set
  rw [hc]
  refine reaches_locked h h' (fun l hl => ?_) hl
  refine reaches_then hcheck (fun _ l hl => ?_) hl
  split
  · exact .inl hl
  refine reaches_then (h.calm.status site id) (fun s l hl => ?_) hl
  rw [if_neg fun hs => by simp [htarget] at hs]
  obtain ⟨hallows, hafter⟩ := h.stores id (some (some value)) none l (.inl rfl) hl
  refine Prog.follows_act.mpr ⟨hallows, fun _ => ?_⟩
  refine reaches_then (h.calm.emit _) (fun _ l hl => ?_) hafter
  refine reaches_bind ?_ fun _ => h'.verify c value (chan_self hc)
  unfold Site.drive
  split
  next hkind => simp [hkind, ChannelKind.ways] at hways
  · exact reaches_writeLine h' hwrite hl

/-- Pulsing a channel ends well only when its line was driven. -/
theorem reaches_pulseLine {id : ChannelId} {c : ChannelDef} (hc : site.chan id = .ok c)
    (hwrite : ∀ l, J l → P.allows l (.write c.wire true) ∧ J' (P.after l (.write c.wire true) ()))
    (hoff : W' c.wire false) {l : L} (hl : J l) :
    (site.pulseLine id).run.Follows P l (Reaches J J') := by
  unfold Site.pulseLine
  rw [hc, of_ok_bind]
  split
  · exact .inl hl
  next width _ =>
    refine reaches_locked h h' (fun l hl => ?_) hl
    refine reaches_then (h.calm.emit _) (fun _ l hl => ?_) hl
    refine reaches_bind (reaches_writeLine h' hwrite hl) fun _ => ?_
    refine try_bind (h'.calm.sleep _) fun _ =>
      try_bind (steady_attempt (h'.writeLine hoff)) fun r => ?_
    cases r with
    | ok _ => exact h'.store (.inl rfl) fun _ => h'.calm.emit _
    | error e =>
      exact try_bind (h'.writeLine hoff) fun _ => h'.store (.inl rfl) fun _ => h'.calm.emit _

end Reaches

/-! ### Commands -/

section Commands

variable (h : Calm P J) (hlost : ∀ l, J (P.lost l))
  (hrelies : ∀ d checks l, J l → P.allows l (.relies d checks) ∧ J (P.after l (.relies d checks) ()))
  (hscans : ∀ d l, J l → P.allows l (.scans d) ∧ J (P.after l (.scans d) ()))
  (hset : ∀ id value, (site.set id value).Steady P J)
  (hpulse : ∀ id, (site.pulseLine id).Steady P J)
  (hforce : ∀ id ∈ site.allOffOrder, (site.forceOff id).Steady P J)
  (hread : ∀ id, (site.readBack id).Steady P J)

include hrelies in
theorem steady_relying (d : DeviceId) (checks : Bool) {body : Op α} (hbody : body.Steady P J) :
    (Site.relying d checks body).Steady P J := by
  have hnote (d : Option DeviceId) : Prog.Steady P J (perform (.relies d checks)) :=
    .perform fun l hl => ⟨(hrelies d checks l hl).1, fun _ => (hrelies d checks l hl).2⟩
  exact .bind (hnote _) fun _ => .bind hbody fun r => .bind (hnote _) fun _ => .pure r

include h hrelies hset hpulse in
theorem steady_powerOn (device : DeviceId) : (site.powerOn device).Steady P J := by
  refine steady_of_bind fun d _ => try_bind (h.guardAction site _ _) fun _ => ?_
  refine try_bind (steady_relying hrelies d.id true ?_) fun _ => ?_
  · refine try_bind (h.checkPowerOn site d) fun _ => ?_
    unfold Site.switchOn
    split
    · exact try_pure _
    · exact try_bind (hset _ _) fun _ => try_pure _
    · exact hpulse _
  · split
    · exact try_pure _
    · exact h.settle site d

include h hlost hrelies hscans hset hpulse hforce hread in
/-- The commands keep what the operations of the switchboard keep. -/
theorem steady_run (call : Call) : (site.run call).Steady P J := by
  have hoff (device : DeviceId) : (site.powerOff device).Steady P J :=
    h.powerOff site hscans
      (fun target d _ => h.powerDown site (fun id => hset id .off) (fun _ off _ => hpulse off) target)
      device
  have hselect (id : ChannelId) (port : Nat) : (site.select id port).Steady P J :=
    h.select site (fun id port => hset id _) id port
  cases call with
  | setChannel id value =>
    refine try_map _ (try_bind (h.guardAction site _ _) fun _ => ?_)
    have hoperated : (site.setOperated id value).Steady P J := h.setOperated site (hset id value)
    split
    · exact steady_relying hrelies _ true (try_bind (h.checkPowerOn site _) fun _ => hoperated)
    · exact hoperated
  | select id port => exact try_map _ (hselect id port)
  | pulse id =>
    refine try_map _ (try_bind (h.guardAction site _ _) fun _ => ?_)
    refine try_bind (h.checkTune site id) fun _ => ?_
    unfold Site.press
    split
    · exact steady_relying hrelies _ false (hpulse id)
    · exact hpulse id
  | powerOn device => exact try_map _ (steady_powerOn h hrelies hset hpulse device)
  | powerOff device => exact try_map _ (hoff device)
  | standby device => exact try_map _ (h.standby site (fun id => hset id .off) device)
  | runProfile name =>
    refine try_map _ (h.runProfile site hlost name fun p _ step _ => ?_)
    cases step with
    | power device => exact steady_powerOn h hrelies hset hpulse device
    | select id port => exact hselect id port
  | stopProfile name => exact try_map _ (h.stopProfile site hoff name)
  | allOff => exact map _ (h.allOff site hlost hforce)
  | readBack id => exact try_map _ (hread id)

end Commands

/-- The protocol allows the drives in `W` and everything else but the notes of commands. -/
structure Lenient (P : Protocol Act Act.Answer L) (J : L → Prop) (W : Wire → Bool → Prop) :
    Prop where
  writes : ∀ w on l, W w on → J l → P.allows l (.write w on) ∧ J (P.after l (.write w on) ())
  others : ∀ (a : Act) (l : L), (∀ w on, a ≠ .write w on) → (∀ d checks, a ≠ .relies d checks) →
    (∀ d, a ≠ .scans d) → J l → P.allows l a ∧ ∀ r, J (P.after l a r)

/-- The protocol allows the drives in `W` and everything else but drives to safety and the notes of
commands. -/
structure Lax (P : Protocol Act Act.Answer L) (J : L → Prop) (W : Wire → Bool → Prop) : Prop where
  writes : ∀ w on l, W w on → J l → P.allows l (.write w on) ∧ J (P.after l (.write w on) ())
  others : ∀ (a : Act) (l : L), (∀ w on, a ≠ .write w on) → (∀ d checks, a ≠ .relies d checks) →
    (∀ d, a ≠ .scans d) → (∀ w, a ≠ .force w) → J l → P.allows l a ∧ ∀ r, J (P.after l a r)

theorem Lenient.lax (h : Lenient P J W) : Lax P J W where
  writes := h.writes
  others a l hwrite hrelies hscans _ hl := h.others a l hwrite hrelies hscans hl

namespace Lax

variable (h : Lax P J W) (site : Site)

include h

theorem looks {a : Act} {f : a.Answer → Op α} (hwrite : ∀ w on, a ≠ .write w on)
    (hrelies : ∀ d checks, a ≠ .relies d checks) (hscans : ∀ d, a ≠ .scans d)
    (hforce : ∀ w, a ≠ .force w) (hf : ∀ r, (f r).Steady P J) :
    Op.Steady P J ((liftM (perform a) : Op a.Answer) >>= f) :=
  Prog.Steady.act (fun l hl => h.others a l hwrite hrelies hscans hforce hl) hf

theorem emit (e : StationEvent) : (Site.emit e).Steady P J :=
  h.looks nofun nofun nofun nofun fun _ => try_pure _

theorem fault (c : ChannelDef) (e : StationError) : (Site.fault c e).Steady P J :=
  h.looks nofun nofun nofun nofun fun _ => h.emit _

theorem readLine (c : ChannelDef) (line : Nat) : (Site.readLine c line).Steady P J :=
  h.looks nofun nofun nofun nofun fun _ =>
    Prog.Steady.perform fun l hl => h.others _ l nofun nofun nofun nofun hl

theorem readWays (c : ChannelDef) (n : Nat) (lines : List Nat) :
    (Site.readWays c n lines).Steady P J := by
  induction lines generalizing n with
  | nil => exact try_pure _
  | cons line rest ih =>
    exact try_bind (h.readLine c line) fun _ => try_bind (ih (n + 1)) fun _ => try_pure _

theorem readValue (c : ChannelDef) : (Site.readValue c).Steady P J := by
  unfold Site.readValue
  split
  · exact try_bind (h.readWays c 1 c.lines) fun _ => try_pure _
  · exact try_bind (h.readLine c c.line) fun _ => try_pure _

theorem watching (c : ChannelDef) {next : Except StationError (Option Value) → Op α}
    (hnext : ∀ r, (next r).Steady P J) : (Site.watching c next).Steady P J :=
  h.looks nofun nofun nofun nofun fun _ => try_bind (steady_attempt (h.readValue c)) hnext

theorem unwatch : Site.unwatch.Steady P J := h.looks nofun nofun nofun nofun fun _ => try_pure _

theorem confirm (c : ChannelDef) (got : Option Value) : (Site.confirm c got).Steady P J :=
  h.looks nofun nofun nofun nofun fun _ => h.unwatch

theorem verify (c : ChannelDef) (want : Value) : (site.verify c want).Steady P J := by
  unfold Site.verify
  split
  · exact h.looks nofun nofun nofun nofun fun _ => try_pure _
  · refine h.watching c fun r => ?_
    cases r with
    | error e => exact try_bind (h.fault c e) fun _ => try_bind h.unwatch fun _ => throw _
    | ok got =>
      refine try_bind (h.confirm c got) fun _ => ?_
      split
      · exact try_bind (h.emit _) fun _ => try_pure _
      · exact try_bind (h.emit _) fun _ => throw _

theorem checkOpen (c : ChannelDef) (value : Value) (target n : Nat) (lines : List Nat) :
    (Site.checkOpen c value target n lines).Steady P J := by
  induction lines generalizing n with
  | nil => exact try_pure _
  | cons line rest ih =>
    unfold Site.checkOpen
    split
    · refine try_bind (steady_attempt (h.readLine c line)) fun r => ?_
      split
      · exact try_bind (h.fault c _) fun _ => throw _
      · refine try_bind ?_ fun _ => ih (n + 1)
        exact h.watching c fun _ => try_bind (h.confirm c _) fun _ =>
          try_bind (h.emit _) fun _ => throw _
      · exact ih (n + 1)
    · exact ih (n + 1)

theorem reread (c : ChannelDef) : (site.reread c).Steady P J := by
  unfold Site.reread
  split
  · refine h.watching c fun r => ?_
    cases r with
    | ok v => exact h.confirm c v
    | error e => exact h.unwatch
  · exact try_pure _

theorem checkMinOff (c : ChannelDef) (value : Value) : (Site.checkMinOff c value).Steady P J := by
  unfold Site.checkMinOff
  split
  · refine h.looks nofun nofun nofun nofun fun t => ?_
    split
    · refine h.looks nofun nofun nofun nofun fun now => ?_
      split
      · exact throw _
      · exact try_pure _
    · exact try_pure _
  · exact try_pure _

theorem operating : Operating P J W site where
  quiet a l ha hl := by
    refine h.others a l ?_ ?_ ?_ ?_ hl
    all_goals
      intros
      rintro rfl
      cases ha
  writes := h.writes
  stores id commanded confirmed l _ hl :=
    (h.others (.store id commanded confirmed) l nofun nofun nofun nofun hl).imp_right fun hafter =>
      hafter ()
  verify c want _ := h.verify site c want
  checkOpen c value target n lines _ _ := h.checkOpen c value target n lines
  reread c _ := h.reread site c

theorem readBack (id : ChannelId) : (site.readBack id).Steady P J := by
  refine try_bind (steady_of _) fun c => ?_
  refine (h.operating site).locked id (h.watching c fun r => ?_)
  cases r with
  | ok v => exact try_bind (h.confirm c v) fun _ => try_pure _
  | error e => exact try_bind (h.fault c e) fun _ => try_bind h.unwatch fun _ => throw _

end Lax

namespace Lenient

variable (h : Lenient P J W) (site : Site)

include h

theorem checkMinOff (c : ChannelDef) (value : Value) : (Site.checkMinOff c value).Steady P J :=
  h.lax.checkMinOff c value

theorem handling : Handling P J W site where
  plain a l ha hl := by
    refine h.others a l ?_ ?_ ?_ hl
    all_goals
      intros
      rintro rfl
      cases ha
  writes := h.writes
  stores := (h.lax.operating site).stores
  verify := (h.lax.operating site).verify
  checkOpen := (h.lax.operating site).checkOpen
  reread := (h.lax.operating site).reread

theorem readBack (id : ChannelId) : (site.readBack id).Steady P J := h.lax.readBack site id

end Lenient

end HamsOpen.Station
