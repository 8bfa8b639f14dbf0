import HamsOpen.Station.AllOffReport
import HamsOpen.Station.Pulse
import Mathlib

/-!
# Break before make

A selector has one line for each of its ways. Only setting it drives its lines, and only while it
holds the operation lock of the selector: first every way but the one that was asked for is driven
open, and where the lines can be read, seen open, and only then the one is driven closed. So however
the drivers fail and wherever a command is cut, no two ways were driven closed without one of them
having been opened since.
-/

namespace HamsOpen.Station

/-- The station drove the line closed, and no driver has said since that it opened it. The latest
event comes first. -/
def closed (site : Site) (w : Wire) : List Event → Bool
  | [] => false
  | .write _ w' true :: log => w' == w || closed site w log
  | .written _ w' false true :: log => w' != w && closed site w log
  | .force _ w' :: log => w' == w && Plant.safeLevel site w || closed site w log
  | _ :: log => closed site w log

/-- The command was told to select the way of the line, and since then it drove every other line of
the selector open, which its driver did, and where lines can be read it saw each open. -/
def Prepared (site : Site) (c : ChannelDef) (k : Nat) (w : Wire) (log : List Event) : Prop :=
  ∃ n since before, log = since ++ .emitted k (.commanded c.id (.port n)) :: before ∧
    (∀ v, .emitted k (.commanded c.id v) ∉ since) ∧ c.wires[n - 1]? = some w ∧
    ∀ w' ∈ c.wires, w' ≠ w →
      .write k w' false ∈ since ∧ .written k w' false true ∈ since ∧
      (site.canReadBack c = true → ∃ later sooner,
        since = later ++ .read k w' (some false) :: sooner ∧ .written k w' false true ∈ sooner)

/-- What a command knows of the selector it holds: the way it was told to select, and since then the
lines it began to drive open, the ones that its driver opened, and the ones it then saw open. -/
structure Switch where
  held : Bool
  way : Option Nat
  begun : List Wire
  opened : List Wire
  seen : List Wire

/-- A command that knows nothing of the selector. -/
def Switch.idle : Switch := ⟨false, none, [], [], []⟩

variable {site : Site} {c : ChannelDef}

/-- Every other line of the selector is open. -/
def Switch.Ready (site : Site) (c : ChannelDef) (l : Switch) (w : Wire) : Prop :=
  ∃ n, l.way = some n ∧ c.wires[n - 1]? = some w ∧
    ∀ w' ∈ c.wires, w' ≠ w → w' ∈ l.opened ∧ (site.canReadBack c = true → w' ∈ l.seen)

/-- What an action makes of what a command knows. -/
def Switch.after (c : ChannelDef) (l : Switch) : (a : Act) → a.Answer → Switch
  | .lock id, _ => if id = c.id then { Switch.idle with held := true } else l
  | .unlock id, _ => if id = c.id then .idle else l
  | .emit (.commanded id v), _ => if id = c.id then ⟨l.held, v.target, [], [], []⟩ else l
  | .write _ true, _ => ⟨l.held, none, [], [], []⟩
  | .write w false, _ => { l with begun := w :: l.begun }
  | .written w false, .ok _ => if w ∈ l.begun then { l with opened := w :: l.opened } else l
  | .level w, .ok false => if w ∈ l.opened then { l with seen := w :: l.seen } else l
  | _, _ => l

/-- The protocol of a command on a selector. -/
def switching (site : Site) (c : ChannelDef) : Protocol Act Act.Answer Switch where
  allows l a := match a with
    | .write w on => w ∈ c.wires → l.held = true ∧ (on = true → l.Ready site c w)
    | .force w => w ∉ c.wires
    | _ => True
  after := Switch.after c
  lost _ := .idle

theorem switching_lax (site : Site) (c : ChannelDef) :
    Lax (switching site c) (fun _ => True) fun w _ => w ∉ c.wires where
  writes w _ l hw _ := ⟨fun hmem => absurd hmem hw, trivial⟩
  others a l hwrite _ _ hforce _ := by
    refine ⟨?_, fun _ => trivial⟩
    cases a with
    | write w on => exact absurd rfl (hwrite w on)
    | force w => exact absurd rfl (hforce w)
    | _ => trivial

/-! ### Setting a selector -/

section Set

open Prog

/-- The command knows at least as much as before. -/
structure Switch.Grows (l l' : Switch) : Prop where
  held : l'.held = l.held
  way : l'.way = l.way
  opened : l.opened ⊆ l'.opened
  seen : l.seen ⊆ l'.seen

theorem Switch.Grows.refl (l : Switch) : l.Grows l :=
  ⟨rfl, rfl, List.Subset.refl _, List.Subset.refl _⟩

theorem Switch.Grows.trans {l l' l'' : Switch} (h : l.Grows l') (h' : l'.Grows l'') : l.Grows l'' :=
  ⟨h'.held.trans h.held, h'.way.trans h.way, List.Subset.trans h.opened h'.opened,
    List.Subset.trans h.seen h'.seen⟩

/-- Nothing is asked of what comes after an error. -/
def Unless {α : Type} (Q : Switch → α → Prop) (l : Switch) : Except StationError α → Prop
  | .ok a => Q l a
  | .error _ => True

/-- A part of which only the end matters where it ends well, and then the rest. -/
theorem follows_unless {α β : Type} {P : Protocol Act Act.Answer Switch} {x : Op α} {f : α → Op β}
    {l : Switch} {Q : Switch → α → Prop} {Q' : Switch → β → Prop}
    (hx : x.run.Follows P l (Unless Q)) (hf : ∀ a l', Q l' a → (f a).run.Follows P l' (Unless Q')) :
    (x >>= f).run.Follows P l (Unless Q') := by
  refine follows_try_bind.mpr (hx.mono ?_)
  rintro l' (e | a) hl'
  · trivial
  · exact hf a l' hl'

theorem unless_of_steady {α : Type} {P : Protocol Act Act.Answer Switch} {x : Op α}
    (hx : x.Steady P fun _ => True) (l : Switch) : x.run.Follows P l (Unless fun _ _ => True) :=
  (hx l trivial).mono fun _ r _ => by cases r <;> trivial

/-- A part that nothing is asked of, and then the rest. -/
theorem unless_then {α β : Type} {P : Protocol Act Act.Answer Switch} {x : Op α} {f : α → Op β}
    {l : Switch} {Q : Switch → β → Prop} (hx : x.Steady P fun _ => True)
    (hf : ∀ a l', (f a).run.Follows P l' (Unless Q)) : (x >>= f).run.Follows P l (Unless Q) :=
  follows_unless (unless_of_steady hx l) fun a l' _ => hf a l'

/-- A line is opened when its driver says so. -/
theorem writeLine_opens {l : Switch} (hheld : l.held = true) (line : Nat) :
    (Site.writeLine c line false).run.Follows (switching site c) l
      (Unless fun l' _ => l.Grows l' ∧ (c.driver, line) ∈ l'.opened) := by
  have h := (switching_lax site c).operating site
  refine follows_act.mpr ⟨fun _ => ⟨hheld, nofun⟩, fun _ => ?_⟩
  refine follows_try_bind.mpr (follows_bind.mpr ⟨trivial, fun r => ?_⟩)
  cases r with
  | ok =>
    refine ⟨⟨?_, ?_, ?_, ?_⟩, ?_⟩
    all_goals simp [switching, Switch.after]
  | error e =>
    exact follows_unless (unless_of_steady (h.fault c e) _) fun _ _ _ => trivial

/-- Every way but one is opened, of the lines from way `n` on. -/
theorem openWays_opens {target : Option Nat} {n : Nat} {lines : List Nat} {l : Switch}
    (hheld : l.held = true) : (Site.openWays c target n lines).run.Follows (switching site c) l
      (Unless fun l' _ => l.Grows l' ∧ ∀ i line, lines[i]? = some line → some (n + i) ≠ target →
        (c.driver, line) ∈ l'.opened) := by
  induction lines generalizing n l with
  | nil => exact ⟨.refl l, nofun⟩
  | cons line rest ih =>
    have hrest {l' : Switch} (hgrows : l.Grows l')
        (hline : some n ≠ target → (c.driver, line) ∈ l'.opened) :
        (Site.openWays c target (n + 1) rest).run.Follows (switching site c) l'
          (Unless fun l'' _ => l.Grows l'' ∧ ∀ i line', (line :: rest)[i]? = some line' →
            some (n + i) ≠ target → (c.driver, line') ∈ l''.opened) := by
      refine (ih (hgrows.held.trans hheld)).mono ?_
      rintro l'' (e | a) hl''
      · trivial
      · obtain ⟨hgrows', hopened⟩ := hl''
        refine ⟨hgrows.trans hgrows', fun i line' hi hne => ?_⟩
        cases i with
        | zero =>
          obtain rfl := Option.some.inj hi
          exact hgrows'.opened (hline hne)
        | succ i =>
          refine hopened i line' hi ?_
          rwa [Nat.add_assoc, Nat.add_comm 1 i]
    unfold Site.openWays
    split
    · refine follows_unless (writeLine_opens hheld line) fun _ l' hl' => ?_
      exact hrest hl'.1 fun _ => hl'.2
    next hthis =>
      exact hrest (.refl l) fun hne => absurd hne hthis

/-- Every way but one is seen open, of the lines from way `n` on, or nothing is closed. -/
theorem checkOpen_sees {value : Value} {target n : Nat} {lines : List Nat} {l : Switch}
    (hopened : ∀ i line, lines[i]? = some line → n + i ≠ target → (c.driver, line) ∈ l.opened) :
    (Site.checkOpen c value target n lines).run.Follows (switching site c) l
      (Unless fun l' _ => l.Grows l' ∧ ∀ i line, lines[i]? = some line → n + i ≠ target →
        (c.driver, line) ∈ l'.seen) := by
  have h := (switching_lax site c).operating site
  induction lines generalizing n l with
  | nil => exact ⟨.refl l, (by intros; contradiction)⟩
  | cons line rest ih =>
    have hrest {l' : Switch} (hgrows : l.Grows l')
        (hline : n ≠ target → (c.driver, line) ∈ l'.seen) :
        (Site.checkOpen c value target (n + 1) rest).run.Follows (switching site c) l'
          (Unless fun l'' _ => l.Grows l'' ∧ ∀ i line', (line :: rest)[i]? = some line' →
            n + i ≠ target → (c.driver, line') ∈ l''.seen) := by
      refine (ih fun i line' hi hne => hgrows.opened (hopened (i + 1) line' hi ?_)).mono ?_
      · rwa [Nat.add_comm i 1, ← Nat.add_assoc]
      rintro l'' (e | a) hl''
      · trivial
      · obtain ⟨hgrows', hseen⟩ := hl''
        refine ⟨hgrows.trans hgrows', fun i line' hi hne => ?_⟩
        cases i with
        | zero =>
          obtain rfl := Option.some.inj hi
          exact hgrows'.seen (hline hne)
        | succ i =>
          refine hseen i line' hi ?_
          rwa [Nat.add_assoc, Nat.add_comm 1 i]
    unfold Site.checkOpen
    split
    next hne =>
      have hline := hopened 0 line rfl hne
      refine follows_try_bind.mpr (follows_bind.mpr ?_)
      refine follows_act.mpr ⟨trivial, fun _ => ⟨trivial, fun r => ?_⟩⟩
      cases r with
      | error e =>
        exact unless_then (h.fault c e) fun _ _ => trivial
      | ok on =>
        cases on with
        | true =>
          refine follows_unless (Q := fun _ _ => False) ?_ fun _ _ hfalse => hfalse.elim
          have hwatch : Prog.Steady (switching site c) (fun _ => True)
            (perform (.watches (some c.id))) :=
            .perform fun l hl => by
              refine (switching_lax site c).others _ l ?_ ?_ ?_ ?_ hl <;> intros <;> rintro ⟨⟩
          refine unless_then (.lift hwatch) fun _ _ => ?_
          refine unless_then (steady_attempt ((switching_lax site c).readValue c)) fun _ _ => ?_
          refine unless_then ((switching_lax site c).confirm c _) fun _ _ => ?_
          exact unless_then (h.calm.emit _) fun _ _ => trivial
        | false =>
          refine hrest ⟨?_, ?_, ?_, ?_⟩ fun _ => ?_
          all_goals simp [switching, Switch.after, hline]
    next hthis =>
      exact hrest (.refl l) fun hne => absurd hne hthis

/-- To wait changes nothing that a command knows of the selector. -/
theorem follows_sleep {l : Switch} {d : Duration} {Q : Switch → Except StationError Unit → Prop}
    (hQ : Q l (.ok ())) : (sleep d).run.Follows (switching site c) l Q :=
  follows_act.mpr ⟨trivial, fun _ => follows_act.mpr ⟨trivial, fun _ => hQ⟩⟩

/-- With every other way open, the one that was asked for may be closed. -/
theorem ready_of_open {l : Switch} {t line : Nat} (hway : l.way = some t) (ht : 1 ≤ t)
    (hline : c.lines[t - 1]? = some line)
    (hopened : ∀ i line', c.lines[i]? = some line' → some (1 + i) ≠ some t →
      (c.driver, line') ∈ l.opened)
    (hseen : site.canReadBack c = true → ∀ i line', c.lines[i]? = some line' → 1 + i ≠ t →
      (c.driver, line') ∈ l.seen) : l.Ready site c (c.driver, line) := by
  refine ⟨t, hway, by simp [ChannelDef.wires, hline], fun w' hw' hne => ?_⟩
  obtain ⟨line', hline', rfl⟩ := List.mem_map.mp hw'
  obtain ⟨i, hi⟩ := List.mem_iff_getElem?.mp hline'
  have hother : 1 + i ≠ t := by
    rintro rfl
    rw [Nat.add_sub_cancel_left, hi] at hline
    exact hne (congrArg (c.driver, ·) (Option.some.inj hline))
  exact ⟨hopened i line' hi fun heq => hother (Option.some.inj heq),
    fun hread => hseen hread i line' hi hother⟩

/-- A selector closes a way only when every other way is open. -/
theorem drive_switching {ways : Nat} {settle : Duration} (hkind : c.kind = .selector ways settle)
    {value : Value} (hport : ∀ t, value.target = some t → 1 ≤ t) {l : Switch}
    (hheld : l.held = true) (hway : l.way = value.target) :
    (site.drive c value).run.Follows (switching site c) l (Unless fun _ _ => True) := by
  have h := (switching_lax site c).operating site
  unfold Site.drive
  rw [hkind]
  dsimp only
  refine follows_unless (openWays_opens hheld) fun _ l₁ hl₁ => ?_
  obtain ⟨hgrows, hopened⟩ := hl₁
  cases htarget : value.target with
  | none => exact trivial
  | some t =>
    rw [htarget] at hway hopened
    have hready {l₂ : Switch} (hgrows₂ : l₁.Grows l₂) (hseen : site.canReadBack c = true →
        ∀ i line, c.lines[i]? = some line → 1 + i ≠ t → (c.driver, line) ∈ l₂.seen) {line : Nat}
        (hline : c.lines[t - 1]? = some line) :
        l₂.held = true ∧ l₂.Ready site c (c.driver, line) :=
      ⟨(hgrows.trans hgrows₂).held.trans hheld,
        ready_of_open ((hgrows.trans hgrows₂).way.trans hway) (hport t htarget) hline
          (fun i line' hi hne => hgrows₂.opened (hopened i line' hi hne)) hseen⟩
    dsimp only
    split
    · refine follows_unless (checkOpen_sees fun i line hi hne => ?_) fun _ l₂ hl₂ => ?_
      · exact hopened i line hi fun heq => hne (Option.some.inj heq)
      · refine follows_try_bind.mpr (follows_sleep ?_)
        dsimp only
        split
        next line hline =>
          obtain ⟨hheld₂, hready₂⟩ := hready hl₂.1 (fun _ => hl₂.2) hline
          refine follows_act.mpr ⟨fun _ => ⟨hheld₂, fun _ => hready₂⟩, fun _ => ?_⟩
          exact unless_of_steady (h.written c line true) _
        · trivial
    next hread =>
      refine follows_try_bind.mpr (follows_sleep ?_)
      dsimp only
      split
      next line hline =>
        obtain ⟨hheld₂, hready₂⟩ :=
          hready (.refl l₁) (fun hread' => absurd hread' hread) hline
        refine follows_act.mpr ⟨fun _ => ⟨hheld₂, fun _ => hready₂⟩, fun _ => ?_⟩
        exact unless_of_steady (h.written c line true) _
      · trivial

/-- Setting the selector keeps to the protocol. -/
theorem set_switching {ways : Nat} {settle : Duration} (hkind : c.kind = .selector ways settle)
    (hchan : site.chan c.id = .ok c) (value : Value) :
    (site.set c.id value).Steady (switching site c) fun _ => True := by
  have h := (switching_lax site c).operating site
  intro l _
  unfold Site.set
  rw [hchan, of_ok_bind]
  have hheld : ((switching site c).after l (.lock c.id) ()).held = true := by
    simp [switching, Switch.after]
  refine follows_bind.mpr ⟨trivial, fun _ => follows_bind.mpr ?_⟩
  suffices hbody : Follows (switching site c) _ _ (Unless fun _ _ => True) from
    hbody.mono fun l' r _ => ⟨trivial, fun _ => trivial⟩
  rw [show Site.checkMinOff c value = pure () by simp only [Site.checkMinOff, hkind], hkind]
  refine follows_try_bind.mpr ?_
  change Follows (switching site c) (ExceptT.run (ite _ _ _)) _ _
  split
  · trivial
  next hsettable =>
  have hport (t : Nat) (ht : value.target = some t) : 1 ≤ t := by
    cases value with
    | port n =>
      obtain rfl := Option.some.inj ht
      simp [Site.settable] at hsettable
      exact Nat.pos_of_ne_zero hsettable.1
    | _ => cases ht
  refine follows_try_bind.mpr ((follows_status hchan).mpr ⟨trivial, fun s => ?_⟩)
  dsimp only
  split
  · trivial
  refine follows_act.mpr ⟨trivial, fun _ => follows_emit.mpr ⟨trivial, ?_⟩⟩
  refine follows_unless (drive_switching hkind hport ?_ ?_) fun _ l' _ => ?_
  · simp [switching, Switch.after]
  · simp [switching, Switch.after]
  · exact unless_of_steady (h.verify c value hchan) l'

end Set

/-! ### The commands -/

section Commands

variable (hvalid : Valid site.station) (hc : c ∈ site.station.channels)
  (hselector : c.kind.ways.isSome = true)

include hvalid hc in
/-- Another channel drives no line of the selector. -/
theorem not_mem_wires {id : ChannelId} {c' : ChannelDef} (hc' : site.chan id = .ok c')
    (hne : c' ≠ c) {w : Wire} (hw : w ∈ c'.wires) : w ∉ c.wires :=
  fun hmem => hne (hvalid.wire_owner (mem_of_chan hc').1 hc hw hmem)

include hvalid hc hselector

/-- Every command keeps to the protocol. -/
theorem run_switching (call : Call) : (site.run call).Steady (switching site c) fun _ => True := by
  have h := (switching_lax site c).operating site
  have hone {id : ChannelId} {c' : ChannelDef} (hc' : site.chan id = .ok c')
      (hways : c'.kind.ways = none) : c' ≠ c := by
    rintro rfl
    rw [hways] at hselector
    cases hselector
  refine steady_run h.calm (fun _ => trivial) (fun _ _ _ _ => ⟨trivial, trivial⟩)
    (fun _ _ _ => ⟨trivial, trivial⟩) ?_ ?_ ?_ ((switching_lax site c).readBack site) call
  · intro id value
    by_cases hid : id = c.id
    · subst hid
      cases hkind : c.kind with
      | selector ways settle =>
        exact set_switching hkind (chan_of_channel (hvalid.channel hc)) value
      | _ => simp [hkind, ChannelKind.ways] at hselector
    · refine h.set (fun c' _ => (switching_lax site c).checkMinOff c' value) ?_
      intro c' hc' _ w on hdrives
      refine not_mem_wires hvalid hc hc' ?_ (wire_of_drives hdrives)
      rintro rfl
      exact hid (mem_of_chan hc').2.symm
  · intro id
    refine h.pulseLine fun c' hc' hwidth on => ?_
    have hways := ways_of_pulse hwidth
    exact not_mem_wires hvalid hc hc' (hone hc' hways) (mem_wires hways)
  · intro id hid
    refine h.forceOff fun c' hc' line hline l _ => ⟨?_, trivial⟩
    obtain ⟨c₀, hc₀, rfl, hstops⟩ := (mem_allOffOrder hvalid).mp hid
    obtain rfl : c₀ = c' :=
      Option.some.inj ((hvalid.channel hc₀).symm.trans (channel_of_chan hc'))
    exact not_mem_wires hvalid hc hc' (hone hc' (ways_of_stops hstops)) (List.mem_map_of_mem hline)

end Commands

/-! ### What the history tells -/

/-- What a command knows of the selector is what it did since it was told to select a way. -/
def Told (c : ChannelDef) (k : Nat) (l : Switch) (n : Nat) (log : List Event) : Prop :=
  ∃ since before, log = since ++ .emitted k (.commanded c.id (.port n)) :: before ∧
    (∀ v, .emitted k (.commanded c.id v) ∉ since) ∧
    (∀ w ∈ l.begun, .write k w false ∈ since) ∧
    (∀ w ∈ l.opened, .write k w false ∈ since ∧ .written k w false true ∈ since) ∧
    ∀ w ∈ l.seen, ∃ later sooner, since = later ++ .read k w (some false) :: sooner ∧
      .written k w false true ∈ sooner

/-- What a command learns from what it does next is told as well. -/
theorem Told.learn {k n : Nat} {l l' : Switch} {log : List Event} {x : Event}
    (h : Told c k l n log) (hx : ∀ v, x ≠ .emitted k (.commanded c.id v))
    (hbegun : ∀ w ∈ l'.begun, w ∈ l.begun ∨ x = .write k w false)
    (hopened : ∀ w ∈ l'.opened, w ∈ l.opened ∨ w ∈ l.begun ∧ x = .written k w false true)
    (hseen : ∀ w ∈ l'.seen, w ∈ l.seen ∨ w ∈ l.opened ∧ x = .read k w (some false)) :
    Told c k l' n (x :: log) := by
  obtain ⟨since, before, rfl, hlast, hbegan, hopen, hsaw⟩ := h
  refine ⟨x :: since, before, rfl, fun v hv => ?_, fun w hw => ?_, fun w hw => ?_, fun w hw => ?_⟩
  · rcases List.mem_cons.mp hv with heq | hv
    · exact hx v heq.symm
    · exact hlast v hv
  · rcases hbegun w hw with hw | rfl
    · exact .tail _ (hbegan w hw)
    · exact .head _
  · rcases hopened w hw with hw | ⟨hw, rfl⟩
    · exact ⟨.tail _ (hopen w hw).1, .tail _ (hopen w hw).2⟩
    · exact ⟨.tail _ (hbegan w hw), .head _⟩
  · rcases hseen w hw with hw | ⟨hw, rfl⟩
    · obtain ⟨later, sooner, rfl, hwritten⟩ := hsaw w hw
      exact ⟨x :: later, sooner, rfl, hwritten⟩
    · exact ⟨[], since, rfl, (hopen w hw).2⟩

theorem Told.cons {k n : Nat} {l : Switch} {log : List Event} {x : Event} (h : Told c k l n log)
    (hx : ∀ v, x ≠ .emitted k (.commanded c.id v)) : Told c k l n (x :: log) :=
  h.learn hx (fun _ => .inl) (fun _ => .inl) fun _ => .inl

/-- What a command that is about to close a way knows is what it has to know. -/
theorem prepared_of_ready {k : Nat} {l : Switch} {w : Wire} {log : List Event}
    (htold : ∀ n, l.way = some n → Told c k l n log) (hready : l.Ready site c w) :
    Prepared site c k w log := by
  obtain ⟨n, hway, hw, hothers⟩ := hready
  obtain ⟨since, before, hlog, hlast, -, hopened, hseen⟩ := htold n hway
  refine ⟨n, since, before, hlog, hlast, hw, fun w' hw' hne => ?_⟩
  obtain ⟨hopen, hsaw⟩ := hothers w' hw' hne
  exact ⟨(hopened w' hopen).1, (hopened w' hopen).2, fun hread => hseen w' (hsaw hread)⟩

/-- The station remembers who holds the selector, at most one way is closed and none of those that
its holder opened, and what the commands know is told. -/
structure Guarded (site : Site) (c : ChannelDef) (s : Plant) (locals : Nat → Switch) : Prop where
  ops : ∀ k, (locals k).held = true → s.ops c.id = some k
  one : ∀ w ∈ c.wires, ∀ w' ∈ c.wires, closed site w s.log = true → closed site w' s.log = true →
    w = w'
  opened : ∀ k, (locals k).held = true → ∀ w ∈ (locals k).opened, w ∈ c.wires →
    closed site w s.log = false
  told : ∀ k n, (locals k).way = some n → Told c k (locals k) n s.log
  past : ∀ newer j w older, s.log = newer ++ .write j w true :: older → w ∈ c.wires →
    Prepared site c j w older

section Steps

variable {s : Plant} {locals : Nat → Switch} {l : Switch} {k : Nat} {a : Act} {r : a.Answer}

/-- What a command holds, after an action of its own. -/
theorem switch_held (l : Switch) : (l.after c a r).held = a.holds c.id l.held := by
  cases a with
  | lock id | unlock id =>
    simp only [Switch.after, Act.holds]
    split <;> rfl
  | emit e =>
    cases e with
    | commanded id v =>
      simp only [Switch.after, Act.holds]
      split <;> rfl
    | _ => rfl
  | write w on => cases on <;> rfl
  | written w on =>
    cases on with
    | true => rfl
    | false =>
      cases r with
      | error e => rfl
      | ok =>
        simp only [Switch.after, Act.holds]
        split <;> rfl
  | level w =>
    cases r with
    | error e => rfl
    | ok on =>
      cases on with
      | true => rfl
      | false =>
        simp only [Switch.after, Act.holds]
        split <;> rfl
  | _ => rfl

/-- An action closes a line only when it drives it closed. -/
theorem closed_before {w : Wire} (hallows : (switching site c).allows l a) (hw : w ∈ c.wires)
    (hwrite : a ≠ .write w true) (hclosed : closed site w (a.after site k r s).log = true) :
    closed site w s.log = true := by
  rw [Act.after_log] at hclosed
  cases a with
  | write w' on =>
    cases on with
    | false => exact hclosed
    | true =>
      have hne : w' ≠ w := fun heq => hwrite (heq ▸ rfl)
      simpa [Act.event, closed, hne] using hclosed
  | written w' on =>
    cases on with
    | true => exact hclosed
    | false =>
      cases r with
      | error e => exact hclosed
      | ok =>
        simp [Act.event, closed, Except.isOk, Except.toBool] at hclosed
        exact hclosed.2
  | force w' =>
    have hne : w' ≠ w := by
      rintro rfl
      exact hallows hw
    simpa [Act.event, closed, hne] using hclosed
  | _ => exact hclosed

/-- What a command knows to be opened it knew before, unless its driver just opened it, and it has
not closed a way since. -/
theorem opened_before {w : Wire} (hheld : (l.after c a r).held = true)
    (hw : w ∈ (l.after c a r).opened) :
    (∀ w', a ≠ .write w' true) ∧
      (closed site w (a.after site k r s).log = false ∨ l.held = true ∧ w ∈ l.opened) := by
  rw [switch_held] at hheld
  rw [Act.after_log]
  cases a with
  | lock id | unlock id =>
    simp only [Switch.after, Act.holds] at hheld hw
    split at hw
    · cases hw
    next hid =>
      rw [if_neg hid] at hheld
      exact ⟨by rintro _ ⟨⟩, .inr ⟨hheld, hw⟩⟩
  | emit e =>
    cases e with
    | commanded id v =>
      simp only [Switch.after] at hw
      split at hw
      · cases hw
      · exact ⟨by rintro _ ⟨⟩, .inr ⟨hheld, hw⟩⟩
    | _ => exact ⟨by rintro _ ⟨⟩, .inr ⟨hheld, hw⟩⟩
  | write w' on =>
    cases on with
    | true => cases hw
    | false => exact ⟨by rintro _ ⟨⟩, .inr ⟨hheld, hw⟩⟩
  | written w' on =>
    refine ⟨by rintro _ ⟨⟩, ?_⟩
    cases on with
    | true => exact .inr ⟨hheld, hw⟩
    | false =>
      cases r with
      | error e => exact .inr ⟨hheld, hw⟩
      | ok =>
        simp only [Switch.after] at hw
        split at hw
        · rcases List.mem_cons.mp hw with rfl | hw
          · exact .inl (by simp [Act.event, closed, Except.isOk, Except.toBool])
          · exact .inr ⟨hheld, hw⟩
        · exact .inr ⟨hheld, hw⟩
  | level w' =>
    refine ⟨by rintro _ ⟨⟩, .inr ⟨hheld, ?_⟩⟩
    cases r with
    | error e => exact hw
    | ok on =>
      cases on with
      | true => exact hw
      | false =>
        simp only [Switch.after] at hw
        split at hw
        · exact hw
        · exact hw
  | _ => exact ⟨by rintro _ ⟨⟩, .inr ⟨hheld, hw⟩⟩

/-- What a command knows after an action of its own is told. -/
theorem told_switch {n : Nat} {log : List Event} (htold : ∀ n, l.way = some n → Told c k l n log)
    (hway : (l.after c a r).way = some n) :
    Told c k (l.after c a r) n ((a.event k r).toList ++ log) := by
  cases a with
  | lock id | unlock id =>
    simp only [Switch.after] at hway ⊢
    split at hway
    · cases hway
    next hid =>
      rw [if_neg hid]
      exact htold n hway
  | emit e =>
    cases e with
    | commanded id v =>
      simp only [Switch.after] at hway ⊢
      split at hway
      next hid =>
        subst hid
        cases v with
        | port m =>
          obtain rfl := Option.some.inj hway
          rw [if_pos rfl]
          exact ⟨[], log, rfl, nofun, nofun, nofun, nofun⟩
        | _ => cases hway
      next hid =>
        rw [if_neg hid]
        refine (htold n hway).cons ?_
        rintro v' ⟨⟩
        exact hid rfl
    | _ => exact (htold n hway).cons nofun
  | write w on =>
    cases on with
    | true => cases hway
    | false =>
      refine (htold n hway).learn nofun (fun w' hw' => ?_) (fun _ => .inl) fun _ => .inl
      rcases List.mem_cons.mp hw' with rfl | hw'
      · exact .inr rfl
      · exact .inl hw'
  | written w on =>
    cases on with
    | true => exact (htold n hway).cons nofun
    | false =>
      cases r with
      | error e => exact (htold n hway).cons nofun
      | ok =>
        simp only [Switch.after] at hway ⊢
        split
        next hbegun =>
          rw [if_pos hbegun] at hway
          refine (htold n hway).learn nofun (fun _ => .inl) (fun w' hw' => ?_) fun _ => .inl
          rcases List.mem_cons.mp hw' with rfl | hw'
          · exact .inr ⟨hbegun, rfl⟩
          · exact .inl hw'
        next hbegun =>
          rw [if_neg hbegun] at hway
          exact (htold n hway).cons nofun
  | level w =>
    cases r with
    | error e => exact (htold n hway).cons nofun
    | ok on =>
      cases on with
      | true => exact (htold n hway).cons nofun
      | false =>
        simp only [Switch.after] at hway ⊢
        split
        next hopened =>
          rw [if_pos hopened] at hway
          refine (htold n hway).learn nofun (fun _ => .inl) (fun _ => .inl) fun w' hw' => ?_
          rcases List.mem_cons.mp hw' with rfl | hw'
          · exact .inr ⟨hopened, rfl⟩
          · exact .inl hw'
        next hopened =>
          rw [if_neg hopened] at hway
          exact (htold n hway).cons nofun
  | now | sleep | lastOff | status | answers | read | relies | scans | watches => exact htold n hway
  | store | key | force | forced => exact (htold n hway).cons nofun

/-- An action of another command does not tell that this one was told to select a way. -/
theorem event_ne {j : Nat} (hjk : j ≠ k) {x : Event} (hx : a.event k r = some x) (v : Value) :
    x ≠ .emitted j (.commanded c.id v) := by
  rintro rfl
  have hact := act_of_event hx
  exact hjk (Prod.mk.inj (Option.some.inj hact)).1

/-- An action of one command keeps what the station remembers of all. -/
theorem Guarded.after (h : Guarded site c s locals) (hallows : (switching site c).allows (locals k) a)
    {choice : Choice} (hanswer : a.answer site k choice s = some r) :
    Guarded site c (a.after site k r s)
      (Function.update locals k ((switching site c).after (locals k) a r)) where
  ops j hj := by
    refine holder_after (f := fun j => (locals j).held)
      (g := fun j => (Function.update locals k ((switching site c).after (locals k) a r) j).held)
      h.ops ?_ ?_ hanswer j hj
    · rw [Function.update_self]
      exact switch_held _
    · intro j hjk
      rw [Function.update_of_ne hjk]
  one w hw w' hw' hclosed hclosed' := by
    have hbefore {w₁ : Wire} (hw₁ : w₁ ∈ c.wires) (hne : a ≠ .write w₁ true)
        (hclosed : closed site w₁ (a.after site k r s).log = true) : closed site w₁ s.log = true :=
      closed_before hallows hw₁ hne hclosed
    by_cases hwrite : ∃ w₀ ∈ c.wires, a = .write w₀ true
    · obtain ⟨w₀, hw₀, rfl⟩ := hwrite
      obtain ⟨hheld, hready⟩ := hallows hw₀
      obtain ⟨n, -, -, hothers⟩ := hready rfl
      -- all but the one that is driven closed were opened by who drives it
      have honly {w₁ : Wire} (hw₁ : w₁ ∈ c.wires)
          (hclosed : closed site w₁ (Act.after site k (.write w₀ true) r s).log = true) :
          w₁ = w₀ := by
        by_contra hne
        have hopen := h.opened k hheld w₁ (hothers w₁ hw₁ hne).1 hw₁
        have hwas := hbefore hw₁ (fun heq => hne (Act.write.inj heq).1.symm) hclosed
        rw [hopen] at hwas
        cases hwas
      exact (honly hw hclosed).trans (honly hw' hclosed').symm
    · exact h.one w hw w' hw' (hbefore hw (fun heq => hwrite ⟨w, hw, heq⟩) hclosed)
        (hbefore hw' (fun heq => hwrite ⟨w', hw', heq⟩) hclosed')
  opened j hheld w hopened hw := by
    refine Bool.eq_false_iff.mpr fun hclosed => ?_
    by_cases hjk : j = k
    · subst hjk
      rw [Function.update_self] at hheld hopened
      obtain ⟨hwrite, hopen | ⟨hheld, hopened⟩⟩ :=
        opened_before (k := j) (s := s) hheld hopened
      · cases hopen.symm.trans hclosed
      · have hwas := closed_before hallows hw (hwrite w) hclosed
        cases (h.opened j hheld w hopened hw).symm.trans hwas
    · rw [Function.update_of_ne hjk] at hheld hopened
      have hwrite : a ≠ .write w true := by
        rintro rfl
        have hk := h.ops k (hallows hw).1
        exact hjk (Option.some.inj ((h.ops j hheld).symm.trans hk))
      have hwas := closed_before hallows hw hwrite hclosed
      cases (h.opened j hheld w hopened hw).symm.trans hwas
  told j n hway := by
    rw [Act.after_log]
    by_cases hjk : j = k
    · subst hjk
      rw [Function.update_self] at hway ⊢
      exact told_switch (h.told j) hway
    · rw [Function.update_of_ne hjk] at hway ⊢
      cases hx : a.event k r with
      | none => exact h.told j n hway
      | some x => exact (h.told j n hway).cons (event_ne hjk hx)
  past newer j w older hlog hw := by
    rw [Act.after_log] at hlog
    cases hx : a.event k r with
    | none =>
      rw [hx] at hlog
      exact h.past newer j w older hlog hw
    | some x =>
      rw [hx] at hlog
      cases newer with
      | nil =>
        obtain ⟨rfl, rfl⟩ := List.cons.inj hlog
        obtain ⟨rfl, rfl⟩ := Prod.mk.inj (Option.some.inj (act_of_event hx))
        exact prepared_of_ready (h.told j) ((hallows hw).2 rfl)
      | cons y newer => exact h.past newer j w older (List.cons.inj hlog).2 hw

/-- A command that is cut knows nothing any more. -/
theorem Guarded.released (h : Guarded site c s locals) :
    Guarded site c (s.release k) (Function.update locals k .idle) where
  ops j hj := by
    by_cases hjk : j = k
    · rw [hjk, Function.update_self] at hj
      cases hj
    · rw [Function.update_of_ne hjk] at hj
      exact release_keeps (h.ops j hj) hjk
  one := h.one
  opened j hj := by
    by_cases hjk : j = k
    · rw [hjk, Function.update_self] at hj
      cases hj
    · rw [Function.update_of_ne hjk] at hj ⊢
      exact h.opened j hj
  told j n hway := by
    by_cases hjk : j = k
    · rw [hjk, Function.update_self] at hway
      cases hway
    · rw [Function.update_of_ne hjk] at hway ⊢
      exact h.told j n hway
  past := h.past

/-- What happens by itself tells of no command. -/
theorem Guarded.outside (h : Guarded site c s locals) {s' : Plant} (hops : s'.ops = s.ops)
    (hlog : s'.log = s.log ∨ ∃ id level, s'.log = .sampled id level :: s.log) :
    Guarded site c s' locals where
  ops j hj := by
    rw [hops]
    exact h.ops j hj
  one w hw w' hw' := by
    rcases hlog with hlog | ⟨id, level, hlog⟩
    · rw [hlog]
      exact h.one w hw w' hw'
    · rw [hlog]
      exact h.one w hw w' hw'
  opened j hj w hw hmem := by
    rcases hlog with hlog | ⟨id, level, hlog⟩
    · rw [hlog]
      exact h.opened j hj w hw hmem
    · rw [hlog]
      exact h.opened j hj w hw hmem
  told j n hway := by
    rcases hlog with hlog | ⟨id, level, hlog⟩
    · rw [hlog]
      exact h.told j n hway
    · rw [hlog]
      exact (h.told j n hway).cons nofun
  past newer j w older heq hw := by
    rcases hlog with hlog | ⟨id, level, hlog⟩
    · exact h.past newer j w older (hlog ▸ heq) hw
    · rw [hlog] at heq
      cases newer with
      | nil => cases heq
      | cons y newer => exact h.past newer j w older (List.cons.inj heq).2 hw

end Steps

/-- Every run keeps the selector guarded. -/
theorem reach_switched (hvalid : Valid site.station) (hc : c ∈ site.station.channels)
    (hselector : c.kind.ways.isSome = true) {w : State} (hw : site.machine.Reachable w) :
    ∃ locals, Guarded site c w.shared locals := by
  suffices hkeeps : ∃ locals, Guarded site c w.shared locals ∧
      Executor.Keeps (switching site c) (fun _ _ _ => True) .idle locals w by
    obtain ⟨locals, hguarded, -⟩ := hkeeps
    exact ⟨locals, hguarded⟩
  refine Executor.reach_invariant (switching site c) _ _ (Guarded site c)
    (fun call => run_switching hvalid hc hselector call _ trivial) ?_ ?_ ?_ ?_ hw
  · intro s hs
    have hlog : s.log = [] := hs.2.2.2.2.2.2.2.2
    refine ⟨nofun, fun w _ w' _ hclosed => ?_, nofun, nofun, fun newer j w older heq => ?_⟩
    · rw [hlog] at hclosed
      cases hclosed
    · rw [hlog] at heq
      simp at heq
  · intro w locals k choice a r s' hguarded _ _ _ hallows hexec
    obtain ⟨hanswer, rfl⟩ := perform_iff.mp hexec
    exact hguarded.after hallows hanswer
  · intro s locals k a hguarded _ _
    exact hguarded.released
  · intro w locals e s' hguarded _ _ henv
    obtain ⟨hops, hlog⟩ := outside_cases henv
    exact hguarded.outside hops hlog

/-- In every run no two ways of a selector are closed, and before a way was closed its command had
driven every other way open, and seen it open where lines can be read. -/
theorem break_before_make (hvalid : site.station.validate = .ok ())
    (hc : c ∈ site.station.channels) {ways : Nat} {settle : Duration}
    (hkind : c.kind = .selector ways settle) {w : State} (hw : site.machine.Reachable w) :
    (∀ w₁ ∈ c.wires, ∀ w₂ ∈ c.wires, closed site w₁ w.shared.log = true →
      closed site w₂ w.shared.log = true → w₁ = w₂) ∧
    ∀ newer k w₁ older, w.shared.log = newer ++ .write k w₁ true :: older → w₁ ∈ c.wires →
      Prepared site c k w₁ older := by
  have hselector : c.kind.ways.isSome = true := by
    rw [hkind]
    rfl
  obtain ⟨locals, hguarded⟩ := reach_switched (Valid.of_validate hvalid) hc hselector hw
  exact ⟨hguarded.one, hguarded.past⟩

/-- After the first way was selected it is closed, and the second is not. -/
theorem break_before_make_select : ∃ w : State, (bench true).machine.Reachable w ∧
    closed (bench true) ("bank", 2) w.shared.log = true ∧
    closed (bench true) ("bank", 3) w.shared.log = false := by
  obtain ⟨w, hw, hclosed⟩ :=
    Machine.Reachable.exists_of_run (start_reach (bench true) (fun _ => false) (fun _ => none))
      (P := fun w => closed (bench true) ("bank", 2) w.shared.log = true)
      ([.call (.select "ant" 1)] ++ turns 0 6 (.keys .unkeyed) ++ [.env (.land 0)] ++ turns 0 4 .go ++
        [.env (.tick 20)] ++ turns 0 2 .go) (by decide +kernel)
  refine ⟨w, hw, hclosed, Bool.eq_false_iff.mpr fun hclosed' => ?_⟩
  have hone := (break_before_make (c := ⟨"ant", .selector 2 20, "bank", 2, none⟩) (bench_valid true)
    (by decide) rfl hw).1
  have heq := hone ("bank", 2) (by decide) ("bank", 3) (by decide) hclosed hclosed'
  exact absurd heq (by decide)

end HamsOpen.Station
