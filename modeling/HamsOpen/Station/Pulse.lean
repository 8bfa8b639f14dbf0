import HamsOpen.Station.Drives
import HamsOpen.Station.History

/-!
# What a pulse leaves behind

A pulse drives its line on, waits for the pulse width and drives it off, and drives it off once more
when that fails. It does so only when its driver says that the line went on, and when nothing cuts
the pulse short before.
-/

namespace HamsOpen.Station

/-- The level to which a command last drove a line, if it did. -/
def lastWrite (k : Nat) (wire : Wire) : List Event → Option Bool
  | [] => none
  | .write j w on :: log => if j = k ∧ w = wire then some on else lastWrite k wire log
  | _ :: log => lastWrite k wire log

variable {site : Site} {c : ChannelDef}

/-- What a command has of the channel: its operation lock, and its line driven on. -/
structure Press where
  held : Bool
  on : Bool
  deriving DecidableEq

/-- What a command may do while it has a line driven on. -/
def Act.lets (c : ChannelDef) : Act → Prop
  | .now | .sleep _ => True
  | .write w on => w = c.wire ∧ on = false
  | .written w on => w = c.wire ∧ on = true
  | _ => False

/-- The protocol of a command that lets go of what it presses. A command whose driver failed to
drive the line on has not pressed it. -/
def pressing (c : ChannelDef) : Protocol Act Act.Answer Press where
  allows l a := (l.on = true → a.lets c) ∧ (a = .write c.wire true → l.held = true)
  after l a r := match a, r with
    | .lock id, _ => if id = c.id then { l with held := true } else l
    | .unlock id, _ => if id = c.id then { l with held := false } else l
    | .write w on, _ => if w = c.wire then { l with on := on } else l
    | .written w true, .error _ => if w = c.wire then { l with on := false } else l
    | _, _ => l
  lost _ := ⟨false, false⟩

/-- The command has nothing driven on. -/
def Press.Off (l : Press) : Prop := l.on = false

/-- Only a drive presses. -/
theorem press_off {l : Press} (hl : l.Off) (a : Act) (ha : a ≠ .write c.wire true) (r : a.Answer) :
    ((pressing c).after l a r).Off := by
  cases a with
  | write w on =>
    by_cases hw : w = c.wire
    · subst hw
      have hon : on = false := Bool.eq_false_iff.mpr fun hon => ha (hon ▸ rfl)
      simp [pressing, Press.Off, hon]
    · simpa [pressing, hw] using hl
  | lock id | unlock id =>
    by_cases hid : id = c.id
    · simpa [pressing, hid, Press.Off] using hl
    · simpa [pressing, hid] using hl
  | written w on =>
    cases on with
    | false => exact hl
    | true =>
      cases r with
      | ok => exact hl
      | error e =>
        by_cases hw : w = c.wire
        · simp [pressing, hw, Press.Off]
        · simpa [pressing, hw] using hl
  | _ => exact hl

theorem pressing_allows {l : Press} (hl : l.Off) {a : Act} (ha : a ≠ .write c.wire true) :
    (pressing c).allows l a :=
  ⟨fun hon => absurd (hl.symm.trans hon) nofun, fun heq => absurd heq ha⟩

theorem pressing_lenient (c : ChannelDef) :
    Lenient (pressing c) Press.Off fun w on => ¬ (w = c.wire ∧ on = true) where
  writes w on l hw hl := by
    have hne : Act.write w on ≠ .write c.wire true := by
      intro heq
      obtain ⟨rfl, rfl⟩ := Act.write.inj heq
      exact hw ⟨rfl, rfl⟩
    exact ⟨pressing_allows hl hne, press_off hl _ hne ()⟩
  others a l hwrite _ _ hl :=
    ⟨pressing_allows hl (hwrite _ _), fun r => press_off hl a (hwrite _ _) r⟩

/-! ### The commands -/

section Commands

variable (hvalid : Valid site.station) (hc : c ∈ site.station.channels)
  (hwidth : (Site.pulseWidth c.kind).isSome = true)

include hwidth in
/-- A channel that is pulsed has one line, and is not set. -/
theorem ways_of_pulse : c.kind.ways = none := by
  cases hkind : c.kind with
  | selector => simp [hkind, Site.pulseWidth] at hwidth
  | _ => rfl

include hwidth in
theorem settable_of_pulse (value : Value) : Site.settable c.kind value = false := by
  cases hkind : c.kind with
  | momentary => rfl
  | amplifier _ function =>
    cases function with
    | tune => rfl
    | operate => simp [hkind, Site.pulseWidth] at hwidth
  | _ => simp [hkind, Site.pulseWidth] at hwidth

include hvalid hc hwidth

/-- The line of a channel that is pulsed is driven on by nothing but its pulse. -/
theorem set_pressing (id : ChannelId) (value : Value) :
    (site.set id value).Steady (pressing c) Press.Off := by
  have h := (pressing_lenient c).handling site
  refine h.set (fun c' _ => (pressing_lenient c).checkMinOff c' value) ?_
  rintro c' hc' hsettable w on hdrives ⟨rfl, -⟩
  obtain ⟨hmem, -⟩ := mem_of_chan hc'
  obtain rfl := hvalid.wire_owner hmem hc (wire_of_drives hdrives)
    (mem_wires (ways_of_pulse hwidth))
  rw [settable_of_pulse hwidth] at hsettable
  cases hsettable

omit hvalid hc hwidth in
open Prog in
/-- The line is pressed when its driver says so, and only then. -/
theorem press_follows {l : Press} (hl : l.Off) (hheld : l.held = true) (site : Site) :
    (Site.writeLine c c.line true).run.Follows (pressing c) l fun l' r => match r with
      | .ok _ => l'.on = true
      | .error _ => l'.Off := by
  have h := (pressing_lenient c).handling site
  refine follows_act.mpr
    ⟨⟨fun hon => absurd (hl.symm.trans hon) nofun, fun _ => hheld⟩, fun _ => ?_⟩
  have hon : ((pressing c).after l (.write c.wire true) ()).on = true := by simp [pressing]
  refine follows_try_bind.mpr (follows_bind.mpr ⟨⟨fun _ => ⟨rfl, rfl⟩, nofun⟩, fun r => ?_⟩)
  cases r with
  | ok => exact hon
  | error e =>
    have hoff : ((pressing c).after ((pressing c).after l (.write c.wire true) ())
        (.written c.wire true) (.error e)).Off := by
      simp [pressing, Press.Off]
    refine follows_try_bind.mpr ((h.fault c e _ hoff).mono ?_)
    rintro l' (e' | a) hl'
    · exact hl'
    · exact hl'

omit hvalid hc hwidth in
open Prog in
/-- What is pressed is let go after the pulse width, also when its driver fails. -/
theorem let_go_follows (l : Press) (site : Site) (width : Duration) :
    (do
      sleep width
      match ← attempt (Site.writeLine c c.line false) with
      | .ok _ => pure ()
      | .error _ => Site.writeLine c c.line false
      let _ ← perform (.store c.id (some (some .off)) none)
      Site.emit (.pulsed c.id) : Op Unit).run.Follows (pressing c) l fun l' _ => l'.Off := by
  have h := (pressing_lenient c).handling site
  have hline : (Site.writeLine c c.line false).Steady (pressing c) Press.Off :=
    h.writeLine fun hw => absurd hw.2 nofun
  have hrest : Op.Steady (pressing c) Press.Off (do
      let _ ← perform (.store c.id (some (some .off)) none)
      Site.emit (.pulsed c.id)) :=
    h.store (.inl rfl) fun _ => h.calm.emit _
  refine follows_try_bind.mpr (follows_act.mpr ⟨⟨fun _ => trivial, nofun⟩, fun now => ?_⟩)
  refine follows_act.mpr ⟨⟨fun _ => trivial, nofun⟩, fun _ => ?_⟩
  refine follows_try_bind.mpr (follows_bind.mpr ?_)
  -- the first drive off lets it go
  refine follows_act.mpr ⟨⟨fun _ => ⟨rfl, rfl⟩, nofun⟩, fun _ => ?_⟩
  have hoff : ((pressing c).after l (.write c.wire false) ()).Off := by
    simp [pressing, Press.Off]
  refine (h.written c c.line false _ hoff).mono fun l' r hl' => ?_
  cases r with
  | ok => exact hrest l' hl'
  | error => exact Prog.Steady.try_bind hline (fun _ => hrest) l' hl'

open Prog in

/-- A pulse presses its line only while it holds the channel, and lets it go. -/
theorem pulseLine_pressing (id : ChannelId) :
    (site.pulseLine id).Steady (pressing c) Press.Off := by
  have h := (pressing_lenient c).handling site
  by_cases hid : id = c.id
  · subst hid
    obtain ⟨width, hw⟩ := Option.isSome_iff_exists.mp hwidth
    intro l hstart
    unfold Site.pulseLine
    rw [chan_of_channel (hvalid.channel hc), of_ok_bind, hw]
    -- from the lock on the channel is held
    have hheld : ((pressing c).after l (.lock c.id) ()).held = true := by simp [pressing]
    have hl := press_off (c := c) hstart (.lock c.id) nofun ()
    refine follows_bind.mpr ⟨pressing_allows hstart nofun, fun _ => follows_bind.mpr ?_⟩
    refine Follows.mono (Q := fun l' _ => l'.Off)
      (follows_emit.mpr ⟨pressing_allows hl nofun, ?_⟩) ?_
    · refine follows_try_bind.mpr ((press_follows hl hheld site).mono ?_)
      rintro l' (e | a) hl'
      · exact hl'
      · exact let_go_follows l' site width
    · intro l' r hl'
      exact follows_bind.mpr ⟨pressing_allows hl' nofun,
        fun _ => press_off hl' (.unlock c.id) nofun ()⟩
  · refine h.pulseLine fun c' hc' hwidth' on => ?_
    rintro ⟨heq, -⟩
    obtain ⟨hmem, hid'⟩ := mem_of_chan hc'
    have howner := hvalid.wire_owner hmem hc (mem_wires (ways_of_pulse hwidth'))
      (heq ▸ mem_wires (ways_of_pulse hwidth))
    exact hid (hid'.symm.trans (congrArg ChannelDef.id howner))

/-- Every command keeps to the protocol, and has let go of the line when it ends. -/
theorem run_pressing (call : Call) : (site.run call).Steady (pressing c) Press.Off := by
  have h := (pressing_lenient c).handling site
  exact steady_run h.calm (fun _ => rfl)
    (fun d checks _ hl => ⟨pressing_allows hl nofun, press_off hl (.relies d checks) nofun ()⟩)
    (fun d _ hl => ⟨pressing_allows hl nofun, press_off hl (.scans d) nofun ()⟩)
    (set_pressing hvalid hc hwidth) (pulseLine_pressing hvalid hc hwidth)
    (fun id _ => h.forceOff id) ((pressing_lenient c).readBack site) call

end Commands

/-! ### Careful runs -/

def Act.sleeps : Act → Bool
  | .sleep _ => true
  | _ => false

/-- The command waits for its driver to drive the line of a pulse on, or for the pulse width. -/
def Pressing (c : ChannelDef) (w : State) (k : Nat) : Prop :=
  w.current k = some (.written c.wire true) ∨
    w.shared.ops c.id = some k ∧ (w.current k).any Act.sleeps = true

instance (c : ChannelDef) (w : State) (k : Nat) : Decidable (Pressing c w k) :=
  inferInstanceAs (Decidable (_ ∨ _ ∧ _))

/-- The step neither fails to drive the line of a pulse on, nor cuts the pulse before it drives its
line off. -/
def Spares (c : ChannelDef) (w : State) : Turn Call Choice Outside → Prop
  | .turn k (.fails _) => w.current k ≠ some (.written c.wire true)
  | .elapse k _ | .drop k => ¬ Pressing c w k
  | _ => True

instance (c : ChannelDef) (w : State) : DecidablePred (Spares c w)
  | .turn k (.fails _) => inferInstanceAs (Decidable (w.current k ≠ some (.written c.wire true)))
  | .elapse k _ | .drop k => inferInstanceAs (Decidable (¬ Pressing c w k))
  | .turn _ .go | .turn _ (.keys _) | .turn _ (.answers _) | .call _ | .env _ => isTrue trivial

/-- The step spares all pulses. -/
def Careful (site : Site) (w : State) (a : Turn Call Choice Outside) : Prop :=
  ∀ c ∈ site.station.channels, (Site.pulseWidth c.kind).isSome = true → Spares c w a

instance (w : State) (a : Turn Call Choice Outside) : Decidable (Careful site w a) :=
  inferInstanceAs (Decidable (∀ c ∈ site.station.channels, _ → Spares c w a))

/-- The station remembers who holds the channel, and a line that was driven on last is pressed. -/
structure Held (c : ChannelDef) (s : Plant) (locals : Nat → Press) : Prop where
  ops : ∀ k, (locals k).held = true → s.ops c.id = some k
  held : ∀ k, (locals k).on = true → (locals k).held = true
  on : ∀ k, lastWrite k c.wire s.log = some true → (locals k).on = true

section Steps

variable {s s' : Plant} {locals : Nat → Press} {k : Nat} {a : Act} {r : a.Answer}

/-- Who holds a channel, after an action. -/
theorem after_ops (id : ChannelId) : (a.after site k r s).ops id = match a with
    | .lock id' => if id' = id then some k else s.ops id
    | .unlock id' => if id' = id then none else s.ops id
    | _ => s.ops id := by
  cases a with
  | lock id' | unlock id' =>
    simp only [Act.after, Act.effect, Function.update_apply, eq_comm]
  | _ => rfl

/-- Whether a command holds a channel, after an action of its own. -/
def Act.holds (id : ChannelId) (held : Bool) : Act → Bool
  | .lock id' => if id' = id then true else held
  | .unlock id' => if id' = id then false else held
  | _ => held

/-- The station remembers who holds a channel: it is locked only when it is free, and unlocked only
by who holds it. -/
theorem holder_after {id : ChannelId} {f g : Nat → Bool} {choice : Choice}
    (h : ∀ j, f j = true → s.ops id = some j) (hself : g k = a.holds id (f k))
    (hother : ∀ j, j ≠ k → g j = f j) (hanswer : a.answer site k choice s = some r) (j : Nat)
    (hj : g j = true) : (a.after site k r s).ops id = some j := by
  rw [after_ops]
  by_cases hjk : j = k
  · subst hjk
    rw [hself] at hj
    cases a with
    | lock id' =>
      simp only [Act.holds] at hj ⊢
      split
      · rfl
      next hid =>
        rw [if_neg hid] at hj
        exact h j hj
    | unlock id' =>
      simp only [Act.holds] at hj ⊢
      split
      next hid =>
        rw [if_pos hid] at hj
        cases hj
      next hid =>
        rw [if_neg hid] at hj
        exact h j hj
    | _ => exact h j hj
  · rw [hother j hjk] at hj
    have hops := h j hj
    cases a with
    | lock id' =>
      dsimp only
      split
      next hid =>
        -- the lock is not free
        subst hid
        simp [Act.answer, hops] at hanswer
      · exact hops
    | unlock id' =>
      dsimp only
      split
      next hid =>
        subst hid
        simp [Act.answer, hops, hjk] at hanswer
      · exact hops
    | _ => exact hops

/-- What a command holds, after an action of its own. -/
theorem press_held (l : Press) : ((pressing c).after l a r).held = a.holds c.id l.held := by
  cases a with
  | lock id | unlock id | write id on =>
    simp only [pressing, Act.holds]
    split <;> rfl
  | written w on =>
    cases on with
    | false => rfl
    | true =>
      cases r with
      | ok => rfl
      | error e =>
        simp only [pressing]
        split <;> rfl
  | _ => rfl

/-- The driver fails to drive the line on. -/
def Fails (c : ChannelDef) : (a : Act) → a.Answer → Prop
  | .written w true, .error _ => w = c.wire
  | _, _ => False

/-- A driver fails only when the world chooses that it does. -/
theorem choice_of_fails {choice : Choice} (hanswer : a.answer site k choice s = some r)
    (h : Fails c a r) : ∃ e, choice = .fails e ∧ a = .written c.wire true := by
  cases a with
  | written w on =>
    cases on with
    | false => cases h
    | true =>
      cases r with
      | ok => cases h
      | error e =>
        obtain rfl : w = c.wire := h
        cases choice with
        | fails e' => exact ⟨e', rfl, rfl⟩
        | _ => simp [Act.answer] at hanswer
  | _ => cases h

/-- Only drives of the line and their failures change whether a command has it driven on. -/
theorem press_on (l : Press) (hwrite : ∀ on, a ≠ .write c.wire on)
    (hfails : ¬ Fails c a r) : ((pressing c).after l a r).on = l.on := by
  cases a with
  | lock id | unlock id =>
    simp only [pressing]
    split <;> rfl
  | write w on =>
    have hw : w ≠ c.wire := fun hw => hwrite on (hw ▸ rfl)
    simp [pressing, hw]
  | written w on =>
    cases on with
    | false => rfl
    | true =>
      cases r with
      | ok => rfl
      | error e =>
        have hw : w ≠ c.wire := hfails
        simp [pressing, hw]
  | _ => rfl

/-- What is told of an action drives the line only when the action does. -/
theorem lastWrite_after (j : Nat) (wire : Wire) :
    lastWrite j wire (a.after site k r s).log = match a with
      | .write w on => if k = j ∧ w = wire then some on else lastWrite j wire s.log
      | _ => lastWrite j wire s.log := by
  rw [Act.after_log]
  cases a with
  | _ => rfl

/-- An action of one command keeps what the station remembers of all. -/
theorem Held.after (h : Held c s locals) (hallows : (pressing c).allows (locals k) a)
    {choice : Choice} (hanswer : a.answer site k choice s = some r)
    (hcareful : ∀ e, choice = .fails e → a ≠ .written c.wire true) :
    Held c (a.after site k r s) (Function.update locals k ((pressing c).after (locals k) a r)) where
  ops j hj := by
    refine holder_after (f := fun j => (locals j).held)
      (g := fun j => (Function.update locals k ((pressing c).after (locals k) a r) j).held)
      h.ops ?_ ?_ hanswer j hj
    · rw [Function.update_self, press_held]
    · intro j hjk
      rw [Function.update_of_ne hjk]
  held j hj := by
    by_cases hjk : j = k
    · subst hjk
      rw [Function.update_self] at hj ⊢
      rw [press_held]
      by_cases hon : (locals j).on = true
      · have hlets := hallows.1 hon
        cases a with
        | lock | unlock => cases hlets
        | _ => exact h.held j hon
      · by_cases hwrite : a = .write c.wire true
        · subst hwrite
          exact hallows.2 rfl
        · exact absurd hj (Bool.eq_false_iff.mp (press_off (Bool.eq_false_iff.mpr hon) a hwrite r))
    · rw [Function.update_of_ne hjk] at hj ⊢
      exact h.held j hj
  on j hj := by
    rw [lastWrite_after] at hj
    by_cases hjk : j = k
    · subst hjk
      rw [Function.update_self]
      by_cases hwrite : ∃ on, a = .write c.wire on
      · obtain ⟨on, rfl⟩ := hwrite
        dsimp only at hj
        rw [if_pos ⟨rfl, rfl⟩] at hj
        simpa [pressing] using hj
      · have hwrite : ∀ on, a ≠ .write c.wire on := fun on ha => hwrite ⟨on, ha⟩
        have hlog : lastWrite j c.wire s.log = some true := by
          cases a with
          | write w on =>
            dsimp only at hj
            have hne : w ≠ c.wire := fun hw => hwrite on (hw ▸ rfl)
            rwa [if_neg fun hw => hne hw.2] at hj
          | _ => exact hj
        rw [press_on _ hwrite]
        · exact h.on j hlog
        · intro hfails
          obtain ⟨e, hchoice, ha⟩ := choice_of_fails hanswer hfails
          exact hcareful e hchoice ha
    · rw [Function.update_of_ne hjk]
      refine h.on j ?_
      cases a with
      | write w on =>
        dsimp only at hj
        rwa [if_neg fun hw => hjk hw.1.symm] at hj
      | _ => exact hj

theorem release_ops {j : Nat} {id : ChannelId} (h : (s.release k).ops id = some j) :
    s.ops id = some j ∧ j ≠ k := by
  unfold Plant.release at h
  dsimp only at h
  split at h
  · cases h
  next hne =>
    refine ⟨h, ?_⟩
    rintro rfl
    exact hne h

/-- A command that is gone leaves the locks of the others. -/
theorem release_keeps {j : Nat} {id : ChannelId} (h : s.ops id = some j) (hjk : j ≠ k) :
    (s.release k).ops id = some j := by
  have hne : s.ops id ≠ some k := fun hk => hjk (Option.some.inj (h.symm.trans hk))
  exact (if_neg hne).trans h

/-- A command that has no line driven on may be cut. -/
theorem Held.released (h : Held c s locals) (hoff : (locals k).on = false) :
    Held c (s.release k) (Function.update locals k ⟨false, false⟩) where
  ops j hj := by
    by_cases hjk : j = k
    · rw [hjk, Function.update_self] at hj
      cases hj
    · rw [Function.update_of_ne hjk] at hj
      exact release_keeps (h.ops j hj) hjk
  held j hj := by
    by_cases hjk : j = k
    · rw [hjk, Function.update_self] at hj
      cases hj
    · rw [Function.update_of_ne hjk] at hj ⊢
      exact h.held j hj
  on j hj := by
    have hon := h.on j hj
    by_cases hjk : j = k
    · rw [hjk, hoff] at hon
      cases hon
    · rwa [Function.update_of_ne hjk]

end Steps

/-- In a careful run the commands that have a line driven on last hold its channel, and have yet to
drive it off. -/
theorem reach_held (hvalid : Valid site.station) (hc : c ∈ site.station.channels)
    (hwidth : (Site.pulseWidth c.kind).isSome = true) {w : State}
    (hw : site.machine.Reach (Careful site) w) : ∃ locals, Held c w.shared locals ∧
      Executor.Keeps (pressing c) (fun _ l _ => l.Off) ⟨false, false⟩ locals w := by
  refine Executor.reach_guarded (pressing c) _ _ (Held c) ?_ ?_ ?_ ?_ ?_ hw
  · exact fun call => run_pressing hvalid hc hwidth call _ rfl
  · intro s hs
    refine ⟨nofun, nofun, fun k hk => ?_⟩
    rw [hs.2.2.2.2.2.2.2.2] at hk
    cases hk
  · rintro w locals k choice a r s' hheld - hcareful hcurrent hallows hexec
    obtain ⟨hanswer, rfl⟩ := perform_iff.mp hexec
    refine hheld.after hallows hanswer ?_
    rintro e rfl rfl
    exact hcareful c hc hwidth hcurrent
  · intro w locals k a i hheld ha hcareful hcurrent hsuspends hallows
    have hnot : ¬ Pressing c w k := by
      rcases ha with rfl | ⟨depth, rfl⟩
      · exact hcareful c hc hwidth
      · exact hcareful c hc hwidth
    have hoff : (locals k).on = false := by
      refine Bool.eq_false_iff.mpr fun hon => hnot ?_
      have hlets := hallows.1 hon
      cases i with
      | sleep wake => exact .inr ⟨hheld.ops k (hheld.held k hon), hcurrent ▸ rfl⟩
      | written wire on =>
        obtain ⟨rfl, rfl⟩ := hlets
        exact .inl hcurrent
      | now | write => cases hsuspends
      | _ => cases hlets
    exact hheld.released hoff
  · rintro w locals e s' hheld - - henv
    obtain ⟨hops, hlog⟩ := outside_cases henv
    have hlast (k : Nat) : lastWrite k c.wire s'.log = lastWrite k c.wire w.shared.log := by
      rcases hlog with hlog | ⟨id, level, hlog⟩
      · rw [hlog]
      · rw [hlog]
        rfl
    refine ⟨fun k hk => ?_, hheld.held, fun k hk => hheld.on k ?_⟩
    · rw [hops]
      exact hheld.ops k hk
    · rw [← hlast k]
      exact hk

/-- Who holds a channel is still at work. -/
theorem holder_live {ok : State → Turn Call Choice Outside → Prop} {w : State}
    (hw : site.machine.Reach ok w) {id : ChannelId} {k : Nat} (hops : w.shared.ops id = some k) :
    ∃ p, w.prog k = some p := by
  refine hw.invariant (I := fun w => ∀ k, w.shared.ops id = some k → ∃ p, w.prog k = some p)
    ?_ ?_ k hops
  · intro w hs k hk
    cases (hs.1.1 id).symm.trans hk
  · intro w a w' hlive _ hstep j hj
    -- a job that goes on is at work, and the others are as they were
    have hput {k : Nat} {p : Prog Act Act.Answer Result} (hk : w.prog k = some p)
        (q : Prog Act Act.Answer Result) (s : Plant) (hold : j = k ∨ w.shared.ops id = some j) :
        ∃ p, (w.put k (some q) s).prog j = some p := by
      by_cases hjk : j = k
      · rw [hjk]
        exact ⟨q, World.put_prog_self hk (some q) s⟩
      · rw [World.put_prog_ne hjk]
        exact hlive j (hold.resolve_left hjk)
    cases a with
    | call call =>
      obtain rfl := Option.some.inj hstep
      obtain ⟨p, hp⟩ := hlive j hj
      obtain ⟨t, ht, hp⟩ := Option.bind_eq_some_iff.mp hp
      refine ⟨p, Option.bind_eq_some_iff.mpr ⟨t, ?_, hp⟩⟩
      exact (List.getElem?_append_left (List.getElem?_eq_some_iff.mp ht).1).trans ht
    | turn k choice =>
      obtain ⟨p, q, hk, hw', -, hshared⟩ := Executor.turn_cases hstep
      rw [hw']
      refine hput hk q _ ?_
      rcases hshared with hsame | ⟨a, r, -, hexec⟩
      · exact .inr (hsame ▸ hj)
      · obtain ⟨-, hs'⟩ := perform_iff.mp hexec
        rw [← hs', after_ops] at hj
        cases a with
        | lock id' =>
          dsimp only at hj
          split at hj
          · exact .inl (Option.some.inj hj).symm
          · exact .inr hj
        | unlock id' =>
          dsimp only at hj
          split at hj
          · cases hj
          · exact .inr hj
        | _ => exact .inr hj
    | elapse k depth =>
      obtain ⟨-, hstep⟩ := Option.ite_none_right_eq_some.mp hstep
      obtain ⟨q, hq, rfl⟩ := Option.map_eq_some_iff.mp hstep
      obtain ⟨p, hk, -⟩ := Option.bind_eq_some_iff.mp hq
      exact hput hk q _ (.inr (release_ops hj).1)
    | drop k =>
      obtain ⟨-, heq⟩ := Option.ite_none_right_eq_some.mp hstep
      obtain rfl := Option.some.inj heq
      obtain ⟨hold, hjk⟩ := release_ops hj
      rw [World.put_prog_ne hjk]
      exact hlive j hold
    | env e =>
      obtain ⟨s, hs, rfl⟩ := Option.map_eq_some_iff.mp hstep
      rw [(outside_cases hs).1] at hj
      exact hlive j hj

/-! ### Pulses that were cut -/

/-- A command that has ended or was dropped did not last drive the line of a pulse on. -/
def PulseReleases (site : Site) : Prop :=
  ∀ c ∈ site.station.channels, (Site.pulseWidth c.kind).isSome = true →
    ∀ (w : State) (k : Nat), site.machine.Reachable w →
      (w.prog k = none ∨ ∃ r, w.result k = some r) → lastWrite k c.wire w.shared.log ≠ some true

/-- A pulse that is dropped while it waits for the pulse width leaves its line driven on. -/
theorem pulse_left_pressed : ¬ PulseReleases (bench false) := by
  intro hclaim
  obtain ⟨w, hw, hgone, hon⟩ :=
    Machine.Reachable.exists_of_run (start_reach (bench false) (fun _ => false) (fun _ => none))
      (P := fun w => (w.prog 0).isNone = true ∧ lastWrite 0 ("bank", 6) w.shared.log = some true)
      ([.call (.pulse "kill")] ++ turns 0 3 .go ++ [.env (.land 0)] ++ turns 0 2 .go ++ [.drop 0])
      (by decide +kernel)
  exact hclaim ⟨"kill", .momentary 100, "bank", 6, none⟩ (by decide) rfl w 0 hw
    (.inl (Option.isNone_iff_eq_none.mp hgone)) hon

/-- In every run in which no driver fails to drive the line of a pulse on and no pulse is cut before
it drives its line off, no command that has ended or was dropped last drove such a line on. -/
theorem pulse_releases (hvalid : site.station.validate = .ok ()) (hc : c ∈ site.station.channels)
    (hwidth : (Site.pulseWidth c.kind).isSome = true) {w : State} {k : Nat}
    (hw : site.machine.Reach (Careful site) w)
    (hover : w.prog k = none ∨ ∃ r, w.result k = some r) :
    lastWrite k c.wire w.shared.log ≠ some true := by
  intro hlast
  obtain ⟨locals, hheld, hkeeps⟩ := reach_held (Valid.of_validate hvalid) hc hwidth hw
  have hon := hheld.on k hlast
  obtain ⟨p, hp⟩ := holder_live hw (hheld.ops k (hheld.held k hon))
  rcases hover with hnone | ⟨r, hr⟩
  · cases hnone.symm.trans hp
  · obtain ⟨t, ht, -⟩ := Option.bind_eq_some_iff.mp hp
    have hoff : (locals k).on = false := hkeeps.result ht hr
    cases hoff.symm.trans hon

/-- A pulse that nothing cuts, whose driver does not fail, ends with its line driven off. -/
theorem pulse_releases_kill : ∃ w : State, (bench false).machine.Reach (Careful (bench false)) w ∧
    lastWrite 0 ("bank", 6) w.shared.log = some false ∧
    lastWrite 0 ("bank", 6) w.shared.log ≠ some true := by
  have hstart : (bench false).machine.Reach (Careful (bench false))
      ⟨.start (fun _ => false) (fun _ => none), []⟩ := start_reach _ _ _
  obtain ⟨w, hw, hended, hoff⟩ :=
    Machine.Reach.exists_of_runWhile hstart
      (P := fun w => (w.result 0).isSome = true ∧ lastWrite 0 ("bank", 6) w.shared.log = some false)
      ([.call (.pulse "kill")] ++ turns 0 3 .go ++ [.env (.land 0)] ++ turns 0 2 .go ++
        [.env (.tick 100)] ++ turns 0 2 .go ++ [.env (.land 0)] ++ turns 0 4 .go)
      (by decide +kernel)
  refine ⟨w, hw, hoff, ?_⟩
  exact pulse_releases (c := ⟨"kill", .momentary 100, "bank", 6, none⟩) (bench_valid false)
    (by decide) rfl hw (.inr (Option.isSome_iff_exists.mp hended))

end HamsOpen.Station
