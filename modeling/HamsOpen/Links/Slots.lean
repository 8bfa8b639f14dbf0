import Mathlib.Data.List.Nodup
import HamsOpen.Lib.History
import HamsOpen.Links.Actors

/-!
# One actor a radio, unkeyed before its link is up

However the attempts to connect and the losses of links fall, there is one slot at most for a radio,
with an actor that was spawned for it and unkeyed, and an attempt does anything only as long as it
holds the lock. The unkey pass is that of the session in which it was made: a transport that comes
back by itself begins a session for which the links make no pass of their own.
-/

namespace HamsOpen.Links

open Rig (LinkStatus)
open Station (DeviceId StationError)

/-! ### Actors -/

namespace Actor

/-- The unkey pass on the actor has succeeded, if its radio can be keyed at all. -/
def Passed (x : Actor) : Prop := x.canKey = true → x.unkeyed.isSome

/-- The unkey pass was made in a session of the transport, and a transport without a status has only
one. -/
structure Sane (x : Actor) : Prop where
  earlier : ∀ g ∈ x.unkeyed, g ≤ x.session
  only : x.watch = none → x.session = 0

/-- The actor is the same one later. -/
structure Later (x y : Actor) : Prop where
  radio : y.radio = x.radio
  canKey : y.canKey = x.canKey
  unkeyed : x.unkeyed.isSome → y.unkeyed.isSome
  sane : x.Sane → y.Sane

variable {x y : Actor}

theorem Later.refl (x : Actor) : x.Later x := ⟨rfl, rfl, id, id⟩

theorem Later.passed (h : x.Later y) (hx : x.Passed) : y.Passed :=
  fun hcan => h.unkeyed (hx (h.canKey ▸ hcan))

theorem sane_new (radio : DeviceId) (able : Bool) (watch : Option LinkStatus) :
    (new radio able watch).Sane where
  earlier g hg := by cases hg
  only hwatch := by
    have hnone : watch = none := hwatch
    rw [hnone]
    exact rfl

theorem later_unkey (h : x.unkey = some y) : x.Later y := by
  obtain ⟨-, heq⟩ := Option.ite_none_right_eq_some.mp h
  obtain rfl := Option.some.inj heq
  refine ⟨rfl, rfl, fun _ => rfl, fun hsane => ⟨?_, hsane.only⟩⟩
  intro g hg
  exact Nat.le_of_eq (Option.some.inj hg).symm

/-- Whatever happens to its link, the actor is the same one. -/
theorem later_outside {e : Outside} (h : e.step.2 x = some y) : x.Later y := by
  cases e with
  | loses actor =>
    simp only [Outside.step, lose] at h
    split at h
    · obtain rfl := Option.some.inj h
      exact ⟨rfl, rfl, id, fun hsane => ⟨hsane.earlier, fun hw => by cases hw⟩⟩
    · cases h
  | reopens actor =>
    simp only [Outside.step, reopen] at h
    split at h
    · obtain rfl := Option.some.inj h
      refine ⟨rfl, rfl, id, fun hsane => ⟨fun g hg => ?_, fun hw => by cases hw⟩⟩
      exact Nat.le_succ_of_le (hsane.earlier g hg)
    · cases h
  | closes actor =>
    obtain ⟨-, heq⟩ := Option.ite_none_right_eq_some.mp h
    obtain rfl := Option.some.inj heq
    exact ⟨rfl, rfl, id, fun hsane => ⟨hsane.earlier, fun hw => by cases hw⟩⟩
  | fails actor =>
    obtain rfl := Option.some.inj h
    exact ⟨rfl, rfl, id, fun hsane => ⟨hsane.earlier, hsane.only⟩⟩
  | looks actor =>
    obtain rfl := Option.some.inj h
    unfold look
    split
    · exact .refl x
    · split
      · exact .refl x
      · exact ⟨rfl, rfl, id, fun hsane => ⟨hsane.earlier, hsane.only⟩⟩
    · exact ⟨rfl, rfl, id, fun hsane => ⟨hsane.earlier, hsane.only⟩⟩

end Actor

/-- The actors of the first list are in the second, later. -/
def Grown (actors actors' : List Actor) : Prop :=
  ∀ (a : ℕ) (x : Actor), actors[a]? = some x → ∃ y, actors'[a]? = some y ∧ x.Later y

theorem Grown.refl (actors : List Actor) : Grown actors actors :=
  fun _ x hx => ⟨x, hx, .refl x⟩

theorem grown_append (actors new : List Actor) : Grown actors (actors ++ new) := by
  intro a x hx
  have hlt := (List.getElem?_eq_some_iff.mp hx).1
  exact ⟨x, by rw [List.getElem?_append_left hlt, hx], .refl x⟩

theorem grown_set {actors : List Actor} {a : ℕ} {x y : Actor} (hx : actors[a]? = some x)
    (hlater : x.Later y) : Grown actors (actors.set a y) := by
  intro b z hz
  by_cases hab : a = b
  · obtain rfl := hab
    obtain rfl := Option.some.inj (hx.symm.trans hz)
    refine ⟨y, ?_, hlater⟩
    rw [List.getElem?_set_self (List.getElem?_eq_some_iff.mp hx).1]
  · exact ⟨z, by rw [List.getElem?_set_ne hab, hz], .refl z⟩

/-! ### What holds of the links -/

/-- The actor was spawned for the radio, and the unkey pass on it has succeeded. -/
def Adopted (s : ActorLinks) (radio : DeviceId) (a : ℕ) : Prop :=
  ∃ x, s.actors[a]? = some x ∧ x.radio = radio ∧ x.Passed

theorem Adopted.mono {s s' : ActorLinks} {radio : DeviceId} {a : ℕ} (h : Adopted s radio a)
    (hgrown : Grown s.actors s'.actors) : Adopted s' radio a := by
  obtain ⟨x, hx, hradio, hpassed⟩ := h
  obtain ⟨y, hy, hlater⟩ := hgrown a x hx
  exact ⟨y, hy, hlater.radio.trans hradio, hlater.passed hpassed⟩

/-- The slot was found in a state in which a new actor is spawned. -/
def SlotState.Clear (state : SlotState) : Prop := state = .absent ∨ state = .dead

/-- An actor is spawned right after an attempt found the slot of its radio absent or dead. -/
def CheckedFirst (e : Event) (earlier : List Event) : Prop :=
  ∀ radio a, e = .spawned radio a →
    ∃ state, state.Clear ∧ earlier.head? = some (.found radio state)

structure Safe (s : ActorLinks) : Prop where
  sane : ∀ x ∈ s.actors, x.Sane
  single : (s.slots.map Prod.fst).Nodup
  adopted : ∀ slot ∈ s.slots, Adopted s slot.1 slot.2
  checked : History.Throughout CheckedFirst s.log

/-- Nothing but the lock, the counts and the journal changes. -/
theorem Safe.of_same {s s' : ActorLinks} (h : Safe s) (hactors : s'.actors = s.actors)
    (hslots : s'.slots = s.slots) (hlog : s'.log = s.log) : Safe s' where
  sane x hx := h.sane x (hactors ▸ hx)
  single := hslots ▸ h.single
  adopted slot hslot :=
    (h.adopted slot (hslots ▸ hslot)).mono (hactors ▸ .refl s.actors)
  checked := hlog ▸ h.checked

/-- A step of an actor. -/
theorem Safe.moved {s s' : ActorLinks} (h : Safe s) {a : ℕ} {f : Actor → Option Actor}
    (hf : ∀ x y, f x = some y → x.Later y) (hmoved : s.moved a f = some s') :
    Safe s' ∧ Grown s.actors s'.actors := by
  obtain ⟨y, hy, rfl⟩ := Option.map_eq_some_iff.mp hmoved
  obtain ⟨x, hx, hfx⟩ := Option.bind_eq_some_iff.mp hy
  have hlater := hf x y hfx
  have hgrown : Grown s.actors (s.actors.set a y) := grown_set hx hlater
  refine ⟨⟨?_, h.single, ?_, h.checked⟩, hgrown⟩
  · intro z hz
    rcases List.mem_or_eq_of_mem_set hz with hz | rfl
    · exact h.sane z hz
    · exact hlater.sane (h.sane x (List.mem_of_getElem? hx))
  · intro slot hslot
    exact (h.adopted slot hslot).mono hgrown

/-- A new actor, whose radio's slot was found clear. -/
theorem Safe.hire {s : ActorLinks} (h : Safe s) {radio : DeviceId} (able : Bool)
    (watch : Option LinkStatus) {state : SlotState} (hclear : state.Clear)
    (hfound : s.log.head? = some (.found radio state)) : Safe (s.hire radio able watch) where
  sane x hx := by
    rcases List.mem_append.mp hx with hx | hx
    · exact h.sane x hx
    · rw [List.mem_singleton.mp hx]
      exact Actor.sane_new radio able watch
  single := h.single
  adopted slot hslot := (h.adopted slot hslot).mono (grown_append s.actors _)
  checked := by
    refine ⟨?_, h.checked⟩
    intro radio' a heq
    obtain ⟨rfl, -⟩ := Event.spawned.inj heq
    exact ⟨state, hclear, hfound⟩

/-- An actor on which the unkey pass has succeeded takes the place of the one that was there. -/
theorem Safe.adopt {s : ActorLinks} (h : Safe s) {radio : DeviceId} {a : ℕ}
    (ha : Adopted s radio a) : Safe (s.adopt radio a) where
  sane := h.sane
  single := by
    simp only [ActorLinks.adopt, List.map_append, List.map_cons, List.map_nil]
    refine List.nodup_append.mpr ⟨?_, List.nodup_singleton radio, ?_⟩
    · exact h.single.sublist (List.filter_sublist.map Prod.fst)
    · intro radio' hmem radio'' hmem'
      obtain ⟨slot, hslot, rfl⟩ := List.mem_map.mp hmem
      rw [List.mem_singleton.mp hmem']
      exact bne_iff_ne.mp (List.mem_filter.mp hslot).2
  adopted slot hslot := by
    rcases List.mem_append.mp hslot with hslot | hslot
    · exact h.adopted slot (List.mem_filter.mp hslot).1
    · rw [List.mem_singleton.mp hslot]
      exact ha
  checked := by
    refine ⟨?_, h.checked⟩
    intro _ _ heq
    cases heq

theorem Safe.find {s : ActorLinks} (h : Safe s) (radio : DeviceId) (state : SlotState) :
    Safe { s with log := .found radio state :: s.log } where
  sane := h.sane
  single := h.single
  adopted := h.adopted
  checked := by
    refine ⟨?_, h.checked⟩
    intro _ _ heq
    cases heq

/-- The actor of a slot may be there. -/
theorem Safe.slotOf {s : ActorLinks} (h : Safe s) {radio : DeviceId} {a : ℕ}
    (hslot : s.slotOf radio = some a) : Adopted s radio a := by
  obtain ⟨slot, hfind, rfl⟩ := Option.map_eq_some_iff.mp hslot
  have hadopted := h.adopted slot (List.mem_of_find?_eq_some hfind)
  rwa [beq_iff_eq.mp (List.find?_some hfind :)] at hadopted

/-! ### What an attempt may do -/

/-- What a call knows beside its program. -/
structure Hold where
  /-- It holds the lock. -/
  holds : Bool
  /-- The slot it read last, with the actor in it. -/
  slot : Option (DeviceId × ℕ)
  /-- The radio whose slot it found clear. -/
  clear : Option DeviceId
  /-- The actor it spawned for a radio. -/
  fresh : Option (DeviceId × ℕ)
  /-- The unkey pass on that actor has succeeded, or its radio cannot be keyed. -/
  passed : Bool

namespace Hold

def idle : Hold := ⟨false, none, none, none, false⟩

/-- What a call that knows so much may do. -/
def allows (l : Hold) : Action → Prop
  | .slot _ | .transportUp _ | .reconnecting _ | .handleUp _ => True
  | .lock => l = idle
  | .spawn radio => l.holds = true ∧ l.clear = some radio
  | .canKey a | .unkey a => l.holds = true ∧ ∃ radio, l.fresh = some (radio, a)
  | .insert radio a => l.holds = true ∧ l.fresh = some (radio, a) ∧ l.passed = true
  | .unlock | .found _ _ | .count _ | .note _ | .frequency _ | .mode _ => l.holds = true

/-- What it knows after an answer. -/
def after (l : Hold) : (i : Action) → i.Answer → Hold
  | .lock, _ => { idle with holds := true }
  | .unlock, _ => idle
  | .slot radio, r => { l with slot := r.map fun a => (radio, a) }
  | .found radio state, _ =>
    { l with clear := if state = .absent ∨ state = .dead then some radio else none }
  | .spawn radio, .ok a => { l with clear := none, fresh := some (radio, a), passed := false }
  | .canKey _, able => { l with passed := !able }
  | .unkey _, .ok _ => { l with passed := true }
  | .insert _ _, _ => { l with clear := none, fresh := none }
  | _, _ => l

end Hold

/-- The discipline of the calls. A call that is dropped gives up the lock, and what it knew is
gone. -/
def discipline : Protocol Action Action.Answer Hold where
  allows := Hold.allows
  after := Hold.after
  lost _ := .idle

/-- A link that is reported up is that of an actor read in the radio's slot. -/
def Reports : Call → Hold → Result → Prop
  | .linkUp radio, l, .linkUp true => ∃ a, l.slot = some (radio, a)
  | _, _, _ => True

section Follows

variable {l : Hold} {radio : DeviceId} {a : ℕ}

/-- An action, and then the rest. -/
theorem follows_act {α : Type} {i : Action} {f : i.Answer → Task α} {Q : Hold → α → Prop} :
    (perform i >>= f).Follows discipline l Q ↔
      l.allows i ∧ ∀ r, (f r).Follows discipline (l.after i r) Q := Prog.follows_bind

theorem slotState_follows : (slotState radio).Follows discipline l fun l' state =>
    ∃ slot, l' = { l with slot := slot } ∧ (state = .up → ∃ a, slot = some (radio, a)) := by
  refine follows_act.mpr ⟨trivial, fun r => ?_⟩
  cases r with
  | none => exact ⟨none, rfl, fun hup => by cases hup⟩
  | some a =>
    refine follows_act.mpr ⟨trivial, fun usable => ?_⟩
    cases usable with
    | false =>
      refine follows_act.mpr ⟨trivial, fun retrying => ?_⟩
      exact ⟨some (radio, a), rfl, fun _ => ⟨a, rfl⟩⟩
    | true =>
      refine follows_act.mpr ⟨trivial, fun up => ?_⟩
      exact ⟨some (radio, a), rfl, fun _ => ⟨a, rfl⟩⟩

/-- A pass that succeeds leaves the actor unkeyed, if its radio can be keyed. -/
theorem unkeyPass_follows (hl : l.holds = true) (hfresh : l.fresh = some (radio, a)) :
    (unkeyPass radio a).Follows discipline l fun l' r => l'.holds = true ∧
      l'.fresh = some (radio, a) ∧ ∀ known, r = .ok known → l'.passed = true := by
  have hread (l₁ : Hold) (h₁ : l₁.holds = true) (hfresh₁ : l₁.fresh = some (radio, a))
      (hpassed : l₁.passed = true) (line : String) : (do
        perform (.note line)
        let frequencyHz ← perform (.frequency a)
        let mode ← perform (.mode a)
        return .ok ⟨frequencyHz, mode⟩ : Task (Except StationError KnownState)).Follows discipline l₁
          fun l' r => l'.holds = true ∧ l'.fresh = some (radio, a) ∧
            ∀ known, r = .ok known → l'.passed = true := by
    refine follows_act.mpr ⟨h₁, fun _ => ?_⟩
    refine follows_act.mpr ⟨h₁, fun _ => ?_⟩
    refine follows_act.mpr ⟨h₁, fun _ => ?_⟩
    exact ⟨h₁, hfresh₁, fun _ _ => hpassed⟩
  refine follows_act.mpr ⟨⟨hl, radio, hfresh⟩, fun able => ?_⟩
  cases able with
  | false => exact hread (l.after (.canKey a) false) hl hfresh rfl _
  | true =>
    refine follows_act.mpr ⟨⟨hl, radio, hfresh⟩, fun r => ?_⟩
    cases r with
    | error detail => exact ⟨hl, hfresh, fun _ hok => by cases hok⟩
    | ok _ => exact hread ((l.after (.canKey a) true).after (.unkey a) (.ok ())) hl hfresh rfl _

theorem respawn_follows (hl : l.holds = true) (hclear : l.clear = some radio) :
    (respawn radio).Follows discipline l fun l' _ => l'.holds = true := by
  refine follows_act.mpr ⟨⟨hl, hclear⟩, fun r => ?_⟩
  cases r with
  | error e => exact hl
  | ok a =>
    refine follows_act.mpr ⟨hl, fun _ => ?_⟩
    refine follows_act.mpr ⟨hl, fun _ => ?_⟩
    refine Prog.follows_bind.mpr
      ((unkeyPass_follows (l := l.after (.spawn radio) (.ok a)) hl rfl).mono ?_)
    rintro l' r ⟨hl', hfresh, hpassed⟩
    cases r with
    | error e =>
      refine follows_act.mpr ⟨hl', fun _ => ?_⟩
      exact hl'
    | ok known =>
      refine follows_act.mpr ⟨⟨hl', hfresh, hpassed known rfl⟩, fun _ => ?_⟩
      exact hl'

/-- An attempt holds the lock from its first look at the slot to its end. -/
theorem connect_follows :
    (connect radio).Follows discipline .idle fun l' _ => l'.holds = false := by
  refine follows_act.mpr ⟨rfl, fun _ => ?_⟩
  refine Prog.follows_bind.mpr (slotState_follows.mono ?_)
  rintro _ state ⟨slot, rfl, -⟩
  refine follows_act.mpr ⟨rfl, fun _ => ?_⟩
  have hdone (l' : Hold) (hl' : l'.holds = true)
      (result : Except StationError (Option KnownState)) : (do
        perform .unlock
        return result : Task (Except StationError (Option KnownState))).Follows discipline l'
          fun l'' _ => l''.holds = false := by
    refine follows_act.mpr ⟨hl', fun _ => ?_⟩
    exact rfl
  cases state with
  | up => exact hdone _ rfl _
  | retrying =>
    refine follows_act.mpr ⟨rfl, fun _ => ?_⟩
    exact hdone _ rfl _
  | absent | dead =>
    refine Prog.follows_bind.mpr ((respawn_follows rfl rfl).mono ?_)
    exact fun l' result hl' => hdone l' hl' result

/-- Every call keeps to the discipline. -/
theorem run_follows (c : Call) : (run c).Follows discipline .idle (Reports c) := by
  cases c with
  | connect radio => exact Prog.follows_bind.mpr (connect_follows.mono fun _ _ _ => trivial)
  | linkUp radio =>
    refine Prog.follows_bind.mpr (slotState_follows.mono ?_)
    rintro _ state ⟨slot, rfl, hup⟩
    cases state with
    | up => exact hup rfl
    | absent | retrying | dead => trivial

end Follows

/-! ### What the calls know is so -/

/-- What a call knows of the links is so. -/
structure Knows (s : ActorLinks) (k : ℕ) (l : Hold) : Prop where
  holder : l.holds = true → s.holder = some k
  free : l.holds = false → l.clear = none ∧ l.fresh = none
  slot : ∀ e ∈ l.slot, Adopted s e.1 e.2
  clear : ∀ radio ∈ l.clear, ∃ state : SlotState, state.Clear ∧
    s.log.head? = some (.found radio state)
  fresh : ∀ e ∈ l.fresh, ∃ x, s.actors[e.2]? = some x ∧ x.radio = e.1 ∧
    (l.passed = true → x.Passed)

section Knows

variable {s s' : ActorLinks} {k : ℕ} {l : Hold}

theorem knows_idle (s : ActorLinks) (k : ℕ) : Knows s k .idle := by
  constructor
  all_goals simp [Hold.idle]

/-- The links move on, and what the call goes by stays. -/
theorem Knows.mono (h : Knows s k l) (hgrown : Grown s.actors s'.actors)
    (hsame : l.holds = true → s'.holder = s.holder ∧ s'.log = s.log) : Knows s' k l where
  holder hl := (hsame hl).1.trans (h.holder hl)
  free := h.free
  slot e he := (h.slot e he).mono hgrown
  clear radio hradio := by
    cases hl : l.holds with
    | false => cases (h.free hl).1.symm.trans hradio
    | true =>
      rw [(hsame hl).2]
      exact h.clear radio hradio
  fresh e he := by
    obtain ⟨x, hx, hradio, hpassed⟩ := h.fresh e he
    obtain ⟨y, hy, hlater⟩ := hgrown e.2 x hx
    exact ⟨y, hy, hlater.radio.trans hradio, fun hl => hlater.passed (hpassed hl)⟩

end Knows

/-- What holds of the links and of all calls. -/
structure Inv (s : ActorLinks) (locals : ℕ → Hold) : Prop where
  safe : Safe s
  knows : ∀ k, Knows s k (locals k)

namespace Inv

variable {s s' : ActorLinks} {locals : ℕ → Hold} {k : ℕ} {l : Hold}

/-- Only one call holds the lock. -/
theorem alone (h : Inv s locals) (hk : (locals k).holds = true) {j : ℕ} (hjk : j ≠ k) :
    (locals j).holds = false := by
  by_contra hj
  have hholder := (h.knows j).holder (Bool.not_eq_false _ ▸ hj)
  exact hjk (Option.some.inj (hholder.symm.trans ((h.knows k).holder hk)))

/-- A step of a call keeps what the others know. -/
theorem put (h : Inv s locals) (hsafe : Safe s') (hl : Knows s' k l)
    (hgrown : Grown s.actors s'.actors)
    (hothers : ∀ j ≠ k, (locals j).holds = true → s'.holder = s.holder ∧ s'.log = s.log) :
    Inv s' (Function.update locals k l) where
  safe := hsafe
  knows j := by
    by_cases hjk : j = k
    · rw [hjk, Function.update_self]
      exact hl
    · rw [Function.update_of_ne hjk]
      exact (h.knows j).mono hgrown (hothers j hjk)

/-- What the holder of the lock does concerns no other call. -/
theorem put_holder (h : Inv s locals) (hk : (locals k).holds = true) (hsafe : Safe s')
    (hl : Knows s' k l) (hgrown : Grown s.actors s'.actors) :
    Inv s' (Function.update locals k l) :=
  h.put hsafe hl hgrown fun _ hjk hj => by cases (h.alone hk hjk).symm.trans hj

/-- A call looks at the links. -/
theorem put_same (h : Inv s locals) (hl : Knows s k l) : Inv s (Function.update locals k l) :=
  h.put h.safe hl (.refl _) fun _ _ _ => ⟨rfl, rfl⟩

/-- An action of a call that keeps to the discipline. -/
theorem perform (h : Inv s locals) {choice : Choice} {i : Action} {r : i.Answer}
    (ha : (locals k).allows i) (hp : i.perform k choice s = some (r, s')) :
    Inv s' (Function.update locals k ((locals k).after i r)) := by
  have hknows := h.knows k
  cases i with
  | lock =>
    obtain ⟨hnone, heq⟩ := Option.ite_none_right_eq_some.mp hp
    obtain ⟨-, rfl⟩ := Prod.mk.inj (Option.some.inj heq)
    refine h.put (h.safe.of_same rfl rfl rfl) ?_ (.refl _) ?_
    · constructor
      all_goals simp [Hold.after, Hold.idle]
    · intro j _ hj
      cases hnone.symm.trans ((h.knows j).holder hj)
  | unlock =>
    obtain ⟨-, rfl⟩ := Prod.mk.inj (Option.some.inj hp)
    exact h.put_holder ha (h.safe.of_same rfl rfl rfl) (knows_idle _ k) (.refl _)
  | slot radio =>
    obtain ⟨rfl, rfl⟩ := Prod.mk.inj (Option.some.inj hp)
    refine h.put_same { hknows with slot := ?_ }
    intro e he
    obtain ⟨a, hslot, rfl⟩ := Option.map_eq_some_iff.mp he
    exact h.safe.slotOf hslot
  | transportUp a =>
    obtain ⟨x, -, heq⟩ := Option.map_eq_some_iff.mp hp
    obtain ⟨-, rfl⟩ := Prod.mk.inj heq
    exact h.put_same hknows
  | reconnecting a =>
    obtain ⟨x, -, heq⟩ := Option.map_eq_some_iff.mp hp
    obtain ⟨-, rfl⟩ := Prod.mk.inj heq
    exact h.put_same hknows
  | handleUp a =>
    obtain ⟨x, -, heq⟩ := Option.map_eq_some_iff.mp hp
    obtain ⟨-, rfl⟩ := Prod.mk.inj heq
    exact h.put_same hknows
  | found radio state =>
    obtain ⟨-, rfl⟩ := Prod.mk.inj (Option.some.inj hp)
    refine h.put_holder ha (h.safe.find radio state) ?_ (.refl _)
    refine { hknows with free := ?_, clear := ?_ }
    · intro hl
      cases ha.symm.trans hl
    · intro radio' hclear
      obtain ⟨hstate, heq⟩ := Option.ite_none_right_eq_some.mp hclear
      obtain rfl := Option.some.inj heq
      exact ⟨state, hstate, rfl⟩
  | spawn radio =>
    obtain ⟨hl, hclear⟩ := ha
    cases choice with
    | spawns able watch =>
      obtain ⟨rfl, rfl⟩ := Prod.mk.inj (Option.some.inj hp)
      obtain ⟨state, hstate, hfound⟩ := hknows.clear radio hclear
      have hgrown : Grown s.actors (s.hire radio able watch).actors := grown_append s.actors _
      refine h.put_holder hl (h.safe.hire able watch hstate hfound) ?_ hgrown
      refine ⟨hknows.holder, fun hl' => (by cases hl.symm.trans hl'), ?_, ?_, ?_⟩
      · intro e he
        exact (hknows.slot e he).mono hgrown
      · intro radio' hclear'
        cases hclear'
      · rintro e he
        obtain rfl := Option.some.inj he
        refine ⟨.new radio able watch, ?_, rfl, fun hpassed => by cases hpassed⟩
        exact List.getElem?_concat_length
    | fails e =>
      obtain ⟨rfl, rfl⟩ := Prod.mk.inj (Option.some.inj hp)
      exact h.put_same hknows
    | go | reads => cases hp
  | count radio =>
    obtain ⟨-, rfl⟩ := Prod.mk.inj (Option.some.inj hp)
    exact h.put_holder ha (h.safe.of_same rfl rfl rfl)
      (hknows.mono (.refl _) fun _ => ⟨rfl, rfl⟩) (.refl _)
  | note line =>
    obtain ⟨-, rfl⟩ := Prod.mk.inj (Option.some.inj hp)
    have hsafe : Safe (s.noteLine line) := h.safe.of_same (by simp) (by simp) (by simp)
    have hgrown : Grown s.actors (s.noteLine line).actors := by
      rw [ActorLinks.noteLine_actors]
      exact .refl s.actors
    have hnote : Knows (s.noteLine line) k (locals k) := hknows.mono hgrown (by simp)
    exact h.put_holder ha hsafe hnote hgrown
  | canKey a =>
    obtain ⟨hl, radio, hfresh⟩ := ha
    obtain ⟨x, hx, heq⟩ := Option.map_eq_some_iff.mp hp
    obtain ⟨rfl, rfl⟩ := Prod.mk.inj heq
    refine h.put_same { hknows with fresh := ?_ }
    intro e he
    obtain rfl := Option.some.inj (hfresh.symm.trans he)
    obtain ⟨y, hy, hradio, -⟩ := hknows.fresh _ he
    obtain rfl := Option.some.inj (hx.symm.trans hy)
    refine ⟨x, hx, hradio, fun hable hcan => ?_⟩
    -- A radio that cannot be keyed needs no pass.
    have hnot : (!x.canKey) = true := hable
    rw [hcan] at hnot
    cases hnot
  | unkey a =>
    obtain ⟨hl, radio, hfresh⟩ := ha
    cases choice with
    | go =>
      obtain ⟨t, hmoved, heq⟩ := Option.map_eq_some_iff.mp hp
      obtain ⟨rfl, rfl⟩ := Prod.mk.inj heq
      obtain ⟨hsafe, hgrown⟩ := h.safe.moved (fun _ _ => Actor.later_unkey) hmoved
      obtain ⟨y, hy, rfl⟩ := Option.map_eq_some_iff.mp hmoved
      obtain ⟨x, hx, hunkey⟩ := Option.bind_eq_some_iff.mp hy
      obtain ⟨-, hdone⟩ := Option.ite_none_right_eq_some.mp hunkey
      obtain rfl := Option.some.inj hdone
      have hmono := hknows.mono hgrown fun _ => ⟨rfl, rfl⟩
      refine h.put_holder hl hsafe { hmono with fresh := ?_ } hgrown
      intro e he
      obtain rfl := Option.some.inj (hfresh.symm.trans he)
      obtain ⟨z, hz, hradio, -⟩ := hmono.fresh _ he
      refine ⟨z, hz, hradio, fun _ _ => ?_⟩
      rw [List.getElem?_set_self (List.getElem?_eq_some_iff.mp hx).1] at hz
      obtain rfl := Option.some.inj hz
      exact rfl
    | fails e =>
      obtain ⟨rfl, rfl⟩ := Prod.mk.inj (Option.some.inj hp)
      exact h.put_same hknows
    | spawns | reads => cases hp
  | frequency a =>
    cases choice with
    | reads hz name =>
      obtain ⟨-, rfl⟩ := Prod.mk.inj (Option.some.inj hp)
      exact h.put_same hknows
    | go | spawns | fails => cases hp
  | mode a =>
    cases choice with
    | reads hz name =>
      obtain ⟨-, rfl⟩ := Prod.mk.inj (Option.some.inj hp)
      exact h.put_same hknows
    | go | spawns | fails => cases hp
  | insert radio a =>
    obtain ⟨hl, hfresh, hpassed⟩ := ha
    obtain ⟨-, rfl⟩ := Prod.mk.inj (Option.some.inj hp)
    obtain ⟨x, hx, hradio, hx'⟩ := hknows.fresh _ hfresh
    refine h.put_holder hl (h.safe.adopt ⟨x, hx, hradio, hx' hpassed⟩) ?_ (.refl _)
    refine ⟨hknows.holder, fun _ => ⟨rfl, rfl⟩, hknows.slot, ?_, ?_⟩
    · intro radio' hclear
      cases hclear
    · intro e he
      cases he

end Inv

/-! ### All along -/

/-- A call that is dropped gives up the lock, if it holds it. -/
theorem Inv.release {s : ActorLinks} {locals : ℕ → Hold} (h : Inv s locals) (k : ℕ) :
    Inv (executor.release k s) (Function.update locals k .idle) := by
  simp only [executor]
  split
  next hheld =>
    refine h.put (h.safe.of_same rfl rfl rfl) (knows_idle _ k) (.refl _) fun j hjk hj => ?_
    exact absurd (Option.some.inj (((h.knows j).holder hj).symm.trans hheld)) hjk
  · exact h.put_same (knows_idle _ k)

/-- What happens to the links of the actors. -/
theorem Inv.outside {s s' : ActorLinks} {locals : ℕ → Hold} (h : Inv s locals) {e : Outside}
    (he : s.moved e.step.1 e.step.2 = some s') : Inv s' locals := by
  obtain ⟨hsafe, hgrown⟩ := h.safe.moved (fun _ _ => Actor.later_outside) he
  obtain ⟨y, -, rfl⟩ := Option.map_eq_some_iff.mp he
  exact ⟨hsafe, fun k => (h.knows k).mono hgrown fun _ => ⟨rfl, rfl⟩⟩

/-- In any interleaving the links are safe, and the calls keep to the discipline. -/
theorem reachable_safe {w : State} (h : machine.Reachable w) : ∃ locals,
    Inv w.shared locals ∧ Executor.Keeps discipline Reports .idle locals w := by
  refine Executor.reach_invariant discipline Reports .idle Inv run_follows ?_ ?_ ?_ ?_ h
  · rintro s ⟨hholder, hactors, hslots, hlog⟩
    refine ⟨⟨?_, ?_, ?_, ?_⟩, fun k => knows_idle s k⟩
    · simp [hactors]
    · simp [hslots]
    · simp [hslots]
    · rw [hlog]
      trivial
  · intro w locals k choice i r s' hinv _ _ _ hallows hexec
    exact hinv.perform hallows hexec
  · intro s locals k i hinv _ _
    exact hinv.release k
  · intro w locals e s' hinv _ _ henv
    exact hinv.outside henv

/-- An actor of the radio on which the unkey pass has succeeded, if the radio can be keyed: in an
earlier session of its transport or in the current one, which is the only one of a transport that
has no status. -/
def Unkeyed (s : ActorLinks) (radio : DeviceId) (a : ℕ) : Prop :=
  ∃ x, s.actors[a]? = some x ∧ x.radio = radio ∧ (x.canKey = true →
    ∃ g ∈ x.unkeyed, g ≤ x.session ∧ (x.watch = none → g = x.session))

theorem Safe.unkeyed {s : ActorLinks} (h : Safe s) {radio : DeviceId} {a : ℕ}
    (ha : Adopted s radio a) : Unkeyed s radio a := by
  obtain ⟨x, hx, hradio, hpassed⟩ := ha
  refine ⟨x, hx, hradio, fun hcan => ?_⟩
  obtain ⟨g, hg⟩ := Option.isSome_iff_exists.mp (hpassed hcan)
  have hsane := h.sane x (List.mem_of_getElem? hx)
  have hle := hsane.earlier g hg
  refine ⟨g, hg, hle, fun hwatch => ?_⟩
  have honly := hsane.only hwatch
  omega

/-- What only an attempt to connect does, once it has the lock. -/
def Action.attempts : Action → Bool
  | .lock | .slot _ | .transportUp _ | .reconnecting _ | .handleUp _ => false
  | _ => true

theorem Hold.holds_of_allows {l : Hold} {i : Action} (h : l.allows i) (hi : i.attempts = true) :
    l.holds = true := by
  cases i with
  | lock | slot | transportUp | reconnecting | handleUp => cases hi
  | spawn | canKey | unkey | insert => exact h.1
  | unlock | found | count | note | frequency | mode => exact h

/-- Call `k` connects a radio that was not connected: its actor has a transport of the given status,
and is unkeyed. -/
def connects (k : ℕ) (radio : DeviceId) (watch : Option LinkStatus) :
    List (Turn Call Choice Outside) :=
  [.call (.connect radio)] ++ turns k 3 .go ++ [.turn k (.spawns true watch)] ++ turns k 5 .go ++
    turns k 2 (.reads (some 14074000) none) ++ turns k 2 .go

end HamsOpen.Links
