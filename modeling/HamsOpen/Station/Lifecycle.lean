import HamsOpen.Station.Model

/-!
# The life of a radio

The state machine of `lifecycle.rs`. It is fed snapshots of what is known of a radio, the switch
channel, the link and whether the device is there, and says what changed. Times are measured from
any fixed start.
-/

namespace HamsOpen.Station

/-- Where a radio is in its life. -/
inductive RadioState
  | off | poweringOn | booting | ready | degraded | unreachable
  deriving DecidableEq

/-- What the switch channel says about the radio's power. -/
inductive PowerEvidence
  | on | off | unknown
  deriving DecidableEq

/-- One snapshot of everything known about a radio. -/
structure Evidence where
  power : PowerEvidence
  linkUp : Bool
  /-- Whether the device is there, as hotplug or ping tell, if they do. -/
  present : Option Bool
  deriving DecidableEq

structure LifecycleTimes where
  bootTime : Duration
  bootGrace : Duration
  powerOnTimeout : Duration
  degradedTimeout : Duration
  deriving DecidableEq

/-- A state change with its reason. -/
structure Transition where
  before : RadioState
  after : RadioState
  reason : String
  deriving DecidableEq

/-- The state machine of one radio. -/
structure Lifecycle where
  state : RadioState
  /-- When the current state began. -/
  since : Instant
  times : LifecycleTimes
  prevPresent : Option Bool
  deriving DecidableEq

/-- 20 s boot, 10 s grace, 10 s switch confirmation, 60 s degraded. -/
def LifecycleTimes.default : LifecycleTimes where
  bootTime := 20000
  bootGrace := 10000
  powerOnTimeout := 10000
  degradedTimeout := 60000

namespace Lifecycle

def new (state : RadioState) (now : Instant) (times : LifecycleTimes) : Lifecycle :=
  ⟨state, now, times, none⟩

/-- Moves to a state, unless already there. -/
def goto (target : RadioState) (now : Instant) (reason : String) (l : Lifecycle) :
    Option Transition × Lifecycle :=
  if l.state = target then (none, l)
  else (some ⟨l.state, target, reason⟩, { l with state := target, since := now })

/-- Feeds one snapshot and returns the transition it caused, if any. -/
def step (now : Instant) (ev : Evidence) (l : Lifecycle) : Option Transition × Lifecycle :=
  let waited := now - l.since
  -- a device that has been there all along is not appearing
  let appeared := ev.present == some true && l.prevPresent != some true
  let l := { l with prevPresent := ev.present }
  if ev.power = .off then l.goto .off now "switch is off"
  else match l.state with
  | .off =>
    match ev.power, ev.linkUp with
    | .on, true => l.goto .ready now "switched on elsewhere, link up"
    | .on, false => l.goto .booting now "switch is on, waiting for boot"
    | _, true => l.goto .ready now "link up"
    | _, _ => (none, l)
  | .poweringOn =>
    if ev.power = .on then l.goto .booting now "switch confirmed on"
    else if l.times.powerOnTimeout ≤ waited then
      l.goto .unreachable now "switch never confirmed on"
    else (none, l)
  | .booting =>
    if ev.linkUp then l.goto .ready now "link up"
    else if l.times.bootTime + l.times.bootGrace ≤ waited then
      l.goto .unreachable now "did not boot in time"
    else (none, l)
  | .ready =>
    if ev.linkUp then (none, l)
    else if ev.present = some false then l.goto .unreachable now "link down, device gone"
    else l.goto .degraded now "link down"
  | .degraded =>
    if ev.linkUp then l.goto .ready now "link restored"
    else if ev.present = some false then l.goto .unreachable now "device gone"
    else if l.times.degradedTimeout ≤ waited then l.goto .unreachable now "no link in time"
    else (none, l)
  | .unreachable =>
    if ev.linkUp then l.goto .ready now "link up"
    else if appeared then l.goto .booting now "device appeared"
    else (none, l)

/-! ### Runs of snapshots -/

/-- A snapshot and when it is taken. -/
abbrev Snapshot := Instant × Evidence

def fed (l : Lifecycle) (s : Snapshot) : Option Transition × Lifecycle := l.step s.1 s.2

/-- The machine after some snapshots. -/
def after (l : Lifecycle) (snapshots : List Snapshot) : Lifecycle :=
  snapshots.foldl (fun l s => (l.fed s).2) l

/-- Something holds at each snapshot of a run. -/
def Along (P : Lifecycle → Snapshot → Prop) : Lifecycle → List Snapshot → Prop
  | _, [] => True
  | l, s :: rest => P l s ∧ Along P (l.fed s).2 rest

theorem Along.imp {P Q : Lifecycle → Snapshot → Prop} (hPQ : ∀ l s, P l s → Q l s) {l : Lifecycle}
    {snapshots : List Snapshot} (h : Along P l snapshots) : Along Q l snapshots := by
  induction snapshots generalizing l with
  | nil => trivial
  | cons s rest ih => exact ⟨hPQ l s h.1, ih h.2⟩

/-! ### What a snapshot does -/

variable {l : Lifecycle} {s : Snapshot}

/-- The snapshot leaves the state alone. -/
def Stays (l : Lifecycle) (s : Snapshot) : Prop :=
  l.fed s = (none, { l with prevPresent := s.2.present })

/-- The snapshot moves the radio to another state. -/
def MovesTo (l : Lifecycle) (s : Snapshot) (target : RadioState) : Prop :=
  l.state ≠ target ∧ ∃ reason, l.fed s = (some ⟨l.state, target, reason⟩,
    { l with state := target, since := s.1, prevPresent := s.2.present })

/-- How long a state may last, where that is limited. -/
def limit (l : Lifecycle) : Option Duration :=
  match l.state with
  | .poweringOn => some l.times.powerOnTimeout
  | .booting => some (l.times.bootTime + l.times.bootGrace)
  | .degraded => some l.times.degradedTimeout
  | .off | .ready | .unreachable => none

/-- The time of the current state is up. -/
def Due (l : Lifecycle) (s : Snapshot) : Prop := ∃ d ∈ l.limit, d ≤ s.1 - l.since

/-- The radio is given up on although its link is up: it waits for a switch that cannot be read. -/
def GivesUpLinked (l : Lifecycle) (s : Snapshot) : Prop :=
  l.state = .poweringOn ∧ s.2.power = .unknown ∧ s.2.linkUp = true ∧
    l.times.powerOnTimeout ≤ s.1 - l.since

/-- What moves the radio to a state. -/
def Cause (l : Lifecycle) (s : Snapshot) : RadioState → Prop
  | .off => s.2.power = .off
  | .poweringOn => False
  | .booting => s.2.power ≠ .off
  | .ready => s.2.power ≠ .off ∧ s.2.linkUp = true
  | .degraded => s.2.power ≠ .off ∧ s.2.linkUp = false
  | .unreachable => s.2.power ≠ .off ∧ (s.2.linkUp = false ∨ GivesUpLinked l s)

theorem movesTo_of_goto {target : RadioState} {reason : String}
    (hstep : l.fed s = { l with prevPresent := s.2.present }.goto target s.1 reason)
    (hne : l.state ≠ target) : MovesTo l s target := by
  refine ⟨hne, reason, hstep.trans ?_⟩
  exact if_neg hne

theorem stays_of_goto {target : RadioState} {reason : String}
    (hstep : l.fed s = { l with prevPresent := s.2.present }.goto target s.1 reason)
    (heq : l.state = target) : Stays l s :=
  hstep.trans (if_pos heq)

/-- A radio that stays as it is has time left, and is off when it is known to be. -/
structure Rests (l : Lifecycle) (s : Snapshot) : Prop where
  stays : Stays l s
  not_due : ¬ Due l s
  off_of_off : s.2.power = .off → l.state = .off

theorem not_due_of_unlimited (h : l.limit = none) : ¬ Due l s := by
  rintro ⟨d, hd, -⟩
  rw [h] at hd
  cases hd

theorem not_due_of_lt {d : Duration} (h : l.limit = some d) (hlt : ¬ d ≤ s.1 - l.since) :
    ¬ Due l s := by
  rintro ⟨d', hd', hle⟩
  obtain rfl := Option.some.inj (h.symm.trans hd')
  exact hlt hle

/-- All that a snapshot can do. -/
theorem stays_or_moves (l : Lifecycle) (s : Snapshot) :
    Rests l s ∨ ∃ target, MovesTo l s target ∧ Cause l s target := by
  obtain ⟨now, power, linkUp, present⟩ := s
  obtain ⟨state, since, times, prevPresent⟩ := l
  by_cases hpower : power = .off
  · -- the switch decides before anything else
    have hgoto : ∀ l : Lifecycle, l.fed (now, ⟨power, linkUp, present⟩) =
        { l with prevPresent := present }.goto .off now "switch is off" := fun l => if_pos hpower
    by_cases hstate : state = .off
    · refine .inl ⟨stays_of_goto (hgoto _) hstate, ?_, fun _ => hstate⟩
      exact not_due_of_unlimited (by rw [hstate]; rfl)
    · exact .inr ⟨.off, movesTo_of_goto (hgoto _) hstate, hpower⟩
  · cases state with
    | off =>
      cases power with
      | off => exact absurd rfl hpower
      | on =>
        cases linkUp with
        | true => exact .inr ⟨.ready, movesTo_of_goto rfl nofun, hpower, rfl⟩
        | false => exact .inr ⟨.booting, movesTo_of_goto rfl nofun, hpower⟩
      | unknown =>
        cases linkUp with
        | true => exact .inr ⟨.ready, movesTo_of_goto rfl nofun, hpower, rfl⟩
        | false => exact .inl ⟨rfl, not_due_of_unlimited rfl, fun h => absurd h hpower⟩
    | poweringOn =>
      cases power with
      | off => exact absurd rfl hpower
      | on => exact .inr ⟨.booting, movesTo_of_goto rfl nofun, hpower⟩
      | unknown =>
        -- only the switch is waited for: the link is not looked at
        by_cases hdue : times.powerOnTimeout ≤ now - since
        · refine .inr ⟨.unreachable, movesTo_of_goto (if_pos hdue) nofun, hpower, ?_⟩
          cases linkUp with
          | true => exact .inr ⟨rfl, rfl, rfl, hdue⟩
          | false => exact .inl rfl
        · exact .inl ⟨if_neg hdue, not_due_of_lt rfl hdue, fun h => absurd h hpower⟩
    | booting =>
      cases linkUp with
      | true => exact .inr ⟨.ready, movesTo_of_goto (if_neg hpower) nofun, hpower, rfl⟩
      | false =>
        by_cases hdue : times.bootTime + times.bootGrace ≤ now - since
        · exact .inr ⟨.unreachable,
            movesTo_of_goto (.trans (if_neg hpower) (if_pos hdue)) nofun, hpower, .inl rfl⟩
        · exact .inl ⟨.trans (if_neg hpower) (if_neg hdue),
            not_due_of_lt rfl hdue, fun h => absurd h hpower⟩
    | ready =>
      cases linkUp with
      | true => exact .inl ⟨if_neg hpower, not_due_of_unlimited rfl, fun h => absurd h hpower⟩
      | false =>
        by_cases hgone : present = some false
        · exact .inr ⟨.unreachable,
            movesTo_of_goto (.trans (if_neg hpower) (if_pos hgone)) nofun, hpower, .inl rfl⟩
        · exact .inr ⟨.degraded,
            movesTo_of_goto (.trans (if_neg hpower) (if_neg hgone)) nofun, hpower, rfl⟩
    | degraded =>
      cases linkUp with
      | true => exact .inr ⟨.ready, movesTo_of_goto (if_neg hpower) nofun, hpower, rfl⟩
      | false =>
        by_cases hgone : present = some false
        · exact .inr ⟨.unreachable,
            movesTo_of_goto (.trans (if_neg hpower) (if_pos hgone)) nofun, hpower, .inl rfl⟩
        · by_cases hdue : times.degradedTimeout ≤ now - since
          · exact .inr ⟨.unreachable,
              movesTo_of_goto (.trans (if_neg hpower) (.trans (if_neg hgone) (if_pos hdue))) nofun,
              hpower, .inl rfl⟩
          · exact .inl ⟨.trans (if_neg hpower) (.trans (if_neg hgone) (if_neg hdue)),
              not_due_of_lt rfl hdue, fun h => absurd h hpower⟩
    | unreachable =>
      cases linkUp with
      | true => exact .inr ⟨.ready, movesTo_of_goto (if_neg hpower) nofun, hpower, rfl⟩
      | false =>
        by_cases happeared : (present == some true && prevPresent != some true) = true
        · exact .inr ⟨.booting,
            movesTo_of_goto (.trans (if_neg hpower) (if_pos happeared)) nofun, hpower⟩
        · exact .inl ⟨.trans (if_neg hpower) (if_neg happeared),
            not_due_of_unlimited rfl, fun h => absurd h hpower⟩

/-! ### A step is lawful -/

/-- What is asked of one snapshot. -/
structure LawfulStep (l : Lifecycle) (s : Snapshot) : Prop where
  /-- A radio known to be switched off is off. -/
  off : s.2.power = .off → (l.fed s).2.state = .off
  /-- A radio that answers is not given up on. -/
  linked : s.2.linkUp = true → ∀ t ∈ (l.fed s).1, t.after ≠ .unreachable ∧ t.after ≠ .degraded
  /-- A transition goes from the state before to another one, the state after; without one the state
  is kept. -/
  moves : ∀ t ∈ (l.fed s).1, t.before = l.state ∧ t.after = (l.fed s).2.state ∧ t.before ≠ t.after
  keeps : (l.fed s).1 = none → (l.fed s).2.state = l.state

theorem Rests.lawful (h : Rests l s) : LawfulStep l s := by
  have hstep : l.fed s = (none, { l with prevPresent := s.2.present }) := h.stays
  constructor
  · intro hoff
    rw [hstep]
    exact h.off_of_off hoff
  all_goals rw [hstep]; simp

/-- A move is lawful unless it gives up on a radio whose link is up. -/
theorem MovesTo.lawful_iff_cause {target : RadioState} (h : MovesTo l s target)
    (hcause : Cause l s target) : LawfulStep l s ↔ ¬ GivesUpLinked l s := by
  obtain ⟨hne, reason, hstep⟩ := h
  constructor
  · rintro hlawful ⟨hstate, hpower, hlink, hdue⟩
    -- while the switch is waited for, only the switch and the clock count
    have hgone : l.fed s = (some ⟨l.state, .unreachable, "switch never confirmed on"⟩,
        { l with state := .unreachable, since := s.1, prevPresent := s.2.present }) := by
      obtain ⟨now, power, linkUp, present⟩ := s
      obtain ⟨state, since, times, prevPresent⟩ := l
      subst hstate hpower
      exact if_pos hdue
    refine (hlawful.linked hlink ⟨l.state, .unreachable, "switch never confirmed on"⟩ ?_).1 rfl
    rw [hgone]
    exact rfl
  · intro hno
    refine ⟨fun hoff => ?_, fun hlink t ht => ?_, fun t ht => ?_, fun hnone => ?_⟩
    · rw [hstep]
      cases target with
      | off => rfl
      | poweringOn => exact hcause.elim
      | booting => exact absurd hoff hcause
      | ready | degraded | unreachable => exact absurd hoff hcause.1
    · rw [hstep] at ht
      obtain rfl := Option.some.inj ht
      cases target with
      | off | poweringOn | booting | ready => exact ⟨nofun, nofun⟩
      | degraded => exact absurd (hlink.symm.trans hcause.2) nofun
      | unreachable =>
        rcases hcause.2 with hdown | hgives
        · exact absurd (hlink.symm.trans hdown) nofun
        · exact absurd hgives hno
    · rw [hstep] at ht ⊢
      obtain rfl := Option.some.inj ht
      exact ⟨rfl, rfl, hne⟩
    · rw [hstep] at hnone
      cases hnone

theorem lawfulStep_iff (l : Lifecycle) (s : Snapshot) : LawfulStep l s ↔ ¬ GivesUpLinked l s := by
  rcases stays_or_moves l s with hrests | ⟨target, hmoves, hcause⟩
  · -- a radio that is given up on has no time left
    refine iff_of_true hrests.lawful ?_
    rintro ⟨hstate, -, -, hdue⟩
    refine hrests.not_due ⟨l.times.powerOnTimeout, ?_, hdue⟩
    rw [limit, hstate]
    exact rfl
  · exact hmoves.lawful_iff_cause hcause

/-! ### Time is up -/

/-- Some snapshot of a run moves the radio out of the state it begins in. -/
def Leaves : Lifecycle → List Snapshot → Prop
  | _, [] => False
  | l, s :: rest => (∃ t ∈ (l.fed s).1, t.before = l.state) ∨ Leaves (l.fed s).2 rest

/-- A state whose time is up is left, whatever the snapshots show. -/
theorem left_in_time {l : Lifecycle} {stay : List Snapshot} {last : Snapshot} (h : Due l last) :
    Leaves l (stay ++ [last]) := by
  induction stay generalizing l with
  | nil =>
    rcases stays_or_moves l last with hrests | ⟨target, ⟨-, reason, hstep⟩, -⟩
    · exact absurd h hrests.not_due
    · refine .inl ⟨⟨l.state, target, reason⟩, ?_, rfl⟩
      rw [hstep]
      exact rfl
  | cons s stay ih =>
    rcases stays_or_moves l s with hrests | ⟨target, ⟨-, reason, hstep⟩, -⟩
    · -- the state goes on, and so does its time
      have hkept : (l.fed s).2 = { l with prevPresent := s.2.present } := by rw [hrests.stays]
      refine .inr ?_
      rw [hkept]
      exact ih h
    · refine .inl ⟨⟨l.state, target, reason⟩, ?_, rfl⟩
      rw [hstep]
      exact rfl

/-! ### Runs -/

/-- What is asked of a run of snapshots: each is lawful, and a timed state is left when its time is up
by the last of some snapshots that all show the same. -/
structure Lawful (l : Lifecycle) (snapshots : List Snapshot) : Prop where
  steps : Along LawfulStep l snapshots
  timed : ∀ start stay last rest, snapshots = start ++ (stay ++ [last]) ++ rest →
    (∀ s ∈ stay, s.2 = last.2) → Due (l.after start) last → Leaves (l.after start) (stay ++ [last])

/-- A run is as asked exactly when no snapshot finds the radio waiting past its time for a switch
whose state is unknown, while the link is up. -/
theorem lawful_iff (l : Lifecycle) (snapshots : List Snapshot) :
    Lawful l snapshots ↔ Along (fun l s => ¬ GivesUpLinked l s) l snapshots := by
  constructor
  · intro h
    exact h.steps.imp fun l s => (lawfulStep_iff l s).mp
  · intro h
    refine ⟨h.imp fun l s => (lawfulStep_iff l s).mpr, ?_⟩
    intro start stay last rest _ _ hdue
    exact left_in_time hdue

/-- The radio answers, but its switch cannot be read: it is given up on. -/
theorem gives_up_linked :
    ¬ Lawful (.new .poweringOn 0 .default) [(10000, ⟨.unknown, true, none⟩)] := by
  intro h
  have hlinked := h.steps.1.linked rfl ⟨.poweringOn, .unreachable, "switch never confirmed on"⟩
  exact (hlinked rfl).1 rfl

end Lifecycle

end HamsOpen.Station
