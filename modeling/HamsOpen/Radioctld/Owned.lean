import HamsOpen.Radioctld.Service
import Mathlib

/-!
# Steps that leave no transmission without its owner

An operation that fails gives up the transmitter of its client, and an unkey clears whoever is the
owner. Steps are orderly when the transmission these belong to is over.
-/

namespace HamsOpen.Radioctld

open Rig (Op ErrorKind)

namespace Task

/-- The claim of a command that transmits is made, and its operation is put on the queue next. -/
def isClaiming : Task → Bool
  | .running command none => command.op.transmits
  | _ => false

/-- An unkey is done, and the owner is cleared next. -/
def isClearing : Task → Bool
  | .answered .unkey _ (.ok _) => true
  | _ => false

/-- The unkey whose outcome the task waits for. -/
def unkeying : Task → Option ℕ
  | .running .unkey id => id
  | _ => none

/-- The command gives the transmitter up if it fails, or has done so. -/
def givesUp : Task → Bool
  | .running command _ => command.op.transmits || command = .disconnect
  | _ => false

end Task

namespace State

/-- Whose operation put the rig on the air. -/
def keyedBy (s : State) : Option ClientId := s.last.map Item.client

/-- The unkey of a client that leaves is on its way, and comes after an operation. -/
def Leaving (s : State) (item : Item) : Prop :=
  s.tasks[item.client]? = some (.running .disconnect none) ∨
    ∃ u ∈ s.queue, u.op = .setPtt false ∧ u.client = item.client ∧ item.id < u.id ∧
      s.tasks[item.client]? = some (.running .disconnect (some u.id))

/-- A client claims while no unkey is about to clear the owner. Only what can no longer be carried
out fails, and only of a client that does not have the rig on the air, if it gives the transmitter
up. An unkey is reported done with the rig unkeyed, no operation that transmits to come, and no
claim since its issue. -/
def Orderly (s : State) : Act → Prop
  | .start c command => command.op.transmits = true → (s.claim c).isOk = true →
      ∀ t ∈ s.tasks, t.isClearing = false
  | .submit c (some _) => s.tasks[c]?.any Task.givesUp = true → s.keyedBy ≠ some c
  | .reply c (some _) => s.tasks[c]?.any Task.givesUp = true →
      s.keyedBy ≠ some c ∧ ∀ item ∈ s.queue, item.client = c → item.op.transmits = false
  | .reply c none => ∀ u ∈ s.tasks[c]?.bind Task.unkeying,
      s.last = none ∧ (s.owner.owner.isSome = true → s.claimed < u) ∧
        (∀ t ∈ s.tasks, t.isClaiming = false) ∧ ∀ item ∈ s.queue, item.op.transmits = false
  | .drop item => s.tasks[item.client]? = some (.running .disconnect (some item.id)) →
      s.keyedBy ≠ some item.client
  | _ => True

instance (s : State) (a : Act) : Decidable (s.Orderly a) := by
  rcases a with _ | _ | ⟨_, _ | _⟩ | ⟨_, _ | _⟩ | _ | _ | _ | _ | _ <;> unfold Orderly <;>
    infer_instance

/-! ### The invariant -/

/-- An operation of a client that transmits is on the queue. -/
def Waits (s : State) (c : ClientId) : Prop :=
  ∃ item ∈ s.queue, item.client = c ∧ item.op.transmits = true

/-- What holds of the task of a client. -/
def TaskOk (s : State) (c : ClientId) : Task → Prop
  | .idle _ => True
  | .running command id =>
    (command.op.transmits = true → (id = none ∨ s.Waits c) → s.owner.owner = some c) ∧
    (command = .disconnect → s.owner.owner ≠ some c)
  | .answered command _ outcome =>
    (command.op.transmits = true → outcome.isOk = false → s.keyedBy ≠ some c) ∧
    (command = .disconnect → s.owner.owner ≠ some c ∧ s.keyedBy ≠ some c)
  | .gone => s.owner.owner ≠ some c ∧ s.keyedBy ≠ some c

/-- An unkey with this number may clear the owner. -/
structure Clear (s : State) (id : Option ℕ) : Prop where
  last : s.last = none
  claimed : ∃ u, id = some u ∧ (s.owner.owner.isSome = true → s.claimed < u)
  claiming : ∀ t ∈ s.tasks, t.isClaiming = false
  queue : ∀ item ∈ s.queue, item.op.transmits = false

/-- The invariant. -/
structure Owned (s : State) : Prop where
  ids : ∀ item ∈ s.queue, item.id < s.next
  nodup : (s.queue.map Item.id).Nodup
  carried : ∀ id ∈ s.carried, id < s.next ∧ ∀ item ∈ s.queue, item.id ≠ id
  recent : ∀ item, s.last = some item → item.id < s.next
  /-- The client of an operation that transmits waits for its outcome. -/
  waiting : ∀ item ∈ s.queue, item.op.transmits = true → ∃ command,
    s.tasks[item.client]? = some (.running command (some item.id)) ∧ command.op = item.op
  keyed : ∀ item, s.last = some item → s.owner.owner = some item.client ∨ s.Leaving item
  tasks : ∀ c t, s.tasks[c]? = some t → s.TaskOk c t
  clearing : ∀ (c : ClientId) id, s.tasks[c]? = some (.answered .unkey id (.ok ())) → s.Clear id

variable {s s' : State} {c d : ClientId} {t t' : Task}

theorem tasks_setTask (h : s.tasks[c]? = some t) (t' : Task) (d : ClientId) :
    (s.setTask c t').tasks[d]? = if d = c then some t' else s.tasks[d]? := by
  have hc : c < s.tasks.length := (List.getElem?_eq_some_iff.mp h).1
  unfold setTask
  rw [List.getElem?_set]
  split
  next heq =>
    subst heq
    rw [if_pos rfl]
  next hne => rw [if_neg (Ne.symm hne)]

theorem tasks_setTask_self (h : s.tasks[c]? = some t) (t' : Task) :
    (s.setTask c t').tasks[c]? = some t' := by
  rw [tasks_setTask h, if_pos rfl]

theorem tasks_setTask_of_ne (h : s.tasks[c]? = some t) (t' : Task) (hne : d ≠ c) :
    (s.setTask c t').tasks[d]? = s.tasks[d]? := by
  rw [tasks_setTask h, if_neg hne]

theorem keyedBy_eq_some : s.keyedBy = some c ↔ ∃ item, s.last = some item ∧ item.client = c := by
  unfold keyedBy
  rw [Option.map_eq_some_iff]

/-- What the task of a client stands on. -/
theorem TaskOk.mono (h : s.TaskOk c t)
    (howner : s'.owner.owner = some c ↔ s.owner.owner = some c)
    (hkeyed : s'.keyedBy = some c → s.keyedBy = some c) (hwaits : s'.Waits c → s.Waits c) :
    s'.TaskOk c t := by
  cases t with
  | idle => trivial
  | running command id =>
    obtain ⟨howns, hleaving⟩ := h
    constructor
    · intro htransmits hid
      apply howner.mpr
      apply howns htransmits
      exact hid.imp_right hwaits
    · intro hcommand
      exact mt howner.mp (hleaving hcommand)
  | answered command id outcome =>
    obtain ⟨hfailed, hleaving⟩ := h
    constructor
    · intro htransmits hok
      exact mt hkeyed (hfailed htransmits hok)
    · intro hcommand
      exact ⟨mt howner.mp (hleaving hcommand).1, mt hkeyed (hleaving hcommand).2⟩
  | gone => exact ⟨mt howner.mp h.1, mt hkeyed h.2⟩

/-! ### What the rig does -/

theorem Leaving.mono {item : Item} (h : s.Leaving item)
    (htasks : s'.tasks[item.client]? = s.tasks[item.client]?)
    (hqueue : ∀ u ∈ s.queue, u.op = .setPtt false → u.client = item.client →
      s.tasks[item.client]? = some (.running .disconnect (some u.id)) → u ∈ s'.queue) :
    s'.Leaving item := by
  rcases h with hnone | ⟨u, hu, hop, hclient, hlt, htask⟩
  · exact .inl (htasks.trans hnone)
  · exact .inr ⟨u, hqueue u hu hop hclient htask, hop, hclient, hlt, htasks.trans htask⟩

/-- An operation that leaves the queue leaves its number to no other one. -/
theorem id_ne_of_mem_erase {queue : List Item} {item other : Item}
    (hnodup : (queue.map Item.id).Nodup) (hitem : item ∈ queue)
    (hother : other ∈ queue.erase item) : other.id ≠ item.id := by
  intro heq
  have hmem := List.mem_of_mem_erase hother
  have hsame : other = item := List.inj_on_of_nodup_map hnodup hmem hitem heq
  rw [hsame] at hother
  exact (List.Nodup.of_map _ hnodup).not_mem_erase hother

theorem Owned.erase {item : Item} (h : s.Owned) (hitem : item ∈ s.queue)
    (hleaves : item.op = .setPtt false →
      s.tasks[item.client]? = some (.running .disconnect (some item.id)) →
        s.keyedBy ≠ some item.client) :
    { s with queue := s.queue.erase item }.Owned where
  ids other hother := h.ids other (List.mem_of_mem_erase hother)
  nodup := h.nodup.sublist (List.erase_sublist.map _)
  carried id hid := ⟨(h.carried id hid).1,
    fun other hother => (h.carried id hid).2 other (List.mem_of_mem_erase hother)⟩
  recent := h.recent
  waiting other hother := h.waiting other (List.mem_of_mem_erase hother)
  keyed last hlast := by
    rcases h.keyed last hlast with howner | hleaving
    · exact .inl howner
    · refine .inr (hleaving.mono rfl ?_)
      intro u hu hop hclient htask
      refine (List.mem_erase_of_ne ?_).mpr hu
      -- what leaves the queue is not the unkey that is on its way
      rintro rfl
      rw [hclient] at hleaves
      exact hleaves hop htask (keyedBy_eq_some.mpr ⟨last, hlast, rfl⟩)
  tasks c t ht := (h.tasks c t ht).mono Iff.rfl id
    fun ⟨other, hother, hclient⟩ => ⟨other, List.mem_of_mem_erase hother, hclient⟩
  clearing c id hid := by
    obtain ⟨hlast, hclaimed, hclaiming, hqueue⟩ := h.clearing c id hid
    exact ⟨hlast, hclaimed, hclaiming,
      fun other hother => hqueue other (List.mem_of_mem_erase hother)⟩

/-- The rig is unkeyed. -/
theorem Owned.off (h : s.Owned) : { s with last := none }.Owned where
  ids := h.ids
  nodup := h.nodup
  carried := h.carried
  recent := nofun
  waiting := h.waiting
  keyed := nofun
  tasks c t ht := (h.tasks c t ht).mono Iff.rfl nofun id
  clearing c id hid := by
    obtain ⟨-, hclaimed, hclaiming, hqueue⟩ := h.clearing c id hid
    exact ⟨rfl, hclaimed, hclaiming, hqueue⟩

/-- The rig is keyed, with its client the owner. -/
theorem Owned.on {item : Item} (h : s.Owned) (hitem : item ∈ s.queue)
    (htransmits : item.op.transmits = true) : { s with last := some item }.Owned := by
  obtain ⟨command, htask, hop⟩ := h.waiting item hitem htransmits
  have howner : s.owner.owner = some item.client := by
    have hok := (h.tasks item.client _ htask).1
    rw [hop] at hok
    exact hok htransmits (.inr ⟨item, hitem, rfl, htransmits⟩)
  exact {
    ids := h.ids
    nodup := h.nodup
    carried := h.carried
    recent := by
      rintro _ ⟨⟩
      exact h.ids item hitem
    waiting := h.waiting
    keyed := by
      rintro _ ⟨⟩
      exact .inl howner
    tasks := by
      intro c t ht
      have hok := h.tasks c t ht
      by_cases hc : c = item.client
      · subst hc
        obtain rfl := Option.some.inj (ht.symm.trans htask)
        exact hok
      · have hne : ({ s with last := some item } : State).keyedBy ≠ some c :=
          fun heq => hc (Option.some.inj heq).symm
        cases t with
        | idle => trivial
        | running => exact hok
        | answered => exact ⟨fun _ _ => hne, fun hcommand => ⟨(hok.2 hcommand).1, hne⟩⟩
        | gone => exact ⟨hok.1, hne⟩
    clearing := by
      intro c id hid
      have hnone := (h.clearing c id hid).queue item hitem
      rw [htransmits] at hnone
      cases hnone }

/-- What is carried out and no longer on the queue is noted. -/
theorem Owned.note {n : ℕ} (h : s.Owned) (hn : n < s.next)
    (hqueue : ∀ item ∈ s.queue, item.id ≠ n) :
    { s with carried := n :: s.carried }.Owned where
  ids := h.ids
  nodup := h.nodup
  carried i hi := by
    rcases List.mem_cons.mp hi with rfl | hi
    · exact ⟨hn, hqueue⟩
    · exact h.carried i hi
  recent := h.recent
  waiting := h.waiting
  keyed := h.keyed
  tasks c t ht := (h.tasks c t ht).mono Iff.rfl id id
  clearing c id hid := by
    obtain ⟨hlast, hclaimed, hclaiming, hqueue⟩ := h.clearing c id hid
    exact ⟨hlast, hclaimed, hclaiming, hqueue⟩

theorem Owned.carryOut {item : Item} (h : s.Owned) (hitem : item ∈ s.queue) :
    { s with
      queue := s.queue.erase item
      carried := item.id :: s.carried
      last := s.lastAfter item }.Owned := by
  have hlast : { s with last := s.lastAfter item }.Owned := by
    unfold lastAfter
    split
    next => exact h.off
    next =>
      split
      next htransmits => exact h.on hitem htransmits
      next => exact h
  have hleaves : item.op = .setPtt false →
      ({ s with last := s.lastAfter item } : State).tasks[item.client]? =
        some (.running .disconnect (some item.id)) →
      ({ s with last := s.lastAfter item } : State).keyedBy ≠ some item.client := by
    intro hop _ hkeyed
    obtain ⟨_, hsome, -⟩ := keyedBy_eq_some.mp hkeyed
    have hnone : s.lastAfter item = none := by
      unfold lastAfter
      rw [hop]
      rfl
    cases hnone.symm.trans hsome
  exact (hlast.erase hitem hleaves).note (h.ids item hitem)
    fun other hother => id_ne_of_mem_erase h.nodup hitem hother

/-! ### What tasks do -/

theorem not_waits_of_not_running (h : s.Owned) (hc : s.tasks[c]? = some t)
    (hrunning : ∀ command id, t ≠ .running command id) :
    ∀ item ∈ s.queue, item.client = c → item.op.transmits = false := by
  intro item hitem hclient
  cases htransmits : item.op.transmits with
  | false => rfl
  | true =>
    obtain ⟨command, htask, -⟩ := h.waiting item hitem htransmits
    rw [hclient, hc] at htask
    exact absurd (Option.some.inj htask) (hrunning _ _)

theorem owner_of_not_running (h : s.Owned) (hc : s.tasks[c]? = some t)
    (hrunning : ∀ command id, t ≠ .running command id) (hkeyed : s.keyedBy = some c) :
    s.owner.owner = some c := by
  obtain ⟨item, hlast, rfl⟩ := keyedBy_eq_some.mp hkeyed
  rcases h.keyed item hlast with howner | htask | ⟨u, -, -, -, -, htask⟩
  · exact howner
  · rw [hc] at htask
    exact absurd (Option.some.inj htask) (hrunning _ _)
  · rw [hc] at htask
    exact absurd (Option.some.inj htask) (hrunning _ _)

/-- A task goes on, with nothing of its client's on the queue, and its client the owner if it has
the rig on the air. -/
theorem Owned.move (h : s.Owned) (hc : s.tasks[c]? = some t)
    (hwaits : ∀ item ∈ s.queue, item.client = c → item.op.transmits = false)
    (hkeyed : s.keyedBy = some c → s.owner.owner = some c) (ht : s.TaskOk c t')
    (hclear : ∀ id, t' = .answered .unkey id (.ok ()) → s.Clear id)
    (hclaiming : t'.isClaiming = true → ∀ other ∈ s.tasks, other.isClearing = false) :
    (s.setTask c t').Owned where
  ids := h.ids
  nodup := h.nodup
  carried := h.carried
  recent := h.recent
  waiting item hitem htransmits := by
    have hne : item.client ≠ c := by
      intro heq
      rw [hwaits item hitem heq] at htransmits
      cases htransmits
    rw [tasks_setTask_of_ne hc t' hne]
    exact h.waiting item hitem htransmits
  keyed item hlast := by
    by_cases hclient : item.client = c
    · left
      rw [hclient]
      exact hkeyed (keyedBy_eq_some.mpr ⟨item, hlast, hclient⟩)
    · exact (h.keyed item hlast).imp_right
        fun hleaving => hleaving.mono (tasks_setTask_of_ne hc t' hclient) fun _ hu _ _ _ => hu
  tasks d other hother := by
    by_cases hd : d = c
    · subst hd
      rw [tasks_setTask_self hc] at hother
      obtain rfl := Option.some.inj hother
      exact ht.mono Iff.rfl id id
    · rw [tasks_setTask_of_ne hc t' hd] at hother
      exact (h.tasks d other hother).mono Iff.rfl id id
  clearing d id hid := by
    have hold : s.Clear id := by
      by_cases hd : d = c
      · subst hd
        rw [tasks_setTask_self hc] at hid
        exact hclear id (Option.some.inj hid)
      · rw [tasks_setTask_of_ne hc t' hd] at hid
        exact h.clearing d id hid
    refine ⟨hold.last, hold.claimed, ?_, hold.queue⟩
    intro other hother
    rcases List.mem_or_eq_of_mem_set hother with hmem | rfl
    · exact hold.claiming other hmem
    · cases hnew : other.isClaiming with
      | false => rfl
      | true =>
        -- a claim is not made while an unkey is about to clear the owner
        by_cases hd : d = c
        · subst hd
          rw [tasks_setTask_self hc] at hid
          obtain rfl := Option.some.inj hid
          cases hnew
        · rw [tasks_setTask_of_ne hc other hd] at hid
          cases hclaiming hnew _ (List.mem_of_getElem? hid)

/-- Nothing else is said of a task that waits for a command. -/
theorem Owned.idle (h : s.Owned) (hc : s.tasks[c]? = some t)
    (hrunning : ∀ command id, t ≠ .running command id) (answer : Option (Except ℤ Unit)) :
    (s.setTask c (.idle answer)).Owned :=
  h.move hc (not_waits_of_not_running h hc hrunning) (owner_of_not_running h hc hrunning) trivial
    nofun nofun

/-- The outcome of an operation arrives, which can be carried out no more if it transmits. -/
theorem Owned.answer {command : Command} {id : Option ℕ} {outcome : Except ℤ Unit} (h : s.Owned)
    (hc : s.tasks[c]? = some (.running command id))
    (hwaits : ∀ item ∈ s.queue, item.client = c → item.op.transmits = false)
    (hfailed : command.op.transmits = true → outcome.isOk = false → s.keyedBy ≠ some c)
    (hleft : command = .disconnect → s.keyedBy ≠ some c)
    (hclear : command = .unkey → outcome = .ok () → s.Clear id) :
    (s.setTask c (.answered command id outcome)).Owned := by
  have hok := h.tasks c _ hc
  apply h.move hc hwaits
  · intro hkeyed
    obtain ⟨item, hlast, rfl⟩ := keyedBy_eq_some.mp hkeyed
    rcases h.keyed item hlast with howner | htask | ⟨u, -, -, -, -, htask⟩
    · exact howner
    · rw [hc] at htask
      cases htask
      exact absurd hkeyed (hleft rfl)
    · rw [hc] at htask
      cases htask
      exact absurd hkeyed (hleft rfl)
  · exact ⟨hfailed, fun hcommand => ⟨hok.2 hcommand, hleft hcommand⟩⟩
  · rintro _ ⟨⟩
    exact hclear rfl rfl
  · nofun

/-- A client claims the transmitter, with no unkey about to clear its owner. -/
theorem Owned.claim {ptt : PttOwner} (h : s.Owned) (hc : s.tasks[c]? = some t)
    (hidle : ∃ answer, t = .idle answer) (hkey : s.owner.tryKey c = .ok ptt)
    (hclearing : ∀ other ∈ s.tasks, other.isClearing = false) :
    { s with owner := ptt, claimed := s.next, next := s.next + 1 }.Owned := by
  obtain ⟨answer, rfl⟩ := hidle
  obtain ⟨hptt, hfree⟩ := PttOwner.tryKey_ok hkey
  have howner : ∀ d, d ≠ c → (ptt.owner = some d ↔ s.owner.owner = some d) := by
    intro d hd
    rw [hptt]
    constructor
    · intro heq
      exact absurd (Option.some.inj heq).symm hd
    · intro heq
      exact absurd (hfree d heq) hd
  exact {
    ids := fun item hitem => Nat.lt_succ_of_lt (h.ids item hitem)
    nodup := h.nodup
    carried := fun id hid => ⟨Nat.lt_succ_of_lt (h.carried id hid).1, (h.carried id hid).2⟩
    recent := fun item hlast => Nat.lt_succ_of_lt (h.recent item hlast)
    waiting := h.waiting
    keyed := by
      intro item hlast
      rcases h.keyed item hlast with hsome | hleaving
      · rw [hfree _ hsome]
        exact .inl hptt
      · exact .inr (hleaving.mono rfl fun _ hu _ _ _ => hu)
    tasks := by
      intro d other hother
      by_cases hd : d = c
      · subst hd
        cases hother.symm.trans hc
        trivial
      · exact (h.tasks d other hother).mono (howner d hd) id id
    clearing := by
      intro d id hid
      cases hclearing _ (List.mem_of_getElem? hid) }

/-- A client that does not have the rig on the air, and has nothing on its way to it, may lose the
transmitter. -/
theorem Owned.disown {ptt : PttOwner} (h : s.Owned)
    (hsub : ∀ d, ptt.owner = some d → s.owner.owner = some d)
    (hlost : ∀ d, s.owner.owner = some d → ptt.owner ≠ some d → s.keyedBy ≠ some d ∧ ¬ s.Waits d ∧
      ∀ t, s.tasks[d]? = some t → t.isClaiming = false) :
    { s with owner := ptt }.Owned where
  ids := h.ids
  nodup := h.nodup
  carried := h.carried
  recent := h.recent
  waiting := h.waiting
  keyed item hlast := by
    rcases h.keyed item hlast with howner | hleaving
    · by_cases hptt : ptt.owner = some item.client
      · exact .inl hptt
      · exact absurd (keyedBy_eq_some.mpr ⟨item, hlast, rfl⟩) (hlost _ howner hptt).1
    · exact .inr (hleaving.mono rfl fun _ hu _ _ _ => hu)
  tasks d t ht := by
    have hok := h.tasks d t ht
    cases t with
    | idle => trivial
    | running command id =>
      obtain ⟨howns, hleaving⟩ := hok
      refine ⟨?_, fun hcommand => mt (hsub d) (hleaving hcommand)⟩
      intro htransmits hid
      by_contra hptt
      obtain ⟨-, hwaits, hclaiming⟩ := hlost d (howns htransmits hid) hptt
      rcases hid with rfl | hid
      · have hclaims := hclaiming _ ht
        change command.op.transmits = false at hclaims
        rw [htransmits] at hclaims
        cases hclaims
      · exact hwaits hid
    | answered command id outcome =>
      exact ⟨hok.1, fun hcommand => ⟨mt (hsub d) (hok.2 hcommand).1, (hok.2 hcommand).2⟩⟩
    | gone => exact ⟨mt (hsub d) hok.1, hok.2⟩
  clearing d id hid := by
    obtain ⟨hlast, ⟨u, hu, hclaimed⟩, hclaiming, hqueue⟩ := h.clearing d id hid
    refine ⟨hlast, ⟨u, hu, ?_⟩, hclaiming, hqueue⟩
    intro hsome
    obtain ⟨owner, howner⟩ := Option.isSome_iff_exists.mp hsome
    apply hclaimed
    rw [hsub owner howner]
    rfl

/-- The owner leaves: it is the owner no more, and its unkey is on its way. -/
theorem Owned.leave (h : s.Owned) (hc : s.tasks[c]? = some t)
    (hidle : ∃ answer, t = .idle answer) (howner : s.owner.owner = some c) :
    (setTask { s with owner := ⟨none⟩ } c (.running .disconnect none)).Owned := by
  obtain ⟨answer, rfl⟩ := hidle
  have hwaits := not_waits_of_not_running h hc nofun
  have hset : ∀ d, d ≠ c →
      (setTask { s with owner := ⟨none⟩ } c (.running .disconnect none)).tasks[d]? = s.tasks[d]? :=
    fun d hd => tasks_setTask_of_ne (s := { s with owner := ⟨none⟩ }) hc _ hd
  have hself : (setTask { s with owner := ⟨none⟩ } c (.running .disconnect none)).tasks[c]? =
      some (.running .disconnect none) :=
    tasks_setTask_self (s := { s with owner := ⟨none⟩ }) hc _
  have hother : ∀ d, d ≠ c → ((none : Option ClientId) = some d ↔ s.owner.owner = some d) := by
    intro d hd
    rw [howner]
    constructor
    · nofun
    · intro heq
      exact absurd (Option.some.inj heq).symm hd
  exact {
    ids := h.ids
    nodup := h.nodup
    carried := h.carried
    recent := h.recent
    waiting := by
      intro item hitem htransmits
      have hne : item.client ≠ c := by
        intro heq
        rw [hwaits item hitem heq] at htransmits
        cases htransmits
      rw [hset _ hne]
      exact h.waiting item hitem htransmits
    keyed := by
      intro item hlast
      right
      by_cases hclient : item.client = c
      · left
        rw [hclient]
        exact hself
      · rcases h.keyed item hlast with hsome | hleaving
        · exact absurd (Option.some.inj (hsome.symm.trans howner)) hclient
        · exact hleaving.mono (hset _ hclient) fun _ hu _ _ _ => hu
    tasks := by
      intro d other hd
      by_cases hdc : d = c
      · subst hdc
        rw [hself] at hd
        obtain rfl := Option.some.inj hd
        exact ⟨nofun, fun _ => nofun⟩
      · rw [hset d hdc] at hd
        exact (h.tasks d other hd).mono (hother d hdc) id id
    clearing := by
      intro d id hid
      have hdc : d ≠ c := by
        rintro rfl
        rw [hself] at hid
        cases hid
      rw [hset d hdc] at hid
      obtain ⟨hlast, ⟨u, hu, -⟩, hclaiming, hqueue⟩ := h.clearing d id hid
      refine ⟨hlast, ⟨u, hu, nofun⟩, ?_, hqueue⟩
      intro task htask
      rcases List.mem_or_eq_of_mem_set htask with hmem | rfl
      · exact hclaiming task hmem
      · rfl }

/-- An operation goes on the queue. -/
theorem Owned.submit {command : Command} (h : s.Owned)
    (hc : s.tasks[c]? = some (.running command none)) :
    (setTask { s with queue := s.queue ++ [⟨s.next, command.op, c⟩], next := s.next + 1 } c
      (.running command (some s.next))).Owned := by
  let queued : State := { s with
    queue := s.queue ++ [⟨s.next, command.op, c⟩], next := s.next + 1 }
  have hset : ∀ d, d ≠ c →
      (queued.setTask c (.running command (some s.next))).tasks[d]? = s.tasks[d]? :=
    fun d hd => tasks_setTask_of_ne (s := queued) hc _ hd
  have hself : (queued.setTask c (.running command (some s.next))).tasks[c]? =
      some (.running command (some s.next)) :=
    tasks_setTask_self (s := queued) hc _
  have hmem : ∀ item, item ∈ s.queue ++ [(⟨s.next, command.op, c⟩ : Item)] →
      item ∈ s.queue ∨ item = ⟨s.next, command.op, c⟩ :=
    fun item hitem => (List.mem_append.mp hitem).imp_right List.mem_singleton.mp
  exact {
    ids := by
      intro item hitem
      rcases hmem item hitem with hitem | rfl
      · exact Nat.lt_succ_of_lt (h.ids item hitem)
      · exact Nat.lt_succ_self _
    nodup := by
      change ((s.queue ++ [(⟨s.next, command.op, c⟩ : Item)]).map Item.id).Nodup
      rw [List.map_append]
      apply List.Nodup.append h.nodup (List.nodup_singleton _)
      intro id hid hnew
      have hnew := List.mem_singleton.mp hnew
      obtain ⟨item, hitem, rfl⟩ := List.mem_map.mp hid
      exact absurd hnew (Nat.ne_of_lt (h.ids item hitem))
    carried := by
      intro id hid
      refine ⟨Nat.lt_succ_of_lt (h.carried id hid).1, fun item hitem => ?_⟩
      rcases hmem item hitem with hitem | rfl
      · exact (h.carried id hid).2 item hitem
      · exact Nat.ne_of_gt (h.carried id hid).1
    recent := fun item hlast => Nat.lt_succ_of_lt (h.recent item hlast)
    waiting := by
      intro item hitem htransmits
      rcases hmem item hitem with hitem | rfl
      · obtain ⟨other, htask, hop⟩ := h.waiting item hitem htransmits
        have hne : item.client ≠ c := by
          intro heq
          rw [heq, hc] at htask
          cases htask
        rw [hset _ hne]
        exact ⟨other, htask, hop⟩
      · exact ⟨command, hself, rfl⟩
    keyed := by
      intro item hlast
      rcases h.keyed item hlast with howner | hleaving
      · exact .inl howner
      · right
        by_cases hclient : item.client = c
        · -- the unkey of the client that leaves goes on the queue
          rcases hleaving with htask | ⟨u, -, -, -, -, htask⟩
          · rw [hclient, hc] at htask
            cases htask
            refine .inr ⟨_, List.mem_append_right _ List.mem_cons_self, rfl, hclient.symm,
              h.recent item hlast, ?_⟩
            rw [hclient]
            exact hself
          · rw [hclient, hc] at htask
            cases htask
        · exact hleaving.mono (hset _ hclient) fun _ hu _ _ _ => List.mem_append_left _ hu
    tasks := by
      intro d other hother
      by_cases hd : d = c
      · subst hd
        rw [hself] at hother
        obtain rfl := Option.some.inj hother
        obtain ⟨howns, hleaving⟩ := h.tasks d _ hc
        exact ⟨fun htransmits _ => howns htransmits (.inl rfl), hleaving⟩
      · rw [hset d hd] at hother
        refine (h.tasks d other hother).mono Iff.rfl (fun hkeyed => hkeyed) ?_
        rintro ⟨item, hitem, hclient, htransmits⟩
        rcases hmem item hitem with hitem | rfl
        · exact ⟨item, hitem, hclient, htransmits⟩
        · exact absurd hclient.symm hd
    clearing := by
      intro d id hid
      have hd : d ≠ c := by
        rintro rfl
        rw [hself] at hid
        cases hid
      rw [hset d hd] at hid
      obtain ⟨hlast, hclaimed, hclaiming, hqueue⟩ := h.clearing d id hid
      refine ⟨hlast, hclaimed, ?_, ?_⟩
      · intro task htask
        rcases List.mem_or_eq_of_mem_set htask with hold | rfl
        · exact hclaiming task hold
        · rfl
      · intro item hitem
        rcases hmem item hitem with hitem | rfl
        · exact hqueue item hitem
        · exact hclaiming _ (List.mem_of_getElem? hc) }

/-! ### Steps -/

theorem Owned.connect (h : s.Owned) : Owned { s with tasks := s.tasks ++ [.idle none] } := by
  have hold : ∀ (d : ClientId) t, s.tasks[d]? = some t →
      (s.tasks ++ [.idle none])[d]? = some t := by
    intro d t ht
    rw [List.getElem?_append_left (List.getElem?_eq_some_iff.mp ht).1, ht]
  have hnew : ∀ (d : ClientId) t, (s.tasks ++ [Task.idle none])[d]? = some t →
      s.tasks[d]? = some t ∨ t = .idle none := by
    intro d t ht
    rw [List.getElem?_append] at ht
    split at ht
    · exact .inl ht
    · exact .inr (List.mem_singleton.mp (List.mem_of_getElem? ht))
  exact {
    ids := h.ids
    nodup := h.nodup
    carried := h.carried
    recent := h.recent
    waiting := by
      intro item hitem htransmits
      obtain ⟨command, htask, hop⟩ := h.waiting item hitem htransmits
      exact ⟨command, hold _ _ htask, hop⟩
    keyed := by
      intro item hlast
      rcases h.keyed item hlast with howner | htask | ⟨u, hu, hop, hclient, hlt, htask⟩
      · exact .inl howner
      · exact .inr (.inl (hold _ _ htask))
      · exact .inr (.inr ⟨u, hu, hop, hclient, hlt, hold _ _ htask⟩)
    tasks := by
      intro d t ht
      rcases hnew d t ht with ht | rfl
      · exact (h.tasks d t ht).mono Iff.rfl id id
      · trivial
    clearing := by
      intro d id hid
      rcases hnew d _ hid with hid | hid
      · obtain ⟨hlast, hclaimed, hclaiming, hqueue⟩ := h.clearing d id hid
        refine ⟨hlast, hclaimed, ?_, hqueue⟩
        intro t ht
        rcases List.mem_append.mp ht with ht | ht
        · exact hclaiming t ht
        · rw [List.mem_singleton.mp ht]
          rfl
      · cases hid }

/-- What a claim is, when it is granted. -/
theorem claim_ok (h : s.claim c = .ok s') : ∃ ptt, s.owner.tryKey c = .ok ptt ∧
    s' = { s with owner := ptt, claimed := s.next, next := s.next + 1 } := by
  unfold claim at h
  cases hcheck : s.checkTransmit with
  | error code =>
    rw [hcheck] at h
    cases h
  | ok _ =>
    rw [hcheck] at h
    cases hkey : s.owner.tryKey c with
    | error _ =>
      simp only [hkey] at h
      cases h
    | ok ptt =>
      simp only [hkey] at h
      exact ⟨ptt, rfl, (Except.ok.inj h).symm⟩

theorem Owned.key {command : Command} {answer : Option (Except ℤ Unit)} (h : s.Owned)
    (hc : s.tasks[c]? = some (.idle answer)) (hcommand : command ≠ .disconnect)
    (hclaim : s.claim c = .ok s')
    (hclearing : ∀ other ∈ s.tasks, other.isClearing = false) :
    (s'.setTask c (.running command none)).Owned := by
  obtain ⟨ptt, hkey, rfl⟩ := claim_ok hclaim
  have hclaimed := h.claim hc ⟨answer, rfl⟩ hkey hclearing
  have howner := (PttOwner.tryKey_ok hkey).1
  apply hclaimed.move hc (not_waits_of_not_running hclaimed hc nofun)
  · intro _
    exact howner
  · exact ⟨fun _ _ => howner, fun heq => absurd heq hcommand⟩
  · nofun
  · intro _
    exact hclearing

theorem Owned.start {command : Command} (h : s.Owned) (hok : s.Orderly (.start c command))
    (hstep : s.start c command = some s') : s'.Owned := by
  have hidle (answer : Option (Except ℤ Unit)) :
      ∀ command id, Task.idle answer ≠ .running command id := by
    rintro _ _ ⟨⟩
  have hkeying {answer : Option (Except ℤ Unit)} {t : State} (hcommand : command ≠ .disconnect)
      (htransmits : command.op.transmits = true) (hc : s.tasks[c]? = some (.idle answer))
      (hclaim : s.claim c = .ok t) : (t.setTask c (.running command none)).Owned :=
    h.key hc hcommand hclaim (hok htransmits (by rw [hclaim]; rfl))
  unfold State.start at hstep
  split at hstep
  next answer hc =>
    split at hstep
    · cases hstep
    · split at hstep
      next hclaim =>
        cases hstep
        exact hkeying (by rintro ⟨⟩) rfl hc hclaim
      next =>
        cases hstep
        exact h.idle hc (hidle answer) _
  next answer text hc =>
    split at hstep
    · cases hstep
    · split at hstep
      next hclaim =>
        cases hstep
        exact hkeying (by rintro ⟨⟩) rfl hc hclaim
      next =>
        cases hstep
        exact h.idle hc (hidle answer) _
  next answer hc =>
    cases hstep
    apply h.move hc (not_waits_of_not_running h hc (hidle answer)) (owner_of_not_running h hc (hidle answer))
    · exact ⟨(by intros; contradiction), (by intros; contradiction)⟩
    · intros; contradiction
    · intros; contradiction
  next answer hc =>
    cases hstep
    apply h.move hc (not_waits_of_not_running h hc (hidle answer)) (owner_of_not_running h hc (hidle answer))
    · exact ⟨(by intros; contradiction), (by intros; contradiction)⟩
    · intros; contradiction
    · intros; contradiction
  next answer hc =>
    split at hstep
    · cases hstep
    · dsimp only at hstep
      split at hstep
      next hheld =>
        cases hstep
        have howner := PttOwner.release_fst.mp hheld
        have hnone : (s.owner.release c).2 = ⟨none⟩ := by
          unfold PttOwner.release
          rw [if_pos howner]
        rw [hnone]
        exact h.leave hc ⟨answer, rfl⟩ howner
      next hheld =>
        cases hstep
        have howner : s.owner.owner ≠ some c := mt PttOwner.release_fst.mpr hheld
        have hkeyed : s.keyedBy ≠ some c :=
          fun hkeyed => howner (owner_of_not_running h hc (hidle answer) hkeyed)
        apply h.move hc (not_waits_of_not_running h hc (hidle answer)) (owner_of_not_running h hc (hidle answer))
        · exact ⟨howner, hkeyed⟩
        · intros; contradiction
        · intros; contradiction
  next => cases hstep

theorem Owned.submits {refused : Option ErrorKind} (h : s.Owned)
    (hok : s.Orderly (.submit c refused)) (hstep : s.submit c refused = some s') : s'.Owned := by
  unfold State.submit at hstep
  split at hstep
  next command hc =>
    cases hstep
    exact h.submit hc
  next command e hc =>
    cases hstep
    have hgives : (command.op.transmits || decide (command = .disconnect)) = true →
        s.keyedBy ≠ some c := by
      change s.tasks[c]?.any Task.givesUp = true → _ at hok
      rw [hc] at hok
      exact hok
    have hwaits : ∀ item ∈ s.queue, item.client = c → item.op.transmits = false := by
      intro item hitem hclient
      cases htransmits : item.op.transmits with
      | false => rfl
      | true =>
        obtain ⟨other, htask, -⟩ := h.waiting item hitem htransmits
        rw [hclient, hc] at htask
        cases htask
    apply h.answer hc hwaits
    · intro htransmits _
      exact hgives (by rw [htransmits]; rfl)
    · rintro rfl
      exact hgives rfl
    · nofun
  next => cases hstep

theorem Owned.reply {failure : Option ErrorKind} (h : s.Owned)
    (hok : s.Orderly (.reply c failure)) (hstep : s.reply c failure = some s') : s'.Owned := by
  unfold State.reply at hstep
  split at hstep
  next command id hc =>
    split at hstep
    next hcarried =>
      cases hstep
      have hout := (h.carried id hcarried).2
      have hwaits : ∀ item ∈ s.queue, item.client = c → item.op.transmits = false := by
        intro item hitem hclient
        cases htransmits : item.op.transmits with
        | false => rfl
        | true =>
          obtain ⟨other, htask, -⟩ := h.waiting item hitem htransmits
          rw [hclient, hc] at htask
          cases htask
          exact absurd rfl (hout item hitem)
      apply h.answer hc hwaits
      · intro _ hfailed
        cases hfailed
      · rintro rfl hkeyed
        obtain ⟨item, hlast, rfl⟩ := keyedBy_eq_some.mp hkeyed
        rcases h.keyed item hlast with howner | htask | ⟨u, hu, -, -, -, htask⟩
        · exact (h.tasks _ _ hc).2 rfl howner
        · rw [hc] at htask
          cases htask
        · rw [hc] at htask
          cases htask
          exact hout u hu rfl
      · rintro rfl -
        obtain ⟨hlast, hclaimed, hclaiming, hqueue⟩ := hok id (by rw [hc]; rfl)
        exact ⟨hlast, ⟨id, rfl, hclaimed⟩, hclaiming, hqueue⟩
    next => cases hstep
  next command id e hc =>
    cases hstep
    have hgives : (command.op.transmits || decide (command = .disconnect)) = true →
        s.keyedBy ≠ some c ∧ ∀ item ∈ s.queue, item.client = c → item.op.transmits = false := by
      change s.tasks[c]?.any Task.givesUp = true → _ at hok
      rw [hc] at hok
      exact hok
    apply h.answer hc
    · intro item hitem hclient
      cases htransmits : item.op.transmits with
      | false => rfl
      | true =>
        obtain ⟨other, htask, hop⟩ := h.waiting item hitem htransmits
        rw [hclient, hc] at htask
        cases htask
        rw [← hop] at htransmits
        have hnone := (hgives (by rw [htransmits]; rfl)).2 item hitem hclient
        rw [← hop, htransmits] at hnone
        cases hnone
    · intro htransmits _
      exact (hgives (by rw [htransmits]; rfl)).1
    · rintro rfl
      exact (hgives rfl).1
    · nofun
  next => cases hstep

theorem Owned.finish (h : s.Owned) (hstep : s.finish c = some s') : s'.Owned := by
  unfold State.finish at hstep
  split at hstep
  next command id outcome hc =>
    have hok := h.tasks c _ hc
    have hfailed : ∀ code, outcome = .error code → command.op.transmits = true →
        (setTask { s with owner := (s.owner.release c).2 } c (.idle (some outcome))).Owned := by
      rintro code rfl htransmits
      have hdisowned : ({ s with owner := (s.owner.release c).2 } : State).Owned := by
        apply h.disown
        · intro d hd
          have hne : d ≠ c := by
            rintro rfl
            exact PttOwner.release_not_owner hd
          exact (PttOwner.release_owner hne).mp hd
        · intro d howner hlost
          -- only the client itself loses the transmitter
          obtain rfl : d = c := by
            by_contra hne
            exact hlost ((PttOwner.release_owner hne).mpr howner)
          refine ⟨hok.1 htransmits rfl, ?_, ?_⟩
          · rintro ⟨item, hitem, hclient, hitemTransmits⟩
            rw [not_waits_of_not_running h hc nofun item hitem hclient] at hitemTransmits
            cases hitemTransmits
          · intro t ht
            cases ht.symm.trans hc
            rfl
      exact hdisowned.idle hc nofun _
    split at hstep
    next code =>
      cases hstep
      exact hfailed code rfl rfl
    next text code =>
      cases hstep
      exact hfailed code rfl rfl
    next =>
      cases hstep
      obtain ⟨hlast, -, hclaiming, hqueue⟩ := h.clearing c id hc
      have hdisowned : ({ s with owner := s.owner.clear } : State).Owned := by
        apply h.disown
        · nofun
        · intro d _ _
          refine ⟨?_, ?_, fun t ht => hclaiming t (List.mem_of_getElem? ht)⟩
          · unfold keyedBy
            rw [hlast]
            nofun
          · rintro ⟨item, hitem, -, htransmits⟩
            rw [hqueue item hitem] at htransmits
            cases htransmits
      exact hdisowned.idle hc nofun _
    next =>
      cases hstep
      apply h.move hc (not_waits_of_not_running h hc nofun) (owner_of_not_running h hc nofun)
      · exact hok.2 rfl
      · nofun
      · nofun
    next =>
      cases hstep
      exact h.idle hc nofun _
  next => cases hstep

theorem Owned.step {a : Act} (h : s.Owned) (hok : s.Orderly a) (hstep : s.step a = some s') :
    s'.Owned := by
  cases a with
  | connect =>
    cases hstep
    exact h.connect
  | start c command => exact h.start hok hstep
  | submit c refused => exact h.submits hok hstep
  | reply c failure => exact h.reply hok hstep
  | finish c => exact h.finish hstep
  | carryOut item =>
    unfold State.step at hstep
    dsimp only at hstep
    split at hstep
    next hitem =>
      cases hstep
      exact h.carryOut hitem
    next => cases hstep
  | drop item =>
    unfold State.step at hstep
    dsimp only at hstep
    split at hstep
    next hitem =>
      cases hstep
      exact h.erase hitem fun _ => hok
    next => cases hstep
  | unkeyed =>
    cases hstep
    exact h.off
  | link up =>
    cases hstep
    obtain ⟨ids, nodup, carried, recent, waiting, keyed, tasks, clearing⟩ := h
    refine ⟨ids, nodup, carried, recent, waiting, keyed, ?_, ?_⟩
    · intro d t ht
      exact (tasks d t ht).mono Iff.rfl id id
    · intro d id hid
      obtain ⟨hlast, hclaimed, hclaiming, hqueue⟩ := clearing d id hid
      exact ⟨hlast, hclaimed, hclaiming, hqueue⟩

theorem owned_of_reach (h : machine.Reach Orderly s) : s.Owned := by
  apply h.invariant
  · rintro s ⟨howner, htasks, hqueue, hcarried, hlast⟩
    have htask : ∀ (c : ClientId) t, s.tasks[c]? = some t → t = .idle none := by
      intro c t ht
      rw [htasks] at ht
      exact List.mem_singleton.mp (List.mem_of_getElem? ht)
    refine ⟨?_, ?_, ?_, ?_, ?_, ?_, ?_, ?_⟩
    · rw [hqueue]
      nofun
    · rw [hqueue]
      exact List.nodup_nil
    · rw [hcarried]
      nofun
    · rw [hlast]
      nofun
    · rw [hqueue]
      nofun
    · rw [hlast]
      nofun
    · intro c t ht
      rw [htask c t ht]
      trivial
    · intro c id hid
      cases htask c _ hid
  · intro s a t hs hok hstep
    exact hs.step hok hstep

end State

end HamsOpen.Radioctld
