import HamsOpen.Radioctld.Owned
import Mathlib

/-!
# A keyed rig has an owner

The last operation that put the rig on the air came from a client that is recorded as the owner, or
whose unkey is on its way, as long as every step is orderly.
-/

namespace HamsOpen.Radioctld

open Rig (Op ErrorKind)

namespace State

variable {s s' : State} {c : ClientId}

/-- What is said of the owner. -/
structure Kept (s : State) : Prop where
  /-- The client that put the rig on the air is the owner, or its unkey is to be carried out. -/
  keyed : ∀ item, s.last = some item → s.owner.owner = some item.client ∨ s.Leaving item
  /-- A client that has left does not have the rig on the air. -/
  left : ∀ c, s.tasks[c]? = some .gone → s.keyedBy ≠ some c
  /-- A client loses the transmitter by leaving, by a failure of its own, or by an unkey that was
  issued after its claim. -/
  lost : ∀ a t c, s.step a = some t → s.owner.owner = some c → t.owner.owner ≠ some c →
    a = .start c .disconnect ∨
      (∃ command id code, command.op.transmits = true ∧ a = .finish c ∧
        s.tasks[c]? = some (.answered command id (.error code))) ∨
      ∃ (d : ClientId) (u : ℕ), a = .finish d ∧
        s.tasks[d]? = some (.answered .unkey (some u) (.ok ())) ∧ s.claimed < u

/-- At the start of a command only a client that leaves loses the transmitter. -/
theorem owner_of_start {command : Command} {owner : ClientId}
    (hstep : s.start c command = some s') (howner : s.owner.owner = some owner)
    (hlost : s'.owner.owner ≠ some owner) : owner = c ∧ command = .disconnect := by
  have hkept {t : State} (hclaim : s.claim c = .ok t) : t.owner.owner = some owner := by
    obtain ⟨ptt, hkey, rfl⟩ := claim_ok hclaim
    obtain ⟨hptt, hfree⟩ := PttOwner.tryKey_ok hkey
    rw [hfree owner howner]
    exact hptt
  unfold State.start at hstep
  split at hstep
  next =>
    split at hstep
    · cases hstep
    · split at hstep
      next hclaim =>
        cases hstep
        exact absurd (hkept hclaim) hlost
      next =>
        cases hstep
        exact absurd howner hlost
  next =>
    split at hstep
    · cases hstep
    · split at hstep
      next hclaim =>
        cases hstep
        exact absurd (hkept hclaim) hlost
      next =>
        cases hstep
        exact absurd howner hlost
  next =>
    cases hstep
    exact absurd howner hlost
  next =>
    cases hstep
    exact absurd howner hlost
  next =>
    split at hstep
    · cases hstep
    · dsimp only at hstep
      split at hstep
      next hheld =>
        have hself := PttOwner.release_fst.mp hheld
        exact ⟨Option.some.inj (howner.symm.trans hself), rfl⟩
      next =>
        cases hstep
        exact absurd howner hlost
  next => cases hstep

theorem Owned.lost_finish (h : s.Owned) {owner : ClientId} (hstep : s.finish c = some s')
    (howner : s.owner.owner = some owner) (hlost : s'.owner.owner ≠ some owner) :
    (owner = c ∧ ∃ command id code, command.op.transmits = true ∧
      s.tasks[c]? = some (.answered command id (.error code))) ∨
    ∃ u, s.tasks[c]? = some (.answered .unkey (some u) (.ok ())) ∧ s.claimed < u := by
  have hreleased : (s.owner.release c).2.owner ≠ some owner → owner = c := by
    intro hne
    by_contra hother
    exact hne ((PttOwner.release_owner hother).mpr howner)
  unfold State.finish at hstep
  split at hstep
  next command id outcome hc =>
    split at hstep
    next code =>
      cases hstep
      exact .inl ⟨hreleased hlost, _, id, code, rfl, hc⟩
    next text code =>
      cases hstep
      exact .inl ⟨hreleased hlost, _, id, code, rfl, hc⟩
    next =>
      cases hstep
      right
      obtain ⟨u, rfl, hclaimed⟩ := (h.clearing c id hc).claimed
      exact ⟨u, hc, hclaimed (by rw [howner]; rfl)⟩
    next =>
      cases hstep
      exact absurd howner hlost
    next =>
      cases hstep
      exact absurd howner hlost
  next => cases hstep

theorem Owned.lost (h : s.Owned) {a : Act} {owner : ClientId} (hstep : s.step a = some s')
    (howner : s.owner.owner = some owner) (hlost : s'.owner.owner ≠ some owner) :
    a = .start owner .disconnect ∨
      (∃ command id code, command.op.transmits = true ∧ a = .finish owner ∧
        s.tasks[owner]? = some (.answered command id (.error code))) ∨
      ∃ (d : ClientId) (u : ℕ), a = .finish d ∧
        s.tasks[d]? = some (.answered .unkey (some u) (.ok ())) ∧ s.claimed < u := by
  cases a with
  | start c command =>
    obtain ⟨rfl, rfl⟩ := owner_of_start hstep howner hlost
    exact .inl rfl
  | finish c =>
    right
    rcases h.lost_finish hstep howner hlost with ⟨rfl, command, id, code, hop, hc⟩ | ⟨u, hc, hlt⟩
    · exact .inl ⟨command, id, code, hop, rfl, hc⟩
    · exact .inr ⟨c, u, rfl, hc, hlt⟩
  | submit c refused =>
    unfold State.step State.submit at hstep
    dsimp only at hstep
    split at hstep <;> cases hstep <;> exact absurd howner hlost
  | reply c failure =>
    unfold State.step State.reply at hstep
    dsimp only at hstep
    split at hstep
    · split at hstep <;> cases hstep
      exact absurd howner hlost
    · cases hstep
      exact absurd howner hlost
    · cases hstep
  | carryOut item | drop item =>
    unfold State.step at hstep
    dsimp only at hstep
    split at hstep <;> cases hstep
    exact absurd howner hlost
  | connect | unkeyed | link up =>
    cases hstep
    exact absurd howner hlost

end State

open State

/-- A keyed rig has an owner, or its unkey is on its way. -/
theorem owner_kept (s : State) (h : machine.Reach Orderly s) : s.Kept := by
  have howned := owned_of_reach h
  constructor
  · exact howned.keyed
  · intro c hc
    exact (howned.tasks c _ hc).2
  · intro a t c hstep howner hlost
    exact howned.lost hstep howner hlost

/-- Clients that have yet to connect, with the transmit gate open. -/
def sampleStart : State where
  owner := ⟨none⟩
  permit := true
  linkUp := true
  tasks := [.idle none]
  queue := []
  carried := []
  last := none
  next := 1
  claimed := 0

/-- A command of a client that is carried out and reported done. -/
def carried (client : ClientId) (command : Command) (id : ℕ) : List Act :=
  [.start client command, .submit client none, .carryOut ⟨id, command.op, client⟩,
    .reply client none, .finish client]

/-- A client keys, another unkeys and keys in its turn, and leaves. -/
theorem owner_kept_turns : ∃ s, machine.Reach Orderly s ∧
    (s.tasks = [.idle none, .idle (some (.ok ())), .gone] ∧ s.next = 7) ∧ s.Kept := by
  have hstart : machine.Reach Orderly sampleStart := .init ⟨rfl, rfl, rfl, rfl, rfl⟩
  obtain ⟨s, hs, hend⟩ := hstart.exists_of_runWhile
    (P := fun s => s.tasks = [.idle none, .idle (some (.ok ())), .gone] ∧ s.next = 7)
    ([.connect, .connect] ++ carried 1 .key 2 ++ carried 2 .unkey 3 ++ carried 2 .key 5 ++
      carried 2 .disconnect 6) (by decide +kernel)
  exact ⟨s, hs, hend, owner_kept s hs⟩

/-- The owner keys again, the queue refuses the operation, and the rig is on the air without an
owner. -/
theorem key_again_refused : ∃ s, machine.Reachable s ∧
    (s.keyedBy = some 1 ∧ s.owner.owner = none ∧ s.queue = []) ∧ ¬ s.Kept := by
  have hstart : machine.Reachable sampleStart := .init ⟨rfl, rfl, rfl, rfl, rfl⟩
  obtain ⟨s, hs, hkeyed, howner, hqueue, htask⟩ := hstart.exists_of_run
    (P := fun s => s.keyedBy = some 1 ∧ s.owner.owner = none ∧ s.queue = [] ∧
      s.tasks[1]? = some (.idle (some (.error EBUSBUSY))))
    ([.connect] ++ carried 1 .key 2 ++ [.start 1 .key, .submit 1 (some .queueFull), .finish 1])
    (by decide +kernel)
  refine ⟨s, hs, ⟨hkeyed, howner, hqueue⟩, ?_⟩
  intro hkept
  obtain ⟨item, hlast, hclient⟩ := keyedBy_eq_some.mp hkeyed
  rcases hkept.keyed item hlast with hsome | hleaving | ⟨u, hu, -⟩
  · rw [howner] at hsome
    cases hsome
  · rw [hclient, htask] at hleaving
    cases hleaving
  · rw [hqueue] at hu
    cases hu

end HamsOpen.Radioctld
