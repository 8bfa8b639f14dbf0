import HamsOpen.Hpsdr.Session

/-!
# The lock of the transmit state

Only who holds the lock changes what was asked of the transmitter, or goes by it: the task while it
builds packets, and a call to key from its reading of the clock on.
-/

namespace HamsOpen.Hpsdr

namespace Session

variable {Cfg Builder Packet : Type} {W : Wire Cfg Builder Packet} {s t : Session Cfg Builder Packet}

/-- The task holds the lock while it builds, and a call to key until it is over. -/
structure Lock (s : Session Cfg Builder Packet) : Prop where
  building : ∀ now todo ready, s.task = .building now todo ready → s.holder = some .task
  passed : ∀ i drive, s.calls i = .passed drive → s.holder = some (.caller i)
  keying : ∀ i drive now, s.calls i = .keying drive now → s.holder = some (.caller i)
  /-- Once the session is being stopped, no call holds it. -/
  idle : s.phase ≠ .running → ∀ i, s.holder ≠ some (.caller i)

/-- A call goes on without the lock. -/
theorem Lock.call (h : s.Lock) (i : Nat) {c : Call} (hc : ∀ drive, c ≠ .passed drive)
    (hc' : ∀ drive now, c ≠ .keying drive now) :
    { s with calls := Function.update s.calls i c }.Lock where
  building := h.building
  passed j drive hj := by
    have hj : Function.update s.calls i c j = .passed drive := hj
    by_cases hij : j = i
    · subst hij
      rw [Function.update_self] at hj
      exact absurd hj (hc drive)
    · rw [Function.update_of_ne hij] at hj
      exact h.passed j drive hj
  keying j drive now hj := by
    have hj : Function.update s.calls i c j = .keying drive now := hj
    by_cases hij : j = i
    · subst hij
      rw [Function.update_self] at hj
      exact absurd hj (hc' drive now)
    · rw [Function.update_of_ne hij] at hj
      exact h.keying j drive now hj
  idle := h.idle

/-- A call is over, and gives up the lock. -/
theorem Lock.release (h : s.Lock) {i : Nat} (hholder : s.holder = some (.caller i)) :
    { s with holder := none, calls := Function.update s.calls i .none }.Lock := by
  have hother (j : Nat) (hij : j ≠ i) (hj : s.holder = some (.caller j)) : False := by
    rw [hholder] at hj
    cases hj
    exact hij rfl
  constructor
  · intro now todo ready htask
    have htask' := h.building now todo ready htask
    rw [hholder] at htask'
    cases htask'
  · intro j drive hj
    have hj : Function.update s.calls i .none j = .passed drive := hj
    by_cases hij : j = i
    · subst hij
      rw [Function.update_self] at hj
      cases hj
    · rw [Function.update_of_ne hij] at hj
      exact (hother j hij (h.passed j drive hj)).elim
  · intro j drive now hj
    have hj : Function.update s.calls i .none j = .keying drive now := hj
    by_cases hij : j = i
    · subst hij
      rw [Function.update_self] at hj
      cases hj
    · rw [Function.update_of_ne hij] at hj
      exact (hother j hij (h.keying j drive now hj)).elim
  · exact fun _ _ => nofun

/-- Nobody holds the lock, so nobody is about to go by it. -/
theorem Lock.free (h : s.Lock) (hfree : s.holder = none) :
    (∀ now todo ready, s.task ≠ .building now todo ready) ∧
      (∀ i drive, s.calls i ≠ .passed drive) ∧ ∀ i drive now, s.calls i ≠ .keying drive now := by
  refine ⟨?_, ?_, ?_⟩
  · intro now todo ready htask
    have hholder := h.building now todo ready htask
    rw [hfree] at hholder
    cases hholder
  · intro i drive hi
    have hholder := h.passed i drive hi
    rw [hfree] at hholder
    cases hholder
  · intro i drive now hi
    have hholder := h.keying i drive now hi
    rw [hfree] at hholder
    cases hholder

/-- A call to key takes the lock. -/
theorem Lock.key (h : s.Lock) (hfree : s.holder = none) (hphase : s.phase = .running) (i : Nat)
    (drive : U8) (now : Nat) :
    { s with
      holder := some (.caller i)
      calls := Function.update s.calls i (.keying drive now) }.Lock := by
  obtain ⟨hbuilding, hpassed, hkeying⟩ := h.free hfree
  constructor
  · intro now todo ready htask
    exact absurd htask (hbuilding now todo ready)
  · intro j drive' hj
    have hj : Function.update s.calls i (.keying drive now) j = .passed drive' := hj
    by_cases hij : j = i
    · rw [hij]
    · rw [Function.update_of_ne hij] at hj
      exact absurd hj (hpassed j drive')
  · intro j drive' now' hj
    have hj : Function.update s.calls i (.keying drive now) j = .keying drive' now' := hj
    by_cases hij : j = i
    · rw [hij]
    · rw [Function.update_of_ne hij] at hj
      exact absurd hj (hkeying j drive' now')
  · intro hover
    exact absurd hphase hover

/-- A call to key found the gate open. -/
theorem Lock.pass (h : s.Lock) {i : Nat} {drive : U8} {now : Nat}
    (hcall : s.calls i = .keying drive now) :
    { s with calls := Function.update s.calls i (.passed drive) }.Lock where
  building := h.building
  passed j drive' hj := by
    have hj : Function.update s.calls i (.passed drive) j = .passed drive' := hj
    by_cases hij : j = i
    · rw [hij]
      exact h.keying i drive now hcall
    · rw [Function.update_of_ne hij] at hj
      exact h.passed j drive' hj
  keying j drive' now' hj := by
    have hj : Function.update s.calls i (.passed drive) j = .keying drive' now' := hj
    by_cases hij : j = i
    · subst hij
      rw [Function.update_self] at hj
      cases hj
    · rw [Function.update_of_ne hij] at hj
      exact h.keying j drive' now' hj
  idle := h.idle

/-- The task goes on, and does not build. -/
theorem Lock.task (h : s.Lock) {task : Task Cfg Builder Packet}
    (hbuilding : ∀ now todo ready, task ≠ .building now todo ready) : { s with task := task }.Lock where
  building now todo ready htask := absurd htask (hbuilding now todo ready)
  passed := h.passed
  keying := h.keying
  idle := h.idle

/-- The task takes the lock to build, or does not build. -/
theorem Lock.take (h : s.Lock) (hfree : s.holder = none) (now : Nat) (cfg : Cfg) :
    (s.take W now cfg).Lock := by
  obtain ⟨-, hpassed, hkeying⟩ := h.free hfree
  rw [Session.take]
  split
  · constructor
    · exact fun _ _ _ _ => rfl
    · intro i drive hi
      exact absurd hi (hpassed i drive)
    · intro i drive now hi
      exact absurd hi (hkeying i drive now)
    · exact fun _ _ => nofun
  · constructor
    · nofun
    · exact h.passed
    · exact h.keying
    · exact h.idle

/-- The task gives up the lock. -/
theorem Lock.handOver (h : s.Lock) {now : Nat} {ready : List (Ready Packet)}
    (htask : s.task = .building now [] ready) :
    { s with holder := none, task := .sending ready }.Lock := by
  have hholder := h.building now [] ready htask
  constructor
  · nofun
  · intro i drive hi
    have hcaller := h.passed i drive hi
    rw [hholder] at hcaller
    cases hcaller
  · intro i drive now hi
    have hcaller := h.keying i drive now hi
    rw [hholder] at hcaller
    cases hcaller
  · exact fun _ _ => nofun

/-- What an update does: it changes the settings, or nothing. -/
theorem update_cases (f : Cfg → Cfg) :
    (s.update W f).toOption.getD s = s ∨ (W.validate (f s.cfg) = .ok () ∧
      W.fixed s.cfg (f s.cfg) = .ok () ∧ (s.update W f).toOption.getD s = { s with cfg := f s.cfg }) := by
  rw [Session.update]
  cases W.validate (f s.cfg) with
  | error e => exact .inl rfl
  | ok _ =>
    cases W.fixed s.cfg (f s.cfg) with
    | error e => exact .inl rfl
    | ok _ => exact .inr ⟨rfl, rfl, rfl⟩

/-- What queueing samples does: it changes the queue, or nothing. -/
theorem queue_cases (iq : List Sample) : (s.queue iq).toOption.getD s = s ∨
    (s.queue iq).toOption.getD s =
      { s with tx := { s.tx with iq := s.tx.iq ++ iq.map (⟨·, s.ends⟩) } } := by
  rw [Session.queue]
  split
  · exact .inl rfl
  · exact .inr rfl

theorem Lock.step (h : s.Lock) {e : Event Cfg} (hstep : s.step W e = some t) : t.Lock := by
  cases e <;> simp only [Session.step] at hstep
  case advance n | openUntil n | poison | close =>
    obtain rfl := Option.some.inj hstep
    exact ⟨h.building, h.passed, h.keying, h.idle⟩
  case update f =>
    split at hstep
    · obtain rfl := Option.some.inj hstep
      rcases update_cases (W := W) (s := s) f with heq | ⟨-, -, heq⟩ <;> rw [heq] <;>
        exact ⟨h.building, h.passed, h.keying, h.idle⟩
    · cases hstep
  case unkey =>
    split at hstep
    · obtain rfl := Option.some.inj hstep
      exact ⟨h.building, h.passed, h.keying, h.idle⟩
    · cases hstep
  case key i drive =>
    split at hstep
    next hfree =>
      obtain rfl := Option.some.inj hstep
      have hkey := h.key hfree.2.1 hfree.1 i drive s.clock
      exact ⟨hkey.building, hkey.passed, hkey.keying, hkey.idle⟩
    next => cases hstep
  case keyCheck i =>
    split at hstep
    next drive now hcall =>
      split at hstep
      · obtain rfl := Option.some.inj hstep
        exact h.pass hcall
      · obtain rfl := Option.some.inj hstep
        have hrelease := h.release (h.keying i drive now hcall)
        exact ⟨hrelease.building, hrelease.passed, hrelease.keying, hrelease.idle⟩
    next => cases hstep
  case keySet i =>
    split at hstep
    next drive hcall =>
      obtain rfl := Option.some.inj hstep
      have hrelease := h.release (h.passed i drive hcall)
      exact ⟨hrelease.building, hrelease.passed, hrelease.keying, hrelease.idle⟩
    next => cases hstep
  case iq i iq =>
    split at hstep
    · obtain rfl := Option.some.inj hstep
      have hcall := h.call i (c := .queueing iq s.clock) nofun nofun
      exact ⟨hcall.building, hcall.passed, hcall.keying, hcall.idle⟩
    · cases hstep
  case iqCheck i =>
    have hnone := h.call i (c := .none) nofun nofun
    split at hstep
    next iq now _ =>
      split at hstep
      · obtain rfl := Option.some.inj hstep
        exact h.call i nofun nofun
      · obtain rfl := Option.some.inj hstep
        exact ⟨hnone.building, hnone.passed, hnone.keying, hnone.idle⟩
    next => cases hstep
  case iqQueue i =>
    have hnone := h.call i (c := .none) nofun nofun
    split at hstep
    next iq _ =>
      split at hstep
      · obtain rfl := Option.some.inj hstep
        rcases queue_cases (s := s) iq with heq | heq <;> rw [heq] <;>
          exact ⟨hnone.building, hnone.passed, hnone.keying, hnone.idle⟩
      · cases hstep
    next => cases hstep
  case tick | copy =>
    split at hstep
    · obtain rfl := Option.some.inj hstep
      exact h.task nofun
    · cases hstep
  case take =>
    split at hstep
    next now cfg _ =>
      split at hstep
      next hfree =>
        obtain rfl := Option.some.inj hstep
        exact h.take hfree now cfg
      next => cases hstep
    next => cases hstep
  case build =>
    split at hstep
    next now part todo ready htask =>
      obtain rfl := Option.some.inj hstep
      exact ⟨fun _ _ _ _ => h.building now _ ready htask, h.passed, h.keying, h.idle⟩
    next => cases hstep
  case handOver =>
    split at hstep
    next now ready htask =>
      obtain rfl := Option.some.inj hstep
      exact h.handOver htask
    next => cases hstep
  case send =>
    split at hstep
    next packet iq ready htask =>
      obtain rfl := Option.some.inj hstep
      exact ⟨nofun, h.passed, h.keying, h.idle⟩
    next htask =>
      obtain rfl := Option.some.inj hstep
      apply h.task
      intro _ _ _
      split <;> nofun
    next => cases hstep
  case stop =>
    split at hstep
    next hfree =>
      obtain rfl := Option.some.inj hstep
      constructor
      · intro now todo ready htask
        cases hold : s.task with
        | building now' todo' ready' => exact h.building now' todo' ready' hold
        | _ => simp [hold] at htask
      · exact h.passed
      · exact h.keying
      · intro _ i hi
        have hholder : s.holder = some (.caller i) := hi
        rw [hfree.2.1] at hholder
        cases hholder
    next => cases hstep
  case stopSend =>
    split at hstep
    next hphase =>
      obtain rfl := Option.some.inj hstep
      have hover : Stop.stopped ≠ .running → ∀ i, s.holder ≠ some (.caller i) := by
        intro _
        apply h.idle
        simp [hphase]
      cases W.stop s.cfg <;> exact ⟨h.building, h.passed, h.keying, hover⟩
    next => cases hstep

theorem lock_of_reach {ok : Session Cfg Builder Packet → Event Cfg → Prop}
    (h : W.machine.Reach ok s) : s.Lock := by
  apply h.invariant
  · rintro s ⟨cfg, gate, clock, -, rfl⟩
    exact ⟨nofun, nofun, nofun, fun _ _ => nofun⟩
  · intro s e t hs _ hstep
    exact hs.step hstep

end Session

end HamsOpen.Hpsdr
