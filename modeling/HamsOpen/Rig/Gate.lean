import HamsOpen.Rig.Attempts

/-!
# The transmit gate

`run_command` tests the gate once, before it encodes the command. The spacing sleep, the drain of
late replies and the write itself come after, and the handles may close the gate during any of
them. A transmit command is written only once, so in a run where the gate is never closed while one
is on its way to its write, every transmit write finds the gate open.
-/

namespace HamsOpen.Rig

/-- True for a writer that can put RF on the air. -/
def Writer.transmits : Writer → Bool
  | .command op _ => op.transmits
  | .unkey | .session => false

/-- The gate is not closed while a transmit command is on its way to its write. -/
def GateKept {σ : Type} (s : State σ) (a : Act) : Prop :=
  a = .closeGate → s.phase.pending.any (·.op.transmits) = false

instance {σ : Type} (s : State σ) (a : Act) : Decidable (GateKept s a) :=
  inferInstanceAs (Decidable (_ → _))

namespace State

variable {σ : Type} {cfg : Setup σ} {s t : State σ}

/-- The invariant: transmit writes found the gate open, and it is open while one is on its way. -/
structure Gated (s : State σ) : Prop where
  wire : ∀ w ∈ s.wire, w.writer.transmits = true → w.gate = true
  pending : ∀ r, s.phase.pending = some r → r.op.transmits = true → s.env.gate = true

theorem Phase.attempting_of_pending {p : Phase} {r : Run} (h : p.pending = some r) :
    ∃ left, p.attempting = some (r, left) := by
  cases p <;> simp_all [Phase.pending, Phase.attempting]

/-- A transmit command is written from where the gate is known to be open. -/
theorem Gated.writes (h : s.Gated) {w : Wrote} (hw : Writes s w)
    (ht : w.writer.transmits = true) : w.gate = true := by
  cases hw with
  | run complete hphase hw =>
    rw [hw] at ht ⊢
    exact h.pending _ (by rw [hphase]; rfl) ht
  | unkey complete hphase hw | session seq complete hphase hw =>
    rw [hw] at ht
    cases ht

/-- One step of the actor keeps the invariant: what it writes was gated when it was begun. -/
theorem Gated.move (h : s.Gated) (honce : ∀ r left, s.Attempting r left →
    r.op.transmits = true → left = 0) (hmove : Move cfg s t) : t.Gated := by
  refine ⟨fun w hw ht => ?_, fun r hr ht => ?_⟩
  · rcases hmove.wire with heq | ⟨w', heq, hwrites⟩ <;> rw [heq] at hw
    · exact h.wire w hw ht
    · rcases List.mem_append.mp hw with hw | hw
      · exact h.wire w hw ht
      · obtain rfl := List.mem_singleton.mp hw
        exact h.writes hwrites ht
  · obtain ⟨left, hleft⟩ := Phase.attempting_of_pending hr
    rw [hmove.gate]
    cases hmove.attempting with
    | none hnone => cases hnone.symm.trans hleft
    | same hthere hwas hpending =>
      obtain ⟨rfl, rfl⟩ := Prod.mk.inj (Option.some.inj (hthere.symm.trans hleft))
      exact h.pending _ (hpending hr) ht
    | next hthere hwas =>
      -- Another attempt, so this is not a transmit command.
      obtain ⟨rfl, rfl⟩ := Prod.mk.inj (Option.some.inj (hthere.symm.trans hleft))
      cases honce _ _ hwas ht
    | first hthere hwas hgate =>
      obtain ⟨rfl, rfl⟩ := Prod.mk.inj (Option.some.inj (hthere.symm.trans hleft))
      exact hgate ht

/-- Beside the actor, only `closeGate` closes the gate. -/
theorem Beside.gate {a : Act} (h : Beside cfg s a t) (hclose : a ≠ .closeGate)
    (hgate : s.env.gate = true) : t.env.gate = true := by
  cases h with
  | closeGate hhandles => exact absurd rfl hclose
  | openGate hhandles => rfl
  | call i c hcall =>
    obtain ⟨_, _, _, _, _, _, _, heq, -⟩ := callStep_cases cfg s i c
    rw [heq]
    exact hgate
  | _ => exact hgate

theorem Gated.beside {a : Act} (h : s.Gated) (hok : GateKept s a) (hbeside : Beside cfg s a t) :
    t.Gated := by
  have haside := hbeside.aside
  refine ⟨?_, fun r hr ht => ?_⟩
  · rw [haside.wire]
    exact h.wire
  · rw [haside.phase] at hr
    have hclose : a ≠ .closeGate := by
      rintro rfl
      have hnone := hok rfl
      rw [hr] at hnone
      simp [ht] at hnone
    exact hbeside.gate hclose (h.pending r hr ht)

end State

/-- In every run in which the gate is never closed while a transmit command is on its way to its
write, each transmit write found the gate open, and while one is being written the gate is open. -/
theorem transmit_gated {σ : Type} {cfg : Setup σ} {s : State σ}
    (h : (machine cfg).Reach GateKept s) :
    (∀ w ∈ s.wire, w.writer.transmits = true → w.gate = true) ∧
      ∀ r q seq left, s.phase = .writing r q seq left → r.op.transmits = true →
        s.env.gate = true := by
  have hgated : s.Gated := by
    apply h.invariant_with (K := fun s => ∀ r left, s.Attempting r left →
      r.op.transmits = true → left = 0)
    · exact fun hs => Reachable.once hs.reachable
    · intro s hs
      obtain ⟨hphase, hwire, -⟩ := State.Initial.start hs
      refine ⟨?_, ?_⟩ <;> simp [hphase, hwire, Phase.pending]
    · intro s a t honce hs hok hstep
      rcases State.step_cases hstep with ⟨-, -, hmove⟩ | hbeside
      · exact hs.move honce hmove
      · exact hs.beside hok hbeside
  refine ⟨hgated.wire, fun r q seq left hphase ht => ?_⟩
  exact hgated.pending r (by rw [hphase]; rfl) ht

/-! #### A gate closed during the spacing

A frequency has just been read, so the key waits for the spacing; the gate is closed while it does,
and the key is written all the same. -/

/-- A rig that needs 50 ms between commands. -/
def spacedBench : Engine Unit :=
  benchEngine [.readFrequency, .setPtt] 100 0 50
    (fun op => if op.transmits then .ack else .observation (.frequency .a))
    [.observation (.frequency .a 14000000), .ack]

/-- A read of the frequency, then a key that waits for its spacing. -/
def keyBehindRead : List Act :=
  [.go, .go, .openGate, .submit (.getFrequency .a) 1000 .api, .call 0, .go, .go, .go,
    .deliver ⟨[0], some 0⟩, .go, .submit (.setPtt true) 1000 .api, .call 0, .go, .go]

theorem key_written_gate_closed :
    ∃ s, (machine (bench spacedBench)).Reachable s ∧
      s.wire.getLast?.map (fun w => (w.writer, w.gate)) =
        some (.command (.setPtt true) (some 1), false) :=
  (benchStart_reachable spacedBench).exists_of_run
    (keyBehindRead ++ [.closeGate, .tick 50, .go, .go]) (by decide)

theorem transmit_gated_spaced :
    ∃ s : State Unit, (∃ w ∈ s.wire, w.writer.transmits = true) ∧
      (∀ w ∈ s.wire, w.writer.transmits = true → w.gate = true) ∧
      ∀ r q seq left, s.phase = .writing r q seq left → r.op.transmits = true →
        s.env.gate = true := by
  have hstart : (machine (bench spacedBench)).Reach GateKept (benchStart spacedBench) :=
    .init ⟨(), 0, .connected 1, 1, true, false, by simp⟩
  obtain ⟨s, hs, hsent⟩ := hstart.exists_of_runWhile
    (P := fun s => ∃ w ∈ s.wire, w.writer.transmits = true)
    (keyBehindRead ++ [.tick 50, .go, .go, .closeGate]) (by decide)
  exact ⟨s, hsent, transmit_gated hs⟩

end HamsOpen.Rig
