import HamsOpen.Lib.Machine
import Mathlib.Logic.Function.Basic

/-!
# Operator prompts of a run

How a run waits for its operator (`run.rs`). The program asks, and the supervisor looks for an
answer in each round of its loop; any number of callers answer, each of which looks whether a prompt
is pending, stores its answer, and waits for the prompt to go. The prompt and the answer are behind
two locks. Times are in nanoseconds, and the identifier of a message is of any type.

Prompts are numbered, and with an answer goes the number of the prompt that its caller saw, which is
nowhere in the code.
-/

namespace HamsOpen.Runner.Prompt

/-- The longest answer, in characters. -/
def MAX_ANSWER : ℕ := 4096

variable {ι : Type}

/-- An operator prompt that a run is waiting on. -/
structure Ask (ι : Type) where
  id : ι
  since : ℕ
  limit : ℕ
  /-- How many prompts there were before it. -/
  number : ℕ
  deriving DecidableEq

/-- An answer, and the prompt that its caller saw. -/
structure Given where
  prompt : ℕ
  text : String
  deriving DecidableEq

/-- The reply to the program. -/
structure Reply (ι : Type) where
  id : ι
  value : String
  deriving DecidableEq

/-- A reply, the answer that it has, and the prompt that it closes. -/
structure Delivered (ι : Type) where
  reply : Reply ι
  given : Given
  prompt : ℕ
  deriving DecidableEq

/-- How far a caller is that answers. -/
inductive Caller
  | idle
  /-- It saw a prompt that was pending. -/
  | checked (given : Given)
  /-- It stored its answer, and comes back with success when the prompt is gone, or at last. -/
  | stored
  deriving DecidableEq

structure State (ι : Type) where
  now : ℕ
  /-- When the supervisor began, and how long the run may take. -/
  start : ℕ
  wall : ℕ
  ask : Option (Ask ι)
  answer : Option Given
  awaiting : Option String
  /-- How long the prompts that are gone were waited for. -/
  pausedDone : ℕ
  cancel : Option String
  cancelSent : Bool
  ended : Bool
  left : Bool
  callers : ℕ → Caller
  /-- How many prompts there were, and how long one was pending. -/
  prompts : ℕ
  waited : ℕ
  /-- The answers that were stored, and those that were delivered. -/
  given : List Given
  delivered : List (Delivered ι)

inductive Act (ι : Type)
  /-- Time goes on. -/
  | tick (n : ℕ)
  /-- A caller looks for a prompt, stores its answer, and comes back. -/
  | check (k : ℕ) (text : String)
  | store (k : ℕ)
  | finish (k : ℕ) (late : Bool)
  /-- The supervisor reads a prompt of the program, looks for an answer, compares the time that the
  run took, and tells the program to stop. -/
  | asked (id : ι) (message : String) (limit : ℕ)
  | poll
  | clock
  | stop
  /-- Somebody wants the run to stop. -/
  | request (reason : String)
  /-- The program is at its end, and the supervisor leaves its loop. -/
  | done
  | leave
  deriving DecidableEq

namespace State

variable (s : State ι)

/-- The first reason wins. -/
def requestCancel (reason : String) : State ι := { s with cancel := s.cancel.or (some reason) }

/-- How long the run has waited for its operator. -/
def paused : ℕ := s.pausedDone + (s.ask.map fun a => s.now - a.since).getD 0

/-- The supervisor looks for answers. -/
def polling : Bool := !s.ended && !s.cancelSent && !s.left

def check (k : ℕ) (text : String) : Option (State ι) :=
  match s.callers k, s.ask with
  | .idle, some a =>
    if MAX_ANSWER < text.length then some s
    else some { s with callers := Function.update s.callers k (.checked ⟨a.number, text⟩) }
  | .idle, none => some s
  | _, _ => none

def store (k : ℕ) : Option (State ι) :=
  match s.callers k with
  | .checked g =>
    some { s with
      callers := Function.update s.callers k .stored
      answer := some g
      given := s.given ++ [g] }
  | _ => none

def finish (k : ℕ) (late : Bool) : Option (State ι) :=
  if s.callers k = .stored ∧ (s.ask.isNone ∨ late) then
    some { s with callers := Function.update s.callers k .idle }
  else none

/-- A prompt of the program; there is one at a time, and none for a run that is to stop. -/
def asked (id : ι) (message : String) (limit : ℕ) : Option (State ι) :=
  if s.left then none
  else if s.ask.isSome ∨ s.cancel.isSome then some s
  else some { s with
    ask := some ⟨id, s.now, limit, s.prompts⟩
    awaiting := some message
    prompts := s.prompts + 1 }

def poll : Option (State ι) :=
  if s.polling then
    match s.ask, s.answer with
    | none, _ => some s
    | some a, none =>
      if a.limit < s.now - a.since then some (s.requestCancel "operator_timeout") else some s
    | some a, some g =>
      some { s with
        ask := none
        answer := none
        awaiting := none
        pausedDone := s.pausedDone + (s.now - a.since)
        delivered := s.delivered ++ [⟨⟨a.id, g.text⟩, g, a.number⟩] }
  else none

/-- The time that the run took is compared, without the time that it waited. -/
def clock : Option (State ι) :=
  if s.polling then
    if s.wall + s.paused < s.now - s.start then some (s.requestCancel "timeout") else some s
  else none

/-- A pending prompt is dropped; the wait still counts. -/
def clearAsk : State ι :=
  match s.ask with
  | some a => { s with
      ask := none
      awaiting := none
      pausedDone := s.pausedDone + (s.now - a.since) }
  | none => s

def stop : Option (State ι) :=
  if s.cancel.isSome ∧ s.polling then some { s.clearAsk with cancelSent := true } else none

def step : Act ι → Option (State ι)
  | .tick n =>
    some { s with now := s.now + n, waited := s.waited + if s.ask.isSome then n else 0 }
  | .check k text => s.check k text
  | .store k => s.store k
  | .finish k late => s.finish k late
  | .asked id message limit => s.asked id message limit
  | .poll => s.poll
  | .clock => s.clock
  | .stop => s.stop
  | .request reason => some (s.requestCancel reason)
  | .done => if s.left then none else some { s with ended := true }
  | .leave => some { s with left := true }

end State

/-- A run as its supervisor begins. -/
def initial (wall now : ℕ) : State ι where
  now
  start := now
  wall
  ask := none
  answer := none
  awaiting := none
  pausedDone := 0
  cancel := none
  cancelSent := false
  ended := false
  left := false
  callers _ := .idle
  prompts := 0
  waited := 0
  given := []
  delivered := []

def machine (ι : Type) : Machine (State ι) (Act ι) where
  init s := ∃ wall now, s = initial wall now
  step := State.step

/-! ### What has to hold -/

/-- Every answer that was stored is delivered once, in its turn, to the prompt that its caller saw,
or that prompt is still pending and the answer will be found. The run has waited as long as a prompt
was pending. -/
structure Right (s : State ι) : Prop where
  once : s.given = s.delivered.map Delivered.given ++ s.answer.toList
  own : ∀ d ∈ s.delivered, d.given.prompt = d.prompt ∧ d.reply.value = d.given.text
  waiting : ∀ g ∈ s.answer, s.polling = true ∧ s.ask.map Ask.number = some g.prompt
  paused_eq : s.paused = s.waited

/-- What a caller is about to store. -/
def Caller.given : Caller → Option Given
  | .checked g => some g
  | _ => none

/-- An answer reaches the prompt that it was given to: when it is stored, that prompt is still
pending and looked after, and has no other answer; and the supervisor leaves no answer behind. -/
def Careful (s : State ι) : Act ι → Prop
  | .store k => ∀ g ∈ (s.callers k).given,
      s.polling = true ∧ s.answer = none ∧ s.ask.map Ask.number = some g.prompt
  | .stop | .done | .leave => s.answer = none
  | _ => True

/-! ### Every run -/

section Steps

variable {s t : State ι}

structure Inv (s : State ι) : Prop where
  right : Right s
  past : ∀ a ∈ s.ask, a.since ≤ s.now

/-- Time goes on, for the run and for a prompt that is pending. -/
theorem Inv.tick (h : Inv s) (n : ℕ) :
    Inv { s with now := s.now + n, waited := s.waited + if s.ask.isSome then n else 0 } := by
  obtain ⟨⟨honce, hown, hwaiting, hpaused⟩, hpast⟩ := h
  have hlater : ∀ a ∈ s.ask, a.since ≤ s.now + n := by
    intro a ha
    have hsince := hpast a ha
    omega
  refine ⟨⟨honce, hown, hwaiting, ?_⟩, hlater⟩
  unfold State.paused at hpaused ⊢
  cases hask : s.ask with
  | none => simpa [hask] using hpaused
  | some a =>
    have hsince := hpast a hask
    simp only [hask, Option.map_some, Option.getD_some] at hpaused
    simp only [Option.map_some, Option.getD_some, Option.isSome_some, if_true]
    omega

/-- A prompt goes without an answer. -/
theorem Inv.clearAsk (h : Inv s) (hnone : s.answer = none) : Inv s.clearAsk := by
  unfold State.clearAsk
  split
  next a hask =>
    obtain ⟨⟨honce, hown, -, hpaused⟩, -⟩ := h
    refine ⟨⟨honce, hown, fun g hg => ?_, ?_⟩, nofun⟩
    · rw [hnone] at hg
      cases hg
    · rw [State.paused, hask] at hpaused
      exact hpaused
  · exact h

/-- An answer is stored for the prompt that is pending. -/
theorem Inv.store (h : Inv s) {k : ℕ} (hcareful : Careful s (.store k))
    (hstep : s.store k = some t) : Inv t := by
  obtain ⟨⟨honce, hown, -, hpaused⟩, hpast⟩ := h
  unfold State.store at hstep
  split at hstep
  next g hcaller =>
    cases hstep
    obtain ⟨hpolling, hnone, hprompt⟩ := hcareful g (by rw [hcaller]; rfl)
    rw [hnone, Option.toList_none, List.append_nil] at honce
    refine ⟨⟨?_, hown, fun g' hg' => ?_, hpaused⟩, hpast⟩
    · rw [honce]
      rfl
    · cases hg'
      exact ⟨hpolling, hprompt⟩
  · cases hstep

/-- The supervisor looks for an answer, and delivers it to the prompt that is pending. -/
theorem Inv.poll (h : Inv s) (hstep : s.poll = some t) : Inv t := by
  obtain ⟨⟨honce, hown, hwaiting, hpaused⟩, hpast⟩ := id h
  unfold State.poll at hstep
  split at hstep
  next hpolling =>
    split at hstep
    · cases hstep
      exact h
    · split at hstep
      · cases hstep
        exact ⟨⟨honce, hown, hwaiting, hpaused⟩, hpast⟩
      · cases hstep
        exact h
    next a g hask hanswer =>
      cases hstep
      have hprompt := (hwaiting g hanswer).2
      rw [hask] at hprompt
      have hown' : g.prompt = a.number := (Option.some.inj hprompt).symm
      rw [State.paused, hask] at hpaused
      refine ⟨⟨?_, fun d hd => ?_, nofun, hpaused⟩, nofun⟩
      · rw [honce, hanswer]
        simp
      · rcases List.mem_append.mp hd with hd | hd
        · exact hown d hd
        · obtain rfl := List.mem_singleton.mp hd
          exact ⟨hown', rfl⟩
  · cases hstep

theorem Inv.step (h : Inv s) {a : Act ι} (hcareful : Careful s a) (hstep : s.step a = some t) :
    Inv t := by
  obtain ⟨⟨honce, hown, hwaiting, hpaused⟩, hpast⟩ := id h
  cases a with
  | tick n =>
    cases hstep
    exact h.tick n
  | check k text =>
    simp only [State.step, State.check] at hstep
    split at hstep
    · split at hstep
      · cases hstep
        exact h
      · cases hstep
        exact ⟨⟨honce, hown, hwaiting, hpaused⟩, hpast⟩
    · cases hstep
      exact h
    · cases hstep
  | store k => exact h.store hcareful hstep
  | finish k late =>
    simp only [State.step, State.finish] at hstep
    split at hstep
    · cases hstep
      exact ⟨⟨honce, hown, hwaiting, hpaused⟩, hpast⟩
    · cases hstep
  | asked id message limit =>
    simp only [State.step, State.asked] at hstep
    split at hstep
    · cases hstep
    · split at hstep
      · cases hstep
        exact h
      next hfree =>
        cases hstep
        have hask : s.ask = none := by
          by_contra hsome
          exact hfree (.inl (Option.isSome_iff_ne_none.mpr hsome))
        refine ⟨⟨honce, hown, fun g hg => ?_, ?_⟩, ?_⟩
        · -- no answer is left of a prompt before
          have hprompt := (hwaiting g hg).2
          rw [hask] at hprompt
          cases hprompt
        · rw [← hpaused]
          simp [State.paused, hask]
        · intro a ha
          cases ha
          exact Nat.le_refl _
  | poll => exact h.poll hstep
  | clock =>
    simp only [State.step, State.clock] at hstep
    split at hstep
    · split at hstep
      · cases hstep
        exact ⟨⟨honce, hown, hwaiting, hpaused⟩, hpast⟩
      · cases hstep
        exact h
    · cases hstep
  | stop =>
    simp only [State.step, State.stop] at hstep
    split at hstep
    · cases hstep
      obtain ⟨⟨honce, hown, hwaiting, hpaused⟩, hpast⟩ := h.clearAsk hcareful
      refine ⟨⟨honce, hown, fun g hg => ?_, hpaused⟩, hpast⟩
      have hnone : s.clearAsk.answer = s.answer := by
        unfold State.clearAsk
        split <;> rfl
      have hanswer : s.clearAsk.answer = none := hnone.trans hcareful
      cases hanswer.symm.trans hg
    · cases hstep
  | request reason =>
    cases hstep
    exact ⟨⟨honce, hown, hwaiting, hpaused⟩, hpast⟩
  | done =>
    simp only [State.step] at hstep
    split at hstep
    · cases hstep
    · cases hstep
      refine ⟨⟨honce, hown, fun g hg => ?_, hpaused⟩, hpast⟩
      have hanswer : s.answer = none := hcareful
      cases hanswer.symm.trans hg
  | leave =>
    cases hstep
    refine ⟨⟨honce, hown, fun g hg => ?_, hpaused⟩, hpast⟩
    have hanswer : s.answer = none := hcareful
    cases hanswer.symm.trans hg

end Steps

section Runs

variable {s : State ι}

instance (s : State ι) : DecidablePred (Careful s) := fun a => by
  cases a <;> unfold Careful <;> infer_instance

theorem inv_initial (wall now : ℕ) : Inv (initial wall now : State ι) :=
  ⟨⟨rfl, nofun, nofun, rfl⟩, nofun⟩

/-- Two callers see the first prompt, and one of them answers it. -/
def answered : List (Act ℕ) :=
  [.asked 7 "connect the load" 60, .check 0 "done", .check 1 "yes", .tick 5, .store 0, .poll]

/-- As long as each answer is stored while its prompt is pending and has no other, and none is left
behind, every answer is delivered once, to the prompt that it was given to, and the time waited is
left out of the time of the run. -/
theorem prompts_right (h : (machine ι).Reach Careful s) : Right s := by
  have hinv : Inv s := by
    apply h.invariant
    · rintro _ ⟨wall, now, rfl⟩
      exact inv_initial wall now
    · intro s a t hinv hcareful hstep
      exact hinv.step hcareful hstep
  exact hinv.right

theorem prompts_right_answered : ∃ s, (machine ℕ).Reach Careful s ∧
    (s.delivered.length = 1 ∧ s.paused = 5) ∧ Right s := by
  have hstart : (machine ℕ).Reach Careful (initial 100 0) := .init ⟨100, 0, rfl⟩
  obtain ⟨s, hreach, hdelivered⟩ := hstart.exists_of_runWhile
    (P := fun s => s.delivered.length = 1 ∧ s.paused = 5) answered (by decide +kernel)
  exact ⟨s, hreach, hdelivered, prompts_right hreach⟩

/-- The other caller stores its answer when the next prompt is pending. -/
theorem answer_to_next : ∃ s, (machine ℕ).Reachable s ∧ ¬ Right s := by
  have hstart : (machine ℕ).Reachable (initial 100 0) := .init ⟨100, 0, rfl⟩
  obtain ⟨s, hreach, d, hd, hother⟩ := hstart.exists_of_run
    (P := fun s => ∃ d ∈ s.delivered, d.given.prompt ≠ d.prompt)
    (answered ++ [.asked 8 "switch the amplifier on" 60, .store 1, .poll]) (by decide +kernel)
  exact ⟨s, hreach, fun hright => hother (hright.own d hd).1⟩

end Runs

end HamsOpen.Runner.Prompt
