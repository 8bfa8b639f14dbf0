import HamsOpen.Lib.History
import HamsOpen.Lib.Machine

/-!
# Exchanges with a responder that answers in order

A client sends requests to a responder, which answers them in the order they were sent. It may leave
a request without an answer, answer as late as it likes, and send what nobody asked for. The client
sees only what comes off the line: which request an item answers is kept beside it, for statements.
-/

/-- What a client does: it asks, and a request is sent or not, or it takes an item off the line. -/
inductive Act (ρ φ ω : Type) where
  | ask (r : ρ) (sent : Bool)
  | take (item : φ) (answers : Option ℕ) (out : ω)
  deriving DecidableEq

namespace Act

variable {ρ φ ω : Type}

/-- The requests sent, in order. -/
def requests : List (Act ρ φ ω) → List ρ
  | [] => []
  | .ask r true :: log => requests log ++ [r]
  | _ :: log => requests log

/-- The numbers of the requests answered, the latest first. -/
def answered : List (Act ρ φ ω) → List ℕ
  | [] => []
  | .take _ (some n) _ :: log => n :: answered log
  | _ :: log => answered log

/-- The request `n` is `r`, and it is not answered. -/
def Outstanding (log : List (Act ρ φ ω)) (n : ℕ) (r : ρ) : Prop :=
  (requests log)[n]? = some r ∧ n ∉ answered log

instance [DecidableEq ρ] (log : List (Act ρ φ ω)) (n : ℕ) (r : ρ) :
    Decidable (Outstanding log n r) := inferInstanceAs (Decidable (_ ∧ _))

/-- An item that answers a request is told so with an outstanding one. -/
def AnswersOutstanding : Act ρ φ ω → List (Act ρ φ ω) → Prop
  | .take _ (some n) _, earlier => ∃ r, Outstanding earlier n r
  | _, _ => True

end Act

/-- A client with its state `σ`: what it does with an operation and with an item. -/
structure Client (ρ φ ω σ : Type) where
  init : σ → Prop
  /-- Whether a request is sent, and the client after it. -/
  ask : ρ → σ → Bool × σ
  take : φ → σ → ω × σ

/-- An exchange under way. -/
structure Exchange (ρ φ ω σ : Type) where
  client : σ
  /-- The requests the responder has yet to answer, in order. -/
  owed : List ℕ
  /-- The items on the line, each with the request it answers. -/
  air : List (φ × Option ℕ)
  log : List (Act ρ φ ω)

/-- A step of an exchange. -/
inductive Move (ρ φ : Type) where
  | ask (r : ρ)
  | answer (item : φ)
  /-- The first request that is owed an answer gets none. -/
  | skip
  /-- The responder sends what nobody asked for. -/
  | push (item : φ)
  | take
  deriving DecidableEq

namespace Exchange

variable {ρ φ ω σ : Type}

open Act

/-- The requests that are answered, whose answer is on the line, or that are owed one. -/
def numbers (x : Exchange ρ φ ω σ) : List ℕ :=
  (answered x.log).reverse ++ (x.air.filterMap Prod.snd ++ x.owed)

/-- Answers are in the order of the requests, and there is one at most for each. -/
structure InOrder (x : Exchange ρ φ ω σ) : Prop where
  increasing : x.numbers.Pairwise (· < ·)
  sent : ∀ n ∈ x.numbers, n < (requests x.log).length

theorem InOrder.of_sublist {x y : Exchange ρ φ ω σ} (h : x.InOrder)
    (hnumbers : y.numbers.Sublist x.numbers)
    (hrequests : (requests x.log).length ≤ (requests y.log).length) : y.InOrder where
  increasing := h.increasing.sublist hnumbers
  sent n hn := Nat.lt_of_lt_of_le (h.sent n (hnumbers.subset hn)) hrequests

/-- A request that is sent comes after all the others. -/
theorem InOrder.of_append {x y : Exchange ρ φ ω σ} (h : x.InOrder)
    (hnumbers : y.numbers = x.numbers ++ [(requests x.log).length])
    (hrequests : (requests y.log).length = (requests x.log).length + 1) : y.InOrder where
  increasing := by
    rw [hnumbers]
    refine List.pairwise_append.mpr ⟨h.increasing, List.pairwise_singleton .., ?_⟩
    intro n hn m hm
    rw [List.mem_singleton.mp hm]
    exact h.sent n hn
  sent n hn := by
    rw [hnumbers] at hn
    rw [hrequests]
    rcases List.mem_append.mp hn with hn | hn
    · exact Nat.lt_succ_of_lt (h.sent n hn)
    · rw [List.mem_singleton.mp hn]
      exact Nat.lt_succ_self _

/-- The answer that comes first off the line is that of an outstanding request. -/
theorem InOrder.outstanding {x : Exchange ρ φ ω σ} (h : x.InOrder) {item : φ} {n : ℕ}
    {air : List (φ × Option ℕ)} (hair : x.air = (item, some n) :: air) :
    ∃ r, Outstanding x.log n r := by
  have hnumbers : x.numbers =
      (answered x.log).reverse ++ n :: (air.filterMap Prod.snd ++ x.owed) := by
    unfold numbers
    rw [hair]
    exact rfl
  have hincreasing := h.increasing
  rw [hnumbers] at hincreasing
  have hlt := h.sent n (hnumbers ▸ List.mem_append_right _ List.mem_cons_self)
  refine ⟨(requests x.log)[n], List.getElem?_eq_getElem hlt, fun hmem => ?_⟩
  have hbefore := (List.pairwise_append.mp hincreasing).2.2 n (List.mem_reverse.mpr hmem) n
    List.mem_cons_self
  exact Nat.lt_irrefl n hbefore

end Exchange

namespace Client

variable {ρ φ ω σ : Type} {c : Client ρ φ ω σ} {x y : Exchange ρ φ ω σ}

open Act

/-- The client, the responder and the line. -/
def machine (c : Client ρ φ ω σ) : Machine (Exchange ρ φ ω σ) (Move ρ φ) where
  init x := c.init x.client ∧ x.owed = [] ∧ x.air = [] ∧ x.log = []
  step x
    | .ask r =>
      let (sent, client) := c.ask r x.client
      let owed := if sent then x.owed ++ [(requests x.log).length] else x.owed
      some ⟨client, owed, x.air, .ask r sent :: x.log⟩
    | .answer item => match x.owed with
      | n :: owed => some { x with owed := owed, air := x.air ++ [(item, some n)] }
      | [] => none
    | .skip => match x.owed with
      | _ :: owed => some { x with owed := owed }
      | [] => none
    | .push item => some { x with air := x.air ++ [(item, none)] }
    | .take => match x.air with
      | (item, answers) :: air =>
        let (out, client) := c.take item x.client
        some ⟨client, x.owed, air, .take item answers out :: x.log⟩
      | [] => none

/-- What a step does: the client asks or takes an item, or is left alone. -/
theorem step_cases {m : Move ρ φ} (h : c.machine.step x m = some y) :
    (∃ r, y.client = (c.ask r x.client).2 ∧ y.air = x.air ∧
      y.log = .ask r (c.ask r x.client).1 :: x.log ∧
      y.owed = if (c.ask r x.client).1 then x.owed ++ [(requests x.log).length] else x.owed) ∨
    (∃ item answers air, x.air = (item, answers) :: air ∧
      y = ⟨(c.take item x.client).2, x.owed, air,
        .take item answers (c.take item x.client).1 :: x.log⟩) ∨
    (y.client = x.client ∧ y.log = x.log ∧
      (y.air.filterMap Prod.snd ++ y.owed).Sublist (x.air.filterMap Prod.snd ++ x.owed)) := by
  cases m with
  | ask r =>
    obtain rfl := Option.some.inj h
    exact .inl ⟨r, rfl, rfl, rfl, rfl⟩
  | answer item =>
    simp only [machine] at h
    split at h
    next n owed howed =>
      obtain rfl := Option.some.inj h
      refine .inr (.inr ⟨rfl, rfl, ?_⟩)
      rw [howed, List.filterMap_append]
      simp
    · cases h
  | skip =>
    simp only [machine] at h
    split at h
    next n owed howed =>
      obtain rfl := Option.some.inj h
      refine .inr (.inr ⟨rfl, rfl, ?_⟩)
      rw [howed]
      exact (List.sublist_cons_self n owed).append_left _
    · cases h
  | push item =>
    obtain rfl := Option.some.inj h
    refine .inr (.inr ⟨rfl, rfl, ?_⟩)
    rw [List.filterMap_append]
    simp
  | take =>
    simp only [machine] at h
    split at h
    next item answers air hair =>
      obtain rfl := Option.some.inj h
      exact .inr (.inl ⟨item, answers, air, hair, rfl⟩)
    · cases h

theorem inOrder_of_step {m : Move ρ φ} (hx : x.InOrder) (h : c.machine.step x m = some y) :
    y.InOrder := by
  rcases step_cases h with ⟨r, -, hair, hlog, howed⟩ | ⟨item, answers, air, hair, rfl⟩ |
    ⟨-, hlog, hsub⟩
  · cases hsent : (c.ask r x.client).1 with
    | true =>
      rw [hsent] at hlog howed
      apply hx.of_append
      · simp [Exchange.numbers, hair, hlog, howed, answered]
      · simp [hlog, requests]
    | false =>
      rw [hsent] at hlog howed
      apply hx.of_sublist
      · simp [Exchange.numbers, hair, hlog, howed, answered]
      · simp [hlog, requests]
  · apply hx.of_sublist
    · cases answers <;> simp [Exchange.numbers, hair, answered]
    · exact Nat.le_refl _
  · apply hx.of_sublist
    · unfold Exchange.numbers
      rw [hlog]
      exact hsub.append_left _
    · simp [hlog]

/-- What both operations of the client keep holds of it and its history all along an exchange. -/
theorem reachable_client {I : σ → List (Act ρ φ ω) → Prop} (hinit : ∀ s, c.init s → I s [])
    (hask : ∀ r s log, I s log → I (c.ask r s).2 (.ask r (c.ask r s).1 :: log))
    (htake : ∀ item n s log, I s log → I (c.take item s).2 (.take item n (c.take item s).1 :: log))
    (h : c.machine.Reachable x) : I x.client x.log := by
  refine h.invariant (I := fun x => I x.client x.log) ?_ ?_
  · rintro x ⟨hclient, -, -, hlog⟩
    rw [hlog]
    exact hinit _ hclient
  · intro x m y hx hstep
    rcases step_cases hstep with ⟨r, hclient, -, hlog, -⟩ | ⟨item, answers, air, -, rfl⟩ |
      ⟨hclient, hlog, -⟩
    · rw [hclient, hlog]
      exact hask r _ _ hx
    · exact htake item answers _ _ hx
    · rw [hclient, hlog]
      exact hx

/-- Whatever the responder does, an answer is that of an outstanding request. -/
theorem answers_outstanding (h : c.machine.Reachable x) :
    History.Throughout AnswersOutstanding x.log := by
  suffices hboth : x.InOrder ∧ History.Throughout AnswersOutstanding x.log from hboth.2
  refine h.invariant (I := fun x => x.InOrder ∧ History.Throughout AnswersOutstanding x.log) ?_ ?_
  · rintro x ⟨-, howed, hair, hlog⟩
    rw [hlog]
    refine ⟨⟨?_, ?_⟩, trivial⟩
    · simp [Exchange.numbers, howed, hair, hlog, answered]
    · simp [Exchange.numbers, howed, hair, hlog, answered]
  · rintro x m y ⟨hinOrder, hhistory⟩ hstep
    refine ⟨inOrder_of_step hinOrder hstep, ?_⟩
    rcases step_cases hstep with ⟨r, -, -, hlog, -⟩ | ⟨item, answers, air, hair, rfl⟩ |
      ⟨-, hlog, -⟩
    · rw [hlog]
      exact ⟨trivial, hhistory⟩
    · refine ⟨?_, hhistory⟩
      cases answers with
      | none => trivial
      | some n => exact hinOrder.outstanding hair
    · rw [hlog]
      exact hhistory

end Client
