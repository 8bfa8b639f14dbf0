import HamsOpen.Modbus.SafeGate

/-!
# Replies are credited to their requests

The driver does not drain the line after a timeout, so the answer to an earlier request can be taken
for the answer to a later one of the same form. While no earlier request is owed an answer when a
request goes out, every success is made of the board's own answer to that request, which it
performed.
-/

namespace HamsOpen.Modbus

variable {board : ModbusBoard}

/-- The board performed the request, after it was sent, and answered it. -/
def Performed (session place : Nat) (request : List Byte) (coils : List Bool) (answer : List Byte)
    (log : List Event) : Prop :=
  ∃ before log₁ log₂ log₃, log = log₁ ++ .answered session place true coils answer ::
      (log₂ ++ .sent session place request :: log₃) ∧
    serve before request = some (coils, answer)

/-- The exchange of a request succeeded with the board's own answer to it. The board performed the
request, and a read gives the levels at that moment. -/
def OwnReply (session place : Nat) (reply : Reply) (answers : List Nat) (log : List Event) : Prop :=
  (answers ≠ [] ∧ ∀ a ∈ answers, a = place) ∧
    ∃ request coils answer, Performed session place request coils answer log ∧
      parseReply request answer = .ok reply ∧
      ∀ bits, reply = .coils bits → bits = levels coils request

/-- Every exchange that succeeded did so with the board's own answer. -/
def Credits : List Event → Prop
  | [] => True
  | .credited session place reply answers :: log =>
    OwnReply session place reply answers log ∧ Credits log
  | _ :: log => Credits log

theorem Performed.cons {session place : Nat} {request answer : List Byte} {coils : List Bool}
    {log : List Event} (h : Performed session place request coils answer log) (e : Event) :
    Performed session place request coils answer (e :: log) := by
  obtain ⟨before, log₁, log₂, log₃, rfl, hserve⟩ := h
  exact ⟨before, e :: log₁, log₂, log₃, rfl, hserve⟩

theorem Credits.of_append {log log' : List Event} {session place : Nat} {reply : Reply}
    {answers : List Nat} (h : Credits (log ++ .credited session place reply answers :: log')) :
    OwnReply session place reply answers log' := by
  induction log with
  | nil => exact h.1
  | cons e log ih => cases e with
    | credited => exact ih h.2
    | sent | answered | ignored => exact ih h

/-! ### One answer, byte by byte -/

/-- The bytes of a frame that the board sends. -/
def onLine (board : ModbusBoard) (place : Nat) (answer : List Byte) : List RxByte :=
  (encode board.framing board.slave answer).map fun b => (b, place)

theorem foldl_pushByte_plain {bytes frame : List RxByte} (hne : frame ≠ [])
    (hplain : ∀ b ∈ bytes, b.1 ≠ COLON) : bytes.foldl (pushByte .ascii) frame = frame ++ bytes := by
  induction bytes generalizing frame with
  | nil => simp
  | cons b bytes ih =>
    have hb := hplain b (.head _)
    have hpush : pushByte .ascii frame b = frame ++ [b] := by
      simp [pushByte, hb, hne]
    rw [List.foldl_cons, hpush, ih (by simp) fun b' hb' => hplain b' (.tail _ hb')]
    simp

/-- The first bytes of an answer are put together as they are. -/
theorem assemble_onLine {heard : List RxByte} {place : Nat} {answer : List Byte}
    (hpre : heard <+: onLine board place answer) : assemble board.framing heard = heard := by
  cases hframing : board.framing with
  | rtu =>
    have hpush (frame : List RxByte) : heard.foldl (pushByte .rtu) frame = frame ++ heard := by
      clear hpre
      induction heard generalizing frame with
      | nil => simp
      | cons b heard ih => simp [pushByte, ih]
    exact hpush []
  | ascii =>
    simp only [onLine, hframing, encode, encodeAscii, List.cons_append, List.map_cons] at hpre
    cases heard with
    | nil => rfl
    | cons b rest =>
      obtain ⟨rfl, hrest⟩ := List.cons_prefix_cons.mp hpre
      have hpush : pushByte .ascii [] (COLON, place) = [(COLON, place)] := by simp [pushByte]
      rw [assemble, List.foldl_cons, hpush, foldl_pushByte_plain (by simp)]
      · rfl
      intro b hb
      obtain ⟨c, hc, rfl⟩ := List.mem_map.mp (hrest.subset hb)
      rcases List.mem_append.mp hc with hc | hc
      · obtain ⟨d, -, hd⟩ := List.mem_flatMap.mp hc
        rintro rfl
        exact (hexByte_plain d).1 hd
      · rintro rfl
        exact absurd hc (by decide)

/-- The first bytes of an answer that are accepted are first bytes of what the board answered. -/
theorem accept_prefix {heard : List RxByte} {place : Nat} {request answer : List Byte}
    {reply : Reply} (hanswer : answer ≠ []) (hpre : heard <+: onLine board place answer)
    (haccept : board.accept request (heard.map (·.1)) = .ok reply) :
    ∃ pdu, pdu <+: answer ∧ parseReply request pdu = .ok reply := by
  have hbytes : heard.map (·.1) <+: encode board.framing board.slave answer := by
    have hmap := hpre.map (·.1)
    simpa [onLine, Function.comp_def] using hmap
  unfold ModbusBoard.accept at haccept
  split at haccept
  · cases haccept
  next slave pdu hdecode =>
    split at haccept
    · cases haccept
    · exact ⟨pdu, prefix_of_decode hanswer hbytes hdecode, haccept⟩

theorem serve_ne_nil {before coils : List Bool} {request answer : List Byte}
    (h : serve before request = some (coils, answer)) : answer ≠ [] := by
  rcases serve_cases h with ⟨hfn, rfl⟩ | ⟨hfn, rfl⟩ | ⟨-, -, count, rfl⟩
  · rintro rfl
    cases hfn
  · rintro hnil
    rcases List.take_eq_nil_iff.mp hnil with hfive | rfl
    · cases hfive
    · cases hfn
  · simp

/-- The first bytes of a performed request's answer are accepted only when they are all of it. -/
theorem accept_performed {heard : List RxByte} {place : Nat} {before coils : List Bool}
    {request answer : List Byte} {reply : Reply} (hpre : heard <+: onLine board place answer)
    (hserve : serve before request = some (coils, answer))
    (haccept : board.accept request (heard.map (·.1)) = .ok reply) :
    parseReply request answer = .ok reply := by
  obtain ⟨pdu, hpdu, hreply⟩ := accept_prefix (serve_ne_nil hserve) hpre haccept
  rwa [← hpdu.eq_of_length (serve_length hserve hreply).symm]

/-- No first bytes of a refusal are accepted. -/
theorem accept_refusal {heard : List RxByte} {place : Nat} {code : Byte} {request : List Byte}
    (hpre : heard <+: onLine board place (refusal code request)) (reply : Reply) :
    board.accept request (heard.map (·.1)) ≠ .ok reply := by
  intro haccept
  obtain ⟨pdu, hpdu, hreply⟩ := accept_prefix (by simp [refusal]) hpre haccept
  exact parseReply_exception code hpdu reply hreply

/-! ### What the bus keeps -/

/-- No earlier request is owed an answer, and no byte is unread. -/
def Settled (s : Bus) : Prop := s.pending = [] ∧ s.line = []

instance : DecidablePred Settled := fun _ => instDecidableAnd

/-- Where the last request stands: it is not answered, or its answer is on its way or read. -/
def Standing (board : ModbusBoard) (s : Bus) (request : List Byte) (heard : List RxByte) : Prop :=
  heard = [] ∧ s.line = [] ∧ (s.pending = [] ∨ s.pending = [(s.requests - 1, request)]) ∨
  s.pending = [] ∧ ∃ answer, heard ++ s.line = onLine board (s.requests - 1) answer ∧
    ((∃ code, answer = refusal code request) ∨
      ∃ coils, Performed s.session (s.requests - 1) request coils answer s.log)

/-- The bytes that the call has read, and those on the line, answer its own request. -/
structure Own (board : ModbusBoard) (s : Bus) (l : Hold) : Prop where
  asked : ∀ r, l.asked = some r → .sent s.session (s.requests - 1) r ∈ s.log
  standing : ∀ r, l.asked = some r → Standing board s r l.heard
  credits : Credits s.log

namespace Own

variable {s s' : Bus} {l : Hold}

theorem Standing.credited (h : Own board s l) {request : List Byte} {reply : Reply}
    (hasked : l.asked = some request)
    (haccept : board.accept request ((assemble board.framing l.heard).map (·.1)) = .ok reply) :
    OwnReply s.session (s.requests - 1) reply ((assemble board.framing l.heard).map (·.2)) s.log := by
  rcases h.standing request hasked with ⟨hheard, -, -⟩ | ⟨-, answer, hline, hanswer⟩
  · rw [hheard] at haccept
    exact absurd haccept (accept_nil request reply)
  have hpre : l.heard <+: onLine board (s.requests - 1) answer := ⟨s.line, hline⟩
  rw [assemble_onLine hpre] at haccept ⊢
  rcases hanswer with ⟨code, rfl⟩ | ⟨coils, hperformed⟩
  · exact absurd haccept (accept_refusal hpre reply)
  obtain ⟨before, log₁, log₂, log₃, hlog, hserve⟩ := hperformed
  have hreply := accept_performed hpre hserve haccept
  refine ⟨⟨fun hnil => ?_, fun a ha => ?_⟩, request, coils, answer,
    ⟨before, log₁, log₂, log₃, hlog, hserve⟩, hreply, ?_⟩
  · rw [List.map_eq_nil_iff.mp hnil] at haccept
    exact accept_nil request reply haccept
  · obtain ⟨b, hb, rfl⟩ := List.mem_map.mp ha
    obtain ⟨c, -, rfl⟩ := List.mem_map.mp (hpre.subset hb)
    rfl
  · rintro bits rfl
    exact served_levels hserve hreply

/-- An event that is no request leaves what is known of the last one. -/
theorem cons (h : Own board s l) {e : Event} (hline : s'.line = s.line)
    (hpending : s'.pending = s.pending) (hsession : s'.session = s.session)
    (hrequests : s'.requests = s.requests) (hlog : s'.log = e :: s.log)
    (hcredits : Credits (e :: s.log)) : Own board s' l where
  asked r hr := by
    rw [hsession, hrequests, hlog]
    exact .tail _ (h.asked r hr)
  standing r hr := by
    rcases h.standing r hr with ⟨hheard, hl, hp⟩ | ⟨hp, answer, hl, hanswer⟩
    · refine .inl ⟨hheard, hline.trans hl, ?_⟩
      rwa [hpending, hrequests]
    · refine .inr ⟨hpending.trans hp, answer, ?_, hanswer.imp_right ?_⟩
      · rwa [hline, hrequests]
      · rintro ⟨coils, hperformed⟩
        rw [hsession, hrequests, hlog]
        exact ⟨coils, hperformed.cons e⟩
  credits := hlog ▸ hcredits

/-- What the call does not ask anything about. -/
theorem unasked (h : Credits s.log) (hasked : l.asked = none) : Own board s l where
  asked r hr := by simp [hasked] at hr
  standing r hr := by simp [hasked] at hr
  credits := h

theorem transmit (h : Own board s l) (hsettled : Settled s) (request : List Byte) (whole : Bool) :
    Own board (s.transmit request whole) { l with asked := some request, heard := [] } where
  asked r hr := by
    obtain rfl := Option.some.inj hr
    exact .head _
  standing r hr := by
    obtain rfl := Option.some.inj hr
    refine .inl ⟨rfl, hsettled.2, ?_⟩
    cases whole with
    | true => exact .inr (by simp [Bus.transmit, hsettled.1])
    | false => exact .inl hsettled.1
  credits := h.credits

theorem read (h : Own board s l) {b : RxByte} {rest : List RxByte} (hline : s.line = b :: rest) :
    Own board { s with line := rest } { l with heard := l.heard ++ [b] } where
  asked := h.asked
  standing r hr := by
    rcases h.standing r hr with ⟨-, hl, -⟩ | ⟨hp, answer, hl, hanswer⟩
    · simp [hl] at hline
    · refine .inr ⟨hp, answer, ?_, hanswer⟩
      rw [hline] at hl
      simpa using hl
  credits := h.credits

theorem credit (h : Own board s l) {reply : Reply} {answers : List Nat}
    (ha : (gate board).allows l (.credit reply answers)) :
    Own board (s.record (.credited s.session (s.requests - 1) reply answers))
      ((gate board).after l (.credit reply answers) ()) := by
  obtain ⟨-, -, request, hasked, rfl, haccept⟩ := ha
  have hown : Own board (s.record (.credited s.session (s.requests - 1) reply
      ((assemble board.framing l.heard).map (·.2)))) l :=
    h.cons rfl rfl rfl rfl rfl ⟨Standing.credited h hasked haccept, h.credits⟩
  cases reply with
  | coils bits => exact hown
  | written => exact ⟨hown.asked, hown.standing, hown.credits⟩

/-- The board takes the request that the call waits for, if it waits for one. -/
theorem take (h : Own board s l) {taking : Taking} (ht : s.take board taking = some s') :
    Own board s' l := by
  cases hasked : l.asked with
  | none =>
    refine unasked ?_ hasked
    unfold Bus.take at ht
    split at ht
    · cases ht
    · cases taking with
      | perform =>
        obtain ⟨done, -, rfl⟩ := Option.map_eq_some_iff.mp ht
        exact h.credits
      | refuse | silent =>
        obtain rfl := Option.some.inj ht
        exact h.credits
  | some r =>
    have hsent := h.asked r hasked
    rcases h.standing r hasked with ⟨hheard, hline, hpending | hpending⟩ | ⟨hpending, -⟩
    · simp [Bus.take, hpending] at ht
    · simp only [Bus.take, hpending] at ht
      have hone (t : Bus) (hsession : t.session = s.session) (hrequests : t.requests = s.requests)
          (e : Event) (hlog : t.log = e :: s.log) (hcredits : Credits (e :: s.log))
          (hstanding : Standing board t r l.heard) : Own board t l := by
        refine ⟨fun r' hr' => ?_, fun r' hr' => ?_, hlog ▸ hcredits⟩
        · obtain rfl := Option.some.inj (hasked.symm.trans hr')
          rw [hsession, hrequests, hlog]
          exact .tail _ hsent
        · obtain rfl := Option.some.inj (hasked.symm.trans hr')
          exact hstanding
      obtain ⟨log₁, log₂, hlog⟩ := List.append_of_mem hsent
      cases taking with
      | perform =>
        obtain ⟨done, hserve, rfl⟩ := Option.map_eq_some_iff.mp ht
        refine hone _ rfl rfl _ rfl h.credits (.inr ⟨rfl, done.2, ?_, .inr ⟨done.1, ?_⟩⟩)
        · rw [hheard, hline]
          rfl
        · exact ⟨s.coils, [], log₁, log₂, by rw [hlog]; rfl, hserve⟩
      | refuse code =>
        obtain rfl := Option.some.inj ht
        refine hone _ rfl rfl _ rfl h.credits (.inr ⟨rfl, refusal code r, ?_, .inl ⟨code, rfl⟩⟩)
        rw [hheard, hline]
        rfl
      | silent performs =>
        obtain rfl := Option.some.inj ht
        exact hone _ rfl rfl _ rfl h.credits (.inl ⟨hheard, hline, .inl rfl⟩)
    · simp [Bus.take, hpending] at ht

end Own

theorem holding_own : Holding board Settled (Own board) where
  init h := .unasked (by obtain ⟨-, -, -, -, -, -, hlog⟩ := h; rw [hlog]; trivial) rfl
  give h _ _ _ := .unasked h.credits rfl
  shadow h := ⟨h.asked, h.standing, h.credits⟩
  update h _ := ⟨h.asked, h.standing, h.credits⟩
  reconnect h _ := .unasked h.credits rfl
  transmit h hsettled _ := h.transmit hsettled _
  read h hline _ := h.read hline
  credit h := h.credit
  tick h _ := ⟨h.asked, h.standing, h.credits⟩
  take h := h.take

/-- When every request goes out on a settled bus, every exchange that succeeds does so with the
board's own answer to its request: the board performed it after it was sent, and a read gives the
levels there were then. -/
theorem credited_own {w : State} (h : (machine board).Reach (sendsWhen Settled) w)
    {log log' : List Event} {session place : Nat} {reply : Reply} {answers : List Nat}
    (hlog : w.shared.log = log ++ .credited session place reply answers :: log') :
    OwnReply session place reply answers log' := by
  obtain ⟨l, hown⟩ := holding_own.reach h
  exact (hlog ▸ hown.credits).of_append

/-- The safe-state write of the first command, acknowledged in time. -/
def openingTurns (call : Call) : List (Turn Call Choice Outside) :=
  [.call call] ++ turns 0 4 .go ++ [.env (.tick 1)] ++ turns 0 5 .go ++ [.env (.take .perform)] ++
    turns 0 24 .go ++ [.env (.tick 1)] ++ turns 0 4 .late

theorem credited_own_safe : ∃ (w : State) (log' : List Event),
    (machine oneRelay).Reach (sendsWhen Settled) w ∧
    w.shared.log = [] ++ .credited 0 0 .written (List.replicate 8 0) :: log' ∧
    OwnReply 0 0 .written (List.replicate 8 0) log' := by
  have hstart : (machine oneRelay).Reach (sendsWhen Settled) (start oneRelay [true]) :=
    .init ⟨⟨rfl, rfl, rfl, rfl, rfl, rfl, rfl⟩, rfl⟩
  obtain ⟨w, hw, hhead⟩ := hstart.exists_of_runWhile
    (P := fun w => w.shared.log.head? = some (.credited 0 0 .written (List.replicate 8 0)))
    (openingTurns .ensureSafeState) (by decide +kernel)
  obtain ⟨log', hlog⟩ := List.head?_eq_some_iff.mp hhead
  have hlog : w.shared.log = [] ++ .credited 0 0 .written (List.replicate 8 0) :: log' := hlog
  exact ⟨w, log', hw, hlog, credited_own hw hlog⟩

/-- A read of a relay that is off runs out of time with its answer on the way. So does the write
that then switches the relay on. The next read is answered with what the first one was: off. -/
theorem late_answer_credited : ∃ (w : State) (log log' : List Event) (place : Nat) (reply : Reply)
    (answers : List Nat), (machine oneRelay).Reachable w ∧
      w.shared.log = log ++ .credited 0 place reply answers :: log' ∧
      ¬ OwnReply 0 place reply answers log' ∧
      w.result 2 = some (.ok (some false)) ∧ w.shared.coils = [true] := by
  obtain ⟨w, hw, hhead, hresult⟩ := (start_reachable oneRelay [false]).exists_of_run
    (P := fun w => w.shared.log.head? = some (.credited 0 3 (.coils [false]) (List.replicate 6 1)) ∧
      w.result 2 = some (.ok (some false)) ∧ w.shared.coils = [true])
    (openingTurns (.readLine 0) ++ [.env (.tick 1)] ++ turns 0 5 .go ++
      [.env (.tick 10)] ++ turns 0 2 .late ++ [.env (.take .perform), .call (.writeLine 0 true)] ++
      turns 1 3 .late ++ [.env (.tick 1)] ++ turns 1 5 .late ++ [.env (.tick 10)] ++
      turns 1 3 .late ++ [.env (.take .perform), .call (.readLine 0)] ++ turns 2 3 .late ++
      [.env (.tick 1)] ++ turns 2 5 .late ++ turns 2 18 .go ++ [.env (.tick 1)] ++
      turns 2 3 .late) (by decide +kernel)
  obtain ⟨log', hlog⟩ := List.head?_eq_some_iff.mp hhead
  refine ⟨w, [], log', 3, _, _, hw, hlog, fun hown => ?_, hresult⟩
  exact absurd (hown.1.2 1 (.head _)) (by decide)

end HamsOpen.Modbus
