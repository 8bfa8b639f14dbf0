import HamsOpen.Modbus.Holding

/-!
# The safe-state gate

Nothing but the safe-state write goes out in a session before the safe-state write of that session
was acknowledged, and a board that is not readable is never asked for its coils.
-/

namespace HamsOpen.Modbus

variable {board : ModbusBoard}

/-- The safe-state write of a session was acknowledged, by bytes that answer nothing but safe-state
writes of that session. -/
def SafeApplied (board : ModbusBoard) (session : Nat) (log : List Event) : Prop :=
  ∃ place answers, .credited session place .written answers ∈ log ∧ answers ≠ [] ∧
    ∀ a ∈ place :: answers, .sent session a board.safeRequest ∈ log

/-- The request may go out after what has happened. -/
def MaySend (board : ModbusBoard) (session : Nat) (request : List Byte) (log : List Event) : Prop :=
  (request = board.safeRequest ∨ SafeApplied board session log) ∧
    (board.statusReadable = false → request.head? ≠ some FN_READ_COILS)

/-- Every request that went out might. -/
def Gated (board : ModbusBoard) : List Event → Prop
  | [] => True
  | .sent session _ request :: log => MaySend board session request log ∧ Gated board log
  | _ :: log => Gated board log

theorem SafeApplied.mono {session : Nat} {log log' : List Event}
    (h : SafeApplied board session log) (hsub : log ⊆ log') : SafeApplied board session log' := by
  obtain ⟨place, answers, hcredited, hne, hsent⟩ := h
  exact ⟨place, answers, hsub hcredited, hne, fun a ha => hsub (hsent a ha)⟩

theorem Gated.of_append {log log' : List Event} {session place : Nat} {request : List Byte}
    (h : Gated board (log ++ .sent session place request :: log')) :
    MaySend board session request log' := by
  induction log with
  | nil => exact h.1
  | cons e log ih => cases e with
    | sent => exact ih h.2
    | answered | ignored | credited => exact ih h

/-- As long as the safe state of a session is not applied, only its safe-state writes went out. -/
theorem Gated.sent_safe {log : List Event} {session place : Nat} {request : List Byte}
    (h : Gated board log) (hnot : ¬ SafeApplied board session log)
    (hsent : .sent session place request ∈ log) : request = board.safeRequest := by
  obtain ⟨log₁, log₂, rfl⟩ := List.append_of_mem hsent
  refine h.of_append.1.resolve_right fun happlied => hnot (happlied.mono ?_)
  exact fun e he => List.mem_append_right _ (.tail _ he)

/-! ### What the bus keeps -/

theorem accept_nil (request : List Byte) (reply : Reply) :
    board.accept request [] ≠ .ok reply := by
  unfold ModbusBoard.accept
  cases hframing : board.framing <;> simp [decode, decodeAscii, decodeRtu]

/-- Every byte of a frame was in it before or has just been read. -/
theorem pushByte_subset {framing : Framing} {frame : List RxByte} {b b' : RxByte}
    (h : b' ∈ pushByte framing frame b) : b' ∈ frame ∨ b' = b := by
  cases framing with
  | ascii =>
    simp only [pushByte] at h
    repeat' split at h
    all_goals simp_all
  | rtu => simpa [pushByte] using h

theorem foldl_pushByte_subset {framing : Framing} {bytes frame : List RxByte} {b' : RxByte}
    (h : b' ∈ bytes.foldl (pushByte framing) frame) : b' ∈ frame ∨ b' ∈ bytes := by
  induction bytes generalizing frame with
  | nil => exact .inl h
  | cons b bytes ih =>
    rcases ih h with hframe | hbytes
    · rcases pushByte_subset hframe with hold | rfl
      · exact .inl hold
      · exact .inr (.head _)
    · exact .inr (.tail _ hbytes)

theorem assemble_subset (framing : Framing) (bytes : List RxByte) :
    assemble framing bytes ⊆ bytes :=
  fun _ h => (foldl_pushByte_subset h).resolve_left List.not_mem_nil

/-- What the call that holds the stream knows of the session is so. -/
structure Kept (board : ModbusBoard) (s : Bus) (l : Hold) : Prop where
  flag : s.shadow.safeDone = true → SafeApplied board s.session s.log ∨ l.replaced = true
  safe : l.safe = true → SafeApplied board s.session s.log
  asked : ∀ r, l.asked = some r → .sent s.session (s.requests - 1) r ∈ s.log
  heard : ∀ b ∈ l.heard, ∃ r, .sent s.session b.2 r ∈ s.log
  line : ∀ b ∈ s.line, ∃ r, .sent s.session b.2 r ∈ s.log
  pending : ∀ q ∈ s.pending, .sent s.session q.1 q.2 ∈ s.log
  gated : Gated board s.log

namespace Kept

variable {s s' : Bus} {l : Hold}

theorem init (h : (executor board).init s) : Kept board s .idle := by
  obtain ⟨-, hshadow, -, -, hpending, hline, hlog⟩ := h
  constructor
  all_goals simp [Hold.idle, hshadow, hpending, hline, hlog, Gated, Shadow.new]

/-- The stream goes from hand to hand, and with it what its holder knew is gone. -/
theorem give (h : Kept board s l) (hr : l.replaced = false) (holder : Option Nat) (holds : Bool) :
    Kept board { s with holder } { Hold.idle with holds } where
  flag hd := (h.flag hd).imp_right fun hrep => by simp [hr] at hrep
  safe hs := by cases hs
  asked r hr := by cases hr
  heard b hb := by cases hb
  line := h.line
  pending := h.pending
  gated := h.gated

/-- What happens on the wire leaves what the call knows, when requests that went out stay in the
history. -/
theorem wire (h : Kept board s l) (hshadow : s'.shadow = s.shadow)
    (hsession : s'.session = s.session) (hrequests : s'.requests = s.requests)
    (hsub : s.log ⊆ s'.log) (hline : ∀ b ∈ s'.line, ∃ r, .sent s.session b.2 r ∈ s.log)
    (hpending : ∀ q ∈ s'.pending, .sent s.session q.1 q.2 ∈ s.log)
    (hgated : Gated board s'.log) : Kept board s' l where
  flag hd := by
    rw [hsession]
    exact (h.flag (hshadow ▸ hd)).imp_left fun ha => ha.mono hsub
  safe hs := by
    rw [hsession]
    exact (h.safe hs).mono hsub
  asked r hr := by
    rw [hsession, hrequests]
    exact hsub (h.asked r hr)
  heard b hb := by
    obtain ⟨r, hr⟩ := h.heard b hb
    exact ⟨r, hsession ▸ hsub hr⟩
  line b hb := by
    obtain ⟨r, hr⟩ := hline b hb
    exact ⟨r, hsession ▸ hsub hr⟩
  pending q hq := hsession ▸ hsub (hpending q hq)
  gated := hgated

theorem shadow (h : Kept board s l) :
    Kept board s { l with safe := l.safe || l.holds && !l.replaced && s.shadow.safeDone } where
  flag := h.flag
  safe hs := by
    simp only [Bool.or_eq_true, Bool.and_eq_true, Bool.not_eq_eq_eq_not, Bool.not_true] at hs
    rcases hs with hs | ⟨⟨-, hr⟩, hdone⟩
    · exact h.safe hs
    · exact (h.flag hdone).resolve_right (by simp [hr])
  asked := h.asked
  heard := h.heard
  line := h.line
  pending := h.pending
  gated := h.gated

theorem update (h : Kept board s l) {f : Instant → Shadow → Shadow}
    (ha : (gate board).allows l (.update f)) :
    Kept board { s with shadow := f s.now s.shadow } { l with replaced := false } where
  flag hd := by
    refine .inl ?_
    rcases ha.2 _ _ hd with hs | ⟨hr, hdone⟩
    · exact h.safe hs
    · exact (h.flag hdone).resolve_right (by simp [hr])
  safe := h.safe
  asked := h.asked
  heard := h.heard
  line := h.line
  pending := h.pending
  gated := h.gated

theorem reconnect (h : Kept board s l) (coils : List Bool) :
    Kept board (s.reconnect coils) { Hold.idle with holds := true, replaced := true } where
  flag _ := .inr rfl
  safe hs := by cases hs
  asked r hr := by cases hr
  heard b hb := by cases hb
  line b hb := by cases hb
  pending q hq := by cases hq
  gated := h.gated

theorem transmit (h : Kept board s l) {request : List Byte}
    (ha : (gate board).allows l (.send request)) (whole : Bool) :
    Kept board (s.transmit request whole) { l with asked := some request, heard := [] } := by
  obtain ⟨-, -, hrequest, hreadable⟩ := ha
  have hsub : s.log ⊆ (s.transmit request whole).log := List.subset_cons_self _ _
  refine ⟨?_, ?_, ?_, ?_, ?_, ?_, ?_⟩
  · exact fun hd => (h.flag hd).imp_left fun happlied => happlied.mono hsub
  · exact fun hs => (h.safe hs).mono hsub
  · rintro r ⟨⟩
    exact .head _
  · exact fun b hb => by cases hb
  · intro b hb
    obtain ⟨r, hsent⟩ := h.line b hb
    exact ⟨r, hsub hsent⟩
  · intro q hq
    simp only [Bus.transmit] at hq
    split at hq
    · rcases List.mem_append.mp hq with hq | hq
      · exact hsub (h.pending q hq)
      · obtain rfl := List.mem_singleton.mp hq
        exact .head _
    · exact hsub (h.pending q hq)
  · exact ⟨⟨hrequest.imp_right h.safe, hreadable⟩, h.gated⟩

/-- A byte that was read answers a request of the session. -/
theorem read (h : Kept board s l) {b : RxByte} {rest : List RxByte} (hline : s.line = b :: rest) :
    Kept board { s with line := rest } { l with heard := l.heard ++ [b] } := by
  have hrest := h.line
  rw [hline] at hrest
  have hkept : Kept board { s with line := rest } l :=
    h.wire rfl rfl rfl (fun _ => id) (fun b hb => hrest b (.tail _ hb)) h.pending h.gated
  refine { hkept with heard := fun a ha => ?_ }
  rcases List.mem_append.mp ha with ha | ha
  · exact h.heard a ha
  · obtain rfl := List.mem_singleton.mp ha
    exact hrest a (.head _)

/-- The bytes that a successful exchange of the safe-state write was made of answer requests of the
session. As long as the safe state is not applied, these are safe-state writes themselves. -/
theorem credited (h : Kept board s l) {answers : List Nat}
    (hasked : l.asked = some board.safeRequest) (hne : answers ≠ [])
    (hheard : ∀ a ∈ answers, ∃ b ∈ l.heard, b.2 = a) : SafeApplied board s.session
      (.credited s.session (s.requests - 1) .written answers :: s.log) := by
  by_cases happlied : SafeApplied board s.session s.log
  · exact happlied.mono (List.subset_cons_self _ _)
  refine ⟨_, answers, .head _, hne, fun a ha => .tail _ ?_⟩
  rcases List.mem_cons.mp ha with rfl | ha
  · exact h.asked _ hasked
  · obtain ⟨b, hb, rfl⟩ := hheard a ha
    obtain ⟨r, hr⟩ := h.heard b hb
    exact h.gated.sent_safe happlied hr ▸ hr

theorem credit (h : Kept board s l) {reply : Reply} {answers : List Nat}
    (ha : (gate board).allows l (.credit reply answers)) :
    Kept board (s.record (.credited s.session (s.requests - 1) reply answers))
      ((gate board).after l (.credit reply answers) ()) := by
  obtain ⟨-, -, request, hasked, rfl, haccept⟩ := ha
  obtain ⟨answers, hanswers⟩ :
    ∃ answers, answers = (assemble board.framing l.heard).map (·.2) := ⟨_, rfl⟩
  rw [← hanswers]
  have hkept : Kept board (s.record (.credited s.session (s.requests - 1) reply answers)) l :=
    h.wire rfl rfl rfl (List.subset_cons_self _ _) h.line h.pending h.gated
  cases reply with
  | coils bits => exact hkept
  | written =>
    refine { hkept with safe := fun hs => ?_ }
    simp only [gate, Hold.after, Bool.or_eq_true, beq_iff_eq] at hs
    rcases hs with hs | hsafe
    · exact (h.safe hs).mono (List.subset_cons_self _ _)
    refine h.credited hsafe (fun hnil => ?_) fun a ha => ?_
    · rw [List.map_eq_nil_iff.mp (hanswers.symm.trans hnil)] at haccept
      exact accept_nil request _ haccept
    · obtain ⟨b, hb, rfl⟩ := List.mem_map.mp (hanswers ▸ ha)
      exact ⟨b, assemble_subset _ _ hb, rfl⟩

/-- The board takes a request: what it sends answers a request of the session. -/
theorem take (h : Kept board s l) {taking : Taking} (ht : s.take board taking = some s') :
    Kept board s' l := by
  unfold Bus.take at ht
  split at ht
  · cases ht
  next place request rest hp =>
    have hsent : .sent s.session place request ∈ s.log :=
      h.pending (place, request) (hp ▸ .head _)
    have hpending : ∀ q ∈ rest, .sent s.session q.1 q.2 ∈ s.log :=
      fun q hq => h.pending q (hp ▸ .tail _ hq)
    have hline (answer : List Byte) : ∀ b ∈ s.line ++ answer.map fun b => (b, place),
        ∃ r, .sent s.session b.2 r ∈ s.log := by
      intro b hb
      rcases List.mem_append.mp hb with hb | hb
      · exact h.line b hb
      · obtain ⟨_, -, rfl⟩ := List.mem_map.mp hb
        exact ⟨request, hsent⟩
    cases taking with
    | perform =>
      obtain ⟨done, -, rfl⟩ := Option.map_eq_some_iff.mp ht
      exact h.wire rfl rfl rfl (List.subset_cons_self _ _) (hline _) hpending h.gated
    | refuse code =>
      obtain rfl := Option.some.inj ht
      exact h.wire rfl rfl rfl (List.subset_cons_self _ _) (hline _) hpending h.gated
    | silent performs =>
      obtain rfl := Option.some.inj ht
      exact h.wire rfl rfl rfl (List.subset_cons_self _ _) h.line hpending h.gated

end Kept

theorem holding_kept : Holding board (fun _ => True) (Kept board) where
  init := .init
  give h := h.give
  shadow h := h.shadow
  update h := h.update
  reconnect h := h.reconnect
  transmit h _ := h.transmit
  read h hline _ := h.read hline
  credit h := h.credit
  tick h _ := h.wire rfl rfl rfl (fun _ => id) h.line h.pending h.gated
  take h := h.take

theorem reachable_kept {w : State} (h : (machine board).Reachable w) :
    ∃ l, Kept board w.shared l := by
  refine holding_kept.reach (h.mono fun w e _ => ?_)
  unfold sendsWhen
  split
  · split <;> trivial
  · trivial

/-- Every request that went out might: before a session's safe-state write was acknowledged only
that write is sent, and a board that is not readable is never asked for its coils. -/
theorem safe_state_first {w : State} (h : (machine board).Reachable w) {log log' : List Event}
    {session place : Nat} {request : List Byte}
    (hlog : w.shared.log = log ++ .sent session place request :: log') :
    MaySend board session request log' := by
  obtain ⟨l, hkept⟩ := reachable_kept h
  exact (hlog ▸ hkept.gated).of_append

/-- A relay is switched on: the command goes out behind the acknowledged safe-state write. -/
theorem safe_state_first_written : ∃ (w : State) (log' : List Event),
    (machine oneRelay).Reachable w ∧
    w.shared.log = [] ++ .sent 0 1 (pduWriteCoil 0 true) :: log' ∧
    MaySend oneRelay 0 (pduWriteCoil 0 true) log' := by
  obtain ⟨w, hw, hhead⟩ := (start_reachable oneRelay [true]).exists_of_run
    (P := fun w => w.shared.log.head? = some (.sent 0 1 (pduWriteCoil 0 true)))
    ([.call (.writeLine 0 true)] ++ turns 0 4 .go ++ [.env (.tick 1)] ++ turns 0 5 .go ++
      [.env (.take .perform)] ++ turns 0 24 .go ++ [.env (.tick 1)] ++ turns 0 4 .late ++
      [.env (.tick 1)] ++ turns 0 5 .go) (by decide +kernel)
  obtain ⟨log', hlog⟩ := List.head?_eq_some_iff.mp hhead
  have hlog : w.shared.log = [] ++ .sent 0 1 (pduWriteCoil 0 true) :: log' := hlog
  exact ⟨w, log', hw, hlog, safe_state_first hw hlog⟩

end HamsOpen.Modbus
