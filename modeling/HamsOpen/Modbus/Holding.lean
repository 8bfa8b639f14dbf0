import HamsOpen.Modbus.Bus
import Mathlib

/-!
# The call that holds the stream

A call knows something of the session only while it holds the stream. What it knows is kept beside
its program: whether the safe state is applied, which request it sent last, and the bytes it has
read since.
-/

namespace HamsOpen.Modbus

variable {board : ModbusBoard}

/-- What the call that holds the stream knows. -/
structure Hold where
  holds : Bool
  /-- It has replaced the stream and not yet the record. -/
  replaced : Bool
  /-- The safe state is applied in this session. -/
  safe : Bool
  /-- The request it sent last. -/
  asked : Option (List Byte)
  /-- The bytes it has read since. -/
  heard : List RxByte

/-- The frame that bytes are put together to. -/
def assemble (framing : Framing) (bytes : List RxByte) : List RxByte :=
  bytes.foldl (pushByte framing) []

namespace Hold

/-- A call that does not hold the stream knows nothing. -/
def idle : Hold := ⟨false, false, false, none, []⟩

def allows (board : ModbusBoard) (l : Hold) : Action → Prop
  | .lock => l = idle
  | .shadow => True
  | .unlock | .now | .sleep _ | .sent | .read _ => l.holds = true ∧ l.replaced = false
  | .update f => l.holds = true ∧ ∀ now sh, (f now sh).safeDone = true →
      l.safe = true ∨ l.replaced = false ∧ sh.safeDone = true
  | .replace => l.holds = true
  | .send request => l.holds = true ∧ l.replaced = false ∧
      (request = board.safeRequest ∨ l.safe = true) ∧
      (board.statusReadable = false → request.head? ≠ some FN_READ_COILS)
  | .credit reply answers => l.holds = true ∧ l.replaced = false ∧ ∃ request,
      l.asked = some request ∧ answers = (assemble board.framing l.heard).map (·.2) ∧
      board.accept request ((assemble board.framing l.heard).map (·.1)) = .ok reply

def after (board : ModbusBoard) (l : Hold) : (a : Action) → a.Answer → Hold
  | .lock, _ => { idle with holds := true }
  | .unlock, _ => idle
  | .shadow, sh => { l with safe := l.safe || l.holds && !l.replaced && sh.safeDone }
  | .update _, _ => { l with replaced := false }
  | .replace, _ => { idle with holds := true, replaced := true }
  | .send request, _ => { l with asked := some request, heard := [] }
  | .read _, .byte b place => { l with heard := l.heard ++ [(b, place)] }
  | .credit .written _, _ => { l with safe := l.safe || l.asked == some board.safeRequest }
  | _, _ => l

end Hold

/-- What a call may do with what it knows. -/
def gate (board : ModbusBoard) : Protocol Action Action.Answer Hold where
  allows := Hold.allows board
  after := Hold.after board
  lost _ := .idle

/-! ### The methods keep to it -/

/-- In the middle of a method: it holds the stream, and knows at least what it knew. -/
structure Hold.Goes (l l' : Hold) : Prop where
  holds : l'.holds = true
  kept : l'.replaced = false
  safe : l.safe = true → l'.safe = true

theorem Hold.Goes.trans {l l' l'' : Hold} (h : l.Goes l') (h' : l'.Goes l'') : l.Goes l'' :=
  ⟨h'.holds, h'.kept, fun hs => h'.safe (h.safe hs)⟩

theorem assemble_concat (framing : Framing) (bytes : List RxByte) (b : RxByte) :
    assemble framing (bytes ++ [b]) = pushByte framing (assemble framing bytes) b := by
  rw [assemble, List.foldl_append]
  rfl

/-- Reading goes on with one more byte, or ends with the frame as it is. -/
theorem onRead_frame {framing : Framing} {frame frame' : List RxByte} {got : Got}
    (h : onRead framing frame got = .inl frame' ∨ onRead framing frame got = .inr (.ok frame')) :
    (got = .late ∧ frame' = frame) ∨
      ∃ b place, got = .byte b place ∧ frame' = pushByte framing frame (b, place) := by
  cases got with
  | closed | failed => simp [onRead] at h
  | late =>
    refine .inl ⟨rfl, ?_⟩
    simp only [onRead] at h
    split at h
    · simpa [eq_comm] using h
    · simp at h
  | byte b place =>
    refine .inr ⟨b, place, rfl, ?_⟩
    simp only [onRead] at h
    repeat' split at h
    all_goals simp_all

/-- The frame is put together from the bytes that were read. -/
theorem readFrame_follows {l : Hold} (hl : l.holds = true) (hr : l.replaced = false)
    (hnew : l.heard = []) : (readFrame board).run.Follows (gate board) l fun l' r =>
      (∃ heard, l' = { l with heard }) ∧
        ∀ frame, r = .ok frame → frame = assemble board.framing l'.heard := by
  refine Prog.follows_iterate.mpr ⟨fun frame l' => (∃ heard, l' = { l with heard }) ∧
    frame = assemble board.framing l'.heard, ⟨⟨_, rfl⟩, by simp [hnew, assemble]⟩, ?_⟩
  rintro _ _ ⟨⟨heard, rfl⟩, rfl⟩
  simp only [Prog.follows_bind, perform, Prog.follows_perform, Prog.follows_pure]
  refine ⟨⟨hl, hr⟩, fun start => ⟨⟨hl, hr⟩, fun got => ?_⟩⟩
  have hheard : ∃ heard', (gate board).after { l with heard } (.read (start + if
      (assemble board.framing heard).isEmpty || board.framing == .ascii then board.replyTimeoutMs
        else max board.interFrameMs 1)) got = { l with heard := heard' } := by
    cases got with
    | byte | closed | failed | late => exact ⟨_, rfl⟩
  -- a frame that reading goes on with, or ends with, has the byte just read at its end
  have hframe (frame' : List RxByte)
      (h : onRead board.framing (assemble board.framing heard) got = .inl frame' ∨
        onRead board.framing (assemble board.framing heard) got = .inr (.ok frame')) (d : Instant) :
      frame' = assemble board.framing ((gate board).after { l with heard } (.read d) got).heard := by
    rcases onRead_frame h with ⟨rfl, rfl⟩ | ⟨b, place, rfl, rfl⟩
    · rfl
    · exact (assemble_concat ..).symm
  cases hread : onRead board.framing (assemble board.framing heard) got with
  | inl frame' => exact ⟨hheard, hframe frame' (.inl hread) _⟩
  | inr r =>
    refine ⟨hheard, ?_⟩
    rintro frame' rfl
    exact hframe frame' (.inr hread) _

/-- An exchange keeps what the call knows, and tells it of the safe state when it is applied. -/
theorem exchange_follows {l : Hold} (hl : l.holds = true) (hr : l.replaced = false)
    {request : List Byte} (hrequest : request = board.safeRequest ∨ l.safe = true) :
    (exchange board request).run.Follows (gate board) l fun l' r => l.Goes l' ∧
      (request = board.safeRequest → r = .ok .written → l'.safe = true) := by
  have hgoes (l' : Hold) (hl' : ∃ asked heard, l' = { l with asked, heard }) : l.Goes l' := by
    obtain ⟨asked, heard, rfl⟩ := hl'
    exact ⟨hl, hr, id⟩
  unfold exchange
  split
  · exact ⟨hgoes _ ⟨_, _, rfl⟩, fun _ h => by cases h⟩
  next hreadable =>
    simp only [Prog.follows_try_bind, Prog.follows_lift, perform, Prog.follows_perform, Try.of,
      ExceptT.run_mk, Prog.follows_pure]
    refine ⟨⟨hl, hr⟩, fun start => ⟨⟨hl, hr⟩, fun _ => ⟨⟨hl, hr, hrequest, ?_⟩, fun _ =>
      ⟨⟨hl, hr⟩, fun sent => ?_⟩⟩⟩⟩
    · intro hnot hhead
      simp [hnot, hhead] at hreadable
    cases sent with
    | error e => exact ⟨hgoes _ ⟨_, _, rfl⟩, fun _ h => by cases h⟩
    | ok _ =>
      refine (readFrame_follows (l := { l with asked := some request, heard := [] }) hl hr
        rfl).mono ?_
      rintro _ r ⟨⟨heard, rfl⟩, hheard⟩
      cases r with
      | error e => exact ⟨hgoes _ ⟨_, _, rfl⟩, fun _ h => by cases h⟩
      | ok raw =>
        dsimp only
        cases haccept : board.accept request (raw.map (·.1)) with
        | error e => exact ⟨hgoes _ ⟨_, _, rfl⟩, fun _ h => by cases h⟩
        | ok reply =>
          obtain rfl := hheard raw rfl
          refine ⟨⟨hl, hr, request, rfl, rfl, haccept⟩, fun _ => ?_⟩
          cases reply with
            | coils bits => exact ⟨hgoes _ ⟨_, _, rfl⟩, fun _ h => by cases h⟩
            | written =>
              refine ⟨⟨hl, hr, fun hs => ?_⟩, fun hsafe _ => ?_⟩
              · simp [gate, Hold.after, hs]
              · simp [gate, Hold.after, hsafe]

theorem update_allows {l : Hold} (hl : l.holds = true) (hr : l.replaced = false)
    {f : Instant → Shadow → Shadow}
    (hf : ∀ now sh, (f now sh).safeDone = true → l.safe = true ∨ sh.safeDone = true) :
    (gate board).allows l (.update f) :=
  ⟨hl, fun now sh h => (hf now sh h).imp_right fun h => ⟨hr, h⟩⟩

/-- Updating the record changes nothing the call knows. -/
theorem Hold.Goes.update {l : Hold} (hl : l.holds = true) (f : Instant → Shadow → Shadow) :
    l.Goes ((gate board).after l (.update f) ()) := ⟨hl, rfl, id⟩

theorem settleSafe_follows {l : Hold} (hl : l.holds = true) (hr : l.replaced = false)
    {r : Except ModbusError Reply} (hsafe : r = .ok .written → l.safe = true) :
    (settleSafe board r).run.Follows (gate board) l fun l' r' => l.Goes l' ∧
      (r' = .ok () → l'.safe = true) := by
  have hgoes (f : Instant → Shadow → Shadow) := @Hold.Goes.update board l hl f
  have hfailed : (gate board).allows l (.update Shadow.safeFailed) :=
    update_allows hl hr fun _ _ h => by cases h
  rcases r with e | ⟨⟩ | bits
  · exact Prog.follows_act.mpr ⟨hfailed, fun _ => ⟨hgoes _, fun h => by cases h⟩⟩
  · refine Prog.follows_act.mpr ⟨update_allows hl hr fun _ _ _ => .inl (hsafe rfl), fun _ => ?_⟩
    exact ⟨hgoes _, fun _ => hsafe rfl⟩
  · exact Prog.follows_act.mpr ⟨hfailed, fun _ => ⟨hgoes _, fun h => by cases h⟩⟩

theorem settleWrite_follows {l : Hold} (hl : l.holds = true) (hr : l.replaced = false)
    (affected : List (Nat × Bool)) (r : Except ModbusError Reply) :
    (settleWrite affected r).run.Follows (gate board) l fun l' _ => l.Goes l' := by
  have hgoes (f : Instant → Shadow → Shadow) := @Hold.Goes.update board l hl f
  have hforget (lost : Bool) : (gate board).allows l (.update fun _ => Shadow.forget affected lost) :=
    update_allows hl hr fun _ _ h => .inr (Bool.and_eq_true_iff.mp h).1
  rcases r with e | ⟨⟩ | bits
  · exact Prog.follows_act.mpr ⟨hforget _, fun _ => hgoes _⟩
  · exact Prog.follows_act.mpr ⟨update_allows hl hr fun _ _ h => .inr h, fun _ => hgoes _⟩
  · exact Prog.follows_act.mpr ⟨hforget _, fun _ => hgoes _⟩

/-- The record shows the call that the safe state is applied. -/
theorem Hold.Goes.shadow {l : Hold} (hl : l.holds = true) (hr : l.replaced = false) (sh : Shadow) :
    l.Goes ((gate board).after l .shadow sh) :=
  ⟨hl, hr, fun hs => by simp [gate, Hold.after, hs]⟩

theorem awaitRetry_follows {l : Hold} (hl : l.holds = true) (hr : l.replaced = false) :
    awaitRetry.run.Follows (gate board) l fun l' _ => l.Goes l' := by
  refine Prog.follows_act.mpr ⟨trivial, fun sh => ?_⟩
  have hgoes := @Hold.Goes.shadow board l hl hr sh
  split
  · refine Prog.follows_act.mpr ⟨⟨hl, hr⟩, fun now => ?_⟩
    split
    · exact hgoes
    · exact hgoes
  · exact hgoes

/-- Applying the safe state leaves it applied, unless it fails. -/
theorem applySafe_follows {l : Hold} (hl : l.holds = true) (hr : l.replaced = false)
    (respect : Bool) : (applySafe board respect).run.Follows (gate board) l fun l' r =>
      l.Goes l' ∧ (r = .ok () → l'.safe = true) := by
  have hrest (l₁ : Hold) (h₁ : l.Goes l₁) : (do
      let result ← attempt (exchange board board.safeRequest)
      settleSafe board result : Try Unit).run.Follows (gate board) l₁ fun l' r =>
        l.Goes l' ∧ (r = .ok () → l'.safe = true) := by
    refine Prog.follows_try_bind.mpr <| Prog.follows_bind.mpr <|
      (exchange_follows h₁.holds h₁.kept (.inl rfl)).mono ?_
    rintro l₂ r ⟨h₂, hsafe⟩
    refine (settleSafe_follows h₂.holds h₂.kept (hsafe rfl)).mono ?_
    exact fun l₃ r' ⟨h₃, hdone⟩ => ⟨(h₁.trans h₂).trans h₃, hdone⟩
  unfold applySafe
  split
  · refine Prog.follows_try_bind.mpr ((awaitRetry_follows hl hr).mono ?_)
    rintro l₁ (e | _) h₁
    · exact ⟨h₁, fun h => by cases h⟩
    · exact hrest l₁ h₁
  · exact hrest l ⟨hl, hr, id⟩

theorem safeFirst_follows {l : Hold} (hl : l.holds = true) (hr : l.replaced = false) :
    (safeFirst board).run.Follows (gate board) l fun l' r =>
      l.Goes l' ∧ (r = .ok () → l'.safe = true) := by
  refine Prog.follows_act.mpr ⟨trivial, fun sh => ?_⟩
  have hgoes : l.Goes ((gate board).after l .shadow sh) := .shadow hl hr sh
  split
  · refine (applySafe_follows hgoes.holds hgoes.kept true).mono ?_
    exact fun l' r ⟨h, hdone⟩ => ⟨hgoes.trans h, hdone⟩
  next hdone =>
    refine ⟨hgoes, fun _ => ?_⟩
    simp only [Bool.not_eq_true', Bool.not_eq_false] at hdone
    simp [gate, Hold.after, hl, hr, hdone]

/-- A method that holds the stream knows nothing before and after. -/
theorem locked_follows {α : Type} {body : Try α} (h : body.run.Follows (gate board)
    { Hold.idle with holds := true } fun l' _ => l'.holds = true ∧ l'.replaced = false) :
    (locked body).run.Follows (gate board) .idle fun l' _ => l' = .idle := by
  refine Prog.follows_bind.mpr ⟨rfl, fun _ => Prog.follows_bind.mpr (h.mono ?_)⟩
  exact fun l' r hl' => Prog.follows_bind.mpr ⟨hl', fun _ => rfl⟩

theorem writeGated_follows {request : List Byte}
    (affected : List (Nat × Bool)) : (writeGated board request affected).run.Follows (gate board)
      .idle fun l' _ => l' = .idle := by
  refine locked_follows <| Prog.follows_try_bind.mpr ((safeFirst_follows rfl rfl).mono ?_)
  rintro l (e | _) ⟨hl, hsafe⟩
  · exact ⟨hl.holds, hl.kept⟩
  · refine Prog.follows_try_bind.mpr <| Prog.follows_bind.mpr <|
      (exchange_follows hl.holds hl.kept (.inr (hsafe rfl))).mono ?_
    rintro l₁ r ⟨h₁, -⟩
    refine (settleWrite_follows h₁.holds h₁.kept affected r).mono ?_
    exact fun l₂ _ h₂ => ⟨h₂.holds, h₂.kept⟩

theorem readLine_follows (line : Nat) : (readLine board line).run.Follows (gate board) .idle
    fun l' _ => l' = .idle := by
  unfold readLine
  refine Prog.follows_try_bind.mpr ?_
  cases board.coil line with
  | error e => exact rfl
  | ok coil =>
    change Prog.Follows _ (ExceptT.run (if _ then _ else _)) _ _
    split
    · refine Prog.follows_act.mpr ⟨trivial, fun sh => ?_⟩
      split
      · exact rfl
      · exact rfl
    · refine locked_follows <| Prog.follows_try_bind.mpr ((safeFirst_follows rfl rfl).mono ?_)
      rintro l (e | _) ⟨hl, hsafe⟩
      · exact ⟨hl.holds, hl.kept⟩
      · refine Prog.follows_try_bind.mpr <|
          (exchange_follows hl.holds hl.kept (.inr (hsafe rfl))).mono ?_
        rintro l₁ (e | reply) ⟨h₁, -⟩
        · exact ⟨h₁.holds, h₁.kept⟩
        · dsimp only
          split <;> exact ⟨h₁.holds, h₁.kept⟩

/-- Every method keeps to the gate. -/
theorem run_follows (call : Call) : (run board call).Follows (gate board) .idle
    fun _ _ => True := by
  cases call with
  | ensureSafeState =>
    refine Prog.follows_try_map.mpr ((locked_follows ((safeFirst_follows rfl rfl).mono ?_)).mono ?_)
    · exact fun l r h => ⟨h.1.holds, h.1.kept⟩
    · exact fun _ _ _ => trivial
  | writeLine line on =>
    refine Prog.follows_try_map.mpr <| Prog.follows_try_bind.mpr ?_
    cases board.coil line with
    | error e => trivial
    | ok coil => exact (writeGated_follows _).mono fun _ _ _ => trivial
  | writeAll on =>
    exact Prog.follows_try_map.mpr ((writeGated_follows _).mono fun _ _ _ => trivial)
  | readLine line =>
    exact Prog.follows_try_map.mpr ((readLine_follows line).mono fun _ _ _ => trivial)
  | forceSafe line =>
    refine Prog.follows_try_map.mpr <| Prog.follows_try_bind.mpr ?_
    cases board.coil line with
    | error e => trivial
    | ok coil =>
      refine (locked_follows ((applySafe_follows rfl rfl false).mono ?_)).mono fun _ _ _ => trivial
      exact fun l r h => ⟨h.1.holds, h.1.kept⟩
  | reopen =>
    refine Prog.follows_try_map.mpr ((locked_follows ?_).mono fun _ _ _ => trivial)
    refine Prog.follows_act.mpr ⟨rfl, fun _ => ?_⟩
    exact Prog.follows_act.mpr ⟨⟨rfl, fun now sh h => by cases h⟩, fun _ => ⟨rfl, rfl⟩⟩

/-! ### Invariants -/

/-- Requests go out only on a bus as in `quiet`. -/
def sendsWhen (quiet : Bus → Prop) (w : State) : Turn Call Choice Outside → Prop
  | .turn k _ => match w.current k with
    | some (.send _) => quiet w.shared
    | _ => True
  | _ => True

instance (quiet : Bus → Prop) [DecidablePred quiet] (w : State) (e : Turn Call Choice Outside) :
    Decidable (sendsWhen quiet w e) := by
  unfold sendsWhen
  split
  · split <;> infer_instance
  · infer_instance

/-- Nobody holds the stream, or the given call does, which alone knows anything. -/
structure Held (s : Bus) (k : Nat) (l : Hold) : Prop where
  holder : s.holder = if l.holds then some k else none
  idle : l.holds = false → l = .idle

/-- An invariant of the bus and of what the call that holds the stream knows: it is kept by what
happens on the bus, when requests go out only on a bus as in `quiet`. -/
structure Holding (board : ModbusBoard) (quiet : Bus → Prop) (K : Bus → Hold → Prop) : Prop where
  init {s : Bus} : (executor board).init s → K s .idle
  give {s : Bus} {l : Hold} : K s l → l.replaced = false →
    ∀ holder holds, K { s with holder } { Hold.idle with holds }
  shadow {s : Bus} {l : Hold} : K s l →
    K s { l with safe := l.safe || l.holds && !l.replaced && s.shadow.safeDone }
  update {s : Bus} {l : Hold} {f : Instant → Shadow → Shadow} : K s l →
    (gate board).allows l (.update f) →
    K { s with shadow := f s.now s.shadow } { l with replaced := false }
  reconnect {s : Bus} {l : Hold} : K s l → ∀ coils,
    K (s.reconnect coils) { Hold.idle with holds := true, replaced := true }
  transmit {s : Bus} {l : Hold} {request : List Byte} : K s l → quiet s →
    (gate board).allows l (.send request) → ∀ whole,
    K (s.transmit request whole) { l with asked := some request, heard := [] }
  read {s : Bus} {l : Hold} {b : RxByte} {rest : List RxByte} : K s l → s.line = b :: rest →
    l.holds = true → K { s with line := rest } { l with heard := l.heard ++ [b] }
  credit {s : Bus} {l : Hold} {reply : Reply} {answers : List Nat} : K s l →
    (gate board).allows l (.credit reply answers) →
    K (s.record (.credited s.session (s.requests - 1) reply answers))
      ((gate board).after l (.credit reply answers) ())
  tick {s : Bus} {l : Hold} : K s l → ∀ d, K { s with now := s.now + d } l
  take {s s' : Bus} {l : Hold} {taking : Taking} : K s l → s.take board taking = some s' → K s' l

theorem take_holder {s s' : Bus} {taking : Taking} (h : s.take board taking = some s') :
    s'.holder = s.holder := by
  unfold Bus.take at h
  split at h
  · cases h
  · cases taking with
    | perform =>
      obtain ⟨done, -, rfl⟩ := Option.map_eq_some_iff.mp h
      rfl
    | refuse | silent =>
      obtain rfl := Option.some.inj h
      rfl

namespace Holding

variable {quiet : Bus → Prop} {K : Bus → Hold → Prop} {s s' : Bus} {k : Nat} {l : Hold}

/-- A read that gets a byte, or none. -/
theorem got (h : Holding board quiet K) (hK : K s l) (hheld : Held s k l) {choice : Choice}
    {deadline : Instant} {got : Got} (ha : (gate board).allows l (.read deadline))
    (hp : Action.perform k choice (.read deadline) s = some (got, s')) :
    K s' ((gate board).after l (.read deadline) got) ∧
      Held s' k ((gate board).after l (.read deadline) got) := by
  cases choice with
  | closes | readFails =>
    obtain ⟨rfl, rfl⟩ := Prod.mk.inj (Option.some.inj hp)
    exact ⟨hK, hheld⟩
  | late =>
    obtain ⟨-, heq⟩ := Option.ite_none_right_eq_some.mp hp
    obtain ⟨rfl, rfl⟩ := Prod.mk.inj (Option.some.inj heq)
    exact ⟨hK, hheld⟩
  | _ =>
    -- a byte, whatever else may be chosen
    unfold Action.perform at hp
    dsimp only at hp
    split at hp
    · cases hp
    next b place rest hline =>
      obtain ⟨rfl, rfl⟩ := Prod.mk.inj (Option.some.inj hp)
      refine ⟨h.read hK hline ha.1, hheld.holder, fun hh => ?_⟩
      simp [gate, Hold.after, ha.1] at hh

/-- An allowed action of the call that may hold the stream. -/
theorem perform (h : Holding board quiet K) (hK : K s l) (hheld : Held s k l) {choice : Choice}
    {i : Action} {r : i.Answer} (hquiet : ∀ request, i = .send request → quiet s)
    (ha : (gate board).allows l i) (hp : Action.perform k choice i s = some (r, s')) :
    K s' ((gate board).after l i r) ∧ Held s' k ((gate board).after l i r) := by
  cases i with
  | lock =>
    obtain ⟨-, heq⟩ := Option.ite_none_right_eq_some.mp hp
    obtain ⟨-, rfl⟩ := Prod.mk.inj (Option.some.inj heq)
    obtain rfl := ha
    exact ⟨h.give hK rfl _ true, rfl, fun hh => by cases hh⟩
  | unlock =>
    obtain ⟨-, heq⟩ := Option.ite_none_right_eq_some.mp hp
    obtain ⟨-, rfl⟩ := Prod.mk.inj (Option.some.inj heq)
    exact ⟨h.give hK ha.2 _ false, rfl, fun _ => rfl⟩
  | now =>
    obtain ⟨-, rfl⟩ := Prod.mk.inj (Option.some.inj hp)
    exact ⟨hK, hheld⟩
  | sleep wake =>
    obtain ⟨-, heq⟩ := Option.ite_none_right_eq_some.mp hp
    obtain ⟨-, rfl⟩ := Prod.mk.inj (Option.some.inj heq)
    exact ⟨hK, hheld⟩
  | shadow =>
    obtain ⟨rfl, rfl⟩ := Prod.mk.inj (Option.some.inj hp)
    refine ⟨h.shadow hK, hheld.holder, fun hh => ?_⟩
    obtain rfl := hheld.idle hh
    rfl
  | update f =>
    obtain ⟨-, rfl⟩ := Prod.mk.inj (Option.some.inj hp)
    refine ⟨h.update hK ha, hheld.holder, fun hh => ?_⟩
    simp [gate, Hold.after, ha.1] at hh
  | replace =>
    have hreconnect : ∃ coils, s' = s.reconnect coils := by
      cases choice with
      | relays coils => exact ⟨coils, (Prod.mk.inj (Option.some.inj hp)).2.symm⟩
      | _ => exact ⟨s.coils, (Prod.mk.inj (Option.some.inj hp)).2.symm⟩
    obtain ⟨coils, rfl⟩ := hreconnect
    have hholder := hheld.holder
    rw [show l.holds = true from ha] at hholder
    exact ⟨h.reconnect hK coils, hholder, fun hh => by cases hh⟩
  | send request =>
    have htransmit : ∃ whole, s' = s.transmit request whole := by
      cases choice with
      | cut => exact ⟨false, (Prod.mk.inj (Option.some.inj hp)).2.symm⟩
      | _ => exact ⟨true, (Prod.mk.inj (Option.some.inj hp)).2.symm⟩
    obtain ⟨whole, rfl⟩ := htransmit
    refine ⟨h.transmit hK (hquiet request rfl) ha whole, hheld.holder, fun hh => ?_⟩
    simp [gate, Hold.after, ha.1] at hh
  | sent =>
    have hsame : s' = s := by
      cases choice with
      | _ => exact (Prod.mk.inj (Option.some.inj hp)).2.symm
    exact hsame ▸ ⟨hK, hheld⟩
  | read deadline => exact h.got hK hheld ha hp
  | credit reply answers =>
    obtain ⟨-, rfl⟩ := Prod.mk.inj (Option.some.inj hp)
    have hholds : ((gate board).after l (.credit reply answers) ()).holds = l.holds := by
      cases reply <;> rfl
    refine ⟨h.credit hK ha, ?_, fun hh => ?_⟩
    · rw [hholds]
      exact hheld.holder
    · simp [hholds, ha.1] at hh

/-- Beside the call that holds the stream, the others only look and wait. -/
theorem other {j : Nat} (hheld : Held s k l) (hl : l ≠ .idle) {choice : Choice} {i : Action}
    {r : i.Answer} (ha : (gate board).allows .idle i)
    (hp : Action.perform j choice i s = some (r, s')) :
    (gate board).after .idle i r = .idle ∧ s' = s := by
  cases i with
  | lock =>
    obtain ⟨hnone, -⟩ := Option.ite_none_right_eq_some.mp hp
    have hholds : l.holds = true := by
      by_contra hnot
      exact hl (hheld.idle (Bool.not_eq_true _ ▸ hnot))
    rw [hheld.holder, hholds] at hnone
    cases hnone
  | shadow =>
    obtain ⟨rfl, rfl⟩ := Prod.mk.inj (Option.some.inj hp)
    exact ⟨rfl, rfl⟩
  | unlock | now | sleep _ | sent | read _ | update _ | replace | send _ | credit _ _ =>
    simp [gate, Hold.allows, Hold.idle] at ha

/-- A call that is cut gives up the stream, and what it knew is gone. -/
theorem release (h : Holding board quiet K) (hK : K s l) (hheld : Held s k l) {i : Action}
    (hsuspends : i.suspends = true) (ha : (gate board).allows l i) :
    K ((executor board).release k s) .idle ∧ Held ((executor board).release k s) k .idle := by
  have hr : l.replaced = false := by
    cases i with
    | lock => exact ha ▸ rfl
    | sleep _ | sent | read _ => exact ha.2
    | unlock | now | shadow | update _ | replace | send _ | credit _ _ => cases hsuspends
  simp only [executor]
  split
  · exact ⟨h.give hK hr none false, rfl, fun _ => rfl⟩
  next hne =>
    have hholds : l.holds = false := by
      by_contra hl
      exact hne (by simpa [hl] using hheld.holder)
    exact hheld.idle hholds ▸ ⟨hK, hheld⟩

theorem release_other {j : Nat} (hheld : Held s k l) (hjk : j ≠ k) :
    (executor board).release j s = s := by
  have hne : s.holder ≠ some j := by
    rw [hheld.holder]
    split
    · exact fun heq => hjk (Option.some.inj heq).symm
    · simp
  simp only [executor, if_neg hne]

/-- Such an invariant holds in every state reached. -/
theorem reach (h : Holding board quiet K) {w : State}
    (hreach : (machine board).Reach (sendsWhen quiet) w) : ∃ l, K w.shared l := by
  obtain ⟨k, l, ⟨hK, -⟩, -⟩ : ∃ k l, (K w.shared l ∧ Held w.shared k l) ∧
      Executor.Keeps (gate board) (fun _ _ _ => True) .idle (Function.update (fun _ => .idle) k l) w := by
    refine Executor.reach_exclusive (gate board) (fun _ _ _ => True) .idle (fun s k l => K s l ∧ Held s k l) run_follows
      (fun s k hs => ⟨h.init hs, hs.1, fun _ => rfl⟩)
      (fun s k j ⟨hK, hheld⟩ => ⟨hK, hheld.holder, fun _ => rfl⟩) ?_ ?_ ?_ ?_ ?_ hreach
    · rintro w k l choice i r s' ⟨hK, hheld⟩ hok hcurrent ha hp
      refine h.perform hK hheld ?_ ha hp
      rintro request rfl
      simpa [sendsWhen, hcurrent] using hok
    · rintro s k l j choice i r s' ⟨hK, hheld⟩ hl - ha hp
      obtain ⟨hafter, rfl⟩ := other hheld hl ha hp
      exact ⟨hafter, hK, hheld⟩
    · rintro s k l i ⟨hK, hheld⟩ hsuspends ha
      exact h.release hK hheld hsuspends ha
    · rintro s k l j ⟨hK, hheld⟩ hjk
      exact ⟨rfl, by rw [release_other hheld hjk]; exact ⟨hK, hheld⟩⟩
    · rintro w k l e s' ⟨hK, hheld⟩ - he
      cases e with
      | tick d =>
        obtain rfl := Option.some.inj he
        exact ⟨h.tick hK d, hheld.holder, hheld.idle⟩
      | take taking => exact ⟨h.take hK he, take_holder he ▸ hheld.holder, hheld.idle⟩
  exact ⟨l, hK⟩

end Holding

end HamsOpen.Modbus
