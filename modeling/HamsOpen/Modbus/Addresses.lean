import HamsOpen.Lib.Checks
import HamsOpen.Lib.Steady
import HamsOpen.Modbus.Bus

/-!
# The coils that a board is asked for

A board description gives the address of the first coil and how many there are, and the driver adds
a line to the first. The description is checked for the number of coils and not for where they end.
-/

namespace HamsOpen.Modbus

structure StationError where
  kind : ErrorKind
  detail : String
  deriving DecidableEq

namespace ModbusBoard

/-- Parses a board description, with the parser of such files. -/
def fromToml (parse : String → Except String ModbusBoard) (text : String) :
    Except StationError ModbusBoard := do
  let b ← (parse text).mapError fun e => ⟨.config, s!"modbus board: {e}"⟩
  if b.coils == 0 || b.coils > 2000 || b.slave == 0 ||
      b.slave > 247 && b.slave != 0xFE && b.slave != 0xFF then
    throw ⟨.config, "modbus board: bad slave or coil count"⟩
  if !b.safeState.isEmpty && b.safeState.length != b.coils.toNat then
    throw ⟨.config, "modbus board: safe_state needs one entry per coil"⟩
  return b

/-- The SainSmart 16-channel relay module. -/
def sainsmart16ch : ModbusBoard where
  framing := .ascii
  slave := 0xFE
  coils := 16
  coilBase := 0
  replyTimeoutMs := 1000
  interFrameMs := 20
  statusReadable := false
  safeState := List.replicate 16 false

/-- A request of the driver: the safe state or one level for all coils, or the coil of a line. -/
def IsRequest (board : ModbusBoard) (request : List Byte) : Prop :=
  request = board.safeRequest ∨
    (∃ on, request = pduWriteCoils board.coilBase (List.replicate board.coils.toNat on)) ∨
    ∃ line coil, board.coil line = .ok coil ∧
      (request = pduReadCoils coil 1 ∨ ∃ on, request = pduWriteCoil coil on)

end ModbusBoard

/-- The coils that a request names, as the numbers its fields say. -/
def addressed (request : List Byte) : List Nat :=
  let first := beNumber (request.getD 1 0) (request.getD 2 0)
  if request.head? == some FN_WRITE_COIL then [first]
  else (List.range (coilCount request)).map (first + ·)

/-- Every line has the coil of its own address, the safe state is told in fields that hold it, and
whatever is called, no request names a coil that is not that of a line. -/
structure ModbusBoard.AddressesLines (board : ModbusBoard) : Prop where
  lines : ∀ line < board.coils.toNat,
    ∃ coil, board.coil line = .ok coil ∧ coil.toNat = board.coilBase.toNat + line
  distinct : ∀ i < board.coils.toNat, ∀ j < board.coils.toNat, board.coil i = board.coil j → i = j
  coilField : coilCount board.safeRequest = board.coils.toNat ∧
    board.safeBits.length = board.coils.toNat
  byteField : (board.safeRequest.getD 5 0).toNat = (packBits board.safeBits).length
  inside : ∀ w, (machine board).Reachable w → ∀ session place request,
    .sent session place request ∈ w.shared.log → ∀ a ∈ addressed request,
      ∃ line < board.coils.toNat, a = board.coilBase.toNat + line

variable {board : ModbusBoard}

/-! ### The requests -/

/-- What an action may be, of a program that asks for nothing but these requests. -/
def Asks (ok : List Byte → Prop) : Action → Prop
  | .send request => ok request
  | _ => True

/-- A program that asks for nothing but these requests. -/
abbrev Modest (ok : List Byte → Prop) {α : Type} (p : Driver α) : Prop :=
  p.Steady (.only (Asks ok)) fun _ => True

section Modest

variable {ok : List Byte → Prop} {request : List Byte} {α : Type}

/-- An action of a modest program, and then the rest. -/
theorem modest_act {i : Action} {f : i.Answer → Try α} (hi : Asks ok i)
    (hf : ∀ r, Modest ok (f r).run) :
    Modest ok ((liftM (perform i) : Try i.Answer) >>= f).run :=
  .act (fun _ _ => ⟨hi, fun _ => trivial⟩) hf

theorem modest_perform {i : Action} (hi : Asks ok i) : Modest ok (perform i) :=
  .perform fun _ _ => ⟨hi, fun _ => trivial⟩

theorem modest_attempt {body : Try α} (h : Modest ok body.run) : Modest ok (attempt body).run :=
  .bind h fun _ => .pure _

theorem modest_locked {body : Try α} (h : Modest ok body.run) : Modest ok (locked body).run :=
  .bind (modest_perform trivial) fun _ => .bind h fun _ =>
    .bind (modest_perform trivial) fun _ => .pure _

theorem readFrame_modest : Modest ok (readFrame board).run := by
  apply Prog.Steady.iterate
  intro frame
  refine .bind (modest_perform trivial) fun start => ?_
  exact .bind (modest_perform trivial) fun got => .pure _

theorem exchange_modest (h : ok request) : Modest ok (exchange board request).run := by
  unfold exchange
  split
  · exact .throw _
  · refine modest_act trivial fun start => modest_act trivial fun _ => modest_act h fun _ => ?_
    refine .try_bind (modest_perform trivial) fun _ => .try_bind readFrame_modest fun raw => ?_
    refine .try_bind (.pure _) fun reply => modest_act trivial fun _ => ?_
    exact .try_pure reply

theorem settleSafe_modest (r : Except ModbusError Reply) : Modest ok (settleSafe board r).run := by
  rcases r with e | ⟨⟩ | bits
  · exact modest_act trivial fun _ => .throw e
  · exact modest_act trivial fun _ => .try_pure ()
  · exact modest_act trivial fun _ => .throw _

theorem settleWrite_modest (affected : List (Nat × Bool)) (r : Except ModbusError Reply) :
    Modest ok (settleWrite affected r).run := by
  rcases r with e | ⟨⟩ | bits
  · exact modest_act trivial fun _ => .throw e
  · exact modest_act trivial fun _ => .try_pure ()
  · exact modest_act trivial fun _ => .throw _

theorem awaitRetry_modest : Modest ok awaitRetry.run := by
  refine modest_act trivial fun sh => ?_
  split
  · refine modest_act trivial fun now => ?_
    split
    · exact .throw _
    · exact .try_pure ()
  · exact .try_pure ()

theorem applySafe_modest (h : ok board.safeRequest) (respect : Bool) :
    Modest ok (applySafe board respect).run := by
  have hrest : Modest ok (do
      let result ← attempt (exchange board board.safeRequest)
      settleSafe board result : Try Unit).run :=
    .try_bind (modest_attempt (exchange_modest h)) settleSafe_modest
  unfold applySafe
  split
  · exact .try_bind awaitRetry_modest fun _ => hrest
  · exact hrest

theorem safeFirst_modest (h : ok board.safeRequest) : Modest ok (safeFirst board).run := by
  refine modest_act trivial fun sh => ?_
  split
  · exact applySafe_modest h true
  · exact .try_pure ()

theorem writeGated_modest (hsafe : ok board.safeRequest) (h : ok request)
    (affected : List (Nat × Bool)) : Modest ok (writeGated board request affected).run := by
  apply modest_locked
  refine .try_bind (safeFirst_modest hsafe) fun _ => ?_
  exact .try_bind (modest_attempt (exchange_modest h)) (settleWrite_modest affected)

theorem readLine_modest (hsafe : ok board.safeRequest) {line : Nat}
    (h : ∀ coil, board.coil line = .ok coil → ok (pduReadCoils coil 1)) :
    Modest ok (readLine board line).run := by
  unfold readLine
  cases hcoil : board.coil line with
  | error e => exact .throw e
  | ok coil =>
    change Modest ok (ExceptT.run (if _ then _ else _))
    split
    · refine modest_act trivial fun sh => ?_
      split
      · exact .try_pure _
      · exact .throw _
    · apply modest_locked
      refine .try_bind (safeFirst_modest hsafe) fun _ => ?_
      refine .try_bind (exchange_modest (h coil hcoil)) fun reply => ?_
      split
      · exact .try_pure _
      · exact .throw _

end Modest

/-- Every method asks for requests of the driver only. -/
theorem run_modest (call : Call) : Modest board.IsRequest (run board call) := by
  have hsafe : board.IsRequest board.safeRequest := .inl rfl
  cases call with
  | ensureSafeState => exact .try_map _ (modest_locked (safeFirst_modest hsafe))
  | writeLine line on =>
    apply Prog.Steady.try_map
    unfold writeLine
    cases hcoil : board.coil line with
    | error e => exact .throw e
    | ok coil =>
      have hline : board.IsRequest (pduWriteCoil coil on) :=
        .inr (.inr ⟨line, coil, hcoil, .inr ⟨on, rfl⟩⟩)
      exact writeGated_modest hsafe hline _
  | writeAll on =>
    exact .try_map _ (writeGated_modest hsafe (.inr (.inl ⟨on, rfl⟩)) _)
  | readLine line =>
    refine .try_map _ (readLine_modest hsafe fun coil hcoil => ?_)
    exact .inr (.inr ⟨line, coil, hcoil, .inl rfl⟩)
  | forceSafe line =>
    apply Prog.Steady.try_map
    exact .try_bind (.pure _) fun _ => modest_locked (applySafe_modest hsafe false)
  | reopen =>
    refine .try_map _ (modest_locked ?_)
    exact modest_act trivial fun _ => modest_act trivial fun _ => .try_pure ()

/-! ### What goes out -/

/-- A request that an action puts in the history is the one it sends. -/
theorem sent_of_perform {s s' : Bus} {k : Nat} {choice : Choice} {i : Action} {r : i.Answer}
    {session place : Nat} {request : List Byte} (h : i.perform k choice s = some (r, s'))
    (hsent : .sent session place request ∈ s'.log) :
    .sent session place request ∈ s.log ∨ i = .send request := by
  cases i with
  | send request' =>
    have hlog : ∃ whole, s' = s.transmit request' whole := by
      cases choice with
      | cut => exact ⟨false, (Prod.mk.inj (Option.some.inj h)).2.symm⟩
      | _ => exact ⟨true, (Prod.mk.inj (Option.some.inj h)).2.symm⟩
    obtain ⟨whole, rfl⟩ := hlog
    obtain heq | hold := List.mem_cons.mp hsent
    · cases heq
      exact .inr rfl
    · exact .inl hold
  | lock | unlock | sleep _ =>
    obtain ⟨-, heq⟩ := Option.ite_none_right_eq_some.mp h
    obtain ⟨-, rfl⟩ := Prod.mk.inj (Option.some.inj heq)
    exact .inl hsent
  | now | shadow | update _ =>
    obtain ⟨-, rfl⟩ := Prod.mk.inj (Option.some.inj h)
    exact .inl hsent
  | replace | sent =>
    cases choice with
    | _ =>
      obtain ⟨-, rfl⟩ := Prod.mk.inj (Option.some.inj h)
      exact .inl hsent
  | read deadline =>
    have hlog : s'.log = s.log := by
      simp only [Action.perform] at h
      split at h
      · obtain ⟨-, rfl⟩ := Prod.mk.inj (Option.some.inj h)
        rfl
      · obtain ⟨-, rfl⟩ := Prod.mk.inj (Option.some.inj h)
        rfl
      · obtain ⟨-, heq⟩ := Option.ite_none_right_eq_some.mp h
        obtain ⟨-, rfl⟩ := Prod.mk.inj (Option.some.inj heq)
        rfl
      · split at h
        · cases h
        · obtain ⟨-, rfl⟩ := Prod.mk.inj (Option.some.inj h)
          rfl
    exact .inl (hlog ▸ hsent)
  | credit reply answers =>
    obtain ⟨-, rfl⟩ := Prod.mk.inj (Option.some.inj h)
    obtain heq | hold := List.mem_cons.mp hsent
    · cases heq
    · exact .inl hold

/-- Taking a request puts none in the history. -/
theorem sent_of_take {s s' : Bus} {taking : Taking} {session place : Nat} {request : List Byte}
    (h : s.take board taking = some s') (hsent : .sent session place request ∈ s'.log) :
    .sent session place request ∈ s.log := by
  unfold Bus.take at h
  split at h
  · cases h
  · cases taking with
    | perform =>
      obtain ⟨done, -, rfl⟩ := Option.map_eq_some_iff.mp h
      exact List.mem_of_ne_of_mem (by simp) hsent
    | refuse | silent =>
      obtain rfl := Option.some.inj h
      exact List.mem_of_ne_of_mem (by simp) hsent

/-- Nothing but requests of the driver goes out, whatever is called in whatever order. -/
theorem sent_isRequest {w : State} (h : (machine board).Reachable w) {session place : Nat}
    {request : List Byte} (hsent : .sent session place request ∈ w.shared.log) :
    board.IsRequest request := by
  induction h with
  | init hs =>
    obtain ⟨-, -, -, -, -, -, hlog⟩ := hs.1
    rw [hlog] at hsent
    cases hsent
  | @step w w' a hreach _ hstep ih =>
    obtain hsame | ⟨k, choice, i, r, -, hcurrent, hexec⟩ | ⟨k, -, hrelease⟩ | ⟨e, -, henv⟩ :=
      Executor.step_shared hstep
    · exact ih (hsame ▸ hsent)
    · obtain hold | rfl := sent_of_perform hexec hsent
      · exact ih hold
      · obtain ⟨_, hallows⟩ := Executor.reach_allows hreach (run_modest · () trivial) hcurrent
        exact hallows
    · have hlog : w'.shared.log = w.shared.log := by
        rw [hrelease]
        simp only [executor]
        split <;> rfl
      exact ih (hlog ▸ hsent)
    · cases e with
      | tick d =>
        have hlog := congrArg Bus.log (Option.some.inj henv)
        exact ih (hlog ▸ hsent)
      | take taking => exact ih (sent_of_take henv hsent)

/-! ### Where the lines end -/

/-- A description that is accepted has a number of coils that one frame holds, and a safe level for
each of them or none. -/
theorem fromToml_ok {parse : String → Except String ModbusBoard} {text : String}
    (h : ModbusBoard.fromToml parse text = .ok board) :
    0 < board.coils.toNat ∧ board.coils.toNat ≤ 2000 ∧
      board.safeBits.length = board.coils.toNat := by
  obtain ⟨b, -, hchecks⟩ := Except.ok_of_bind h
  obtain ⟨hcount, hrest⟩ := Except.ok_of_check hchecks
  obtain ⟨hsafe, hb⟩ := Except.ok_of_check hrest
  obtain rfl : b = board := Except.ok.inj hb
  simp only [Bool.or_eq_true, beq_iff_eq, decide_eq_true_eq, not_or, UInt16.not_lt] at hcount
  obtain ⟨⟨⟨hzero, hmax⟩, -⟩, -⟩ := hcount
  refine ⟨?_, UInt16.le_iff_toNat_le.mp hmax, ?_⟩
  · exact Nat.pos_of_ne_zero fun h => hzero (UInt16.toNat_inj.mp h)
  · unfold ModbusBoard.safeBits
    split
    · exact List.length_replicate
    next hempty =>
      rw [Bool.and_eq_true, not_and, bne_iff_ne, not_not] at hsafe
      exact hsafe (by rw [Bool.not_eq_true', ← Bool.not_eq_true]; exact hempty)

@[simp] theorem beNumber_bytes (n : UInt16) : beNumber (highByte n) (lowByte n) = n.toNat := by
  have hn := n.toNat_lt
  simp only [beNumber, highByte, lowByte, UInt16.toNat_toUInt8, UInt16.toNat_shiftRight]
  simp [Nat.shiftRight_eq_div_pow]
  omega

/-- The coil of a line, when its address does not overflow. -/
theorem coil_toNat {line : Nat} {coil : UInt16} (h : board.coil line = .ok coil)
    (hend : board.coilBase.toNat + board.coils.toNat ≤ 65536) :
    line < board.coils.toNat ∧ coil.toNat = board.coilBase.toNat + line := by
  unfold ModbusBoard.coil at h
  split at h
  · cases h
  next hline =>
    obtain rfl := Except.ok.inj h
    refine ⟨Nat.not_le.mp hline, ?_⟩
    rw [UInt16.toNat_add, UInt16.toNat_ofNat']
    omega

/-- The coil of a line of the board, with or without an overflow. -/
theorem coil_of_lt {line : Nat} (h : line < board.coils.toNat) :
    board.coil line = .ok (board.coilBase + UInt16.ofNat line) := by
  rw [ModbusBoard.coil, if_neg (Nat.not_le.mpr h)]

theorem addressed_writeCoil {coil : UInt16} {on : Bool} {a : Nat}
    (h : a ∈ addressed (pduWriteCoil coil on)) : a = coil.toNat := by
  have hfirst : addressed (pduWriteCoil coil on) = [beNumber (highByte coil) (lowByte coil)] := by
    cases on <;> rfl
  rw [hfirst, beNumber_bytes] at h
  exact List.mem_singleton.mp h

theorem addressed_readCoils {coil : UInt16} {a : Nat}
    (h : a ∈ addressed (pduReadCoils coil 1)) : a = coil.toNat := by
  have hfirst : addressed (pduReadCoils coil 1) = [beNumber (highByte coil) (lowByte coil)] := rfl
  rw [hfirst, beNumber_bytes] at h
  exact List.mem_singleton.mp h

theorem coilCount_writeCoils {start : UInt16} {bits : List Bool} (h : bits.length < 65536) :
    coilCount (pduWriteCoils start bits) = bits.length := by
  have hcount : coilCount (pduWriteCoils start bits) =
    beNumber (highByte (.ofNat bits.length)) (lowByte (.ofNat bits.length)) := rfl
  rw [hcount, beNumber_bytes, UInt16.toNat_ofNat']
  exact Nat.mod_eq_of_lt h

theorem addressed_writeCoils {start : UInt16} {bits : List Bool} {a : Nat}
    (hbits : bits.length < 65536) (h : a ∈ addressed (pduWriteCoils start bits)) :
    ∃ line < bits.length, a = start.toNat + line := by
  have hall : addressed (pduWriteCoils start bits) =
      (List.range (coilCount (pduWriteCoils start bits))).map
        (beNumber (highByte start) (lowByte start) + ·) := rfl
  rw [hall, beNumber_bytes, coilCount_writeCoils hbits] at h
  obtain ⟨line, hline, rfl⟩ := List.mem_map.mp h
  exact ⟨line, List.mem_range.mp hline, rfl⟩

/-- The lines of a board that is accepted are addressed if and only if the last one has a 16-bit
address: the first address and the number of coils are checked apart and added in use. -/
theorem addressesLines_iff {parse : String → Except String ModbusBoard} {text : String}
    (h : ModbusBoard.fromToml parse text = .ok board) :
    board.AddressesLines ↔ board.coilBase.toNat + board.coils.toNat ≤ 65536 := by
  obtain ⟨hpos, hmax, hbits⟩ := fromToml_ok h
  constructor
  · intro haddresses
    obtain ⟨coil, -, hlast⟩ := haddresses.lines (board.coils.toNat - 1) (by omega)
    have hcoil := coil.toNat_lt
    omega
  · intro hend
    refine ⟨?lines, ?distinct, ?coilField, ?byteField, ?inside⟩
    case lines =>
      intro line hline
      have hcoil := coil_of_lt hline
      exact ⟨_, hcoil, (coil_toNat hcoil hend).2⟩
    case distinct =>
      intro i hi j hj heq
      have hi' := (coil_toNat (coil_of_lt hi) hend).2
      have hj' := (coil_toNat (coil_of_lt hj) hend).2
      rw [coil_of_lt hi, coil_of_lt hj] at heq
      rw [Except.ok.inj heq] at hi'
      omega
    case coilField =>
      have hlt : board.safeBits.length < 65536 := by omega
      exact ⟨(coilCount_writeCoils hlt).trans hbits, hbits⟩
    case byteField =>
      have hfield : board.safeRequest.getD 5 0 =
        UInt8.ofNat (packBits board.safeBits).length := rfl
      rw [hfield, UInt8.toNat_ofNat', packBits_length]
      omega
    case inside =>
      intro w hw session place request hsent a ha
      obtain rfl | ⟨on, rfl⟩ | ⟨line, coil, hcoil, rfl | ⟨on, rfl⟩⟩ := sent_isRequest hw hsent
      · obtain ⟨line, hline, rfl⟩ := addressed_writeCoils (by omega) ha
        exact ⟨line, by omega, rfl⟩
      · have hlength : (List.replicate board.coils.toNat on).length = board.coils.toNat :=
          List.length_replicate
        obtain ⟨line, hline, rfl⟩ := addressed_writeCoils (by omega) ha
        exact ⟨line, by omega, rfl⟩
      · obtain ⟨hline, htoNat⟩ := coil_toNat hcoil hend
        exact ⟨line, hline, (addressed_readCoils ha).trans htoNat⟩
      · obtain ⟨hline, htoNat⟩ := coil_toNat hcoil hend
        exact ⟨line, hline, (addressed_writeCoil ha).trans htoNat⟩

/-- The module that the driver knows is accepted, and its lines are addressed. -/
theorem addressesLines_sainsmart : ModbusBoard.sainsmart16ch.AddressesLines := by
  have haccepted : ModbusBoard.fromToml (fun _ => .ok ModbusBoard.sainsmart16ch) "" =
      .ok ModbusBoard.sainsmart16ch := rfl
  exact (addressesLines_iff haccepted).mpr (by decide)

/-- Two coils from the last address on: the board is accepted, and its second line is given the
coil 0. -/
theorem coil_wraps : ∃ (parse : String → Except String ModbusBoard) (text : String)
    (board : ModbusBoard), ModbusBoard.fromToml parse text = .ok board ∧
      board.coil 1 = .ok 0 ∧ ¬ board.AddressesLines := by
  have hcoil : ModbusBoard.coil ⟨.ascii, 1, 2, 65535, 1000, 20, true, []⟩ 1 = .ok 0 := rfl
  refine ⟨fun _ => .ok ⟨.ascii, 1, 2, 65535, 1000, 20, true, []⟩, "", _, rfl, hcoil, fun h => ?_⟩
  obtain ⟨coil, hline, htoNat⟩ := h.lines 1 (by decide)
  obtain rfl := Except.ok.inj (hcoil.symm.trans hline)
  cases htoNat

end HamsOpen.Modbus
