import HamsOpen.Kenwood.LanFraming
import HamsOpen.Lib.Machine
import Mathlib

/-!
# Probes and commands on one LAN link

The link keeps its session alive by a command that the engine sends too, and tells the answers apart
by a counter alone. The radio answers its commands in order, each with a frame or with nothing, and
may say more by itself; what it says arrives in any pieces. With every frame goes whether it answers
a probe, which is on no wire.
-/

namespace HamsOpen.Kenwood

/-! ### Frames of the radio -/

/-- A frame of the radio, with whether it answers a probe. -/
structure Frame where
  body : Bytes
  clear : ∀ b ∈ body, isEnd b = false
  ofProbe : Bool

namespace Frame

def bytes (x : Frame) : Bytes := x.body ++ [0x3B]

/-- It reads as an answer to `ID;`. -/
def isId (x : Frame) : Bool := Kenwood.isId x.bytes

end Frame

def CN1 : Bytes := ascii "##CN1"
def ID1 : Bytes := ascii "##ID1"

/-- The frames from the accepted connection request on. -/
def fromConnect (heard : List Frame) : List Frame := heard.dropWhile (·.body != CN1)

/-- The frames from the accepted login on. -/
def fromLogin (heard : List Frame) : List Frame := (fromConnect heard).dropWhile (·.body != ID1)

/-- How far the frames bring the login. -/
def stage (heard : List Frame) : Phase :=
  if fromConnect heard = [] then .awaitConnect
  else if fromLogin heard = [] then .awaitLogin
  else .up

/-- The frames after the login was accepted. -/
def afterLogin (heard : List Frame) : List Frame := (fromLogin heard).tail

/-- What has to be passed up: every frame after the login that answers no probe. -/
def payloadOf (heard : List Frame) : Bytes :=
  ((afterLogin heard).filter fun x => !x.ofProbe).flatMap Frame.bytes

section Stage

variable {heard : List Frame} {x : Frame}

theorem fromConnect_concat : fromConnect (heard ++ [x]) =
    if fromConnect heard = [] then (if x.body = CN1 then [x] else [])
    else fromConnect heard ++ [x] := by
  rw [fromConnect, List.dropWhile_append]
  unfold fromConnect
  by_cases hnone : heard.dropWhile (·.body != CN1) = []
  · by_cases hx : x.body = CN1 <;> simp [hnone, hx]
  · simp [hnone]

theorem fromLogin_concat : fromLogin (heard ++ [x]) =
    if fromConnect heard = [] then []
    else if fromLogin heard = [] then (if x.body = ID1 then [x] else [])
    else fromLogin heard ++ [x] := by
  rw [fromLogin, fromConnect_concat]
  by_cases hconnect : fromConnect heard = []
  · rw [if_pos hconnect, if_pos hconnect]
    by_cases hx : x.body = CN1
    · have hne : CN1 ≠ ID1 := by decide
      simp [hx, hne]
    · simp [hx]
  · rw [if_neg hconnect, if_neg hconnect, List.dropWhile_append]
    change (if (fromLogin heard).isEmpty then _ else fromLogin heard ++ [x]) = _
    by_cases hlogin : fromLogin heard = []
    · by_cases hx : x.body = ID1 <;> simp [hlogin, hx]
    · simp [hlogin]

/-- One more frame brings the login on by one at most. -/
theorem stage_concat (heard : List Frame) (x : Frame) : stage (heard ++ [x]) =
    match stage heard with
    | .awaitConnect => if x.body = CN1 then .awaitLogin else .awaitConnect
    | .awaitLogin => if x.body = ID1 then .up else .awaitLogin
    | .up => .up := by
  unfold stage
  rw [fromConnect_concat, fromLogin_concat]
  by_cases hconnect : fromConnect heard = []
  · by_cases hx : x.body = CN1 <;> simp [hconnect, hx]
  · by_cases hlogin : fromLogin heard = []
    · by_cases hx : x.body = ID1 <;> simp [hconnect, hlogin, hx]
    · simp [hconnect, hlogin]

theorem payloadOf_concat : payloadOf (heard ++ [x]) = payloadOf heard ++
    if stage heard = .up ∧ x.ofProbe = false then x.bytes else [] := by
  unfold payloadOf afterLogin stage
  rw [fromLogin_concat]
  by_cases hconnect : fromConnect heard = []
  · have hlogin : fromLogin heard = [] := by
      rw [fromLogin, hconnect]
      rfl
    simp [hconnect, hlogin]
  · by_cases hlogin : fromLogin heard = []
    · by_cases hx : x.body = ID1 <;> simp [hconnect, hlogin, hx]
    · cases hprobe : x.ofProbe <;>
        simp [hconnect, hlogin, hprobe, List.tail_append_of_ne_nil]

theorem payloadOf_of_stage (h : stage heard ≠ .up) : payloadOf heard = [] := by
  have hlogin : fromLogin heard = [] := by
    by_contra hlogin
    apply h
    have hconnect : fromConnect heard ≠ [] := by
      intro hnone
      apply hlogin
      rw [fromLogin, hnone]
      rfl
    rw [stage, if_neg hconnect, if_neg hlogin]
  rw [payloadOf, afterLogin, hlogin]
  rfl

/-- Once past the connection request, the radio has accepted it. -/
theorem exists_of_stage (h : stage heard ≠ .awaitConnect) :
    ∃ y ∈ heard, y.bytes = ascii "##CN1;" := by
  have hconnect : fromConnect heard ≠ [] := by
    intro hnone
    exact h (if_pos hnone)
  obtain ⟨y, rest, hy⟩ := List.exists_cons_of_ne_nil hconnect
  have hhead : (y.body != CN1) = false := by
    have hfirst : (fromConnect heard).head hconnect = y := by simp only [hy, List.head_cons]
    rw [← hfirst]
    exact List.head_dropWhile_not _ hconnect
  have hmem : y ∈ heard := by
    apply (List.dropWhile_sublist (fun z : Frame => z.body != CN1)).subset
    change y ∈ fromConnect heard
    rw [hy]
    exact List.mem_cons_self
  refine ⟨y, hmem, ?_⟩
  rw [Frame.bytes, bne_eq_false_iff_eq.mp hhead]
  decide

end Stage

/-! ### What frames do to the framing -/

section Frames

variable {f f' : Ts890LanFraming} {out out' : Decoded} {heard xs : List Frame} {x : Frame}

/-- The framing swallows the frame: it is up, waits for a probe, and reads the frame as an answer
to it. -/
def swallows (f : Ts890LanFraming) (x : Frame) : Bool :=
  f.phase = .up && (0 < f.probesOut && x.isId)

/-- What frames do whatever they are, when nothing fails. -/
structure Follows (f f' : Ts890LanFraming) (out out' : Decoded) : Prop where
  pending_eq : f'.pending = f.pending
  up_stays : f.phase = .up → f'.phase = .up
  asked_stays : f.phase ≠ .awaitConnect → f'.phase ≠ .awaitConnect
  ready_eq : out'.ready = (out.ready || (f.phase != .up && f'.phase == .up))
  reply_eq : out'.reply = out.reply ∨ f.phase = .awaitConnect ∧ f'.phase ≠ .awaitConnect
  early : f'.phase ≠ .up → out'.payload = out.payload

theorem Follows.refl (f : Ts890LanFraming) (out : Decoded) : Follows f f out out :=
  ⟨rfl, id, id, by cases f.phase <;> simp, .inl rfl, fun _ => rfl⟩

theorem Follows.trans {f'' : Ts890LanFraming} {out'' : Decoded} (h : Follows f f' out out')
    (h' : Follows f' f'' out' out'') : Follows f f'' out out'' := by
  refine ⟨h'.pending_eq.trans h.pending_eq, fun hup => h'.up_stays (h.up_stays hup),
    fun hasked => h'.asked_stays (h.asked_stays hasked), ?_, ?_, ?_⟩
  · have hthree : ∀ p q r : Phase, (p = .up → q = .up) → (q = .up → r = .up) →
        (p != .up && q == .up || (q != .up && r == .up)) = (p != .up && r == .up) := by
      intro p q r
      cases p <;> cases q <;> cases r <;>
        first | exact fun _ _ => rfl | exact fun h => nomatch h rfl | exact fun _ h => nomatch h rfl
    rw [h'.ready_eq, h.ready_eq, Bool.or_assoc, hthree _ _ _ h.up_stays h'.up_stays]
  · rcases h'.reply_eq with heq | ⟨hawait, hasked⟩
    · rcases h.reply_eq with heq' | ⟨hawait, hasked⟩
      · exact .inl (heq.trans heq')
      · exact .inr ⟨hawait, h'.asked_stays hasked⟩
    · right
      refine ⟨?_, hasked⟩
      by_contra hne
      exact h.asked_stays hne hawait
  · intro hnot
    have hnot' : f'.phase ≠ .up := fun hup => hnot (h'.up_stays hup)
    rw [h'.early hnot, h.early hnot']

/-- What one frame does when nothing fails. -/
structure FrameSpec (f f' : Ts890LanFraming) (out out' : Decoded) (heard : List Frame) (x : Frame) :
    Prop where
  stage_eq : f'.phase = stage (heard ++ [x])
  follows : Follows f f' out out'
  payload_eq : out'.payload =
    out.payload ++ if f.phase = .up ∧ swallows f x = false then x.bytes else []
  probes_eq : f'.probesOut = f.probesOut - if swallows f x then 1 else 0

theorem frame_spec (hstage : f.phase = stage heard) (h : f.frame x.bytes out = (f', out'))
    (hfailure : out'.failure = none) : FrameSpec f f' out out' heard x := by
  have hnext := stage_concat heard x
  rw [← hstage] at hnext
  unfold Ts890LanFraming.frame at h
  cases hphase : f.phase with
  | awaitConnect =>
    have hswallows : swallows f x = false := by simp [swallows, hphase]
    have hpayload : out.payload = out.payload ++
        if f.phase = .up ∧ swallows f x = false then x.bytes else [] := by simp [hphase]
    have hprobes : f.probesOut = f.probesOut - if swallows f x then 1 else 0 := by simp [hswallows]
    rw [hphase] at hnext
    simp only [hphase, Frame.bytes, connectReply_eq x.clear] at h
    by_cases hcn1 : x.body = CN1
    · obtain ⟨login, hlogin⟩ := f.credentials.valid
      rw [if_pos (show x.body = ascii "##CN1" from hcn1), hlogin] at h
      cases h
      simp only [if_pos hcn1] at hnext
      have hready : out.ready = (out.ready || (f.phase != .up && Phase.awaitLogin == .up)) := by
        simp [hphase]
      exact ⟨hnext.symm, ⟨rfl, (fun hup => nomatch hphase.symm.trans hup), fun _ => nofun, hready,
        .inr ⟨hphase, nofun⟩, fun _ => rfl⟩, hpayload, hprobes⟩
    · rw [if_neg (show ¬ x.body = ascii "##CN1" from hcn1)] at h
      simp only [if_neg hcn1] at hnext
      by_cases hcn0 : x.body = ascii "##CN0"
      · rw [if_pos hcn0] at h
        cases h
        cases hfailure
      · rw [if_neg hcn0] at h
        cases h
        exact ⟨by rw [hnext, hphase], .refl f out, hpayload, hprobes⟩
  | awaitLogin =>
    have hswallows : swallows f x = false := by simp [swallows, hphase]
    have hpayload : out.payload = out.payload ++
        if f.phase = .up ∧ swallows f x = false then x.bytes else [] := by simp [hphase]
    have hprobes : f.probesOut = f.probesOut - if swallows f x then 1 else 0 := by simp [hswallows]
    rw [hphase] at hnext
    simp only [hphase, Frame.bytes, loginReply_eq x.clear] at h
    by_cases hid1 : x.body = ID1
    · rw [if_pos (show x.body = ascii "##ID1" from hid1)] at h
      cases h
      simp only [if_pos hid1] at hnext
      have hready : true = (out.ready || (f.phase != .up && Phase.up == .up)) := by simp [hphase]
      exact ⟨hnext.symm, ⟨rfl, fun _ => rfl, fun _ => nofun, hready, .inl rfl, fun _ => rfl⟩,
        hpayload, hprobes⟩
    · rw [if_neg (show ¬ x.body = ascii "##ID1" from hid1)] at h
      simp only [if_neg hid1] at hnext
      by_cases hid0 : x.body = ascii "##ID0"
      · rw [if_pos hid0] at h
        cases h
        cases hfailure
      · rw [if_neg hid0] at h
        cases h
        exact ⟨by rw [hnext, hphase], .refl f out, hpayload, hprobes⟩
  | up =>
    have hswallows : swallows f x = (0 < f.probesOut && Kenwood.isId x.bytes) := by
      simp [swallows, hphase, Frame.isId]
    have hready : out.ready = (out.ready || (f.phase != .up && Phase.up == .up)) := by
      simp [hphase]
    rw [hphase] at hnext
    simp only [hphase, ← hswallows] at h
    split at h
    next htaken =>
      cases h
      exact ⟨hnext.symm, ⟨rfl, fun _ => rfl, fun _ => nofun, hready, .inl rfl, fun _ => rfl⟩,
        by simp [htaken], by simp [htaken]⟩
    next hpassed =>
      cases h
      exact ⟨hphase.trans hnext.symm, ⟨rfl, id, id, by simp [hphase], .inl rfl,
        fun hnot => absurd hphase hnot⟩, by simp [hpassed, hphase], by simp [hpassed]⟩

/-- Frames one after the other. -/
theorem frames_follows (hstage : f.phase = stage heard)
    (h : f.frames (xs.map Frame.bytes) out = (f', out')) (hfailure : out'.failure = none) :
    f'.phase = stage (heard ++ xs) ∧ Follows f f' out out' := by
  induction xs generalizing f heard out with
  | nil =>
    cases h
    exact ⟨by rw [hstage, List.append_nil], .refl _ _⟩
  | cons x xs ih =>
    obtain ⟨⟨g, mid⟩, hframe⟩ : ∃ r, f.frame x.bytes out = r := ⟨_, rfl⟩
    rw [List.map_cons, Ts890LanFraming.frames, hframe] at h
    simp only at h
    split at h
    next hfails =>
      cases h
      rw [hfailure] at hfails
      cases hfails
    next hfine =>
      have hspec := frame_spec hstage hframe (by simpa using hfine)
      obtain ⟨hphase, hfollows⟩ := ih hspec.stage_eq h
      rw [List.append_cons]
      exact ⟨hphase, hspec.follows.trans hfollows⟩

/-- Which frames the answers to probes are can be told: each reads as an answer to `ID;`, no more of
them come than probes are out, and no other frame reads so while one is. -/
structure Told (probesOut : ℕ) (xs : List Frame) : Prop where
  reads : ∀ x ∈ xs, x.ofProbe = true → x.isId = true
  counted : xs.countP Frame.ofProbe ≤ probesOut
  apart : (∀ x ∈ xs, x.ofProbe = false → x.isId = false) ∨ probesOut = 0

theorem Told.swallows_eq (h : Told f.probesOut (x :: xs))
    (hearly : f.phase ≠ .up → f.probesOut = 0) : swallows f x = x.ofProbe := by
  obtain ⟨hreads, hcounted, hapart⟩ := h
  cases hprobe : x.ofProbe with
  | true =>
    rw [List.countP_cons_of_pos hprobe] at hcounted
    have hup : f.phase = .up := by
      by_contra hnot
      have hnone := hearly hnot
      omega
    have hpos : 0 < f.probesOut := by omega
    simp [swallows, hup, hpos, hreads x List.mem_cons_self hprobe]
  | false =>
    rcases hapart with hother | hnone
    · simp [swallows, hother x List.mem_cons_self hprobe]
    · simp [swallows, hnone]

/-- The answers to probes are taken out, and nothing else. -/
theorem frames_payload (hstage : f.phase = stage heard)
    (h : f.frames (xs.map Frame.bytes) out = (f', out')) (hfailure : out'.failure = none)
    (htold : Told f.probesOut xs) (hearly : f.phase ≠ .up → f.probesOut = 0) {done : Bytes}
    (hdone : done ++ out.payload = payloadOf heard) :
    done ++ out'.payload = payloadOf (heard ++ xs) ∧
      f'.probesOut = f.probesOut - xs.countP Frame.ofProbe := by
  induction xs generalizing f heard out with
  | nil =>
    cases h
    rw [List.append_nil]
    exact ⟨hdone, rfl⟩
  | cons x xs ih =>
    obtain ⟨⟨g, mid⟩, hframe⟩ : ∃ r, f.frame x.bytes out = r := ⟨_, rfl⟩
    rw [List.map_cons, Ts890LanFraming.frames, hframe] at h
    simp only at h
    split at h
    next hfails =>
      cases h
      rw [hfailure] at hfails
      cases hfails
    next hfine =>
      have hspec := frame_spec hstage hframe (by simpa using hfine)
      have hswallows := htold.swallows_eq hearly
      have hprobes := hspec.probes_eq
      have hpayload := hspec.payload_eq
      rw [hswallows] at hprobes hpayload
      have hcount : (x :: xs).countP Frame.ofProbe =
          xs.countP Frame.ofProbe + if x.ofProbe then 1 else 0 := List.countP_cons
      have hcounted := htold.counted
      have hnext : Told g.probesOut xs := by
        refine ⟨fun y hy => htold.reads y (List.mem_cons_of_mem x hy), by omega, ?_⟩
        refine htold.apart.imp (fun hother y hy => hother y (List.mem_cons_of_mem x hy)) ?_
        intro hnone
        omega
      have hmid : done ++ mid.payload = payloadOf (heard ++ [x]) := by
        rw [hpayload, ← List.append_assoc, hdone, payloadOf_concat, hstage]
      have hearly' : g.phase ≠ .up → g.probesOut = 0 := by
        intro hnot
        have hnone := hearly fun hup => hnot (hspec.follows.up_stays hup)
        omega
      obtain ⟨hall, hleft⟩ := ih hspec.stage_eq h hnext hearly' hmid
      rw [List.append_cons]
      exact ⟨hall, by omega⟩

end Frames

/-! ### The link, the radio, and the bytes between them -/

/-- One link with the radio at its other end. What is said of frames and bytes is said of the
present connection. -/
structure Session where
  link : Net.State Ts890LanFraming
  /-- For each command that the radio has not answered, in order, whether it is a probe. -/
  commands : List Bool
  /-- Bytes of the radio on their way. -/
  line : Bytes
  /-- The frames of the radio that have been read whole, and the ones that have not. -/
  heard : List Frame
  coming : List Frame
  /-- What was passed up. -/
  passed : Bytes
  /-- What was to be sent straight back to the radio. -/
  replies : List Bytes

inductive Act
  /-- The link goes on; it reads what the radio says by `recv` alone. -/
  | link (a : Net.Act)
  /-- It reads so many of the bytes on their way. -/
  | recv (n : ℕ)
  /-- The radio answers its oldest command with a frame, or takes it without one. -/
  | answer (body : Bytes)
  | silent
  /-- The radio says something by itself. -/
  | push (body : Bytes)
  deriving DecidableEq

/-- The commands in bytes that are sent in a phase of the link. -/
def commandsOf : Net.Phase → List Bool
  | .probing _ => [true]
  | .greeting bytes | .answering bytes _ | .replying bytes _ | .sending _ bytes =>
    List.replicate (bytes.countP isEnd) false
  | _ => []

/-- The radio says a frame. -/
def Session.say (s : Session) (body : Bytes) (ofProbe : Bool) : Option Session :=
  if h : ∀ b ∈ body, isEnd b = false then
    let x : Frame := ⟨body, h, ofProbe⟩
    some { s with coming := s.coming ++ [x], line := s.line ++ x.bytes }
  else none

def Session.step (c : Net.NetConfig) (s : Session) : Act → Option Session
  | .link a => match a with
    | .hear _ => none
    | .connect true =>
      (s.link.step framing c (.connect true)).map fun link => ⟨link, [], [], [], [], [], []⟩
    | .wrote .all =>
      (s.link.step framing c (.wrote .all)).map fun link =>
        { s with link, commands := s.commands ++ commandsOf s.link.phase }
    | a => (s.link.step framing c a).map fun link => { s with link }
  | .recv n =>
    if 0 < n ∧ n ≤ s.line.length then
      let wire := s.line.take n
      let cut := Delimited.pieces isEnd s.link.framing.pending wire
      let out := (framing.decode s.link.framing wire).1
      (s.link.step framing c (.hear wire)).map fun link =>
        if out.failure then { s with link, line := s.line.drop n }
        else { s with
          link
          line := s.line.drop n
          heard := s.heard ++ s.coming.take cut.1.length
          coming := s.coming.drop cut.1.length
          passed := s.passed ++
            if s.link.phase = .handshaking ∧ out.ready = false then [] else out.payload
          replies := s.replies ++ if out.reply = [] then [] else [out.reply] }
    else none
  | .answer body => match s.commands with
    | ofProbe :: commands => ({ s with commands }).say body ofProbe
    | [] => none
  | .silent => match s.commands with
    | false :: commands => some { s with commands }
    | _ => none
  | .push body => s.say body false

/-- A link before its first connection, and the radio. -/
def machine (c : Net.NetConfig) (credentials : LanCredentials) : Machine Session Act where
  init s := s = ⟨Net.initial (.new credentials), [], [], [], [], [], []⟩
  step := Session.step c

/-- The probes that the radio has not answered, or whose answers have not been read. -/
def Session.unanswered (s : Session) : ℕ :=
  s.commands.countP id + s.coming.countP Frame.ofProbe

/-- No answer can be taken for another after the step: a probe is answered as `ID;` is, and another
frame that reads so is not under way while a probe is unanswered. -/
def Proper (s : Session) : Act → Prop
  | .link (.wrote .all) => commandsOf s.link.phase = [true] →
      (∀ x ∈ s.coming, x.ofProbe = false → x.isId = false) ∧ s.unanswered < 2 ^ 32 - 1
  | .answer body =>
    (s.commands.head? = some true → isId (body ++ [0x3B]) = true) ∧
      (s.commands.head? = some false → isId (body ++ [0x3B]) = true → s.unanswered = 0)
  | .push body => isId (body ++ [0x3B]) = true → s.unanswered = 0
  | _ => True

/-- What has to be passed up: the frames after the login, without the answers to probes, and nothing
before it. The login frame answers the accepted request of the connection. -/
structure Right (s : Session) : Prop where
  passed_eq : s.passed = payloadOf s.heard
  before : stage s.heard ≠ .up → s.passed = []
  once : s.replies.length ≤ 1
  asked : s.replies ≠ [] → ∃ x ∈ s.heard, x.bytes = ascii "##CN1;"

/-! ### One step -/

/-- Whether the phase of a link is after the handshake; nothing without a connection. -/
def side : Net.Phase → Option Bool
  | .connecting | .lost | .sleeping | .closed => none
  | .greeting _ | .handshaking | .answering _ none => some false
  | .answering _ (some _) | .opened _ | .session | .delivering _ | .replying _ _ | .sending _ _
  | .probing _ => some true

section Link

variable {c : Net.NetConfig} {l l' : Net.State Ts890LanFraming}

/-- What else a link does leaves the framing alone, and the connection where it is, or ends it. -/
theorem link_other {a : Net.Act} (h : l.step framing c a = some l')
    (hhear : ∀ wire, a ≠ .hear wire) (hconnect : a ≠ .connect true) (hwrote : a ≠ .wrote .all) :
    l'.framing = l.framing ∧ (side l'.phase = none ∨ side l'.phase = side l.phase) := by
  cases a with
  | hear wire => exact absurd rfl (hhear wire)
  | write bytes =>
    simp only [Net.State.step, Net.State.write] at h
    split at h
    · cases h
      exact ⟨rfl, .inr rfl⟩
    · cases h
  | drop =>
    cases h
    exact ⟨rfl, .inr rfl⟩
  | drain n =>
    simp only [Net.State.step, Net.State.drain] at h
    split at h
    · split at h
      · cases h
        exact ⟨rfl, .inr rfl⟩
      · split at h
        · cases h
          exact ⟨rfl, .inr rfl⟩
        · cases h
    · cases h
  | eof =>
    simp only [Net.State.step, Net.State.eof] at h
    split at h
    · cases h
      exact ⟨rfl, .inl rfl⟩
    · cases h
  | connect ok =>
    cases ok with
    | true => exact absurd rfl hconnect
    | false =>
      simp only [Net.State.step, Net.State.connect] at h
      split at h
      · cases h
        exact ⟨rfl, .inl rfl⟩
      · cases h
  | wrote result =>
    cases result with
    | all => exact absurd rfl hwrote
    | failed n =>
      simp only [Net.State.step, Net.State.wrote] at h
      cases hphase : l.phase with
      | greeting bytes | answering reply ready | replying reply payload | probing probe =>
        simp only [hphase] at h
        cases h
        exact ⟨rfl, .inl rfl⟩
      | sending chunk frame =>
        simp only [hphase] at h
        split at h
        · split at h
          · cases h
          · cases h
            exact ⟨rfl, .inl rfl⟩
        · cases h
      | _ =>
        simp only [hphase] at h
        cases h
  | fail =>
    simp only [Net.State.step, Net.State.fail] at h
    split at h
    · cases h
      exact ⟨rfl, .inl rfl⟩
    · cases h
      exact ⟨rfl, .inl rfl⟩
    · cases h
  | announce =>
    simp only [Net.State.step, Net.State.announce] at h
    split at h
    next leftover hphase =>
      cases h
      refine ⟨rfl, .inr ?_⟩
      rw [hphase]
      by_cases hnone : leftover = []
      · simp only [hnone]
        rfl
      · simp only [if_neg hnone]
        rfl
    · cases h
  | take n =>
    simp only [Net.State.step, Net.State.take] at h
    split at h
    next hin =>
      cases h
      exact ⟨rfl, .inr (by rw [hin.1]; rfl)⟩
    · cases h
  | probe =>
    simp only [Net.State.step, Net.State.probe] at h
    split at h
    next hphase _ =>
      cases h
      exact ⟨rfl, .inr (by rw [hphase]; rfl)⟩
    · cases h
  | delivered result =>
    simp only [Net.State.step, Net.State.delivered] at h
    split at h
    next payload hphase =>
      cases result with
      | all =>
        cases h
        exact ⟨rfl, .inr (by rw [hphase]; rfl)⟩
      | timedOut n =>
        simp only at h
        split at h
        · cases h
          exact ⟨rfl, .inr (by rw [hphase]; rfl)⟩
        · cases h
      | gone =>
        simp only at h
        split at h
        · cases h
          exact ⟨rfl, .inl rfl⟩
        · cases h
    · cases h
  | report =>
    simp only [Net.State.step, Net.State.report] at h
    split at h
    · cases h
      refine ⟨rfl, .inl ?_⟩
      dsimp only
      split <;> rfl
    · cases h
  | wake =>
    simp only [Net.State.step, Net.State.wake] at h
    split at h
    · cases h
      exact ⟨rfl, .inl rfl⟩
    · cases h

/-- A write that is over leaves the connection where it is; a probe is counted. -/
theorem link_wrote (h : l.step framing c (.wrote .all) = some l') : side l'.phase = side l.phase ∧
    (commandsOf l.phase = [true] ∧ side l.phase = some true ∧
        l'.framing = framing.keepaliveSent l.framing ∨
      (∃ n, commandsOf l.phase = List.replicate n false) ∧ l'.framing = l.framing) := by
  simp only [Net.State.step, Net.State.wrote] at h
  cases hphase : l.phase with
  | greeting bytes =>
    simp only [hphase] at h
    cases h
    exact ⟨rfl, .inr ⟨⟨_, rfl⟩, rfl⟩⟩
  | answering reply ready =>
    simp only [hphase] at h
    cases h
    cases ready with
    | none => exact ⟨rfl, .inr ⟨⟨_, rfl⟩, rfl⟩⟩
    | some leftover => exact ⟨rfl, .inr ⟨⟨_, rfl⟩, rfl⟩⟩
  | replying reply payload =>
    simp only [hphase] at h
    cases h
    refine ⟨?_, .inr ⟨⟨_, rfl⟩, rfl⟩⟩
    simp only [Net.State.handed]
    split <;> rfl
  | probing probe =>
    simp only [hphase] at h
    cases h
    exact ⟨rfl, .inl ⟨rfl, rfl, rfl⟩⟩
  | sending chunk frame =>
    simp only [hphase] at h
    cases h
    exact ⟨rfl, .inr ⟨⟨_, rfl⟩, rfl⟩⟩
  | _ =>
    simp only [hphase] at h
    cases h

/-- Bytes that are read go to the framing, in a handshake or in a session. -/
theorem link_hear {wire : Bytes} (h : l.step framing c (.hear wire) = some l') :
    l'.framing = (l.framing.decode wire).1 ∧
      ∃ up, side l.phase = some up ∧ (up = false ↔ l.phase = .handshaking) ∧
        ((l.framing.decode wire).2.failure.isSome = true → side l'.phase = none) ∧
        ((l.framing.decode wire).2.failure = none →
          side l'.phase = some (up || (l.framing.decode wire).2.ready)) := by
  simp only [Net.State.step, Net.State.hear, framing] at h
  obtain ⟨⟨f', out⟩, hdecode⟩ : ∃ r, l.framing.decode wire = r := ⟨_, rfl⟩
  simp only [hdecode] at h ⊢
  cases hphase : l.phase with
  | handshaking =>
    simp only [hphase] at h
    split at h
    next hfails =>
      cases h
      exact ⟨rfl, false, rfl, iff_of_true rfl rfl, fun _ => rfl,
        fun hnone => by rw [hnone] at hfails; cases hfails⟩
    next hfine =>
      have hno : ¬ out.failure.isSome = true := hfine
      split at h
      · cases h
        refine ⟨?_, false, rfl, iff_of_true rfl rfl, fun hsome => absurd hsome hno, fun _ => ?_⟩
        · cases out.ready <;> rfl
        · cases out.ready <;> rfl
      · cases h
        refine ⟨rfl, false, rfl, iff_of_true rfl rfl, fun hsome => absurd hsome hno, fun _ => ?_⟩
        cases out.ready <;> rfl
  | session =>
    simp only [hphase] at h
    split at h
    next hfails =>
      cases h
      exact ⟨rfl, true, rfl, iff_of_false nofun nofun, fun _ => rfl,
        fun hnone => by rw [hnone] at hfails; cases hfails⟩
    next hfine =>
      have hno : ¬ out.failure.isSome = true := hfine
      split at h
      · cases h
        refine ⟨rfl, true, rfl, iff_of_false nofun nofun, fun hsome => absurd hsome hno,
          fun _ => ?_⟩
        simp only [Net.State.handed]
        split <;> rfl
      · cases h
        exact ⟨rfl, true, rfl, iff_of_false nofun nofun, fun hsome => absurd hsome hno,
          fun _ => rfl⟩
  | _ =>
    simp only [hphase] at h
    cases h

end Link

/-! ### Every run -/

/-- What is said of a connection: the framing stands where the frames bring it, what it has begun
and the bytes on their way are the frames to come, and the answers to probes can be told. -/
structure Live (s : Session) (up : Bool) : Prop where
  stage_eq : s.link.framing.phase = stage s.heard
  up_iff : stage s.heard = .up ↔ up = true
  clear : ∀ b ∈ s.link.framing.pending, isEnd b = false
  whole : s.link.framing.pending ++ s.line = s.coming.flatMap Frame.bytes
  count : s.link.framing.probesOut = s.unanswered
  reads : ∀ x ∈ s.coming, x.ofProbe = true → x.isId = true
  apart : (∀ x ∈ s.coming, x.ofProbe = false → x.isId = false) ∨ s.unanswered = 0
  early : up = false → s.unanswered = 0

structure Inv (s : Session) : Prop where
  passed_eq : s.passed = payloadOf s.heard
  replies_le : s.replies.length ≤ if stage s.heard = .awaitConnect then 0 else 1
  live : ∀ up, side s.link.phase = some up → Live s up

section Steps

variable {c : Net.NetConfig} {s t : Session} {up : Bool}

/-- Only the link moves, and its framing does not. -/
theorem Live.congr_link (h : Live s up) {link : Net.State Ts890LanFraming}
    (hlink : link.framing = s.link.framing) : Live { s with link } up := by
  obtain ⟨hstage, hup, hclear, hwhole, hcount, hreads, hapart, hearly⟩ := h
  rw [← hlink] at hstage hclear hwhole hcount
  exact ⟨hstage, hup, hclear, hwhole, hcount, hreads, hapart, hearly⟩

theorem Inv.link_other (h : Inv s) {a : Net.Act} {link : Net.State Ts890LanFraming}
    (hstep : s.link.step framing c a = some link) (hhear : ∀ wire, a ≠ .hear wire)
    (hconnect : a ≠ .connect true) (hwrote : a ≠ .wrote .all) : Inv { s with link } := by
  obtain ⟨hframing, hside⟩ := Kenwood.link_other hstep hhear hconnect hwrote
  refine ⟨h.passed_eq, h.replies_le, fun up hup => ?_⟩
  rcases hside with hnone | hsame
  · cases hnone.symm.trans hup
  · exact (h.live up (hsame.symm.trans hup)).congr_link hframing

theorem Inv.link_wrote (h : Inv s) {link : Net.State Ts890LanFraming}
    (hstep : s.link.step framing c (.wrote .all) = some link)
    (hproper : Proper s (.link (.wrote .all))) :
    Inv { s with link, commands := s.commands ++ commandsOf s.link.phase } := by
  obtain ⟨hside, hcommands⟩ := Kenwood.link_wrote hstep
  refine ⟨h.passed_eq, h.replies_le, fun up hup => ?_⟩
  have hlive := h.live up (hside.symm.trans hup)
  obtain ⟨hprobe, hup', hframing⟩ | ⟨⟨n, hrequests⟩, hframing⟩ := hcommands
  · obtain ⟨hother, hfew⟩ := hproper hprobe
    have hcount : (⟨link, s.commands ++ commandsOf s.link.phase, s.line, s.heard, s.coming,
        s.passed, s.replies⟩ : Session).unanswered = s.unanswered + 1 := by
      simp [Session.unanswered, hprobe]
      omega
    refine ⟨?_, hlive.up_iff, ?_, ?_, ?_, hlive.reads, .inl hother, ?_⟩
    · exact (congrArg Ts890LanFraming.phase hframing).trans hlive.stage_eq
    · change ∀ b ∈ link.framing.pending, _
      rw [hframing]
      exact hlive.clear
    · change link.framing.pending ++ _ = _
      rw [hframing]
      exact hlive.whole
    · change link.framing.probesOut = _
      rw [hframing, hcount, ← hlive.count]
      have hmin := hlive.count ▸ hfew
      exact min_eq_left hmin
    · rintro rfl
      cases hup'.symm.trans (hside.symm.trans hup)
  · have hcount : (⟨link, s.commands ++ commandsOf s.link.phase, s.line, s.heard, s.coming,
        s.passed, s.replies⟩ : Session).unanswered = s.unanswered := by
      simp [Session.unanswered, hrequests, List.countP_replicate]
    obtain ⟨hstage, hupiff, hclear, hwhole, hcount', hreads, hapart, hearly⟩ :=
      hlive.congr_link hframing
    exact ⟨hstage, hupiff, hclear, hwhole, hcount'.trans hcount.symm, hreads,
      hapart.imp_right hcount.trans, fun hup => hcount.trans (hearly hup)⟩

/-- A new connection begins with nothing. -/
theorem inv_connect {l link : Net.State Ts890LanFraming}
    (hstep : l.step framing c (.connect true) = some link) :
    Inv ⟨link, [], [], [], [], [], []⟩ := by
  simp only [Net.State.step, Net.State.connect] at hstep
  split at hstep
  · have hgreeting : lanConnectRequest ≠ [] := by decide
    simp only [framing, hgreeting, if_true, if_false] at hstep
    cases hstep
    refine ⟨rfl, Nat.le_refl _, fun up hup => ?_⟩
    cases hup
    exact ⟨rfl, iff_of_false nofun nofun, nofun, rfl, rfl, nofun, .inr rfl, fun _ => rfl⟩
  · cases hstep

/-- The radio says a frame: the one of a probe reads as it should, and another one does not look
like it while a probe is unanswered. -/
theorem Inv.say (h : Inv s) {commands : List Bool} {body : Bytes} {ofProbe : Bool}
    (hcommands : commands.countP id + (if ofProbe then 1 else 0) = s.commands.countP id)
    (hprobe : ofProbe = true → isId (body ++ [0x3B]) = true)
    (hother : ofProbe = false → isId (body ++ [0x3B]) = true → s.unanswered = 0)
    (hstep : ({ s with commands }).say body ofProbe = some t) : Inv t := by
  unfold Session.say at hstep
  split at hstep
  next hclear =>
    cases hstep
    refine ⟨h.passed_eq, h.replies_le, fun up hup => ?_⟩
    have hlive := h.live up hup
    have hcount : (⟨s.link, commands, s.line ++ Frame.bytes ⟨body, hclear, ofProbe⟩, s.heard,
        s.coming ++ [⟨body, hclear, ofProbe⟩], s.passed, s.replies⟩ : Session).unanswered =
          s.unanswered := by
      simp only [Session.unanswered, ← hcommands, List.countP_append, List.countP_singleton]
      omega
    refine ⟨hlive.stage_eq, hlive.up_iff, hlive.clear, ?_, hlive.count.trans hcount.symm, ?_, ?_,
      fun hup => hcount.trans (hlive.early hup)⟩
    · simp only [List.flatMap_append, ← hlive.whole, List.append_assoc]
      simp
    · intro x hx hxprobe
      rcases List.mem_append.mp hx with hx | hx
      · exact hlive.reads x hx hxprobe
      · obtain rfl := List.mem_singleton.mp hx
        exact hprobe hxprobe
    · by_cases hnone : s.unanswered = 0
      · exact .inr (hcount.trans hnone)
      · left
        intro x hx hxother
        rcases List.mem_append.mp hx with hx | hx
        · exact hlive.apart.resolve_right hnone x hx hxother
        · obtain rfl := List.mem_singleton.mp hx
          exact Bool.eq_false_iff.mpr fun hid => hnone (hother hxother hid)
  · cases hstep

/-- What is read is cut into frames of the radio. -/
theorem Live.cut (h : Live s up) (n : ℕ) :
    let cut := Delimited.pieces isEnd s.link.framing.pending (s.line.take n)
    cut.1 = (s.coming.take cut.1.length).map Frame.bytes ∧
      cut.2 ++ s.line.drop n = (s.coming.drop cut.1.length).flatMap Frame.bytes ∧
      ∀ b ∈ cut.2, isEnd b = false := by
  intro cut
  have hbodies : ∀ m ∈ s.coming.map Frame.body, ∀ b ∈ m, isEnd b = false := by
    intro m hm
    obtain ⟨x, -, rfl⟩ := List.mem_map.mp hm
    exact x.clear
  have hwire : s.link.framing.pending ++ s.line.take n ++ s.line.drop n =
      (s.coming.map Frame.body).flatMap (· ++ [0x3B]) := by
    rw [List.append_assoc, List.take_append_drop, h.whole, List.flatMap_map]
    rfl
  have hend : isEnd 0x3B = true := rfl
  obtain ⟨hframes, hrest⟩ := Delimited.pieces_of_wire hend hbodies h.clear hwire
  refine ⟨?_, ?_, Delimited.rest_clear h.clear⟩
  · rw [← List.map_take, List.map_map] at hframes
    exact hframes
  · rw [← List.map_drop, List.flatMap_map] at hrest
    exact hrest

/-- Without a failure, decoding is cutting and taking the frames one by one. -/
theorem frames_of_decode {f f' : Ts890LanFraming} {out : Decoded} {wire : Bytes}
    (h : f.decode wire = (f', out)) (hfailure : out.failure = none) :
    ({ f with pending := (Delimited.pieces isEnd f.pending wire).2 }).frames
      (Delimited.pieces isEnd f.pending wire).1 ⟨[], [], false, none⟩ = (f', out) := by
  unfold Ts890LanFraming.decode at h
  simp only at h
  split at h
  · exact h
  · split at h
    · cases h
      cases hfailure
    · exact h

/-- What the frames that were read whole do to the framing of a connection. -/
structure Read (s : Session) (up : Bool) (f' : Ts890LanFraming) (out : Decoded)
    (xs rest : List Frame) : Prop where
  stage_eq : f'.phase = stage (s.heard ++ xs)
  passed_eq : s.passed ++ out.payload = payloadOf (s.heard ++ xs)
  probes_eq : f'.probesOut = s.commands.countP id + rest.countP Frame.ofProbe
  unanswered_eq : s.unanswered = f'.probesOut + xs.countP Frame.ofProbe
  up_iff : stage (s.heard ++ xs) = .up ↔ (up || out.ready) = true
  early : f'.phase ≠ .up → out.payload = []
  replied : (if out.reply = [] then [] else [out.reply]).length +
    (if stage s.heard = .awaitConnect then 0 else 1) ≤
      if stage (s.heard ++ xs) = .awaitConnect then 0 else 1

theorem Live.read (h : Live s up) (hpassed : s.passed = payloadOf s.heard) {xs rest : List Frame}
    (hcoming : xs ++ rest = s.coming) {p : Bytes} {f' : Ts890LanFraming} {out : Decoded}
    (hframes : ({ s.link.framing with pending := p }).frames (xs.map Frame.bytes)
      ⟨[], [], false, none⟩ = (f', out)) (hfailure : out.failure = none) :
    f'.pending = p ∧ Read s up f' out xs rest := by
  obtain ⟨hstage, hfollows⟩ := frames_follows (f := { s.link.framing with pending := p })
    h.stage_eq hframes hfailure
  have hcounts : s.unanswered =
      s.commands.countP id + (xs.countP Frame.ofProbe + rest.countP Frame.ofProbe) := by
    rw [Session.unanswered, ← hcoming, List.countP_append]
  have hcount := h.count
  have hmem {x : Frame} (hx : x ∈ xs) : x ∈ s.coming := by
    rw [← hcoming]
    exact List.mem_append_left _ hx
  have htold : Told s.link.framing.probesOut xs :=
    ⟨fun x hx => h.reads x (hmem hx), by omega,
      h.apart.imp (fun hother x hx => hother x (hmem hx)) hcount.trans⟩
  have hbefore : s.link.framing.phase = .up ↔ up = true := by
    rw [h.stage_eq]
    exact h.up_iff
  have hearly : s.link.framing.phase ≠ .up → s.link.framing.probesOut = 0 := by
    intro hnot
    exact hcount.trans (h.early (Bool.eq_false_iff.mpr (mt hbefore.mpr hnot)))
  obtain ⟨hpayload, hprobes⟩ := frames_payload (f := { s.link.framing with pending := p })
    h.stage_eq hframes hfailure htold hearly ((List.append_nil s.passed).trans hpassed)
  have hleft : f'.probesOut = s.link.framing.probesOut - xs.countP Frame.ofProbe := hprobes
  refine ⟨hfollows.pending_eq, hstage, hpayload, by omega, by omega, ?_, hfollows.early, ?_⟩
  · -- the link is up when it was, or when the login was among the frames
    rw [← hstage, hfollows.ready_eq]
    cases up with
    | true => exact iff_of_true (hfollows.up_stays (hbefore.mpr rfl)) rfl
    | false =>
      have hnot : s.link.framing.phase ≠ .up := fun hup => nomatch hbefore.mp hup
      simp [hnot]
  · rcases hfollows.reply_eq with hreply | ⟨hawait, hasked⟩
    · have hsame : out.reply = [] := hreply
      rw [if_pos hsame, List.length_nil, Nat.zero_add]
      by_cases hconnect : stage s.heard = .awaitConnect
      · rw [if_pos hconnect]
        exact Nat.zero_le _
      · have hafter := hfollows.asked_stays (by rwa [← h.stage_eq] at hconnect)
        rw [hstage] at hafter
        rw [if_neg hconnect, if_neg hafter]
    · have hconnect : stage s.heard = .awaitConnect := h.stage_eq.symm.trans hawait
      rw [hstage] at hasked
      rw [if_pos hconnect, if_neg hasked]
      split <;> simp

theorem Inv.recv (h : Inv s) {n : ℕ} (hstep : s.step c (.recv n) = some t) : Inv t := by
  unfold Session.step at hstep
  simp only at hstep
  split at hstep
  next hin =>
    obtain ⟨link, hlink, ht⟩ := Option.map_eq_some_iff.mp hstep
    obtain ⟨hframing, up, hside, hhandshake, hlost, hkept⟩ := link_hear hlink
    obtain ⟨⟨f', out⟩, hdecode⟩ : ∃ r, s.link.framing.decode (s.line.take n) = r := ⟨_, rfl⟩
    simp only [framing, hdecode] at ht
    rw [hdecode] at hframing hlost hkept
    cases hfailure : out.failure with
    | some why =>
      rw [if_pos (by rw [hfailure]; rfl)] at ht
      subst ht
      refine ⟨h.passed_eq, h.replies_le, fun up' hup' => ?_⟩
      have hnone := hlost (by rw [hfailure]; rfl)
      cases hnone.symm.trans hup'
    | none =>
      rw [if_neg (by rw [hfailure]; exact Bool.false_ne_true)] at ht
      subst ht
      have hlive := h.live up hside
      obtain ⟨hcut, hwhole, hclear⟩ := hlive.cut n
      have hframes := frames_of_decode hdecode hfailure
      generalize Delimited.pieces isEnd s.link.framing.pending (s.line.take n) = cut at *
      rw [hcut] at hframes
      have hcoming := List.take_append_drop cut.1.length s.coming
      generalize s.coming.take cut.1.length = xs at *
      generalize s.coming.drop cut.1.length = rest at *
      have hmem {x : Frame} (hx : x ∈ rest) : x ∈ s.coming := by
        rw [← hcoming]
        exact List.mem_append_right _ hx
      obtain ⟨hpending, hread⟩ := hlive.read h.passed_eq hcoming hframes hfailure
      have hpayload : (if s.link.phase = .handshaking ∧ out.ready = false then []
          else out.payload) = out.payload := by
        split_ifs with hnone
        · have hnot : f'.phase ≠ .up := by
            rw [hread.stage_eq]
            intro hup'
            have hready := hread.up_iff.mp hup'
            rw [hhandshake.mpr hnone.1, hnone.2] at hready
            cases hready
          exact (hread.early hnot).symm
        · rfl
      have hunanswered := hread.unanswered_eq
      refine ⟨?_, ?_, fun up' hup' => ?_⟩
      · change s.passed ++ _ = _
        rw [hpayload]
        exact hread.passed_eq
      · have hle := h.replies_le
        have hreplied := hread.replied
        change (s.replies ++ _).length ≤ if stage (s.heard ++ xs) = .awaitConnect then 0 else 1
        rw [List.length_append]
        omega
      · have hsame : up' = (up || out.ready) := Option.some.inj (hup'.symm.trans (hkept hfailure))
        have hprobes : link.framing.probesOut = f'.probesOut :=
          congrArg Ts890LanFraming.probesOut hframing
        refine ⟨(congrArg Ts890LanFraming.phase hframing).trans hread.stage_eq,
          by rw [hsame]; exact hread.up_iff, ?_, ?_, hprobes.trans hread.probes_eq,
          fun x hx => hlive.reads x (hmem hx), ?_, ?_⟩
        · change ∀ b ∈ link.framing.pending, _
          rw [hframing, hpending]
          exact hclear
        · change link.framing.pending ++ _ = _
          rw [hframing, hpending]
          exact hwhole
        · refine hlive.apart.imp (fun hother x hx => hother x (hmem hx)) fun hnone => ?_
          exact hread.probes_eq.symm.trans (by omega)
        · intro hup
          have hnone := hlive.early (Bool.or_eq_false_iff.mp (hsame.symm.trans hup)).1
          exact hread.probes_eq.symm.trans (by omega)
  · cases hstep

/-- One step of the link, of the radio, or of the bytes between them. -/
theorem Inv.step (h : Inv s) {a : Act} (hproper : Proper s a) (hstep : s.step c a = some t) :
    Inv t := by
  cases a with
  | recv n => exact h.recv hstep
  | push body =>
    have hnone : s.commands.countP id + (if false then 1 else 0) = s.commands.countP id := rfl
    apply h.say hnone nofun ?_ hstep
    intro _ hid
    exact hproper hid
  | silent =>
    simp only [Session.step] at hstep
    split at hstep
    next commands hcommands =>
      cases hstep
      refine ⟨h.passed_eq, h.replies_le, fun up hup => ?_⟩
      have hlive := h.live up hup
      -- a command without an answer is no probe, and none is missed
      have hcount : ({ s with commands } : Session).unanswered = s.unanswered := by
        simp [Session.unanswered, hcommands]
      exact ⟨hlive.stage_eq, hlive.up_iff, hlive.clear, hlive.whole, hlive.count.trans hcount.symm,
        hlive.reads, hlive.apart.imp_right hcount.trans, fun hup => hcount.trans (hlive.early hup)⟩
    · cases hstep
  | answer body =>
    obtain ⟨hprobe, hother⟩ := hproper
    simp only [Session.step] at hstep
    split at hstep
    next ofProbe commands hcommands =>
      rw [hcommands] at hprobe hother
      apply h.say ?_ ?_ ?_ hstep
      · rw [hcommands]
        cases ofProbe <;> simp
      · rintro rfl
        exact hprobe rfl
      · rintro rfl
        exact hother rfl
    · cases hstep
  | link a =>
    have hrest (hhear : ∀ wire, a ≠ .hear wire) (hconnect : a ≠ .connect true)
        (hwrote : a ≠ .wrote .all)
        (hmap : (s.link.step framing c a).map (fun link => { s with link }) = some t) : Inv t := by
      obtain ⟨link, hlink, rfl⟩ := Option.map_eq_some_iff.mp hmap
      exact h.link_other hlink hhear hconnect hwrote
    cases a with
    | hear wire => cases hstep
    | connect ok =>
      cases ok with
      | true =>
        obtain ⟨link, hlink, rfl⟩ := Option.map_eq_some_iff.mp hstep
        exact inv_connect hlink
      | false => exact hrest nofun nofun nofun hstep
    | wrote result =>
      cases result with
      | all =>
        obtain ⟨link, hlink, rfl⟩ := Option.map_eq_some_iff.mp hstep
        exact h.link_wrote hlink hproper
      | failed n => exact hrest nofun nofun nofun hstep
    | _ => exact hrest nofun nofun nofun hstep

/-- There is nothing to say of a link before its first connection. -/
theorem inv_initial (credentials : LanCredentials) :
    Inv ⟨Net.initial (.new credentials), [], [], [], [], [], []⟩ := by
  refine ⟨rfl, Nat.le_refl _, fun up hup => ?_⟩
  cases hup

theorem Inv.right (h : Inv s) : Right s := by
  have hreplies := h.replies_le
  refine ⟨h.passed_eq, fun hnot => h.passed_eq.trans (payloadOf_of_stage hnot), ?_, ?_⟩
  · split at hreplies <;> omega
  · intro hsome
    apply exists_of_stage
    intro hnone
    rw [if_pos hnone] at hreplies
    exact hsome (List.eq_nil_of_length_eq_zero (Nat.le_zero.mp hreplies))

end Steps

section Runs

variable {c : Net.NetConfig} {credentials : LanCredentials} {s : Session}

instance (s : Session) : (a : Act) → Decidable (Proper s a)
  | .link (.wrote .all) => inferInstanceAs (Decidable (_ → _ ∧ _))
  | .answer _ => inferInstanceAs (Decidable (_ ∧ _))
  | .push _ => inferInstanceAs (Decidable (_ → _))
  | .recv _ | .silent => isTrue trivial
  | .link (.wrote (.failed _)) | .link (.write _) | .link .drop | .link (.drain _) | .link .eof
  | .link (.connect _) | .link (.hear _) | .link .fail | .link .announce | .link (.take _)
  | .link .probe | .link (.delivered _) | .link .report | .link .wake => isTrue trivial

/-- An account that the login frame can carry. -/
def operator : LanCredentials :=
  ⟨false, ascii "kb", ascii "pw", ascii "##ID10202kbpw;", by decide⟩

/-- Connection, login, and a probe that is sent. -/
def probing : List Act :=
  [.link (.connect true), .link (.wrote .all), .answer CN1, .recv 6, .link (.wrote .all),
    .answer ID1, .recv 6, .link .announce, .link .probe, .link (.wrote .all)]

/-- As long as no answer can be taken for another, exactly the answers to probes are taken out. -/
theorem session_right (h : (machine c credentials).Reach Proper s) : Right s := by
  apply Inv.right
  apply h.invariant
  · rintro _ rfl
    exact inv_initial credentials
  · intro s a t hinv hproper hstep
    exact hinv.step hproper hstep

theorem session_right_probed : ∃ s, (machine ⟨.tcp, 1⟩ operator).Reach Proper s ∧
    s.passed = ascii "FA00014;" ∧ Right s := by
  have hstart : (machine ⟨.tcp, 1⟩ operator).Reach Proper
      ⟨Net.initial (.new operator), [], [], [], [], [], []⟩ := .init rfl
  obtain ⟨s, hreach, hpassed⟩ := hstart.exists_of_runWhile
    (P := fun s => s.passed = ascii "FA00014;")
    (probing ++ [.answer (ascii "ID024"), .push (ascii "FA00014"), .recv 3, .recv 11])
    (by decide +kernel)
  exact ⟨s, hreach, hpassed, session_right hreach⟩

/-- The refusal of a probe is passed up. -/
theorem refusal_passed_up : ∃ s, (machine ⟨.tcp, 1⟩ operator).Reachable s ∧ ¬ Right s := by
  have hstart : (machine ⟨.tcp, 1⟩ operator).Reachable
      ⟨Net.initial (.new operator), [], [], [], [], [], []⟩ := .init rfl
  obtain ⟨s, hreach, hpassed, hdue⟩ := hstart.exists_of_run
    (P := fun s => s.passed = ascii "?;" ∧ payloadOf s.heard = [])
    (probing ++ [.answer (ascii "?"), .recv 2])
    (by decide +kernel)
  refine ⟨s, hreach, fun hright => ?_⟩
  have heq := hpassed.symm.trans (hright.passed_eq.trans hdue)
  revert heq
  decide

end Runs

end HamsOpen.Kenwood
