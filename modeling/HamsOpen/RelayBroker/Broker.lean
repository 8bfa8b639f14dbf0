import HamsOpen.RelayBroker.Frame
import HamsOpen.RelayBroker.Policy
import Mathlib

/-!
# The actions of the relay broker

What a peer that is let in gets for a request (`broker.rs`), and for the body of one (`server.rs`).
Whether the rate limiter lets the request through is an input. A device is opened after its path and
the nodes on the way have been checked; the kind of the node is checked again on the descriptor, and
the USB identity is not. So a protected device that takes the place of another one of its class,
after the identity was read under the name of the node, is handed out.
-/

namespace HamsOpen.RelayBroker

structure Broker where
  policy : Policy
  /-- Groups are changed, and not only reported. -/
  applyGroups : Bool

/-- An answer, with the descriptor that is passed along. -/
abbrev Answer := Response × Option Node

def refuse (status : Status) (reason : String) : Answer := (.error status reason, none)

namespace Broker

/-- What is done with a descriptor: its node is checked before it is passed. -/
def handOver (b : Broker) (klass : DeviceClass) (fd : Node) : Act Answer := do
  match b.policy.checkFd (← fdKind fd) klass with
  | .error d => pure (refuse .denied d.reason)
  | .ok () => pure (.opened, some fd)

/-- The open itself. -/
def openChecked (b : Broker) (klass : DeviceClass) (readOnly : Bool) (clean : Path) :
    Act Answer := do
  match ← ask fun os n => os.openDevice n clean readOnly with
  | .error e => pure (refuse .failed ("open: " ++ e))
  | .ok fd => b.handOver klass fd

/-- The open action. -/
def openDevice (b : Broker) (klass : DeviceClass) (readOnly : Bool) (path : String) : Act Answer :=
  match b.policy.checkPath path with
  | .error d => pure (refuse .denied d.reason)
  | .ok clean => do
    match ← (b.policy.checkNode clean klass).run with
    | .error d => pure (refuse .denied d.reason)
    | .ok () => b.openChecked klass readOnly clean

/-- Adds an account to groups, until one fails. -/
def addAll (user : String) : List String → Act (Option (String × String))
  | [] => pure none
  | g :: groups => do
    match ← ask fun os n => os.addToGroup n user g with
    | .error e => pure (some (g, e))
    | .ok () => addAll user groups

/-- The provisioning action. -/
def grant (b : Broker) (uid : UInt32) (groups : List Group) : Act Answer := do
  match ← ask fun os n => os.username n uid with
  | none => pure (refuse .failed "unknown uid")
  | some user => do
    let belongs ← ask fun os n => os.groupsOf n user
    let missing := (groups.map Group.name).filter (· ∉ belongs)
    if b.applyGroups && !missing.isEmpty then do
      match ← addAll user missing with
      | some (g, e) => pure (refuse .failed ("add to " ++ g ++ ": " ++ e))
      | none => pure (.groupReport true user missing, none)
    else pure (.groupReport false user missing, none)

/-- Decides and performs a request of a peer, if the rate limiter allows it. -/
def handle (b : Broker) (uid : UInt32) (allowed : Bool) (req : Request) : Act Answer :=
  if !allowed then pure (refuse .rateLimited "too many requests")
  else match req with
    | .listDevices klass => do
      let devs ← ask fun os n => os.listDevices n
      let listed := devs.filter fun d =>
        klass.all (· = d.klass) && (d.vid, d.pid) ∉ b.policy.denyUsb
      pure (.devices listed, none)
    | .openDevice klass readOnly path => b.openDevice klass readOnly path
    | .grantGroup group => b.grant uid [group]
    | .provisionGroups => b.grant uid [.dialout, .audio]

/-- The answer to the body of a frame. -/
def serve (b : Broker) (uid : UInt32) (allowed : Bool) (body : List UInt8) : Act Answer :=
  match Request.decode body with
  | .ok req => b.handle uid allowed req
  | .error (.version _) => pure (refuse .unsupportedVersion "unsupported protocol version")
  | .error _ => pure (refuse .malformed "malformed request")

end Broker

variable {b : Broker} {os : Os} {n : ℕ} {klass : DeviceClass} {readOnly : Bool} {path : String}

/-! ### Answers are proper -/

/-- What an action answers at every instant. -/
def Answers (x : Act Answer) (P : Answer → Prop) : Prop := ∀ os n, P (x os n).1

theorem Answers.pure {a : Answer} {P : Answer → Prop} (h : P a) : Answers (pure a) P := fun _ _ => h

theorem Answers.bind {α : Type} {x : Act α} {f : α → Act Answer} {P : Answer → Prop}
    (h : ∀ a, Answers (f a) P) : Answers (x >>= f) P := fun os n => h (x os n).1 os (x os n).2

theorem proper_refuse {status : Status} {reason : String} (h : status ≠ .ok) :
    Answers (pure (refuse status reason)) fun a => a.1.Proper := Answers.pure h

theorem openDevice_proper : Answers (b.openDevice klass readOnly path) fun a => a.1.Proper := by
  unfold Broker.openDevice
  split
  · exact proper_refuse (by decide)
  · apply Answers.bind
    intro checked
    split
    · exact proper_refuse (by decide)
    · apply Answers.bind
      intro opened
      split
      · exact proper_refuse (by decide)
      · apply Answers.bind
        intro kind
        split
        · exact proper_refuse (by decide)
        · exact Answers.pure trivial

theorem grant_proper {uid : UInt32} {groups : List Group}
    (h : groups.length ≤ Response.MAX_GROUPS) :
    Answers (b.grant uid groups) fun a => a.1.Proper := by
  have hreport (applied : Bool) (user : String) (belongs : List String) :
      (Response.groupReport applied user
        ((groups.map Group.name).filter (· ∉ belongs))).Proper := by
    apply Nat.le_trans (List.length_filter_le _ _)
    rw [List.length_map]
    exact h
  unfold Broker.grant
  apply Answers.bind
  intro found
  split
  · exact proper_refuse (by decide)
  · apply Answers.bind
    intro belongs
    dsimp only
    split
    · apply Answers.bind
      intro added
      split
      · exact proper_refuse (by decide)
      · exact Answers.pure (hreport _ _ _)
    · exact Answers.pure (hreport _ _ _)

/-- Answers are those that the encoding was made for: with few groups, and with errors that have
the status of one. -/
theorem serve_proper (b : Broker) (uid : UInt32) (allowed : Bool) (body : List UInt8) :
    Answers (b.serve uid allowed body) fun a => a.1.Proper := by
  unfold Broker.serve
  split
  · unfold Broker.handle
    split
    · exact proper_refuse (by decide)
    · split
      · apply Answers.bind
        intro devs
        exact Answers.pure trivial
      · exact openDevice_proper
      · exact grant_proper (Nat.le_of_ble_eq_true rfl)
      · exact grant_proper (Nat.le_of_ble_eq_true rfl)
  · exact proper_refuse (by decide)
  · exact proper_refuse (by decide)

/-- Requests are received as they were cut, and an answer of the broker is when it fits in a frame.
Bodies that are read are encoded as they were. -/
theorem messages_survive (m : Request) (b : Broker) (uid : UInt32) (allowed : Bool)
    (body : List UInt8) (os : Os) (n : ℕ) :
    received Request.decode m.encode = .ok m.cut ∧
    (let answer := (b.serve uid allowed body os n).1.1
     received Response.decode answer.encode = .ok answer.cut ↔ answer.size ≤ MAX_FRAME) ∧
    (∀ m, Request.decode body = .ok m → m.encode = body) ∧
    (∀ m, Response.decode body = .ok m → m.encode = body) := by
  refine ⟨Request.received_encode m, ?_, ?_, ?_⟩
  · exact Response.received_encode_iff (serve_proper b uid allowed body os n)
  · intro m h
    exact (Request.decode_iff.mp h).2.symm
  · intro m h
    exact (Response.decode_iff.mp h).2.symm

/-- A system with a rack of USB bridges, where every port is what the list says. -/
def rack : Os where
  nodeKind _ _ := .char 188 0
  openDevice _ _ _ := .ok ⟨.char 188 0, some (0x10c4, 0xea60)⟩
  fstat _ _ := true
  usbIdentityFromSysfs _ _ := some (0x10c4, 0xea60)
  listDevices _ := List.replicate 64
    ⟨.serial, "/dev/ttyUSB0", 0x10c4, 0xea60, "CP2102N USB to UART Bridge Controller",
      "Silicon Labs"⟩
  username _ _ := some "ham"
  groupsOf _ _ := []
  addToGroup _ _ _ := .ok ()

theorem messages_survive_opened : Response.opened.encode = [1, 0, 2] :=
  (messages_survive .provisionGroups ⟨.default, false⟩ 1000 true [1, 0, 2] rack 0).2.2.2 .opened
    (by decide +kernel)

/-- The list of a rack is too long for its frame, which is not read at all. -/
theorem list_cut_short :
    let answer := ((Broker.mk .default false).serve 1000 true [1, 1, 0] rack 0).1.1
    received Response.decode answer.encode ≠ .ok answer.cut := by
  intro answer hread
  have hsize := (Response.received_encode_iff (serve_proper _ _ _ _ _ _)).mp hread
  exact absurd hsize (by decide +kernel)

/-! ### What is handed out -/

/-- The nodes on the way from `cursor` are directories, and the last is a device, each when it is
asked for. -/
def Walked (p : Policy) (klass : DeviceClass) (os : Os) : ℕ → Path → List String → Prop
  | _, _, [] => True
  | n, cursor, [part] => p.IsDevice klass (os.nodeKind n (cursor.push part))
  | n, cursor, part :: parts =>
    os.nodeKind n (cursor.push part) = .dir ∧ Walked p klass os (n + 1) (cursor.push part) parts

/-- The USB identity under the name of the node, if there is one when it is asked for. -/
def identityAt (os : Os) (n : ℕ) (path : Path) : Option UsbId :=
  (sysfsDirFor path).bind (os.usbIdentityFromSysfs n)

/-- How many questions there are about the USB identity. -/
def identityAsked (path : Path) : ℕ := if (sysfsDirFor path).isSome then 1 else 0

/-- The checks before the open let the path through. -/
structure Checked (p : Policy) (klass : DeviceClass) (os : Os) (n : ℕ) (path : String)
    (rel : List String) : Prop where
  text : p.checkPath path = .ok (.of path)
  below : (Path.of path).stripPrefix p.deviceRoot = some rel
  walked : Walked p klass os n p.deviceRoot rel
  identity : ¬ p.Protects (identityAt os (n + rel.length) (.of path))

/-- The instant of the open. -/
def openedAt (n : ℕ) (path : String) (rel : List String) : ℕ :=
  n + rel.length + identityAsked (.of path)

/-- The open gives a device of the class, and the descriptor can be asked for it. -/
structure Opened (p : Policy) (klass : DeviceClass) (os : Os) (n : ℕ) (readOnly : Bool)
    (path : String) (node : Node) : Prop where
  fd : os.openDevice n (.of path) readOnly = .ok node
  fstat : os.fstat (n + 1) node = true
  device : p.IsDevice klass node.kind

/-- The path passes every check before the open, and the open gives a device of the class that is
protected. -/
def Overlooked (p : Policy) (klass : DeviceClass) (os : Os) (n : ℕ) (readOnly : Bool)
    (path : String) : Prop :=
  ∃ rel node, Checked p klass os n path rel ∧
    Opened p klass os (openedAt n path rel) readOnly path node ∧ p.Protects node.usb

variable {p : Policy}

theorem walk_eq_ok (cursor : Path) (parts : List String) (n : ℕ) {r : ℕ} :
    p.walk klass cursor parts os n = (.ok (), r) ↔
      Walked p klass os n cursor parts ∧ r = n + parts.length := by
  induction parts generalizing cursor n with
  | nil =>
    constructor
    · intro h
      cases h
      exact ⟨trivial, rfl⟩
    · rintro ⟨-, rfl⟩
      rfl
  | cons part parts ih =>
    cases parts with
    | nil =>
      change (p.checkKind (os.nodeKind n (cursor.push part)) klass, n + 1) = (.ok (), r) ↔ _
      rw [Prod.mk.injEq, Policy.checkKind_eq_ok, eq_comm (a := n + 1)]
      rfl
    | cons next parts =>
      rw [Policy.walk_cons]
      change _ ↔
        (os.nodeKind n (cursor.push part) = .dir ∧
          Walked p klass os (n + 1) (cursor.push part) (next :: parts)) ∧ _
      have hlength : n + (part :: next :: parts).length = n + 1 + (next :: parts).length := by
        simp only [List.length_cons]
        omega
      rw [hlength]
      cases os.nodeKind n (cursor.push part) with
      | dir =>
        dsimp only
        rw [ih, and_assoc]
        exact ⟨fun h => ⟨rfl, h⟩, And.right⟩
      | _ => exact iff_of_false (by rintro ⟨⟩) (by rintro ⟨⟨⟨⟩, -⟩, -⟩)

theorem usbIdentity_eq (path : Path) :
    usbIdentity path os n = (identityAt os n path, n + identityAsked path) := by
  unfold usbIdentity identityAt identityAsked
  cases sysfsDirFor path <;> rfl

theorem any_iff_protects {usb : Option UsbId} :
    usb.any (· ∈ p.denyUsb) = true ↔ p.Protects usb := by
  cases usb with
  | none => exact ⟨fun h => (nomatch h), fun ⟨_, _, h⟩ => (nomatch h)⟩
  | some id =>
    rw [Option.any_some, decide_eq_true_iff]
    constructor
    · intro h
      exact ⟨id, h, rfl⟩
    · rintro ⟨_, h, heq⟩
      cases heq
      exact h

theorem checkNode_eq_ok {r : ℕ} : p.checkNode (.of path) klass os n = (.ok (), r) ↔
    ∃ rel, (Path.of path).stripPrefix p.deviceRoot = some rel ∧
      Walked p klass os n p.deviceRoot rel ∧
      ¬ p.Protects (identityAt os (n + rel.length) (.of path)) ∧ r = openedAt n path rel := by
  unfold Policy.checkNode
  cases hrel : (Path.of path).stripPrefix p.deviceRoot with
  | none =>
    constructor
    · intro h
      cases h
    · rintro ⟨rel, h, -⟩
      cases h
  | some rel =>
    have hidentity (m : ℕ) : (do
        let usb ← usbIdentity (.of path)
        if usb.any (· ∈ p.denyUsb) then throw .protectedUsb else pure () : Checks Unit) os m =
        (if (identityAt os m (.of path)).any (· ∈ p.denyUsb) then .error .protectedUsb else .ok (),
          m + identityAsked (.of path)) := by
      change (if (usbIdentity (.of path) os m).1.any (· ∈ p.denyUsb) then throw .protectedUsb
        else pure () : Checks Unit) os (usbIdentity (.of path) os m).2 = _
      rw [usbIdentity_eq]
      split <;> rfl
    dsimp only
    rw [Checks.bind_eq_ok]
    constructor
    · rintro ⟨_, m, hwalk, hrest⟩
      obtain ⟨hwalked, rfl⟩ := (walk_eq_ok _ _ _).mp hwalk
      rw [hidentity] at hrest
      split at hrest
      next => cases hrest
      next hunlisted =>
        cases hrest
        exact ⟨rel, rfl, hwalked, mt any_iff_protects.mpr hunlisted, rfl⟩
    · rintro ⟨_, hsome, hwalked, hidentified, rfl⟩
      cases hsome
      refine ⟨(), _, (walk_eq_ok _ _ _).mpr ⟨hwalked, rfl⟩, ?_⟩
      rw [hidentity, if_neg (mt any_iff_protects.mp hidentified)]
      rfl

/-- A descriptor is passed when it is of a device of the class. -/
theorem handOver_eq_some {fd node : Node} : (b.handOver klass fd os n).1.2 = some node ↔
    node = fd ∧ os.fstat n fd = true ∧ b.policy.IsDevice klass fd.kind := by
  have hkind : fdKind fd os n = (if os.fstat n fd then fd.kind else .missing, n + 1) := by
    change (if os.fstat n fd then pure fd.kind else pure .missing : Act NodeKind) os (n + 1) = _
    split <;> rfl
  change (match b.policy.checkFd (fdKind fd os n).1 klass with
    | .error d => pure (refuse .denied d.reason)
    | .ok () => pure (.opened, some fd) : Act Answer) os (fdKind fd os n).2 |>.1.2 = _ ↔ _
  rw [hkind]
  cases hstat : os.fstat n fd with
  | false =>
    constructor
    · intro h
      cases h
    · rintro ⟨-, h, -⟩
      cases h
  | true =>
    rw [if_pos rfl, ← Policy.checkKind_eq_ok]
    unfold Policy.checkFd
    cases b.policy.checkKind fd.kind klass with
    | error d => exact ⟨fun h => (nomatch h), fun h => (nomatch h.2.2)⟩
    | ok _ =>
      constructor
      · intro h
        cases h
        exact ⟨rfl, rfl, rfl⟩
      · rintro ⟨rfl, -, -⟩
        rfl

theorem openChecked_eq_some {node : Node} :
    (b.openChecked klass readOnly (.of path) os n).1.2 = some node ↔
      Opened b.policy klass os n readOnly path node := by
  change (match os.openDevice n (.of path) readOnly with
    | .error e => pure (refuse .failed ("open: " ++ e))
    | .ok fd => b.handOver klass fd : Act Answer) os (n + 1) |>.1.2 = _ ↔ _
  cases hopen : os.openDevice n (.of path) readOnly with
  | error e =>
    constructor
    · intro h
      cases h
    · intro hopened
      have hfd := hopened.fd
      rw [hopen] at hfd
      cases hfd
  | ok fd =>
    dsimp only
    rw [handOver_eq_some]
    constructor
    · rintro ⟨rfl, hstat, hdevice⟩
      exact ⟨hopen, hstat, hdevice⟩
    · rintro ⟨hfd, hstat, hdevice⟩
      obtain rfl := Except.ok.inj (hopen.symm.trans hfd)
      exact ⟨rfl, hstat, hdevice⟩

/-- The descriptor of an open is of the node that was opened, after every check. -/
theorem openDevice_eq_some {node : Node} :
    (b.openDevice klass readOnly path os n).1.2 = some node ↔
      ∃ rel, Checked b.policy klass os n path rel ∧
        Opened b.policy klass os (openedAt n path rel) readOnly path node := by
  unfold Broker.openDevice
  cases hpath : b.policy.checkPath path with
  | error d =>
    constructor
    · intro h
      cases h
    · rintro ⟨rel, hchecked, -⟩
      have htext := hchecked.text
      rw [hpath] at htext
      cases htext
  | ok clean =>
    obtain ⟨-, -, rfl⟩ := Policy.checkPath_eq_ok.mp hpath
    change (match (b.policy.checkNode (.of path) klass os n).1 with
      | .error d => pure (refuse .denied d.reason)
      | .ok () => b.openChecked klass readOnly (.of path) : Act Answer) os
      (b.policy.checkNode (.of path) klass os n).2 |>.1.2 = _ ↔ _
    rcases hnode : b.policy.checkNode (.of path) klass os n with ⟨_ | _, m⟩
    · constructor
      · intro h
        cases h
      · rintro ⟨rel, hchecked, -⟩
        have hok := checkNode_eq_ok.mpr
          ⟨rel, hchecked.below, hchecked.walked, hchecked.identity, rfl⟩
        rw [hnode] at hok
        cases hok
    · obtain ⟨rel, hbelow, hwalked, hidentity, rfl⟩ := checkNode_eq_ok.mp hnode
      dsimp only
      rw [openChecked_eq_some]
      constructor
      · intro hopened
        exact ⟨rel, ⟨hpath, hbelow, hwalked, hidentity⟩, hopened⟩
      · rintro ⟨rel', hchecked, hopened⟩
        obtain rfl := Option.some.inj (hchecked.below.symm.trans hbelow)
        exact hopened

/-- An open never gives a node of another class, nor any under a path that is not admitted. -/
theorem openDevice_device {node : Node}
    (h : (b.openDevice klass readOnly path os n).1.2 = some node) :
    b.policy.Admits path ∧ b.policy.IsDevice klass node.kind := by
  obtain ⟨rel, hchecked, hopened⟩ := openDevice_eq_some.mp h
  exact ⟨(Policy.checkPath_eq_ok.mp hchecked.text).2.1, hopened.device⟩

/-- Only a request for a device is answered with a descriptor. -/
theorem grant_eq_none (uid : UInt32) (groups : List Group) :
    Answers (b.grant uid groups) fun a => a.2 = none := by
  unfold Broker.grant
  apply Answers.bind
  intro found
  split
  · exact Answers.pure rfl
  · apply Answers.bind
    intro belongs
    dsimp only
    split
    · apply Answers.bind
      intro added
      split
      · exact Answers.pure rfl
      · exact Answers.pure rfl
    · exact Answers.pure rfl

theorem handle_eq_some {uid : UInt32} {allowed : Bool} {req : Request} {node : Node}
    (h : (b.handle uid allowed req os n).1.2 = some node) :
    allowed = true ∧ ∃ klass readOnly path, req = .openDevice klass readOnly path := by
  unfold Broker.handle at h
  cases allowed with
  | false => cases h
  | true =>
    refine ⟨rfl, ?_⟩
    cases req with
    | openDevice klass readOnly path => exact ⟨klass, readOnly, path, rfl⟩
    | listDevices klass => cases h
    | grantGroup group => exact nomatch (grant_eq_none uid _ os n).symm.trans h
    | provisionGroups => exact nomatch (grant_eq_none uid _ os n).symm.trans h

/-- What is handed out fits the request, and its path is admitted, unless a protected node was
overlooked. -/
theorem handed_out_fits (b : Broker) (uid : UInt32) (allowed : Bool) (req : Request) (os : Os)
    (n : ℕ) :
    (∀ node, (b.handle uid allowed req os n).1.2 = some node → ∃ klass readOnly path,
      req = .openDevice klass readOnly path ∧ b.policy.Admits path ∧ b.policy.Fits klass node) ↔
    ¬ (allowed = true ∧ ∃ klass readOnly path, req = .openDevice klass readOnly path ∧
      Overlooked b.policy klass os n readOnly path) := by
  constructor
  · rintro hfits ⟨rfl, klass, readOnly, path, rfl, rel, node, hchecked, hopened, hprotected⟩
    obtain ⟨_, _, _, heq, -, hfit⟩ := hfits node (openDevice_eq_some.mpr ⟨rel, hchecked, hopened⟩)
    exact hfit.unprotected hprotected
  · intro hnone node hnode
    obtain ⟨rfl, klass, readOnly, path, rfl⟩ := handle_eq_some hnode
    obtain ⟨hadmits, hdevice⟩ := openDevice_device hnode
    refine ⟨klass, readOnly, path, rfl, hadmits, hdevice, fun hprotected => hnone ?_⟩
    obtain ⟨rel, hchecked, hopened⟩ := openDevice_eq_some.mp hnode
    exact ⟨rfl, klass, readOnly, path, rfl, rel, node, hchecked, hopened, hprotected⟩

/-- A sound card is unplugged once its identity was read, and the analyser's takes its name. -/
def swapped : Os :=
  { rack with
    nodeKind := fun _ path => if path = .of "/dev/snd" then .dir else .char 116 5
    usbIdentityFromSysfs := fun _ _ => some (0x0d8c, 0x0014)
    openDevice := fun _ _ _ => .ok ⟨.char 116 5, some VNWA_CODEC⟩ }

def captureRequest : Request := .openDevice .audio true "/dev/snd/pcmC1D0c"

/-- The analyser's sound card is handed out. -/
theorem protected_handed_out :
    ¬ ∀ node,
      ((Broker.mk .default false).handle 1000 true captureRequest swapped 0).1.2 = some node →
      ∃ klass readOnly path, captureRequest = .openDevice klass readOnly path ∧
        Policy.default.Admits path ∧ Policy.default.Fits klass node := by
  intro hfits
  obtain ⟨_, _, _, -, -, hfit⟩ := hfits ⟨.char 116 5, some VNWA_CODEC⟩ (by decide +kernel)
  exact hfit.unprotected ⟨VNWA_CODEC, List.mem_singleton_self _, rfl⟩

end HamsOpen.RelayBroker
