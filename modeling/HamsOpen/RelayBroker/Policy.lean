import HamsOpen.RelayBroker.Wire

/-!
# Which device nodes are handed out

The policy of the relay broker (`policy.rs`), and what it asks of the operating system (`os.rs`).
A path is checked as text, then each node on the way to it, then the USB identity that the system
files keep under the name of the node. The kind of the node is checked once more on the descriptor.

Every question to the operating system is answered for the instant it is asked at, so a path may
lead to another node from one question to the next. A descriptor stays with the node it was opened
on.
-/

namespace HamsOpen.RelayBroker

/-- The components of a path. -/
structure Path where
  absolute : Bool
  parts : List String
  deriving DecidableEq

/-- What stands between the slashes of a text. -/
def segments (path : String) : List String := (path.toList.splitOn '/').map String.ofList

namespace Path

/-- The path of a text. Empty components are left out, and dots are as well, unless a relative path
begins with one. -/
def of (path : String) : Path :=
  let absolute := path.toList.head? == some '/'
  let segs := segments path
  let kept := segs.filter fun seg => seg ≠ "" ∧ seg ≠ "."
  { absolute, parts := if !absolute && segs.head? == some "." then "." :: kept else kept }

def push (p : Path) (part : String) : Path := { p with parts := p.parts ++ [part] }

/-- What is left of a path below `root`. -/
def stripPrefix (p root : Path) : Option (List String) :=
  if p.absolute = root.absolute ∧ root.parts <+: p.parts then some (p.parts.drop root.parts.length)
  else none

end Path

/-! ### The operating system -/

/-- What a node of the file system is, as far as the policy cares. -/
inductive NodeKind
  | char (major minor : UInt32)
  | block
  | dir
  | symlink
  | other
  | missing
  deriving DecidableEq

abbrev UsbId := UInt16 × UInt16

scoped instance : LawfulBEq UsbId := inferInstance

/-- A node, with the USB device behind it if there is one. -/
structure Node where
  kind : NodeKind
  usb : Option UsbId
  deriving DecidableEq

/-- A class directory of the system files, and a name in it. -/
structure SysfsDir where
  klass : String
  name : String
  deriving DecidableEq

/-- What the operating system answers to each question, when so many were asked before it. An open
gives the node that the descriptor is of, or the text of the error. -/
structure Os where
  nodeKind : ℕ → Path → NodeKind
  openDevice : ℕ → Path → Bool → Except String Node
  fstat : ℕ → Node → Bool
  usbIdentityFromSysfs : ℕ → SysfsDir → Option UsbId
  listDevices : ℕ → List DeviceDescriptor
  username : ℕ → UInt32 → Option String
  groupsOf : ℕ → String → List String
  addToGroup : ℕ → String → String → Except String Unit

/-- Functions that ask the operating system, with how many questions were asked. -/
abbrev Act (α : Type) := ReaderT Os (StateM ℕ) α

/-- Asks one question. -/
def ask {α : Type} (question : Os → ℕ → α) : Act α := fun os n => (question os n, n + 1)

/-- The system directory of a device node. -/
def sysfsDirFor (path : Path) : Option SysfsDir :=
  match path.stripPrefix ⟨true, ["dev"]⟩ with
  | some [name] => if "tty".toList <+: name.toList then some ⟨"class/tty", name⟩ else none
  | some ["snd", name] => some ⟨"class/sound", name⟩
  | _ => none

/-- The USB identity that is kept under the name of a node. -/
def usbIdentity (path : Path) : Act (Option UsbId) :=
  match sysfsDirFor path with
  | some dir => ask fun os n => os.usbIdentityFromSysfs n dir
  | none => pure none

/-- The kind of the node that a descriptor is of. -/
def fdKind (fd : Node) : Act NodeKind := do
  if ← ask fun os n => os.fstat n fd then pure fd.kind else pure .missing

/-! ### The policy -/

/-- Why an open was refused. -/
inductive Denial
  | notAbsolute
  | outsideRoot
  | traversal
  | tooLong
  | denyListed
  | symlink
  | notCharDevice
  | wrongClass
  | protectedUsb
  deriving DecidableEq

def Denial.reason : Denial → String
  | notAbsolute => "path not absolute"
  | outsideRoot => "path outside device root"
  | traversal => "path traversal"
  | tooLong => "path too long"
  | denyListed => "device on deny list"
  | symlink => "symlink in device path"
  | notCharDevice => "not a character device"
  | wrongClass => "device class mismatch"
  | protectedUsb => "protected usb device"

/-- The policy table. -/
structure Policy where
  deviceRoot : Path
  serialMajors : List UInt32
  audioMajors : List UInt32
  denyUsb : List UsbId
  denyPaths : List Path
  /-- The configuration takes no other device root. -/
  rooted : deviceRoot.absolute = true

/-- The USB codec of the vector network analyser. -/
def VNWA_CODEC : UsbId := (0x08bb, 0x29c0)

/-- The conventions of Linux. -/
def Policy.default : Policy where
  deviceRoot := .of "/dev"
  serialMajors := [4, 166, 188, 204, 207]
  audioMajors := [116]
  denyUsb := [VNWA_CODEC]
  denyPaths := ["/dev/mem", "/dev/kmem", "/dev/port", "/dev/console", "/dev/tty"].map Path.of
  rooted := by decide

/-- Checks that ask the operating system. -/
abbrev Checks (α : Type) := ExceptT Denial Act α

def Checks.ask {α : Type} (question : Os → ℕ → α) : Checks α :=
  ExceptT.lift (RelayBroker.ask question)

theorem Checks.bind_eq_ok {α β : Type} {x : Checks α} {f : α → Checks β} {os : Os} {n r : ℕ}
    {b : β} :
    (x >>= f) os n = (.ok b, r) ↔ ∃ a m, x os n = (.ok a, m) ∧ f a os m = (.ok b, r) := by
  change ExceptT.bindCont f (x os n).1 os (x os n).2 = _ ↔ _
  rcases x os n with ⟨_ | a, m⟩
  · constructor
    · intro h
      cases h
    · rintro ⟨a, m, h, -⟩
      cases h
  · constructor
    · intro h
      exact ⟨a, m, rfl, h⟩
    · rintro ⟨a, m, h, hf⟩
      cases h
      exact hf

namespace Policy

/-- The check of a path as text. -/
def checkPath (p : Policy) (path : String) : Except Denial Path :=
  if MAX_STRING < (Utf8.bytes path).length ∨ '\x00' ∈ path.toList then .error .tooLong
  else if (Path.of path).absolute = false then .error .notAbsolute
  else if (segments path).tail.any fun seg => seg = "" ∨ seg = "." ∨ seg = ".." then
    .error .traversal
  else
    let clean := Path.of path
    if clean.stripPrefix p.deviceRoot = none ∨ clean = p.deviceRoot then .error .outsideRoot
    else if clean ∈ p.denyPaths then .error .denyListed
    else .ok clean

/-- The class that a major number belongs to. -/
def classOfMajor (p : Policy) (major : UInt32) : Option DeviceClass :=
  if major ∈ p.serialMajors then some .serial
  else if major ∈ p.audioMajors then some .audio
  else none

/-- A kind is that of a character device of the class `klass`. -/
def checkKind (p : Policy) (kind : NodeKind) (klass : DeviceClass) : Except Denial Unit :=
  match kind with
  | .char major _ => if p.classOfMajor major = some klass then .ok () else .error .wrongClass
  | .symlink => .error .symlink
  | _ => .error .notCharDevice

/-- Every part on the way from `cursor` is a directory, and the last one a device of the class. -/
def walk (p : Policy) (klass : DeviceClass) (cursor : Path) : List String → Checks Unit
  | [] => pure ()
  | [part] => do
    let kind ← Checks.ask fun os n => os.nodeKind n (cursor.push part)
    ExceptT.mk (pure (p.checkKind kind klass))
  | part :: parts => do
    let kind ← Checks.ask fun os n => os.nodeKind n (cursor.push part)
    match kind with
    | .dir => walk p klass (cursor.push part) parts
    | .symlink => throw .symlink
    | _ => throw .notCharDevice

theorem walk_cons {p : Policy} {klass : DeviceClass} {cursor : Path} {part next : String}
    {parts : List String} (os : Os) (n : ℕ) :
    p.walk klass cursor (part :: next :: parts) os n =
      (match os.nodeKind n (cursor.push part) with
        | .dir => p.walk klass (cursor.push part) (next :: parts)
        | .symlink => throw .symlink
        | _ => throw .notCharDevice : Checks Unit) os (n + 1) := rfl

/-- The check of the nodes that a path leads by, and of the USB identity under its name. -/
def checkNode (p : Policy) (clean : Path) (klass : DeviceClass) : Checks Unit :=
  match clean.stripPrefix p.deviceRoot with
  | none => throw .outsideRoot
  | some rel => do
    p.walk klass p.deviceRoot rel
    let usb ← usbIdentity clean
    if usb.any (· ∈ p.denyUsb) then throw .protectedUsb else pure ()

/-- The check of the descriptor. -/
def checkFd (p : Policy) (kind : NodeKind) (klass : DeviceClass) : Except Denial Unit :=
  p.checkKind kind klass

/-! ### What may be handed out -/

variable {p : Policy}

/-- The paths that may be opened. -/
structure Admits (p : Policy) (path : String) : Prop where
  absolute : path.toList.head? = some '/'
  plain : ∀ seg ∈ (segments path).tail, seg ≠ "" ∧ seg ≠ "." ∧ seg ≠ ".."
  below : ∃ rest, rest ≠ [] ∧ (segments path).tail = p.deviceRoot.parts ++ rest
  unlisted : Path.of path ∉ p.denyPaths

/-- A character device of the class `klass`. -/
def IsDevice (p : Policy) (klass : DeviceClass) (kind : NodeKind) : Prop :=
  ∃ major minor, kind = .char major minor ∧ p.classOfMajor major = some klass

/-- The USB device is on the deny list. -/
def Protects (p : Policy) (usb : Option UsbId) : Prop := ∃ id ∈ p.denyUsb, usb = some id

/-- The nodes that may be handed out as devices of the class `klass`. -/
structure Fits (p : Policy) (klass : DeviceClass) (node : Node) : Prop where
  device : p.IsDevice klass node.kind
  unprotected : ¬ p.Protects node.usb

theorem checkKind_eq_ok {kind : NodeKind} {klass : DeviceClass} :
    p.checkKind kind klass = .ok () ↔ p.IsDevice klass kind := by
  constructor
  · intro h
    cases kind with
    | char major minor =>
      by_cases hclass : p.classOfMajor major = some klass
      · exact ⟨major, minor, rfl, hclass⟩
      · have hrefused : p.checkKind (.char major minor) klass = .error .wrongClass := if_neg hclass
        rw [hrefused] at h
        cases h
    | symlink => cases h
    | block | dir | other | missing => cases h
  · rintro ⟨major, minor, rfl, hclass⟩
    exact if_pos hclass

/-- An absolute path without empty components and dots has its segments for components. -/
theorem parts_of {path : String} (habs : path.toList.head? = some '/')
    (hplain : ∀ seg ∈ (segments path).tail, seg ≠ "" ∧ seg ≠ "." ∧ seg ≠ "..") :
    Path.of path = ⟨true, (segments path).tail⟩ := by
  obtain ⟨rest, hrest⟩ : ∃ rest, path.toList = '/' :: rest := by
    cases hlist : path.toList with
    | nil =>
      rw [hlist] at habs
      cases habs
    | cons c rest =>
      rw [hlist] at habs
      cases habs
      exact ⟨rest, rfl⟩
  have hsegs : segments path = "" :: (segments path).tail := by
    unfold segments
    rw [hrest, List.splitOn_cons_eq_if_modifyHead, if_pos (beq_self_eq_true '/')]
    rfl
  have hkept : (segments path).filter (fun seg => seg ≠ "" ∧ seg ≠ ".") = (segments path).tail := by
    rw [hsegs, List.filter_cons_of_neg (by decide), List.tail_cons, List.filter_eq_self]
    intro seg hseg
    obtain ⟨hempty, hdot, -⟩ := hplain seg hseg
    exact decide_eq_true ⟨hempty, hdot⟩
  unfold Path.of
  simp only [habs, hkept, beq_self_eq_true, Bool.not_true, Bool.false_and, Bool.false_eq_true,
    if_false]

theorem stripPrefix_eq_some {path root : Path} {rel : List String} (habs : root.absolute = true) :
    path.stripPrefix root = some rel ↔ path = ⟨true, root.parts ++ rel⟩ := by
  unfold Path.stripPrefix
  constructor
  · intro h
    split at h
    next hroot =>
      cases h
      obtain ⟨habsolute, rest, hrest⟩ := hroot
      rw [← hrest, List.drop_left, hrest, ← habs, ← habsolute]
    next => cases h
  · rintro rfl
    rw [if_pos ⟨habs.symm, List.prefix_append _ _⟩, List.drop_left]

/-- What the check of a path as text lets through. -/
theorem checkPath_eq_ok {path : String} {clean : Path} : p.checkPath path = .ok clean ↔
    ((Utf8.bytes path).length ≤ MAX_STRING ∧ '\x00' ∉ path.toList) ∧ p.Admits path ∧
      clean = Path.of path := by
  have htraversal : (segments path).tail.any (fun seg => seg = "" ∨ seg = "." ∨ seg = "..") =
      true ↔ ¬ ∀ seg ∈ (segments path).tail, seg ≠ "" ∧ seg ≠ "." ∧ seg ≠ ".." := by
    rw [List.any_eq_true]
    push Not
    refine exists_congr fun seg => and_congr_right fun _ => ?_
    rw [decide_eq_true_iff]
    tauto
  have habsolute : (Path.of path).absolute = false ↔ ¬ path.toList.head? = some '/' := by
    change (path.toList.head? == some '/') = false ↔ _
    rw [beq_eq_false_iff_ne]
  have hbelow (hhead : path.toList.head? = some '/')
      (hplain : ∀ seg ∈ (segments path).tail, seg ≠ "" ∧ seg ≠ "." ∧ seg ≠ "..") :
      ((Path.of path).stripPrefix p.deviceRoot = none ∨ Path.of path = p.deviceRoot) ↔
      ¬ ∃ rest, rest ≠ [] ∧ (segments path).tail = p.deviceRoot.parts ++ rest := by
    rw [← not_iff_not, not_or, not_not]
    constructor
    · rintro ⟨hsome, hne⟩
      obtain ⟨rel, hrel⟩ := Option.ne_none_iff_exists'.mp hsome
      rw [stripPrefix_eq_some p.rooted, parts_of hhead hplain] at hrel
      refine ⟨rel, ?_, congrArg Path.parts hrel⟩
      rintro rfl
      apply hne
      rw [parts_of hhead hplain, hrel, List.append_nil, ← p.rooted]
    · rintro ⟨rest, hne, hrest⟩
      have hstrip : (Path.of path).stripPrefix p.deviceRoot = some rest := by
        rw [stripPrefix_eq_some p.rooted, parts_of hhead hplain, hrest]
      refine ⟨by rw [hstrip]; exact Option.some_ne_none rest, fun heq => hne ?_⟩
      rw [parts_of hhead hplain, hrest] at heq
      exact List.append_right_eq_self.mp (congrArg Path.parts heq)
  unfold checkPath
  constructor
  · intro h
    split at h
    · cases h
    next hshort =>
    split at h
    · cases h
    next hhead =>
    split at h
    · cases h
    next hplain =>
    dsimp only at h
    split at h
    · cases h
    next hroot =>
    split at h <;> cases h
    next hlisted =>
    have hhead := not_not.mp (mt habsolute.mpr hhead)
    have hplain := not_not.mp (mt htraversal.mpr hplain)
    obtain ⟨hlength, hnull⟩ := not_or.mp hshort
    have hbelow := not_not.mp (mt (hbelow hhead hplain).mpr hroot)
    exact ⟨⟨Nat.le_of_not_lt hlength, hnull⟩, ⟨hhead, hplain, hbelow, hlisted⟩, rfl⟩
  · rintro ⟨⟨hlength, hnull⟩, hadmits, rfl⟩
    have hhead := mt habsolute.mp (not_not.mpr hadmits.absolute)
    have hplain := mt htraversal.mp (not_not.mpr hadmits.plain)
    have hroot := mt (hbelow hadmits.absolute hadmits.plain).mp (not_not.mpr hadmits.below)
    rw [if_neg (not_or.mpr ⟨Nat.not_lt.mpr hlength, hnull⟩), if_neg hhead, if_neg hplain]
    dsimp only
    rw [if_neg hroot, if_neg hadmits.unlisted]

end Policy

end HamsOpen.RelayBroker
