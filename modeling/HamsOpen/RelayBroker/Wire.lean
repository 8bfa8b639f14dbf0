import HamsOpen.Lib.Reader
import HamsOpen.Lib.Utf8
import Mathlib

/-!
# The wire protocol of the relay broker

Requests and responses, as they are put into frames and read back (`wire.rs`). Numbers are
big-endian, and strings have their length before them. A string is cut to 255 bytes as it is put, a
list of devices to 64, and a body to the largest frame.
-/

namespace HamsOpen.RelayBroker

open Reader (item take lift times)

/-- Protocol version carried in every body. -/
def VERSION : UInt8 := 1

/-- Largest frame body accepted or produced, in bytes. -/
def MAX_FRAME : ℕ := 4096

/-- Largest string field, in bytes. -/
def MAX_STRING : ℕ := 255

/-- Largest device list in one response. -/
def MAX_DEVICES : ℕ := 64

/-- A parse failure. -/
inductive WireError
  | truncated
  | trailing
  | badTag (tag : UInt8)
  | badString
  | badLength (length : ℕ)
  | version (version : UInt8)
  | tooMany
  deriving DecidableEq

inductive DeviceClass
  | serial
  | audio
  deriving DecidableEq

def DeviceClass.code : DeviceClass → UInt8
  | serial => 1
  | audio => 2

/-- Groups that the caller may be added to. -/
inductive Group
  | dialout
  | audio
  deriving DecidableEq

namespace Group

def code : Group → UInt8
  | dialout => 1
  | audio => 2

/-- The system group name. -/
def name : Group → String
  | dialout => "dialout"
  | audio => "audio"

end Group

/-- What a client may ask for. -/
inductive Request
  | listDevices (klass : Option DeviceClass)
  | openDevice (klass : DeviceClass) (readOnly : Bool) (path : String)
  | grantGroup (group : Group)
  | provisionGroups
  deriving DecidableEq

/-- One enumerated device. -/
structure DeviceDescriptor where
  klass : DeviceClass
  path : String
  vid : UInt16
  pid : UInt16
  product : String
  manufacturer : String
  deriving DecidableEq

/-- Result code of a response. -/
inductive Status
  | ok
  | denied
  | rateLimited
  | malformed
  | unsupportedVersion
  | failed
  deriving DecidableEq

def Status.code : Status → UInt8
  | ok => 0
  | denied => 1
  | rateLimited => 2
  | malformed => 3
  | unsupportedVersion => 4
  | failed => 5

/-- What the broker answers. -/
inductive Response
  | devices (devs : List DeviceDescriptor)
  | opened
  | groupReport (applied : Bool) (user : String) (groups : List String)
  | error (status : Status) (reason : String)
  deriving DecidableEq

/-! ### Fields -/

abbrev Parser := Reader UInt8 WireError

def u8 : Parser UInt8 := item .truncated

/-- A big-endian number of two bytes. -/
def be16 (v : UInt16) : List UInt8 := [UInt8.ofNat (v.toNat / 256), UInt8.ofNat v.toNat]

def ofBe16 : List UInt8 → Except WireError UInt16
  | [hi, lo] => .ok (UInt16.ofNat (hi.toNat * 256 + lo.toNat))
  | _ => .error .truncated

def u16 : Parser UInt16 := do
  let b ← take .truncated 2
  lift (ofBe16 b)

/-- The string of bytes without a zero. -/
def ofBytes (bytes : List UInt8) : Except WireError String :=
  if 0 ∈ bytes then .error .badString
  else match Utf8.ofBytes bytes with
    | some s => .ok s
    | none => .error .badString

/-- A length-prefixed string of at most `MAX_STRING` bytes, UTF-8, with no zero. -/
def string : Parser String := do
  let len ← u16
  if MAX_STRING < len.toNat then throw .badString
  else do
    let bytes ← take .truncated len.toNat
    lift (ofBytes bytes)

/-- Appends a length-prefixed string, cut at a character boundary and without its zeros. -/
def putString (s : String) : List UInt8 :=
  let bytes := Utf8.bytes s
  let stop := Utf8.floorBoundary bytes (min bytes.length MAX_STRING)
  let clean := (bytes.take stop).filter (· ≠ 0)
  be16 (UInt16.ofNat clean.length) ++ clean

def boolCode (b : Bool) : UInt8 := if b then 1 else 0

def boolOf : UInt8 → Except WireError Bool
  | 0 => .ok false
  | 1 => .ok true
  | other => .error (.badTag other)

def deviceClassFromTag : UInt8 → Except WireError DeviceClass
  | 1 => .ok .serial
  | 2 => .ok .audio
  | other => .error (.badTag other)

def groupFromTag : UInt8 → Except WireError Group
  | 1 => .ok .dialout
  | 2 => .ok .audio
  | other => .error (.badTag other)

/-- A class, or all of them. -/
def optClassFromTag : UInt8 → Except WireError (Option DeviceClass)
  | 0 => .ok none
  | tag => (deviceClassFromTag tag).map some

def statusFromTag : UInt8 → Except WireError Status
  | 0 => .ok .ok
  | 1 => .ok .denied
  | 2 => .ok .rateLimited
  | 3 => .ok .malformed
  | 4 => .ok .unsupportedVersion
  | 5 => .ok .failed
  | other => .error (.badTag other)

/-- A byte that stands for a value. -/
def coded {α : Type} (ofTag : UInt8 → Except WireError α) : Parser α := do
  let tag ← u8
  lift (ofTag tag)

def version : Parser Unit := do
  let v ← u8
  if v ≠ VERSION then throw (.version v) else pure ()

/-! ### Messages -/

namespace Request

/-- The body bytes for a request. -/
def encode : Request → List UInt8
  | listDevices klass => [VERSION, 1, klass.elim 0 DeviceClass.code]
  | openDevice klass readOnly path => [VERSION, 2, klass.code, boolCode readOnly] ++ putString path
  | grantGroup group => [VERSION, 3, group.code]
  | provisionGroups => [VERSION, 4]

/-- What follows the tag of a request. -/
def fields : UInt8 → Parser Request
  | 1 => do
    let klass ← coded optClassFromTag
    pure (.listDevices klass)
  | 2 => do
    let klass ← coded deviceClassFromTag
    let readOnly ← coded boolOf
    let path ← string
    pure (.openDevice klass readOnly path)
  | 3 => do
    let group ← coded groupFromTag
    pure (.grantGroup group)
  | 4 => pure .provisionGroups
  | other => throw (.badTag other)

def reader : Parser Request := do
  version
  let tag ← u8
  fields tag

/-- Parses a body. -/
def decode (body : List UInt8) : Except WireError Request := reader.whole .trailing body

end Request

def DeviceDescriptor.encode (d : DeviceDescriptor) : List UInt8 :=
  [d.klass.code] ++ putString d.path ++ be16 d.vid ++ be16 d.pid ++ putString d.product ++
    putString d.manufacturer

def DeviceDescriptor.reader : Parser DeviceDescriptor := do
  let klass ← coded deviceClassFromTag
  let path ← string
  let vid ← u16
  let pid ← u16
  let product ← string
  let manufacturer ← string
  pure ⟨klass, path, vid, pid, product, manufacturer⟩

namespace Response

/-- The most groups of a report. -/
def MAX_GROUPS : ℕ := 8

/-- The body bytes for a response. Device lists are cut at `MAX_DEVICES`. -/
def encode : Response → List UInt8
  | devices devs =>
    let n := min devs.length MAX_DEVICES
    [VERSION, Status.ok.code, 1] ++ be16 (UInt16.ofNat n) ++
      (devs.take n).flatMap DeviceDescriptor.encode
  | opened => [VERSION, Status.ok.code, 2]
  | groupReport applied user groups =>
    let n := min groups.length MAX_GROUPS
    [VERSION, Status.ok.code, 3, boolCode applied] ++ putString user ++ [UInt8.ofNat n] ++
      (groups.take n).flatMap putString
  | error status reason => [VERSION, status.code] ++ putString reason

/-- What follows the tag of a response that went well. -/
def fields : UInt8 → Parser Response
  | 1 => do
    let n ← u16
    if MAX_DEVICES < n.toNat then throw .tooMany
    else do
      let devs ← times DeviceDescriptor.reader n.toNat
      pure (.devices devs)
  | 2 => pure .opened
  | 3 => do
    let applied ← coded boolOf
    let user ← string
    let n ← u8
    if MAX_GROUPS < n.toNat then throw .tooMany
    else do
      let groups ← times string n.toNat
      pure (.groupReport applied user groups)
  | other => throw (.badTag other)

def reader : Parser Response := do
  version
  let status ← coded statusFromTag
  if status ≠ .ok then do
    let reason ← string
    pure (.error status reason)
  else do
    let tag ← u8
    fields tag

/-- Parses a response body. -/
def decode (body : List UInt8) : Except WireError Response := reader.whole .trailing body

end Response

/-! ### Frames -/

/-- A big-endian number of four bytes. -/
def be32 (n : ℕ) : List UInt8 :=
  [UInt8.ofNat (n / 256 ^ 3), UInt8.ofNat (n / 256 ^ 2), UInt8.ofNat (n / 256), UInt8.ofNat n]

/-- Prefixes a body with its length, and cuts it to `MAX_FRAME`. -/
def frameEncode (body : List UInt8) : List UInt8 :=
  let body := body.take (min body.length MAX_FRAME)
  be32 body.length ++ body

/-- The body length that a header announces, if it is within bounds. -/
def frameBodyLen (header : List UInt8) : Except WireError ℕ :=
  let len := header.foldl (fun n b => n * 256 + b.toNat) 0
  if len = 0 ∨ MAX_FRAME < len then .error (.badLength len) else .ok len

/-- What is read off a frame: its body, as long as its header announces. -/
def frameBody (frame : List UInt8) : Except WireError (List UInt8) := do
  let len ← frameBodyLen (frame.take 4)
  if len ≤ (frame.drop 4).length then .ok ((frame.drop 4).take len) else .error .truncated

/-- What is made of a body that is sent in a frame. -/
def received {α : Type} (decode : List UInt8 → Except WireError α) (body : List UInt8) :
    Except WireError α := do
  let body ← frameBody (frameEncode body)
  decode body

end HamsOpen.RelayBroker
