import HamsOpen.Lib.Decimal
import HamsOpen.Lib.Delimited
import HamsOpen.Net.Link
import HamsOpen.Rig.Op
import Mathlib.Data.List.DropRight

/-!
# The LAN session of a TS-890S

The connection request, the login and the keep-alive in front of the plain stream
(`kenwood_ts890_lan.rs`). Texts are compared with texts of ASCII only, so their bytes are compared
here.
-/

namespace HamsOpen.Kenwood

open Rig (RigError)

abbrev Bytes := List UInt8

/-- The bytes of a text of ASCII. -/
def ascii (text : String) : Bytes := text.toList.map fun c => .ofNat c.toNat

/-- The end of a frame. -/
def isEnd (b : UInt8) : Bool := b == 0x3B

/-- The longest that a frame may be without its end. -/
def MAX_FRAME : ℕ := 4096

/-! ### The login -/

def lanConnectRequest : Bytes := ascii "##CN;"

/-- Text that the login frame can carry. -/
def fits (s : Bytes) : Bool :=
  (1 ≤ s.length && s.length ≤ 32) && s.all fun b => 0x20 ≤ b && b < 0x7F && b != 0x3B

/-- A number of two digits. -/
def twoDigits (n : ℕ) : Bytes := (Decimal.padded 2 n).map fun c => .ofNat c.toNat

def lanLogin (administrator : Bool) (account password : Bytes) : Except RigError Bytes :=
  if !fits account || !fits password then
    .error ⟨.unsupported,
      "LAN account and password are 1 to 32 printable ASCII characters without ';'"⟩
  else
    .ok (ascii "##ID" ++ (if administrator then ascii "0" else ascii "1") ++
      twoDigits account.length ++ twoDigits password.length ++ account ++ password ++ ascii ";")

/-- An account and its password, which the login frame can carry. -/
structure LanCredentials where
  administrator : Bool
  account : Bytes
  password : Bytes
  valid : ∃ login, lanLogin administrator account password = .ok login

/-- What an answer says: authorised, refused, or something else. -/
def lanReply (text : Bytes) : Option Bool :=
  let said := text.rdropWhile isEnd
  if said = ascii "##CN1" ∨ said = ascii "##ID1" then some true
  else if said = ascii "##CN0" ∨ said = ascii "##ID0" then some false
  else none

/-! ### The framing -/

inductive Phase
  | awaitConnect | awaitLogin | up
  deriving DecidableEq

structure Ts890LanFraming where
  credentials : LanCredentials
  phase : Phase
  pending : Bytes
  probesOut : ℕ

/-- What bytes off the wire make. -/
structure Decoded where
  payload : Bytes
  reply : Bytes
  ready : Bool
  failure : Option String
  deriving DecidableEq

/-- The answer to the connection request, and the one to the login. -/
def connectReply (frame : Bytes) : Option Bool :=
  (lanReply frame).filter fun _ => (ascii "##CN").isPrefixOf frame

def loginReply (frame : Bytes) : Option Bool :=
  (lanReply frame).filter fun _ => (ascii "##ID").isPrefixOf frame

/-- It reads as an answer to `ID;`. -/
def isId (frame : Bytes) : Bool := (ascii "ID").isPrefixOf frame && (ascii ";").isSuffixOf frame

namespace Ts890LanFraming

def new (credentials : LanCredentials) : Ts890LanFraming := ⟨credentials, .awaitConnect, [], 0⟩

/-- One whole frame. -/
def frame (f : Ts890LanFraming) (frame : Bytes) (out : Decoded) : Ts890LanFraming × Decoded :=
  match f.phase with
  | .awaitConnect => match connectReply frame with
    | some true =>
      ({ f with phase := .awaitLogin },
        match lanLogin f.credentials.administrator f.credentials.account f.credentials.password with
        | .ok login => { out with reply := login }
        | .error e => { out with failure := some e.detail })
    | some false =>
      (f, { out with failure := some "the radio denied the LAN connection (one already exists)" })
    | none => (f, out)
  | .awaitLogin => match loginReply frame with
    | some true => ({ f with phase := .up }, { out with ready := true })
    | some false =>
      (f, { out with
        failure := some "the radio refused the login: wrong account or password" })
    | none => (f, out)
  | .up =>
    -- a probe and a command of the engine have the same answer
    if 0 < f.probesOut && isId frame then ({ f with probesOut := f.probesOut - 1 }, out)
    else (f, { out with payload := out.payload ++ frame })

/-- Frames one after the other, up to a failure. -/
def frames (f : Ts890LanFraming) : List Bytes → Decoded → Ts890LanFraming × Decoded
  | [], out => (f, out)
  | x :: xs, out =>
    let (f, out) := f.frame x out
    if out.failure.isSome then ({ f with pending := [] }, out) else f.frames xs out

/-- Bytes of the radio, after those that are left of before. -/
def decode (f : Ts890LanFraming) (wire : Bytes) : Ts890LanFraming × Decoded :=
  let cut := Delimited.pieces isEnd f.pending wire
  let (f, out) := ({ f with pending := cut.2 }).frames cut.1 ⟨[], [], false, none⟩
  if out.failure.isSome then (f, out)
  else if MAX_FRAME < f.pending.length then
    ({ f with pending := [] }, { out with failure := some "a LAN frame has no end" })
  else (f, out)

end Ts890LanFraming

def PROBE : Bytes := ascii "ID;"

/-- The session as the framing of a link. -/
def framing : Net.Framing Ts890LanFraming where
  reset f := { f with phase := .awaitConnect, pending := [], probesOut := 0 }
  greeting f := (lanConnectRequest, f)
  needsHandshake _ := true
  encode f payload := (payload, f)
  decode f wire :=
    let (f, out) := f.decode wire
    (⟨out.payload, out.reply, out.ready, out.failure.isSome⟩, f)
  keepalive _ := some PROBE
  keepaliveSent f := { f with probesOut := min (f.probesOut + 1) (2 ^ 32 - 1) }

/-! ### The answers that count -/

section Replies

variable {body : Bytes}

theorem rdropWhile_frame (h : ∀ b ∈ body, isEnd b = false) :
    (body ++ [0x3B]).rdropWhile isEnd = body := by
  rw [List.rdropWhile_concat_pos _ _ _ rfl]
  rcases body.eq_nil_or_concat with rfl | ⟨l, b, rfl⟩
  · rfl
  · rw [List.concat_eq_append]
    apply List.rdropWhile_concat_neg
    rw [h b (by simp)]
    exact Bool.false_ne_true

theorem lanReply_frame (h : ∀ b ∈ body, isEnd b = false) : lanReply (body ++ [0x3B]) =
    if body = ascii "##CN1" ∨ body = ascii "##ID1" then some true
    else if body = ascii "##CN0" ∨ body = ascii "##ID0" then some false else none := by
  rw [lanReply, rdropWhile_frame h]

theorem connectReply_eq (h : ∀ b ∈ body, isEnd b = false) : connectReply (body ++ [0x3B]) =
    if body = ascii "##CN1" then some true else if body = ascii "##CN0" then some false
    else none := by
  rw [connectReply, lanReply_frame h]
  by_cases hcn1 : body = ascii "##CN1"
  · subst hcn1
    decide
  by_cases hcn0 : body = ascii "##CN0"
  · subst hcn0
    decide
  by_cases hid1 : body = ascii "##ID1"
  · subst hid1
    decide
  by_cases hid0 : body = ascii "##ID0"
  · subst hid0
    decide
  simp [hcn1, hcn0, hid1, hid0]

theorem loginReply_eq (h : ∀ b ∈ body, isEnd b = false) : loginReply (body ++ [0x3B]) =
    if body = ascii "##ID1" then some true else if body = ascii "##ID0" then some false
    else none := by
  rw [loginReply, lanReply_frame h]
  by_cases hcn1 : body = ascii "##CN1"
  · subst hcn1
    decide
  by_cases hcn0 : body = ascii "##CN0"
  · subst hcn0
    decide
  by_cases hid1 : body = ascii "##ID1"
  · subst hid1
    decide
  by_cases hid0 : body = ascii "##ID0"
  · subst hid0
    decide
  simp [hcn1, hcn0, hid1, hid0]

end Replies

end HamsOpen.Kenwood
