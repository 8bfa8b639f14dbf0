import HamsOpen.Hpsdr.P1

/-!
# Protocol 2 packets

The packets of `p2.rs` from the host to the radio that a session sends on every tick: the High Priority
packet, for receiving and for transmitting, and the packet with transmit samples. The bytes of a
packet that are the same in every one are left out, and what a frequency is as a phase word is left
open.
-/

namespace HamsOpen.Hpsdr

/-- How many samples a packet carries. -/
def DUC_SAMPLES : Nat := 240

/-- How many receivers the format can address. -/
def MAX_DDC : Nat := 80

/-- The receive part of a High Priority packet. -/
structure HpRx where
  run : Bool
  ddcHz : List U32
  attenAdc0 : U8
  attenAdc1 : U8
  /-- The phase word of a frequency, when the radio wants it. -/
  phaseWord : Option (U32 → U32)

/-- The transmit part of a High Priority packet. -/
structure P2TxState where
  ptt : Bool
  ducHz : U32
  drive : U8
  deriving DecidableEq

/-- A packet to the radio: a High Priority packet, or one with samples of 24 bits. -/
inductive P2Packet
  | highPriority (seq : U32) (run ptt : Bool) (ddcs : List U32) (duc : U32) (drive : U8)
      (attenAdc1 attenAdc0 : U8)
  | ducIq (seq : U32) (iq : List (BitVec 24 × BitVec 24))
  deriving DecidableEq

/-- A frequency as the radio wants it. -/
def HpRx.word (hp : HpRx) (hz : U32) : U32 := hp.phaseWord.elim hz fun f => f hz

/-- The settings that both encoders refuse. -/
def HpRx.check (hp : HpRx) : Except HpsdrError Unit :=
  if MAX_DDC < hp.ddcHz.length ∨ 31 < hp.attenAdc0.toNat ∨ 31 < hp.attenAdc1.toNat then
    .error (.Config "high priority settings")
  else .ok ()

/-- A receive packet. -/
def encodeHighPriorityRx (seq : U32) (hp : HpRx) : Except HpsdrError P2Packet := do
  hp.check
  return .highPriority seq hp.run false (hp.ddcHz.map hp.word) 0 0 hp.attenAdc1 hp.attenAdc0

/-- A packet that may key, if the gate is open. -/
def encodeHighPriorityTx (seq : U32) (hp : HpRx) (gate : TxGate) (now : Nat) (tx : P2TxState) :
    Except HpsdrError P2Packet :=
  if !gate.isOpen now then .error .GateClosed
  else do
    hp.check
    if tx.ptt then
      return .highPriority seq hp.run true (hp.ddcHz.map hp.word) (hp.word tx.ducHz) tx.drive
        hp.attenAdc1 hp.attenAdc0
    else return .highPriority seq hp.run false (hp.ddcHz.map hp.word) 0 0 hp.attenAdc1 hp.attenAdc0

/-- A packet with samples, filled up with silence, if the gate is open. -/
def encodeDucIq (seq : U32) (iq : List (BitVec 24 × BitVec 24)) (gate : TxGate) (now : Nat) :
    Except HpsdrError P2Packet :=
  if !gate.isOpen now then .error .GateClosed
  else if DUC_SAMPLES < iq.length then .error (.Config "more than 240 samples")
  else .ok (.ducIq seq ((List.range DUC_SAMPLES).map fun k => iq.getD k (0, 0)))

/-- A sample in 24 bits. -/
def sample24 (s : Sample) : BitVec 24 × BitVec 24 := (s.1 ++ 0#8, s.2 ++ 0#8)

end HamsOpen.Hpsdr
