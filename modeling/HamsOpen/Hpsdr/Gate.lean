import Mathlib.Data.Option.Basic

/-!
# The transmit gate

The gate of `gate.rs`: closed by default, and open for as long as a lease that its holder grants. The
lease is behind a lock, and the gate is closed for good once a holder died with the lock.
-/

namespace HamsOpen.Hpsdr

abbrev U8 := BitVec 8
abbrev U32 := BitVec 32

/-- Why something is refused. -/
inductive HpsdrError
  | GateClosed
  | Config (message : String)
  deriving DecidableEq

/-- A gate, with the time until which it is open. -/
structure TxGate where
  lease : Option Nat
  poisoned : Bool
  deriving DecidableEq

namespace TxGate

/-- A closed gate. -/
def new : TxGate := ⟨none, false⟩

/-- Opens the gate until a deadline, unless the lock is poisoned. -/
def openUntil (deadline : Nat) (g : TxGate) : Bool × TxGate :=
  if g.poisoned then (false, g) else (true, { g with lease := some deadline })

def close (g : TxGate) : TxGate := { g with lease := none }

/-- A holder of the lock dies. -/
def poison (g : TxGate) : TxGate := { g with poisoned := true }

/-- The lease has not expired. -/
def isOpen (now : Nat) (g : TxGate) : Bool :=
  !g.poisoned && g.lease.any fun t => now < t

@[simp] theorem isOpen_close (g : TxGate) (now : Nat) : g.close.isOpen now = false := by
  simp [close, isOpen]

@[simp] theorem isOpen_poison (g : TxGate) (now : Nat) : g.poison.isOpen now = false := by
  simp [poison, isOpen]

theorem isOpen_iff {g : TxGate} {now : Nat} :
    g.isOpen now = true ↔ g.poisoned = false ∧ ∃ t, g.lease = some t ∧ now < t := by
  cases hlease : g.lease <;> simp [isOpen, hlease]

/-- An earlier reading of the clock and the clock itself find the gate alike: no lease runs out
between them. -/
def SteadyFrom (g : TxGate) (now clock : Nat) : Prop := ∀ t ∈ g.lease, clock < t ∨ t ≤ now

instance (g : TxGate) (now clock : Nat) : Decidable (g.SteadyFrom now clock) :=
  inferInstanceAs (Decidable (∀ t ∈ g.lease, clock < t ∨ t ≤ now))

theorem isOpen_of_steady {g : TxGate} {now clock : Nat} (h : g.SteadyFrom now clock)
    (hopen : g.isOpen now = true) : g.isOpen clock = true := by
  obtain ⟨hlock, t, hlease, hlt⟩ := isOpen_iff.mp hopen
  rcases h t hlease with hstill | hover
  · exact isOpen_iff.mpr ⟨hlock, t, hlease, hstill⟩
  · omega

end TxGate

end HamsOpen.Hpsdr
