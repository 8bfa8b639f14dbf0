import Mathlib

/-!
# Clocks that wrap

A clock of `w` bits keeps the low bits of a count. The difference of two of its readings is the time
between them, as long as less than a whole turn has passed.
-/

namespace Wrap

variable {w : Nat}

/-- The time between two readings, as the clock has it. -/
def elapsed (now stamp : BitVec w) : Nat := (now - stamp).toNat

/-- The difference of two readings is the time between them, modulo a turn. -/
theorem elapsed_mod {t now : Nat} (h : t ≤ now) :
    elapsed (BitVec.ofNat w now) (BitVec.ofNat w t) = (now - t) % 2 ^ w := by
  obtain ⟨d, rfl⟩ := Nat.exists_eq_add_of_le h
  have hsub : BitVec.ofNat w (t + d) - BitVec.ofNat w t = BitVec.ofNat w d := by
    rw [BitVec.ofNat_add, BitVec.add_comm, BitVec.add_sub_cancel]
  rw [elapsed, hsub, BitVec.toNat_ofNat, Nat.add_sub_cancel_left]

/-- The difference of two readings less than a turn apart is the time between them. -/
theorem elapsed_ofNat {t now : Nat} (h : t ≤ now) (hturn : now - t < 2 ^ w) :
    elapsed (BitVec.ofNat w now) (BitVec.ofNat w t) = now - t := by
  rw [elapsed_mod h, Nat.mod_eq_of_lt hturn]

/-- A clock never shows more than the time that has passed. -/
theorem elapsed_le {t now : Nat} (h : t ≤ now) :
    elapsed (BitVec.ofNat w now) (BitVec.ofNat w t) ≤ now - t := by
  rw [elapsed_mod h]
  exact Nat.mod_le _ _

end Wrap
