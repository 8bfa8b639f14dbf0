import Mathlib.Data.Nat.ModEq
import Mathlib.Tactic.ByContra

/-!
# Ring logs

A log in a fixed array: the latest entries are kept in `2 ^ k` slots, and a counter of `w` bits says
how many entries were ever written. The counter wraps, and what a reader is shown is told from the
counter alone, so just after a wrap a reader is shown less than the slots hold.
-/

/-- A log of the latest entries, with a counter of all of them. -/
structure RingLog (w k : Nat) (α : Type) where
  count : BitVec w
  slots : BitVec k → α

namespace RingLog

variable {w k : Nat} {α : Type} {r : RingLog w k α} {log : List α} {a : α}

/-- An entry is written. -/
def push (a : α) (r : RingLog w k α) : RingLog w k α where
  count := r.count + 1
  slots i := if i = r.count.setWidth k then a else r.slots i

/-- The entries that a reader is shown, the latest first. -/
def latest (r : RingLog w k α) : List α :=
  (List.range (min r.count.toNat (2 ^ k))).map fun i =>
    r.slots ((r.count - 1 - BitVec.ofNat w i).setWidth k)

/-- The log keeps the latest entries of a history, the latest first. -/
structure Holds (r : RingLog w k α) (log : List α) : Prop where
  count : r.count = BitVec.ofNat w log.length
  slots : ∀ i, i < 2 ^ k → ∀ a ∈ log[i]?, r.slots (BitVec.ofNat k (log.length - 1 - i)) = a

theorem holds_nil (h : r.count = 0) : r.Holds [] where
  count := by simpa using h
  slots i _ a ha := by simp at ha

theorem Holds.push (h : r.Holds log) (hk : k ≤ w) (a : α) : (r.push a).Holds (a :: log) where
  count := by
    have hcount : (r.push a).count = r.count + 1 := rfl
    rw [hcount, h.count, List.length_cons, BitVec.ofNat_add]
    rfl
  slots i hi b hb := by
    have hslot : r.count.setWidth k = BitVec.ofNat k log.length := by
      rw [h.count, BitVec.setWidth_ofNat_of_le hk]
    cases i with
    | zero =>
      -- the entry just written is in the slot that the counter named
      have hab : a = b := by simpa using hb
      simp [RingLog.push, hslot, hab]
    | succ i =>
      have hb : b ∈ log[i]? := by simpa using hb
      have hlt : i < log.length := (List.getElem?_eq_some_iff.mp hb).choose
      -- fewer than all slots back, so another slot
      have hne : BitVec.ofNat k (log.length - 1 - i) ≠ BitVec.ofNat k log.length := by
        intro heq
        have hmod : (log.length - 1 - i) % 2 ^ k = log.length % 2 ^ k := by
          simpa [← BitVec.toNat_inj] using heq
        have hdvd : 2 ^ k ∣ log.length - (log.length - 1 - i) :=
          (Nat.modEq_iff_dvd' (by omega)).mp hmod
        have hle := Nat.le_of_dvd (by omega) hdvd
        omega
      have hidx : (a :: log).length - 1 - (i + 1) = log.length - 1 - i := by
        simp only [List.length_cons]
        omega
      rw [hidx]
      simpa [RingLog.push, hslot, hne] using h.slots i (by omega) b hb

/-- Several entries are written, the last of them first in the list. -/
theorem Holds.foldr {β : Type} (h : r.Holds log) (hk : k ≤ w) (f : β → α) (l : List β) :
    (l.foldr (fun b r => r.push (f b)) r).Holds (l.map f ++ log) := by
  induction l with
  | nil => exact h
  | cons b l ih => exact ih.push hk (f b)

/-- What a reader is shown of the history that the log keeps. -/
theorem Holds.latest_eq (h : r.Holds log) (hk : k ≤ w) :
    r.latest = log.take (min (log.length % 2 ^ w) (2 ^ k)) := by
  have hcount : r.count.toNat = log.length % 2 ^ w := by rw [h.count, BitVec.toNat_ofNat]
  have hle : log.length % 2 ^ w ≤ log.length := Nat.mod_le _ _
  apply List.ext_getElem
  · simp only [latest, hcount, List.length_map, List.length_range, List.length_take]
    omega
  · intro i hi hi'
    have hi : i < min (log.length % 2 ^ w) (2 ^ k) := by
      simpa [latest, hcount] using hi
    have hlt : i < log.length := by omega
    -- the counter is this entry's number, and as many more as there are later entries
    have hnumber : r.count = BitVec.ofNat w (log.length - 1 - i) + BitVec.ofNat w i + 1 := by
      have hsum : log.length = log.length - 1 - i + i + 1 := by omega
      rw [h.count, ← BitVec.ofNat_add]
      exact (congrArg _ hsum).trans (BitVec.ofNat_add _ 1)
    have hat : r.count - 1 - BitVec.ofNat w i = BitVec.ofNat w (log.length - 1 - i) := by
      rw [hnumber, BitVec.add_sub_cancel, BitVec.add_sub_cancel]
    have hslot := h.slots i (by omega) log[i] (by simp [hlt])
    rw [← BitVec.setWidth_ofNat_of_le hk, ← hat] at hslot
    simpa [latest] using hslot

/-- A reader who is shown as many entries as a list of the latest has is shown these. -/
theorem Holds.latest_eq_take (h : r.Holds log) (hk : k ≤ w) {n : Nat}
    (hlen : r.latest.length = (log.take n).length) : r.latest = log.take n := by
  have heq := h.latest_eq hk
  rw [heq, List.length_take, List.length_take] at hlen
  rw [heq, List.take_eq_take_iff]
  exact hlen

/-- A reader is shown the latest entries unless the counter has just wrapped. -/
theorem Holds.latest_iff (h : r.Holds log) (hk : k ≤ w) :
    r.latest = log.take (2 ^ k) ↔ log.length < 2 ^ w ∨ 2 ^ k ≤ log.length % 2 ^ w := by
  rw [h.latest_eq hk]
  constructor
  · intro heq
    by_contra hnot
    rw [not_or] at hnot
    have hlen := congrArg List.length heq
    simp only [List.length_take] at hlen
    have hpow : 2 ^ k ≤ 2 ^ w := Nat.pow_le_pow_right (by decide) hk
    omega
  · rintro (hlt | hge)
    · rw [Nat.mod_eq_of_lt hlt]
      by_cases hle : 2 ^ k ≤ log.length
      · rw [Nat.min_eq_right hle]
      · rw [Nat.min_eq_left (by omega), List.take_of_length_le (by omega),
          List.take_of_length_le (by omega)]
    · rw [Nat.min_eq_right hge]

end RingLog
