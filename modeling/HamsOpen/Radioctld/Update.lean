import HamsOpen.Lib.Machine
import Mathlib.Logic.Function.Basic

/-!
# Putting a new program in place of the running one

The new program is written beside the old one, the old one is copied, and a rename puts the new one
in its place (`update.rs`). Any of the file operations may fail, the process may be killed between
two of them and inside each, and files of earlier attempts may be lying about. A write or a copy
that does not end leaves some bytes from the front, or does not touch its file. A rename is atomic.
-/

namespace HamsOpen.Radioctld.Update

/-- The name of a file. -/
abbrev Name := List Char

/-- The contents of the files. -/
abbrev Files := Name → Option (List UInt8)

/-- Where the new program is written. -/
def fresh (exe : Name) : Name := exe ++ ".new".toList

/-- Where the old program is kept. -/
def prev (exe : Name) : Name := exe ++ ".prev".toList

/-- What became of an operation that did not end: the bytes that it left of what it had to write, or
nothing when it left the file alone. -/
inductive Outcome
  | ok
  | failed (kept : Option ℕ)
  /-- The process is killed, in the operation or before it. -/
  | killed (kept : Option ℕ)
  deriving DecidableEq

/-- The next operation. -/
inductive Point
  | write | setPermissions | removePrev | copy | rename
  /-- The new program is removed again, and an error is given. -/
  | cleanup (what : String)
  | finished (result : Except String Name)
  | dead

structure State where
  files : Files
  point : Point

/-- A file after an operation that writes it. -/
def written (files : Files) (name : Name) (bytes : List UInt8) : Outcome → Files
  | .ok => Function.update files name (some bytes)
  | .failed (some kept) | .killed (some kept) => Function.update files name (some (bytes.take kept))
  | .failed none | .killed none => files

/-- A file after an operation that removes it. -/
def removed (files : Files) (name : Name) : Outcome → Files
  | .ok => Function.update files name none
  | .failed _ | .killed _ => files

/-- Where the program goes on: after a failure it gives up, or cleans up before. -/
def goOn (next failure : Point) : Outcome → Point
  | .ok => next
  | .failed _ => failure
  | .killed _ => .dead

namespace State

variable (exe : Name) (new : List UInt8) (s : State)

/-- `replace_exe`, one operation at a time. -/
def step (outcome : Outcome) : Option State :=
  match s.point with
  | .write => some ⟨written s.files (fresh exe) new outcome,
      goOn .setPermissions (.finished (.error "cannot write the new program")) outcome⟩
  | .setPermissions =>
    let failure : Point := .finished (.error "cannot make the new program runnable")
    some { s with point := goOn .removePrev failure outcome }
  -- whether the old copy is there to be removed does not matter
  | .removePrev => some ⟨removed s.files (prev exe) outcome, goOn .copy .copy outcome⟩
  | .copy =>
    match s.files exe with
    | some old => some ⟨written s.files (prev exe) old outcome,
        goOn .rename (.cleanup "cannot keep the old program") outcome⟩
    | none => if outcome = .ok then none else some { s with
        point := goOn .rename (.cleanup "cannot keep the old program") outcome }
  | .rename =>
    match outcome, s.files (fresh exe) with
    | .ok, some bytes => some ⟨Function.update (Function.update s.files exe (some bytes))
        (fresh exe) none, .finished (.ok (prev exe))⟩
    | .ok, none => none
    | outcome, _ => some { s with
        point := goOn .dead (.cleanup "cannot put the new program in place") outcome }
  | .cleanup what => some ⟨removed s.files (fresh exe) outcome,
      goOn (.finished (.error what)) (.finished (.error what)) outcome⟩
  | .finished _ | .dead => none

end State

/-- The update of the program `exe`, whose bytes are `old`, to `new`. -/
def machine (exe : Name) (old new : List UInt8) : Machine State Outcome where
  init s := s.files exe = some old ∧ s.point = .write
  step := State.step exe new

/-- The program file has the complete old or the complete new bytes, the old ones after an error,
and when it no longer has the old ones they are kept beside it. -/
structure Atomic (exe : Name) (old new : List UInt8) (s : State) : Prop where
  whole : s.files exe = some old ∨ s.files exe = some new
  failed : ∀ e, s.point = .finished (.error e) → s.files exe = some old
  kept : s.files exe ≠ some old → s.files (prev exe) = some old

section Names

variable (exe : Name)

theorem fresh_ne : fresh exe ≠ exe := by
  intro h
  have hlength := congrArg List.length h
  simp [fresh] at hlength

theorem prev_ne : prev exe ≠ exe := by
  intro h
  have hlength := congrArg List.length h
  simp [prev] at hlength

theorem prev_ne_fresh : prev exe ≠ fresh exe := by
  intro h
  have hend := List.append_cancel_left h
  simp at hend

end Names

section Progress

variable {exe : Name} {old new : List UInt8} {s t : State}

/-- Before the rename the program is the old one. From the permissions on the new one is complete
beside it, and at the rename the old one is, too. -/
def Progress (exe : Name) (old new : List UInt8) (s : State) : Prop :=
  match s.point with
  | .finished (.ok _) => s.files exe = some new ∧ s.files (prev exe) = some old
  | .rename => s.files exe = some old ∧ s.files (fresh exe) = some new ∧
      s.files (prev exe) = some old
  | .setPermissions | .removePrev | .copy => s.files exe = some old ∧ s.files (fresh exe) = some new
  | .write | .cleanup _ | .finished (.error _) | .dead => s.files exe = some old

theorem written_other {files : Files} {name other : Name} (h : other ≠ name) (bytes : List UInt8)
    (outcome : Outcome) : written files name bytes outcome other = files other := by
  unfold written
  split
  · exact Function.update_of_ne h _ _
  · exact Function.update_of_ne h _ _
  · exact Function.update_of_ne h _ _
  · rfl
  · rfl

theorem removed_other {files : Files} {name other : Name} (h : other ≠ name) (outcome : Outcome) :
    removed files name outcome other = files other := by
  unfold removed
  split
  · exact Function.update_of_ne h _ _
  · rfl
  · rfl

theorem progress_step {outcome : Outcome} (h : Progress exe old new s)
    (hstep : s.step exe new outcome = some t) : Progress exe old new t := by
  obtain ⟨files, point⟩ := s
  unfold Progress at h
  cases point with
  | write =>
    cases hstep
    have hexe := (written_other (fresh_ne exe).symm new outcome).trans h
    cases outcome with
    | ok => exact ⟨hexe, Function.update_self _ _ _⟩
    | failed kept => exact hexe
    | killed kept => exact hexe
  | setPermissions =>
    cases hstep
    cases outcome with
    | ok => exact h
    | failed kept => exact h.1
    | killed kept => exact h.1
  | removePrev =>
    cases hstep
    have hexe := (removed_other (prev_ne exe).symm outcome).trans h.1
    have hfresh := (removed_other (prev_ne_fresh exe).symm outcome).trans h.2
    cases outcome with
    | ok => exact ⟨hexe, hfresh⟩
    | failed kept => exact ⟨hexe, hfresh⟩
    | killed kept => exact hexe
  | copy =>
    simp only at h
    simp only [State.step, h.1] at hstep
    cases hstep
    have hexe := (written_other (prev_ne exe).symm old outcome).trans h.1
    have hfresh := (written_other (prev_ne_fresh exe).symm old outcome).trans h.2
    cases outcome with
    | ok => exact ⟨hexe, hfresh, Function.update_self _ _ _⟩
    | failed kept => exact hexe
    | killed kept => exact hexe
  | rename =>
    simp only at h
    obtain ⟨hexe, hfresh, hprev⟩ := h
    cases outcome with
    | ok =>
      simp only [State.step, hfresh] at hstep
      cases hstep
      constructor
      · exact (Function.update_of_ne (fresh_ne exe).symm _ _).trans (Function.update_self _ _ _)
      · have hother := Function.update_of_ne (prev_ne_fresh exe) none
          (Function.update files exe (some new))
        exact (hother.trans (Function.update_of_ne (prev_ne exe) _ _)).trans hprev
    | failed kept =>
      cases hstep
      exact hexe
    | killed kept =>
      cases hstep
      exact hexe
  | cleanup what =>
    cases hstep
    have hexe := (removed_other (fresh_ne exe).symm outcome).trans h
    cases outcome with
    | ok => exact hexe
    | failed kept => exact hexe
    | killed kept => exact hexe
  | finished result => cases hstep
  | dead => cases hstep

theorem reach_progress (h : (machine exe old new).Reachable s) : Progress exe old new s := by
  apply h.invariant
  · rintro s ⟨hexe, hpoint⟩
    unfold Progress
    rw [hpoint]
    exact hexe
  · intro s outcome t hprogress hstep
    exact progress_step hprogress hstep

end Progress

/-- Whatever fails and wherever the process is killed, the program is the complete old one or the
complete new one, and the old one is not lost. -/
theorem replaceExe_atomic (exe : Name) (old new : List UInt8) :
    ∀ s, (machine exe old new).Reachable s → Atomic exe old new s := by
  intro s hs
  have hprogress := reach_progress hs
  have hold (h : s.files exe = some old) : Atomic exe old new s :=
    ⟨.inl h, fun _ _ => h, fun hne => absurd h hne⟩
  unfold Progress at hprogress
  split at hprogress
  next hpoint =>
    refine ⟨.inr hprogress.1, fun e he => ?_, fun _ => hprogress.2⟩
    rw [hpoint] at he
    cases he
  next => exact hold hprogress.1
  next => exact hold hprogress.1
  next => exact hold hprogress.1
  next => exact hold hprogress.1
  next => exact hold hprogress
  next => exact hold hprogress
  next => exact hold hprogress
  next => exact hold hprogress

/-- An update that is done, with the leftovers of an earlier one. -/
theorem update_done_atomic : ∃ s : State, s.files "radioctld".toList = some [2, 3] ∧
    Atomic "radioctld".toList [1] [2, 3] s := by
  let files : Files := fun name => if name = "radioctld".toList then some [1] else some [7]
  have hstart : (machine "radioctld".toList [1] [2, 3]).Reachable ⟨files, .write⟩ :=
    .init ⟨rfl, rfl⟩
  obtain ⟨s, hs, hnew⟩ := hstart.exists_of_run
    (P := fun s => s.files "radioctld".toList = some [2, 3]) [.ok, .ok, .ok, .ok, .ok]
    (by decide +kernel)
  exact ⟨s, hnew, replaceExe_atomic _ _ _ s hs⟩

end HamsOpen.Radioctld.Update
