import HamsOpen.Lib.Decimal
import HamsOpen.Lib.Runs
import Mathlib

/-!
# Switching the power of a USB port

A port is switched off, left off for a while and switched on again, and the device on it is watched
(`power.rs`): it has to leave the USB tree and to come back with a new device number. What `uhubctl`
answers, what the tree shows and how late it is are not known beforehand, so the programs here are
trees of these questions.

A command that `uhubctl` reports as failed may have been carried out.
-/

namespace HamsOpen.UsbHub

open Prog

abbrev Text := List Char

/-- A device as the tree shows it. -/
structure Seen where
  devnum : ℕ
  vidpid : Text
  deriving DecidableEq

/-- What a command to `uhubctl` came to: the error it reports, and whether the port was switched. -/
structure Switching where
  error : Option Text
  switched : Bool
  deriving DecidableEq

/-- What a session has proved about a port. -/
structure Evidence where
  goneAfter : ℕ
  backAfter : ℕ
  oldDevnum : ℕ
  newDevnum : ℕ
  deriving DecidableEq

/-- What a program asks or does. Times are in nanoseconds. -/
inductive Effect
  | uhubctl (on : Bool)
  | probe
  | now
  | sleep (duration : ℕ)
  /-- The device answers its own check. -/
  | ready
  | remember (key : Text) (evidence : Evidence)
  deriving DecidableEq

/-- What it is answered. -/
def Answer : Effect → Type
  | .uhubctl _ => Switching
  | .probe => Option Seen
  | .now => ℕ
  | .ready => Bool
  | .sleep _ | .remember _ _ => Unit

/-- A program that controls a port. -/
abbrev Control (α : Type) : Type 1 := Prog Effect Answer α

namespace Control

def switch (on : Bool) : Control Switching := perform (Effect.uhubctl on)

def probe : Control (Option Seen) := perform Effect.probe

def now : Control ℕ := perform Effect.now

def sleep (duration : ℕ) : Control Unit := perform (Effect.sleep duration)

def ready : Control Bool := perform Effect.ready

def remember (key : Text) (evidence : Evidence) : Control Unit :=
  perform (Effect.remember key evidence)

end Control

open Control

/-- A second. -/
def second : ℕ := 1000000000

/-- The wait between two questions. -/
def POLL : ℕ := 100000000

structure PortRef where
  hub : Text
  port : ℕ
  deriving DecidableEq

def number (n : ℕ) : Text := Nat.toDigits 10 n

/-- Whole seconds. -/
def seconds (t : ℕ) : Text := number (t / second)

namespace PortRef

def key (port : PortRef) : Text := port.hub ++ '/' :: number port.port

/-- The hub as `uhubctl` names it. -/
def location (port : PortRef) : Text :=
  match port.hub with
  | 'u' :: 's' :: 'b' :: bus => bus
  | hub => hub

end PortRef

/-- Switches the port. -/
def uhubctl (port : PortRef) (on : Bool) : Control (Option Text) := do
  let result ← switch on
  return result.error.map fun e =>
    "uhubctl ".toList ++ (if on then "on" else "off").toList ++ " on hub ".toList ++
      port.location ++ " port ".toList ++ number port.port ++ " failed: ".toList ++ e

/-- Asks until there is an answer, or the time is over. -/
def waitUntil {β : Type} (timeout : ℕ) (ask : Control (Option β)) : Control (Option β) := do
  let start ← now
  iterate (fun _ : Unit => do
    match ← ask with
    | some b => return .inr (some b)
    | none =>
      let time ← now
      if start + timeout ≤ time then return .inr none
      sleep POLL
      return .inl ()) ()

/-- The timing and expectation of one cycle. -/
structure Opts where
  offTime : ℕ
  back : ℕ
  gone : ℕ
  /-- What must be back; the device itself when nothing is given. -/
  expectVidpid : Option Text
  deriving DecidableEq

/-- The result of one cycle. -/
structure Report where
  port : PortRef
  deviceBefore : Option Seen
  deviceAfter : Option Seen
  offTimeRequested : ℕ
  offTimeActual : ℕ
  goneAfter : Option ℕ
  backAfter : Option ℕ
  readyAfter : Option ℕ
  reEnumerated : Bool
  notes : List Text
  deriving DecidableEq

def Report.level (report : Report) : ℕ := if report.reEnumerated then 2 else 1

/-! ### One cycle -/

/-- The device is not there, or another number is. -/
def left (before : Seen) (seen : Option Seen) : Bool :=
  seen.all fun s => s.devnum ≠ before.devnum

/-- The device is there with a new number, and is the one that is expected. -/
def newEnum (before : Option Seen) (expect : Option Text) (s : Seen) : Bool :=
  before.all (fun b => b.devnum ≠ s.devnum) && expect.all fun e => e = s.vidpid

/-- Waits for the device to leave the tree. -/
def waitGone (opts : Opts) (t0 : ℕ) (before : Option Seen) : Control (Option ℕ × List Text) :=
  match before with
  | none => return (none, [])
  | some b => do
    let gone ← waitUntil opts.gone do
      let seen ← probe
      return if left b seen then some () else none
    match gone with
    | some () =>
      let time ← now
      return (some (time - t0), [])
    | none =>
      return (none, ["the device stayed in the USB tree for ".toList ++ seconds opts.gone ++
        (" s after the port was switched off: the hub accepted the command but the port did not " ++
          "drop the device (not a hub that really switches this port)").toList])

/-- Keeps the port off for the rest of the time. -/
def hold (opts : Opts) (offDone : ℕ) : Control Unit := do
  let time ← now
  if time - offDone < opts.offTime then
    sleep (opts.offTime - (time - offDone))

/-- What every error says that leaves the port off. -/
def stillOff : Text := "THE PORT IS STILL OFF".toList

/-- Switches the port on, at the second try if need be. -/
def powerOn (port : PortRef) : ExceptT Text (Prog Effect Answer) (List Text) := do
  match ← uhubctl port true with
  | none => return []
  | some first =>
    sleep (second / 2)
    match ← uhubctl port true with
    | none =>
      return ["the first power-on failed (".toList ++ first ++ ") and the second worked".toList]
    | some e =>
      throw (first ++ "; second try: ".toList ++ e ++ ". ".toList ++ stillOff ++
        ": switch it on again with the port power tool".toList)

/-- Waits for the device to answer, as far as the time for its return goes. -/
def waitReady (port : PortRef) (opts : Opts) (onStart backAfter : ℕ) :
    ExceptT Text (Prog Effect Answer) ℕ := do
  let time ← now
  let ok ← waitUntil (opts.back - (time - onStart)) do
    let ok ← ready
    return if ok then some () else none
  match ok with
  | some () =>
    let time ← now
    return time - onStart
  | none =>
    throw ("the device was back in the USB tree ".toList ++
      Decimal.format 1 ((backAfter : ℚ) / second) ++
      " s after power-on but was not ready within ".toList ++ seconds opts.back ++
      " s of power-on on hub ".toList ++ port.hub ++ " port ".toList ++ number port.port)

/-- Why the device is not back. -/
def notBack (before seen : Option Seen) (expect : Option Text) : Text :=
  match before, seen with
  | some b, some s =>
    if s.devnum = b.devnum then
      "the same device number is still there (the device never left)".toList
    else "a device ".toList ++ s.vidpid ++ " is there but it is not the expected ".toList ++
      expect.getD []
  | none, some s =>
    "a device ".toList ++ s.vidpid ++ " is there but it is not the expected ".toList ++
      expect.getD []
  | _, none => "nothing enumerated".toList

/-- What follows when the device is back: its own check when that is asked for, and the report. -/
def confirm (port : PortRef) (opts : Opts) (ready : Bool) (before : Option Seen) (after : Seen)
    (gone : Option ℕ) (notes : List Text) (offDone onStart : ℕ) :
    ExceptT Text (Prog Effect Answer) Report := do
  let time ← now
  let backAfter := time - onStart
  let readyAfter ← if ready then some <$> waitReady port opts onStart backAfter else pure none
  if let (some g, some b) := (gone, before) then
    remember port.key ⟨g, backAfter, b.devnum, after.devnum⟩
  return { port, deviceBefore := before, deviceAfter := some after,
           offTimeRequested := opts.offTime, offTimeActual := onStart - offDone, goneAfter := gone,
           backAfter := some backAfter, readyAfter,
           reEnumerated := gone.isSome && before.isSome, notes }

/-- Switches the port off, waits for the device to leave the tree, switches the port on and waits
for the device to be back, and for `ready` to be true when that is asked for. -/
def cycle (port : PortRef) (opts : Opts) (ready : Bool) :
    ExceptT Text (Prog Effect Answer) Report := do
  let before ← probe
  let expect := opts.expectVidpid.or (before.map Seen.vidpid)
  let t0 ← now
  if let some e := ← uhubctl port false then throw e
  let offDone ← now
  let (gone, notes) ← waitGone opts t0 before
  hold opts offDone
  let onStart ← now
  let more ← powerOn port
  let after ← waitUntil opts.back do
    let seen ← probe
    return seen.filter (newEnum before expect)
  match after with
  | none =>
    let seen ← probe
    throw ("the device did not come back within ".toList ++ seconds opts.back ++
      " s of power-on on hub ".toList ++ port.hub ++ " port ".toList ++ number port.port ++
      ": ".toList ++ notBack before seen expect)
  | some a => confirm port opts ready before a gone (notes ++ more) offDone onStart

/-- One cycle after another until one succeeds, from the one with the index `i` on. -/
def escalate (port : PortRef) (ready : Bool) :
    ℕ → List Text → List Opts → Control (Except Text Report)
  | _, failures, [] => return .error ("; ".toList.intercalate failures)
  | i, failures, opts :: schedule => do
    match ← (cycle port opts ready).run with
    | .ok r =>
      return .ok (if 0 < i then
        { r with notes := r.notes ++ ["it took cycle ".toList ++ number (i + 1) ++
          " (off time ".toList ++ seconds opts.offTime ++ " s) after: ".toList ++
          "; ".toList.intercalate failures] }
        else r)
    | .error e =>
      escalate port ready (i + 1) (failures ++ ["cycle ".toList ++ number (i + 1) ++
        " (off ".toList ++ seconds opts.offTime ++ " s): ".toList ++ e]) schedule

/-- Runs a cycle for each entry of the schedule until one succeeds. -/
def cycleEscalating (port : PortRef) (schedule : List Opts) (ready : Bool) :
    Control (Except Text Report) := escalate port ready 0 [] schedule

/-! ### What the record of a run says -/

/-- What a reader of the record knows of the port. -/
structure Log where
  /-- What the tree showed last. -/
  last : Option Seen := none
  /-- What it had shown before the last power-off. -/
  base : Option Seen := none
  /-- The port was switched off, and no power-on has succeeded since. -/
  off : Bool := false
  /-- The port was switched off, and no power-on has been tried since. -/
  waiting : Bool := false
  /-- Nothing was there, at least once since the last power-off. -/
  absent : Bool := false
  /-- No power-off that failed was carried out, and no device had another number while a power-off
  was waited for. -/
  clean : Bool := true
  deriving DecidableEq

namespace Log

/-- Another number is there than before the power-off. -/
def renumbered (base seen : Option Seen) : Bool :=
  match base, seen with
  | some b, some s => s.devnum ≠ b.devnum
  | _, _ => false

def afterOff (log : Log) (result : Switching) : Log :=
  if result.error.isNone || result.switched then
    { log with
      base := log.last, off := true, waiting := true, absent := false,
      clean := log.clean && result.error.isNone }
  else log

def afterOn (log : Log) (result : Switching) : Log :=
  { log with off := log.off && result.error.isSome, waiting := false }

def afterProbe (log : Log) (seen : Option Seen) : Log :=
  { log with
    last := seen, absent := log.absent || seen.isNone,
    clean := log.clean && !(log.waiting && renumbered log.base seen) }

/-- The log after one more action. -/
def after (log : Log) : (e : Effect) → Answer e → Log
  | .uhubctl false, result => log.afterOff result
  | .uhubctl true, result => log.afterOn result
  | .probe, seen => log.afterProbe seen
  | .now, _ | .sleep _, _ | .ready, _ | .remember _ _, _ => log

/-- The log of a record. -/
def of (record : List (Σ e, Answer e)) : Log := Protocol.read after {} record

end Log

/-- The error says that the port is off. -/
def Says (e : Text) : Prop := stillOff <:+: e

/-- The device was seen to be away, and then to be there with a new number, as it was expected. -/
structure Back (opts : Opts) (log : Log) (report : Report) : Prop where
  absent : log.absent = true
  seen : ∃ b a, log.base = some b ∧ log.last = some a ∧ report.deviceBefore = some b ∧
    report.deviceAfter = some a ∧ a.devnum ≠ b.devnum ∧
    a.vidpid = opts.expectVidpid.getD b.vidpid

/-- When the port was switched off, it is on again or the error says that it is not; and the report
calls a device re-enumerated only when it left and came back. -/
def Right (schedule : List Opts) (log : Log) : Except Text Report → Prop
  | .ok report => log.off = false ∧
      (report.reEnumerated = true → ∃ opts ∈ schedule, Back opts log report)
  | .error e => log.off = true → Says e

/-! ### The parts of a cycle -/

/-- Asking changes nothing of the power, and makes nothing clean again. -/
structure Log.Keeps (l l' : Log) : Prop where
  off : l'.off = l.off
  base : l'.base = l.base
  waiting : l'.waiting = l.waiting
  absent : l.absent = true → l'.absent = true
  clean : l'.clean = true → l.clean = true

section Parts

variable {l l' l'' : Log} {β : Type}

theorem Log.Keeps.refl (l : Log) : l.Keeps l := ⟨rfl, rfl, rfl, id, id⟩

theorem Log.Keeps.trans (h : l.Keeps l') (h' : l'.Keeps l'') : l.Keeps l'' :=
  ⟨h'.off.trans h.off, h'.base.trans h.base, h'.waiting.trans h.waiting, h'.absent ∘ h.absent,
    h.clean ∘ h'.clean⟩

theorem Log.keeps_afterProbe (l : Log) (seen : Option Seen) : l.Keeps (l.afterProbe seen) := by
  refine ⟨rfl, rfl, rfl, ?_, ?_⟩
  · intro h
    exact Bool.or_eq_true_iff.mpr (.inl h)
  · intro h
    exact (Bool.and_eq_true_iff.mp h).1

section Asking

@[simp] theorem follows_now {Q : Log → ℕ → Prop} :
    now.Follows (.watching Log.after) l Q ↔ ∀ time, Q l time := Iff.of_eq (true_and _)

@[simp] theorem follows_sleep {Q : Log → Unit → Prop} {duration : ℕ} :
    (sleep duration).Follows (.watching Log.after) l Q ↔ Q l () :=
  ⟨fun h => h.2 (), fun h => ⟨trivial, fun _ => h⟩⟩

@[simp] theorem follows_ready {Q : Log → Bool → Prop} :
    Control.ready.Follows (.watching Log.after) l Q ↔ ∀ ok, Q l ok := Iff.of_eq (true_and _)

@[simp] theorem follows_remember {Q : Log → Unit → Prop} {key : Text} {evidence : Evidence} :
    (remember key evidence).Follows (.watching Log.after) l Q ↔ Q l () :=
  ⟨fun h => h.2 (), fun h => ⟨trivial, fun _ => h⟩⟩

@[simp] theorem follows_probe {Q : Log → Option Seen → Prop} :
    probe.Follows (.watching Log.after) l Q ↔ ∀ seen, Q (l.afterProbe seen) seen :=
  Iff.of_eq (true_and _)

@[simp] theorem follows_on {Q : Log → Switching → Prop} :
    (switch true).Follows (.watching Log.after) l Q ↔ ∀ result, Q (l.afterOn result) result :=
  Iff.of_eq (true_and _)

@[simp] theorem follows_off {Q : Log → Switching → Prop} :
    (switch false).Follows (.watching Log.after) l Q ↔ ∀ result, Q (l.afterOff result) result :=
  Iff.of_eq (true_and _)

end Asking

/-- What is asked of a port until there is an answer: `J` is what holds after an answer that is not
the one. -/
theorem follows_waitUntil {timeout : ℕ} {ask : Control (Option β)} {J : Log → Prop}
    {Q : Log → Option β → Prop} (hl : J l)
    (hask : ∀ l, J l → ask.Follows (.watching Log.after) l fun l' o => match o with
      | some b => Q l' (some b)
      | none => J l') (hend : ∀ l, J l → Q l none) :
    (waitUntil timeout ask).Follows (.watching Log.after) l Q := by
  simp only [waitUntil, follows_bind, follows_now]
  intro start
  refine follows_iterate.mpr ⟨fun _ => J, hl, ?_⟩
  intro _ l' hJ
  simp only [follows_bind]
  refine (hask l' hJ).mono ?_
  rintro l'' (_ | b) ho
  · -- no answer: the time is over, or there is another question
    simp only [follows_bind, follows_now]
    intro time
    split
    · exact hend _ ho
    · simpa using ho
  · exact ho

/-- What the wait for the device to leave the tree finds out. -/
theorem follows_waitGone {opts : Opts} {t0 : ℕ} {before : Option Seen} (hbase : l.base = before)
    (hwaiting : l.waiting = true) :
    (waitGone opts t0 before).Follows (.watching Log.after) l fun l' r => l.Keeps l' ∧
      (r.1.isSome = true → before.isSome = true ∧ (l'.clean = true → l'.absent = true)) := by
  cases before with
  | none => exact ⟨.refl l, (by intros; contradiction)⟩
  | some b =>
    simp only [waitGone, follows_bind]
    apply follows_waitUntil (J := fun l' => l.Keeps l') (.refl l)
    · intro l' hkeeps
      simp only [follows_bind, follows_probe, follows_pure]
      intro seen
      have hprobed := hkeeps.trans (l'.keeps_afterProbe seen)
      split_ifs with hleft
      · simp only [follows_now]
        refine fun _ => ⟨hprobed, fun _ => ⟨rfl, fun hclean => ?_⟩⟩
        -- a device that is there has another number, which is not clean
        cases seen with
        | none => simp [Log.afterProbe]
        | some s =>
          have hother : s.devnum ≠ b.devnum := by simpa [left] using hleft
          simp [Log.afterProbe, Log.renumbered, hkeeps.base, hkeeps.waiting, hbase, hwaiting,
            hother] at hclean
      · exact hprobed
    · exact fun l' hkeeps => ⟨hkeeps, (by intros; contradiction)⟩

theorem follows_hold {opts : Opts} {offDone : ℕ} {Q : Log → Unit → Prop} (h : Q l ()) :
    (hold opts offDone).Follows (.watching Log.after) l Q := by
  simp only [hold, follows_bind, follows_now]
  intro time
  split
  · exact follows_sleep.mpr h
  · exact h

/-- The port is on after it, or the error says that it is off. -/
theorem follows_powerOn (port : PortRef) :
    (powerOn port).run.Follows (.watching Log.after) l fun l' r => match r with
      | .ok _ => l' = { l with off := false, waiting := false }
      | .error e => Says e ∧ l'.clean = l.clean := by
  simp only [powerOn, uhubctl, follows_try_bind, follows_lift, follows_bind, follows_on,
    follows_pure]
  intro first
  cases hfirst : first.error with
  | none => simp [Log.afterOn, hfirst]
  | some e =>
    simp only [Option.map_some, follows_try_bind, follows_lift, follows_sleep, follows_bind,
      follows_on, follows_pure]
    intro again
    cases hagain : again.error with
    | none => simp [Log.afterOn, hagain]
    | some e' =>
      exact ⟨⟨_, _, rfl⟩, rfl⟩

/-- The check of the device leaves the log as it is. -/
theorem follows_waitReady {port : PortRef} {opts : Opts} {onStart backAfter : ℕ}
    {Q : Log → Except Text ℕ → Prop} (h : ∀ r, Q l r) :
    (waitReady port opts onStart backAfter).run.Follows (.watching Log.after) l Q := by
  simp only [waitReady, follows_try_bind, follows_lift, follows_now]
  intro time
  apply follows_waitUntil (J := fun l' => l' = l) rfl
  · rintro l' rfl
    simp only [follows_bind, follows_ready]
    intro ok
    cases ok
    · rfl
    · exact ⟨trivial, fun _ => h _⟩
  · rintro l' rfl
    exact h _

theorem follows_confirm {port : PortRef} {opts : Opts} {ready : Bool} {before : Option Seen}
    {a : Seen} {gone : Option ℕ} {notes : List Text} {offDone onStart : ℕ}
    {Q : Log → Except Text Report → Prop} (herror : ∀ e, Q l (.error e))
    (hok : ∀ report, report.deviceBefore = before → report.deviceAfter = some a →
      report.reEnumerated = (gone.isSome && before.isSome) → Q l (.ok report)) :
    (confirm port opts ready before a gone notes offDone onStart).run.Follows
      (.watching Log.after) l Q := by
  have hend (time : ℕ) (readyAfter : Option ℕ) := hok
    { port, deviceBefore := before, deviceAfter := some a, offTimeRequested := opts.offTime,
      offTimeActual := onStart - offDone, goneAfter := gone, backAfter := some (time - onStart),
      readyAfter, reEnumerated := gone.isSome && before.isSome, notes } rfl rfl rfl
  simp only [confirm, follows_try_bind, follows_lift, follows_now]
  intro time
  cases ready with
  | false =>
    simp only [Bool.false_eq_true, if_false, follows_try_bind, follows_try_pure]
    split
    · exact ⟨trivial, fun _ => hend time none⟩
    · exact hend time none
  | true =>
    simp only [if_true, follows_try_bind, follows_try_map]
    apply follows_waitReady
    rintro (e | readyAfter)
    · exact herror e
    · simp only [Except.map]
      split
      · exact ⟨trivial, fun _ => hend time _⟩
      · exact hend time _

/-- What one cycle does to the log. -/
def Cycled (opts : Opts) (l l' : Log) (r : Except Text Report) : Prop :=
  l'.clean = true → l.clean = true ∧ match r with
    | .ok report => l'.off = false ∧ (report.reEnumerated = true → Back opts l' report)
    | .error e => l'.off = true → Says e ∨ l.off = true

/-- A power-off that failed leaves the port as it was, when it is clean. -/
theorem cycled_of_failed {opts : Opts} {before : Option Seen} {result : Switching} {e e' : Text}
    (hresult : result.error = some e) :
    Cycled opts l ((l.afterProbe before).afterOff result) (.error e') := by
  intro hclean
  have hprobed := l.keeps_afterProbe before
  cases hswitched : result.switched with
  | false =>
    have hsame : (l.afterProbe before).afterOff result = l.afterProbe before := by
      simp [Log.afterOff, hresult, hswitched]
    rw [hsame] at hclean ⊢
    exact ⟨hprobed.clean hclean, fun hoff => .inr (hprobed.off ▸ hoff)⟩
  | true => simp [Log.afterOff, hresult, hswitched] at hclean

/-- The device is back when it was away and has a new number and the expected identity. -/
theorem back_of_newEnum {opts : Opts} {before : Option Seen} {a : Seen} {report : Report}
    (hbefore : before.isSome = true) (habsent : l.absent = true) (hbase : l.base = before)
    (hlast : l.last = some a)
    (hnew : newEnum before (opts.expectVidpid.or (before.map Seen.vidpid)) a = true)
    (hdevice : report.deviceBefore = before) (hafter : report.deviceAfter = some a) :
    Back opts l report := by
  obtain ⟨b, rfl⟩ := Option.isSome_iff_exists.mp hbefore
  rw [newEnum, Bool.and_eq_true] at hnew
  have hnumber : b.devnum ≠ a.devnum := by simpa using hnew.1
  have hexpect : a.vidpid = opts.expectVidpid.getD b.vidpid := by
    have hall := hnew.2
    cases hopts : opts.expectVidpid <;> rw [hopts] at hall <;> simpa [eq_comm] using hall
  exact ⟨habsent, b, a, hbase, hlast, hdevice, hafter, hnumber.symm, hexpect⟩

/-- One cycle, whatever the log was before it. -/
theorem follows_cycle (port : PortRef) (opts : Opts) (ready : Bool) :
    (cycle port opts ready).run.Follows (.watching Log.after) l (Cycled opts l) := by
  simp only [cycle, uhubctl, follows_try_bind, follows_lift, follows_probe, follows_now,
    follows_bind, follows_off, follows_pure]
  intro before t0 result
  have hprobed := l.keeps_afterProbe before
  cases hresult : result.error with
  | some e => exact cycled_of_failed hresult
  | none =>
    simp only [Option.map_none, follows_try_bind, follows_lift, follows_now]
    intro offDone
    -- the port is off, and the log starts anew with what was there before
    let l₀ : Log := { l.afterProbe before with
      base := before, off := true, waiting := true, absent := false }
    have hoff : (l.afterProbe before).afterOff result = l₀ := by
      simp [Log.afterOff, hresult, Log.afterProbe, l₀]
    rw [hoff]
    refine (follows_waitGone (l := l₀) rfl rfl).mono ?_
    rintro l₁ ⟨gone, notes⟩ ⟨hkeeps, hgone⟩
    apply follows_hold
    intro onStart
    have hclean₁ (h : l₁.clean = true) : l.clean = true := hprobed.clean (hkeeps.clean h)
    refine (follows_powerOn port).mono ?_
    rintro l₂ (e | more) hon
    · obtain ⟨hstated, hclean₂⟩ := hon
      exact fun hclean => ⟨hclean₁ (hclean₂ ▸ hclean), fun _ => .inl hstated⟩
    · subst hon
      let l₂ : Log := { l₁ with off := false, waiting := false }
      apply follows_waitUntil (J := fun l' => l₂.Keeps l') (.refl l₂)
      · intro l₃ hkeeps₃
        simp only [follows_bind, follows_probe]
        intro seen
        have hkeeps' := hkeeps₃.trans (l₃.keeps_afterProbe seen)
        cases hseen : seen.filter
          (newEnum before (opts.expectVidpid.or (before.map Seen.vidpid))) with
        | none => exact hkeeps'
        | some a =>
          obtain ⟨hsome, hnew⟩ := Option.filter_eq_some_iff.mp hseen
          apply follows_confirm
          · intro e hclean
            refine ⟨hclean₁ (hkeeps'.clean hclean), fun h => ?_⟩
            cases hkeeps'.off.symm.trans h
          · intro report hdevice hafter hre hclean
            refine ⟨hclean₁ (hkeeps'.clean hclean), hkeeps'.off, fun hreport => ?_⟩
            rw [hre, Bool.and_eq_true] at hreport
            obtain ⟨hbefore, habsent⟩ := hgone hreport.1
            exact back_of_newEnum hbefore (hkeeps'.absent (habsent (hkeeps'.clean hclean)))
              (hkeeps'.base.trans hkeeps.base) hsome hnew hdevice hafter
      · intro l₃ hkeeps₃
        simp only [follows_try_bind, follows_lift, follows_probe, follows_throw]
        intro seen
        have hkeeps' := hkeeps₃.trans (l₃.keeps_afterProbe seen)
        refine fun hclean => ⟨hclean₁ (hkeeps'.clean hclean), fun h => ?_⟩
        cases hkeeps'.off.symm.trans h

theorem says_intercalate {failures : List Text} {f : Text} (hf : f ∈ failures) (h : Says f) :
    Says ("; ".toList.intercalate failures) := by
  induction failures with
  | nil => cases hf
  | cons g failures ih =>
    cases failures with
    | nil =>
      obtain rfl := List.mem_singleton.mp hf
      simpa [List.intercalate] using h
    | cons g' failures =>
      have hcons : "; ".toList.intercalate (g :: g' :: failures) =
          g ++ ("; ".toList ++ "; ".toList.intercalate (g' :: failures)) := by
        simp [List.intercalate]
      rw [hcons]
      obtain rfl | hrest := List.mem_cons.mp hf
      · exact h.trans (List.prefix_append _ _).isInfix
      · exact (ih hrest).trans
          ((List.suffix_append _ _).isInfix.trans (List.suffix_append _ _).isInfix)

/-- The rest of a schedule, when an earlier error says that the port is off if it is. -/
theorem follows_escalate (port : PortRef) (ready : Bool) (i : ℕ) (failures : List Text)
    (schedule : List Opts)
    (hl : l.clean = true → l.off = true → ∃ f ∈ failures, Says f) :
    (escalate port ready i failures schedule).Follows (.watching Log.after) l fun l' r =>
      l'.clean = true → Right schedule l' r := by
  induction schedule generalizing l i failures with
  | nil =>
    intro hclean hoff
    obtain ⟨f, hf, hstated⟩ := hl hclean hoff
    exact says_intercalate hf hstated
  | cons opts schedule ih =>
    simp only [escalate, follows_bind]
    refine (follows_cycle port opts ready).mono ?_
    rintro l' (e | report) hcycled
    · apply (ih _ _ _).mono
      · rintro l'' (e' | report) hright hclean
        · exact hright hclean
        · obtain ⟨hoff, hback⟩ := hright hclean
          refine ⟨hoff, fun hreport => ?_⟩
          obtain ⟨opts', hmem, hopts'⟩ := hback hreport
          exact ⟨opts', List.mem_cons_of_mem _ hmem, hopts'⟩
      · -- the error of this cycle, or an earlier one, says it
        intro hclean hoff
        obtain ⟨hbefore, herror⟩ := hcycled hclean
        obtain hstated | hoff := herror hoff
        · exact ⟨_, List.mem_append_right _ (List.mem_singleton_self _),
            hstated.trans (List.suffix_append _ _).isInfix⟩
        · obtain ⟨f, hf, hstated⟩ := hl hbefore hoff
          exact ⟨f, List.mem_append_left _ hf, hstated⟩
    · intro hclean
      obtain ⟨-, hoff, hback⟩ := hcycled hclean
      refine ⟨hoff, fun hreport => ⟨opts, List.mem_cons_self, ?_⟩⟩
      split at hreport
      all_goals
        have hopts := hback hreport
        split
        all_goals exact ⟨hopts.absent, hopts.seen⟩

end Parts

/-- A run of which every power-off is clean leaves the port on or admits that it is off, and reports
only what was seen. -/
theorem cycling_right (port : PortRef) (ready : Bool) (record : List (Σ e, Answer e))
    (r : Except Text Report) (hclean : (Log.of record).clean = true) :
    (∀ opts, Runs (cycle port opts ready).run record (done r) → Right [opts] (Log.of record) r) ∧
      ∀ schedule, Runs (cycleEscalating port schedule ready) record (done r) →
        Right schedule (Log.of record) r := by
  constructor
  · intro opts hruns
    have hcycled : Cycled opts {} (Log.of record) r :=
      (follows_cycle port opts ready).runs hruns
    obtain ⟨-, hright⟩ := hcycled hclean
    cases r with
    | error e =>
      intro hoff
      exact (hright hoff).resolve_right nofun
    | ok report => exact ⟨hright.1, fun h => ⟨opts, List.mem_singleton_self _, hright.2 h⟩⟩
  · intro schedule hruns
    have hfollows := follows_escalate (l := {}) port ready 0 [] schedule nofun
    exact hfollows.runs hruns hclean

section Runs

def somePort : PortRef := ⟨"3-2".toList, 1⟩

def someOpts : Opts := ⟨0, 45 * second, 10 * second, none⟩

/-- A cycle of a device with the number 7 that comes back with the number 8; `seen` is what the tree
shows while the port is off. -/
def someRecord (seen : Option Seen) : List (Σ e, Answer e) :=
  [⟨.probe, some ⟨7, "1234:5678".toList⟩⟩, ⟨.now, (0 : ℕ)⟩,
    ⟨.uhubctl false, (⟨none, true⟩ : Switching)⟩, ⟨.now, (0 : ℕ)⟩, ⟨.now, (0 : ℕ)⟩, ⟨.probe, seen⟩,
    ⟨.now, (0 : ℕ)⟩, ⟨.now, (0 : ℕ)⟩, ⟨.now, (0 : ℕ)⟩,
    ⟨.uhubctl true, (⟨none, true⟩ : Switching)⟩, ⟨.now, (0 : ℕ)⟩,
    ⟨.probe, some ⟨8, "1234:5678".toList⟩⟩, ⟨.now, (0 : ℕ)⟩,
    ⟨.remember somePort.key ⟨0, 0, 7, 8⟩, ()⟩]

def someReport : Report where
  port := somePort
  deviceBefore := some ⟨7, "1234:5678".toList⟩
  deviceAfter := some ⟨8, "1234:5678".toList⟩
  offTimeRequested := 0
  offTimeActual := 0
  goneAfter := some 0
  backAfter := some 0
  readyAfter := none
  reEnumerated := true
  notes := []

/-- A cycle in which the device is away while the port is off. -/
theorem cycle_absent :
    Right [someOpts] (Log.of (someRecord none)) (.ok someReport) := by
  apply (cycling_right somePort false (someRecord none) _ rfl).1 someOpts
  repeat' first | exact Runs.refl _ | apply Runs.act | apply Runs.loop

/-- A power-off that fails, though the port is switched. -/
def failedRecord : List (Σ e, Answer e) :=
  [⟨.probe, none⟩, ⟨.now, (0 : ℕ)⟩, ⟨.uhubctl false, (⟨some "timeout".toList, true⟩ : Switching)⟩]

/-- A device that only changes its number before the port is really off counts as one that left. And
an error of `uhubctl` hides a power-off that was carried out all the same. -/
theorem cycle_wrong :
    (Runs (cycle somePort someOpts false).run (someRecord (some ⟨8, "1234:5678".toList⟩))
        (done (.ok someReport)) ∧
      ¬ Right [someOpts] (Log.of (someRecord (some ⟨8, "1234:5678".toList⟩))) (.ok someReport)) ∧
    ∃ e, Runs (cycle somePort someOpts false).run failedRecord (done (.error e)) ∧
      ¬ Right [someOpts] (Log.of failedRecord) (.error e) := by
  refine ⟨⟨?_, ?_⟩, "uhubctl off on hub 3-2 port 1 failed: timeout".toList, ?_, ?_⟩
  · repeat' first | exact Runs.refl _ | apply Runs.act | apply Runs.loop
  · intro hright
    obtain ⟨opts, -, hback⟩ := hright.2 rfl
    exact absurd hback.absent nofun
  · repeat' first | exact Runs.refl _ | apply Runs.act
  · intro hright
    have hstated : Says "uhubctl off on hub 3-2 port 1 failed: timeout".toList := hright rfl
    revert hstated
    unfold Says
    decide +kernel

end Runs

end HamsOpen.UsbHub
