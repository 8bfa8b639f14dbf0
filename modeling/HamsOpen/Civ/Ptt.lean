import HamsOpen.Civ.Engine
import HamsOpen.Lib.Exchange

/-!
# Which frame acknowledges a PTT set

Some rigs answer a PTT set with `1C 00 <state>`, the same frame that answers a PTT read and that a rig
sends by itself when its PTT changes. The engine takes the first frame after a PTT set for its answer.
Here it talks with a rig that answers in order, and each frame tells beside which request it answers.
-/

namespace HamsOpen.Civ

open Rig (Op Inbound RigError Request)
open Act

/-- What the engine did: operations, and frames with the request each answers. -/
abbrev Happening := Act Op Frame (Option Inbound)

/-- The engine of a rig, as the client of the rig. -/
def client (desc : Description) : Client Op Frame (Option Inbound) CivEngine where
  init e := e = .new desc
  ask op e :=
    let (request, e) := e.encode op
    (request.isOk, e)
  take f e := e.receive f

section Ptt

variable (desc : Description)

/-- The last thing that went by is a PTT set. Operations that the rig is not capable of, frames of
others and scope frames do not count. -/
def awaits : List Happening → Bool
  | [] => false
  | .ask op _ :: earlier =>
    if desc.capabilities.has op.requiredCapability then CivEngine.isSetPtt op else awaits earlier
  | .take f _ _ :: earlier => awaits earlier && !(desc.civ.hears f && f.cmd != SCOPE_CMD)

/-- An acknowledgement out of a frame `1C 00 <state>` is for the outstanding PTT set of that state
that the frame answers; a late answer to a PTT read and what nobody asked for are values. -/
def Told : Happening → List Happening → Prop
  | .take f answers out, earlier => ∀ state ∈ f.pttState,
    (out = some .ack → ∃ n ∈ answers, Outstanding earlier n (.setPtt (state != 0))) ∧
    (desc.civ.hears f = true →
      (answers = none ∨ ∃ n ∈ answers, (requests earlier)[n]? = some .getPtt) →
      out = some (.observation (.ptt (state != 0))))
  | .ask .., _ => True

/-- A frame `1C 00 <state>` of the rig that comes right after a PTT set answers a PTT set of that
state. -/
def Fits : Happening → List Happening → Prop
  | .take f answers _, earlier => ∀ state ∈ f.pttState,
    desc.civ.hears f = true → awaits desc earlier = true →
      ∃ n ∈ answers, (requests earlier)[n]? = some (.setPtt (state != 0))
  | .ask .., _ => True

/-- What the engine makes of a PTT frame. -/
def Decoded : Happening → List Happening → Prop
  | .take f _ out, earlier => ∀ state ∈ f.pttState, out =
    if desc.civ.hears f then
      if awaits desc earlier then some .ack else some (.observation (.ptt (state != 0)))
    else none
  | .ask .., _ => True

instance : ∀ act earlier, Decidable (Told desc act earlier)
  | .take f _ _, _ => inferInstanceAs (Decidable (∀ state ∈ f.pttState, _))
  | .ask .., _ => inferInstanceAs (Decidable True)

instance : ∀ act earlier, Decidable (Fits desc act earlier)
  | .take f _ _, _ => inferInstanceAs (Decidable (∀ state ∈ f.pttState, _))
  | .ask .., _ => inferInstanceAs (Decidable True)

variable {desc}

/-- The flag of an engine tells whether a PTT set is the last thing that went by. -/
structure Follows (desc : Description) (e : CivEngine) (log : List Happening) : Prop where
  description : e.desc = desc
  flag : e.awaitingPttAck = awaits desc log
  decoded : History.Throughout (Decoded desc) log

theorem Follows.encode {e : CivEngine} {log : List Happening} (h : Follows desc e log) (op : Op)
    (sent : Bool) : Follows desc (e.encode op).2 (.ask op sent :: log) where
  description := CivEngine.encode_desc.trans h.description
  flag := by
    rw [CivEngine.encode_awaiting, h.description, h.flag]
    exact rfl
  decoded := ⟨trivial, h.decoded⟩

theorem Follows.receive {e : CivEngine} {log : List Happening} (h : Follows desc e log) (f : Frame)
    (answers : Option ℕ) :
    Follows desc (e.receive f).2 (.take f answers (e.receive f).1 :: log) := by
  obtain ⟨mode, hmode⟩ := CivEngine.receive_mode (e := e) (f := f)
  rw [hmode, CivEngine.receive_fst]
  refine ⟨CivEngine.decode_desc.trans h.description, ?_, ⟨?_, h.decoded⟩⟩
  · have hflag := CivEngine.decode_awaiting (e := e) (f := f)
    rw [h.description, h.flag] at hflag
    exact hflag
  · intro state hstate
    cases hhears : desc.civ.hears f with
    | false =>
      rw [← h.description] at hhears
      rw [CivEngine.decode_unheard hhears]
      exact rfl
    | true =>
      rw [← h.description] at hhears
      rw [CivEngine.decode_ptt hhears hstate, h.flag]
      exact rfl

/-- In any exchange the engine follows what went by. -/
theorem reachable_follows {x : Exchange Op Frame (Option Inbound) CivEngine}
    (h : (client desc).machine.Reachable x) : Follows desc x.client x.log := by
  apply Client.reachable_client ?_ ?_ ?_ h
  · intro e he
    obtain rfl := he
    exact ⟨rfl, rfl, trivial⟩
  · intro op e log hfollows
    exact hfollows.encode op _
  · intro f answers e log hfollows
    exact hfollows.receive f answers

/-- A PTT frame is told right just when it fits, given what the engine makes of it and that an answer
is that of an outstanding request. -/
theorem told_iff_fits {act : Happening} {earlier : List Happening}
    (hdecoded : Decoded desc act earlier) (hanswers : AnswersOutstanding act earlier) :
    Told desc act earlier ↔ Fits desc act earlier := by
  cases act with
  | ask op sent => exact Iff.rfl
  | take f answers out =>
    constructor
    · intro htold state hstate hhears hawaits
      have hack : out = some .ack := by
        rw [hdecoded state hstate, if_pos hhears, if_pos hawaits]
      obtain ⟨n, hn, houtstanding⟩ := (htold state hstate).1 hack
      exact ⟨n, hn, houtstanding.1⟩
    · intro hfits state hstate
      have hout := hdecoded state hstate
      by_cases hhears : desc.civ.hears f = true
      · rw [if_pos hhears] at hout
        by_cases hawaits : awaits desc earlier = true
        · obtain ⟨n, hn, hrequest⟩ := hfits state hstate hhears hawaits
          obtain rfl := Option.mem_def.mp hn
          obtain ⟨r, -, hfresh⟩ := hanswers
          refine ⟨fun _ => ⟨n, rfl, hrequest, hfresh⟩, fun _ hread => ?_⟩
          -- What answers a PTT set is neither unasked for nor the answer to a read.
          rcases hread with hnone | ⟨m, hm, hread⟩
          · cases hnone
          · obtain rfl := Option.some.inj (Option.mem_def.mp hm)
            cases hread.symm.trans hrequest
        · rw [if_neg hawaits] at hout
          refine ⟨fun hack => ?_, fun _ _ => hout⟩
          cases hout.symm.trans hack
      · rw [if_neg hhears] at hout
        refine ⟨fun hack => ?_, fun h => absurd h hhears⟩
        cases hout.symm.trans hack

/-- An exchange with a rig that answers in order is told right just when every PTT frame that comes
right after a PTT set answers a PTT set of its state. -/
theorem ptt_acknowledged {x : Exchange Op Frame (Option Inbound) CivEngine}
    (h : (client desc).machine.Reachable x) :
    History.Throughout (Told desc) x.log ↔ History.Throughout (Fits desc) x.log :=
  History.Throughout.congr <|
    ((reachable_follows h).decoded.and (Client.answers_outstanding h)).imp
      fun _ _ hboth => told_iff_fits hboth.1 hboth.2

end Ptt

/-! ### A rig whose PTT can be read and set -/

/-- An IC-7300 of which only the PTT matters. -/
def pttRig : Description where
  civ := ⟨0x94, 0xE0, 5, .standard⟩
  scope := none
  levels := ⟨[], 0, 0, []⟩
  capabilities := [.readPtt, .setPtt]
  modeCodes := []

/-- The exchange before anything went by. -/
def silent : Exchange Op Frame (Option Inbound) CivEngine := ⟨.new pttRig, [], [], []⟩

theorem reachable_silent : (client pttRig).machine.Reachable silent :=
  .init ⟨rfl, rfl, rfl, rfl⟩

/-- A PTT frame of the rig. -/
def pttFrame (state : Byte) : Frame := ⟨0xE0, 0x94, 0x1C, [0x00, state]⟩

/-- A PTT set that is answered with its state is acknowledged, and the frame that the rig sends
afterwards is a value. -/
theorem ptt_acknowledged_answer : ∃ x, (client pttRig).machine.Reachable x ∧
    x.log = [.take (pttFrame 0) none (some (.observation (.ptt false))),
      .take (pttFrame 1) (some 0) (some .ack), .ask (.setPtt true) true] ∧
    History.Throughout (Told pttRig) x.log := by
  obtain ⟨x, hx, hlog, hfits⟩ := reachable_silent.exists_of_run
    (P := fun x => x.log = [.take (pttFrame 0) none (some (.observation (.ptt false))),
      .take (pttFrame 1) (some 0) (some .ack), .ask (.setPtt true) true] ∧
      History.Throughout (Fits pttRig) x.log)
    [.ask (.setPtt true), .answer (pttFrame 1), .push (pttFrame 0), .take, .take]
    (by decide +kernel)
  exact ⟨x, hx, hlog, (ptt_acknowledged hx).mpr hfits⟩

/-- A PTT read is given up, and the PTT set after it never gets to the rig: the late answer to the
read, which says that the PTT is off, acknowledges the set. -/
theorem late_answer_acknowledges : ∃ x, (client pttRig).machine.Reachable x ∧
    x.log = [.take (pttFrame 0) (some 0) (some .ack), .ask (.setPtt true) true,
      .ask .getPtt true] ∧
    ¬ History.Throughout (Told pttRig) x.log :=
  reachable_silent.exists_of_run
    (P := fun x => x.log = [.take (pttFrame 0) (some 0) (some .ack), .ask (.setPtt true) true,
      .ask .getPtt true] ∧ ¬ History.Throughout (Told pttRig) x.log)
    [.ask .getPtt, .ask (.setPtt true), .answer (pttFrame 0), .skip, .take] (by decide +kernel)

end HamsOpen.Civ
