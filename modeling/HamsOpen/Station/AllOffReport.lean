import HamsOpen.Lib.Ends
import HamsOpen.Station.Drives
import HamsOpen.Station.History
import HamsOpen.Station.Order

/-!
# The report of the emergency all-off

The emergency all-off goes through its channels in an order that is fixed by the definition of the
station. It begins to drive each of them off before anything can cut it short, and files each under
one of the two lists of its report. Nothing it does has to wait for another command, so it is never
stuck.
-/

namespace HamsOpen.Station

open Relation

/-- The channel that powers a device. -/
def StationDef.powerChannel (s : StationDef) (dev : DeviceId) : Option ChannelId :=
  match (s.device dev).map DeviceDef.power with
  | some (.channel channel) => some channel
  | _ => none

theorem powerChannel_eq_some {s : StationDef} {dev : DeviceId} {id : ChannelId}
    (h : s.powerChannel dev = some id) :
    ∃ d, s.device dev = some d ∧ d.power = .channel id ∧ (id, false) ∈ d.power.sources := by
  unfold StationDef.powerChannel at h
  split at h
  next hpower =>
    obtain ⟨d, hd, hpower⟩ := Option.map_eq_some_iff.mp hpower
    obtain rfl := Option.some.inj h
    refine ⟨d, hd, hpower, ?_⟩
    rw [hpower]
    exact List.mem_cons_self
  · cases h

variable {site : Site}

/-! ### The order -/

/-- Channels that are not in a list yet are put behind it. -/
theorem foldl_behind (cs : List ChannelDef) {order : List ChannelId} (h : order.Nodup) :
    let all := cs.foldl (fun order c => if c.id ∈ order then order else order ++ [c.id]) order
    (∃ rest, all = order ++ rest) ∧ all.Nodup ∧
      ∀ x, x ∈ all ↔ x ∈ order ∨ ∃ c ∈ cs, c.id = x := by
  induction cs generalizing order with
  | nil => exact ⟨⟨[], (List.append_nil order).symm⟩, h, fun x => by simp⟩
  | cons c cs ih =>
    rw [List.foldl_cons]
    by_cases hc : c.id ∈ order
    · rw [if_pos hc]
      obtain ⟨hbehind, hnodup, hmem⟩ := ih h
      refine ⟨hbehind, hnodup, fun x => (hmem x).trans ?_⟩
      constructor
      · rintro (hx | ⟨c', hc', hx⟩)
        · exact .inl hx
        · exact .inr ⟨c', List.mem_cons_of_mem _ hc', hx⟩
      · rintro (hx | ⟨c', hc', rfl⟩)
        · exact .inl hx
        · rcases List.mem_cons.mp hc' with rfl | hc'
          · exact .inl hc
          · exact .inr ⟨c', hc', rfl⟩
    · rw [if_neg hc]
      have hnew : (order ++ [c.id]).Nodup :=
        List.nodup_append.mpr ⟨h, List.nodup_singleton _, fun x hx y hy heq =>
          hc (List.mem_singleton.mp hy ▸ heq ▸ hx)⟩
      obtain ⟨⟨rest, hrest⟩, hnodup, hmem⟩ := ih hnew
      refine ⟨⟨c.id :: rest, ?_⟩, hnodup, fun x => (hmem x).trans ?_⟩
      · rw [hrest, List.append_assoc, List.singleton_append]
      · rw [List.mem_append, List.mem_singleton, or_assoc]
        apply or_congr_right
        constructor
        · rintro (rfl | ⟨c', hc', hx⟩)
          · exact ⟨c, List.mem_cons_self, rfl⟩
          · exact ⟨c', List.mem_cons_of_mem _ hc', hx⟩
        · rintro ⟨c', hc', rfl⟩
          rcases List.mem_cons.mp hc' with rfl | hc'
          · exact .inl rfl
          · exact .inr ⟨c', hc', rfl⟩

section Order

variable (h : Valid site.station)

include h

/-- A channel that powers a device is a power channel. -/
theorem powerChannel_kind {dev : DeviceId} {id : ChannelId}
    (hid : site.station.powerChannel dev = some id) :
    ∃ c ∈ site.station.channels, c.id = id ∧ c.kind.isPower = true := by
  obtain ⟨d, hd, -, hsource⟩ := powerChannel_eq_some hid
  obtain ⟨c, hc, hpowers⟩ := h.source (StationDef.mem_of_device hd).1 hsource
  obtain ⟨hmem, hcid⟩ := StationDef.mem_of_channel hc
  refine ⟨c, hmem, hcid, ?_⟩
  cases hkind : c.kind with
  | power => rfl
  | _ => simp [hkind, ChannelKind.powers] at hpowers

/-- A channel powers one device. -/
theorem powerChannel_inj {a b : DeviceId} {id : ChannelId}
    (ha : site.station.powerChannel a = some id) (hb : site.station.powerChannel b = some id) :
    a = b := by
  obtain ⟨d, hd, -, hsource⟩ := powerChannel_eq_some ha
  obtain ⟨d', hd', -, hsource'⟩ := powerChannel_eq_some hb
  obtain ⟨hmem, rfl⟩ := StationDef.mem_of_device hd
  obtain ⟨hmem', rfl⟩ := StationDef.mem_of_device hd'
  rw [h.source_unique hmem hmem' (List.mem_map_of_mem hsource) (List.mem_map_of_mem hsource')]

/-- No channel is both an amplifier-operate and a power channel. -/
theorem operate_ne_power {c c' : ChannelDef} (hc : c ∈ site.station.channels)
    (hc' : c' ∈ site.station.channels) (hoperate : c.kind.isOperate = true)
    (hpower : c'.kind.isPower = true) : c.id ≠ c'.id := by
  intro heq
  obtain rfl := Option.some.inj ((h.channel hc).symm.trans (heq ▸ h.channel hc'))
  cases hkind : c.kind with
  | power => simp [hkind, ChannelKind.isOperate] at hoperate
  | _ => simp [hkind, ChannelKind.isPower] at hpower

/-- The amplifier-operate channels, then the channels that power devices, the dependents first,
then the other power channels. -/
theorem allOffOrder_parts : ∃ order rest, site.station.powerOnOrder = .ok order ∧
    site.allOffOrder = (site.station.channels.filter (·.kind.isOperate)).map (·.id) ++
      (order.reverse.filterMap site.station.powerChannel ++ rest) ∧
    site.allOffOrder.Nodup ∧
    ∀ x, x ∈ site.allOffOrder ↔ ∃ c ∈ site.station.channels, c.id = x ∧ c.kind.stops = true := by
  obtain ⟨order, horder⟩ := h.order
  obtain ⟨-, hordered⟩ := StationDef.powerOnOrder_ordered h.devices horder
  let operate := (site.station.channels.filter (·.kind.isOperate)).map (·.id)
  let devices := order.reverse.filterMap site.station.powerChannel
  have hmemOperate (x : ChannelId) : x ∈ operate ↔
      ∃ c ∈ site.station.channels, c.id = x ∧ c.kind.isOperate = true := by
    constructor
    · intro hx
      obtain ⟨c, hc, rfl⟩ := List.mem_map.mp hx
      obtain ⟨hc, hkind⟩ := List.mem_filter.mp hc
      exact ⟨c, hc, rfl, hkind⟩
    · rintro ⟨c, hc, rfl, hkind⟩
      exact List.mem_map_of_mem (List.mem_filter.mpr ⟨hc, hkind⟩)
  have hmemDevices (x : ChannelId) (hx : x ∈ devices) :
      ∃ c ∈ site.station.channels, c.id = x ∧ c.kind.isPower = true := by
    obtain ⟨dev, -, hdev⟩ := List.mem_filterMap.mp hx
    exact powerChannel_kind h hdev
  have hnodup : (operate ++ devices).Nodup := by
    refine List.nodup_append.mpr ⟨?_, ?_, fun x hx y hy => ?_⟩
    · exact h.channels.sublist (List.filter_sublist.map _)
    · exact (List.nodup_reverse.mpr hordered.nodup).filterMap fun a b x ha hb =>
        powerChannel_inj h ha hb
    · obtain ⟨c, hc, rfl, hoperate⟩ := (hmemOperate x).mp hx
      obtain ⟨c', hc', rfl, hpower⟩ := hmemDevices y hy
      exact operate_ne_power h hc hc' hoperate hpower
  have heq : site.allOffOrder = (site.station.channels.filter (·.kind.isPower)).foldl
      (fun order c => if c.id ∈ order then order else order ++ [c.id]) (operate ++ devices) := by
    unfold Site.allOffOrder
    rw [horder]
    rfl
  obtain ⟨⟨rest, hrest⟩, hall, hmem⟩ :=
    foldl_behind (site.station.channels.filter (·.kind.isPower)) hnodup
  refine ⟨order, rest, horder, ?_, heq ▸ hall, fun x => ?_⟩
  · rw [heq, hrest, List.append_assoc]
  · rw [heq, hmem, List.mem_append]
    unfold ChannelKind.stops
    constructor
    · rintro ((hx | hx) | ⟨c, hc, rfl⟩)
      · obtain ⟨c, hc, hcx, hkind⟩ := (hmemOperate x).mp hx
        exact ⟨c, hc, hcx, Bool.or_eq_true_iff.mpr (.inr hkind)⟩
      · obtain ⟨c, hc, hcx, hkind⟩ := hmemDevices x hx
        exact ⟨c, hc, hcx, Bool.or_eq_true_iff.mpr (.inl hkind)⟩
      · obtain ⟨hc, hkind⟩ := List.mem_filter.mp hc
        exact ⟨c, hc, rfl, Bool.or_eq_true_iff.mpr (.inl hkind)⟩
    · rintro ⟨c, hc, hcx, hkind⟩
      rcases Bool.or_eq_true_iff.mp hkind with hkind | hkind
      · exact .inr ⟨c, List.mem_filter.mpr ⟨hc, hkind⟩, hcx⟩
      · exact .inl (.inl ((hmemOperate x).mpr ⟨c, hc, hcx, hkind⟩))

theorem nodup_allOffOrder : site.allOffOrder.Nodup := by
  obtain ⟨order, rest, -, -, hnodup, -⟩ := allOffOrder_parts h
  exact hnodup

/-- The all-off is about the amplifier-operate and power channels. -/
theorem mem_allOffOrder {x : ChannelId} : x ∈ site.allOffOrder ↔
    ∃ c ∈ site.station.channels, c.id = x ∧ c.kind.stops = true := by
  obtain ⟨order, rest, -, -, -, hmem⟩ := allOffOrder_parts h
  exact hmem x

theorem operate_before_power {c c' : ChannelDef} (hc : c ∈ site.station.channels)
    (hc' : c' ∈ site.station.channels) (hoperate : c.kind.isOperate = true)
    (hpower : c'.kind.isPower = true) : [c.id, c'.id].Sublist site.allOffOrder := by
  obtain ⟨order, rest, -, hparts, -, hmem⟩ := allOffOrder_parts h
  have hfirst : c.id ∈ (site.station.channels.filter (·.kind.isOperate)).map (·.id) :=
    List.mem_map_of_mem (List.mem_filter.mpr ⟨hc, hoperate⟩)
  have hsecond := (hmem c'.id).mpr ⟨c', hc', rfl, stops_of_power hpower⟩
  rw [hparts] at hsecond ⊢
  refine (List.singleton_sublist.mpr hfirst).append (List.singleton_sublist.mpr ?_)
  refine (List.mem_append.mp hsecond).resolve_left fun hin => ?_
  obtain ⟨c₁, hc₁, heq⟩ := List.mem_map.mp hin
  obtain ⟨hc₁, hoperate₁⟩ := List.mem_filter.mp hc₁
  exact operate_ne_power h hc₁ hc' hoperate₁ hpower heq

/-- The channel of a device comes before those of all that it depends on, directly or not. -/
theorem dependent_before {a b : DeviceId} {ca cb : ChannelId}
    (hdep : TransGen site.station.DependsOn a b) (ha : site.station.powerChannel a = some ca)
    (hb : site.station.powerChannel b = some cb) : [ca, cb].Sublist site.allOffOrder := by
  obtain ⟨order, rest, horder, hparts, -, -⟩ := allOffOrder_parts h
  obtain ⟨hmem, hordered⟩ := StationDef.powerOnOrder_ordered h.devices horder
  have hin : a ∈ order := by
    obtain ⟨p, ⟨x, hx, -⟩, -⟩ := TransGen.head'_iff.mp hdep
    obtain ⟨hin, rfl⟩ := StationDef.mem_of_device hx
    exact (hmem _).mpr (List.mem_map_of_mem hin)
  have hpair := ((hordered.behind_of_transGen hin hdep).reverse).filterMap site.station.powerChannel
  rw [List.reverse_cons, List.reverse_singleton, List.singleton_append, List.filterMap_cons_some ha,
    List.filterMap_cons_some hb, List.filterMap_nil] at hpair
  rw [hparts]
  exact (hpair.trans (List.sublist_append_left _ _)).trans (List.sublist_append_right _ _)

end Order

/-! ### What it attempts -/

/-- The line that an event tells command `k` has begun to drive to safety. -/
def Event.attempt (k : Nat) : Event → Option Wire
  | .force j w => if j = k then some w else none
  | _ => none

/-- The lines that a command has begun to drive to safety, the first one first. -/
def attempted (k : Nat) (log : List Event) : List Wire := (log.filterMap (Event.attempt k)).reverse

theorem attempted_append (k : Nat) (new log : List Event) :
    attempted k (new ++ log) = attempted k log ++ attempted k new := by
  unfold attempted
  rw [List.filterMap_append, List.reverse_append]

/-- The protocol of a command that only counts what it drives to safety. -/
def attempts : Protocol Act Act.Answer (List Wire) where
  allows _ _ := True
  after l a _ := match a with
    | .force w => l ++ [w]
    | _ => l
  lost l := l

/-- An action that can be performed at any time, and drives nothing to safety. -/
def Act.prompt : Act → Bool
  | .lock _ | .unlock _ | .sleep _ | .force _ => false
  | _ => true

/-- An action that can be performed at any time. -/
def Act.Ready (a : Act) : Prop := a.prompt = true ∨ ∃ w, a = .force w

theorem attempts_prompt {a : Act} (ha : a.prompt = true) (l : List Wire) :
    attempts.allows l a ∧ ∀ r, attempts.after l a r = l := by
  cases a with
  | force => cases ha
  | _ => exact ⟨trivial, fun r => rfl⟩

instance : Nonempty Choice := ⟨.go⟩

/-- However the drivers fail, a command without locks and delays goes on. -/
theorem exists_answer {a : Act} (ha : a.Ready) (k : Nat) (s : Plant) :
    ∃ choice o, a.perform site k choice s = some o := by
  obtain ⟨r, hr⟩ : ∃ r, a.answer site k (.fails ⟨.driver, ""⟩) s = some r := by
    rcases ha with hprompt | ⟨w, rfl⟩
    · cases a with
      | lock | unlock | sleep | force => cases hprompt
      | _ => exact ⟨_, rfl⟩
    · exact ⟨_, rfl⟩
  refine ⟨.fails ⟨.driver, ""⟩, (r, a.after site k r s), ?_⟩
  unfold Act.perform
  rw [hr]
  rfl

theorem attempted_after {a : Act} (r : a.Answer) (k : Nat) (s : Plant) :
    attempted k (a.after site k r s).log = attempts.after (attempted k s.log) a r := by
  rw [Act.after_log, attempted_append]
  cases a with
  | force w =>
    have hself : attempted k [.force k w] = [w] := by
      simp [attempted, Event.attempt]
    exact congrArg _ hself
  | _ => exact List.append_nil _

theorem attempted_other {j k : Nat} (hne : k ≠ j) {a : Act} (r : a.Answer) (s : Plant) :
    attempted k (a.after site j r s).log = attempted k s.log := by
  rw [Act.after_log, attempted_append]
  cases a with
  | force w =>
    have hother : attempted k [.force j w] = [] := by
      simp [attempted, Event.attempt, Ne.symm hne]
    exact (congrArg _ hother).trans (List.append_nil _)
  | _ => exact List.append_nil _

section Run

open Prog

/-- A part of the all-off between two drives. -/
abbrev Between {α : Type} (x : Op α) : Prop :=
  Prog.Ends (fun a : Act => a.prompt = true) x.run

theorem readLine_between (c : ChannelDef) (line : Nat) : Between (Site.readLine c line) :=
  ends_act rfl fun _ => ends_perform rfl

theorem readWays_between (c : ChannelDef) (n : Nat) (lines : List Nat) :
    Between (Site.readWays c n lines) := by
  induction lines generalizing n with
  | nil => exact ends_pure _
  | cons line rest ih =>
    apply ends_try_bind (readLine_between c line)
    intro on
    apply ends_try_bind (ih (n + 1))
    intro ways
    exact ends_pure _

theorem readValue_between (c : ChannelDef) : Between (Site.readValue c) := by
  unfold Site.readValue
  split
  · exact ends_try_bind (readWays_between c 1 c.lines) fun _ => ends_pure _
  · exact ends_try_bind (readLine_between c c.line) fun _ => ends_pure _

theorem reread_between (c : ChannelDef) : Between (site.reread c) := by
  have hunwatch : Between Site.unwatch := ends_act rfl fun _ => ends_pure _
  unfold Site.reread
  split
  · refine ends_act rfl fun _ => ends_try_bind ?_ fun got => ?_
    · exact Prog.ends_bind (readValue_between c) fun _ => ends_pure _
    · cases got with
      | ok v => exact ends_act rfl fun _ => hunwatch
      | error e => exact hunwatch
  · exact ends_pure _

theorem fault_between (c : ChannelDef) (e : StationError) : Between (Site.fault c e) :=
  ends_act rfl fun _ => ends_act rfl fun _ => ends_pure _

/-- What the all-off does with a channel when it was driven off, or its driver failed. -/
def afterForced (site : Site) (c : ChannelDef) : Except StationError Unit → Op Unit
  | .ok _ => do
    let _ ← perform (.store c.id (some (some .off)) (some none))
    site.reread c
  | .error e => do
    Site.fault c e
    throw e

theorem afterForced_between (c : ChannelDef) (r : Except StationError Unit) :
    Between (afterForced site c r) := by
  cases r with
  | ok => exact ends_act rfl fun _ => reread_between c
  | error e => exact ends_try_bind (fault_between c e) fun _ => ends_pure _

theorem forcible_of_stops {kind : ChannelKind} (h : kind.stops = true) :
    Site.forcible kind = true := by
  cases kind with
  | power => rfl
  | amplifier _ function =>
    cases function with
    | operate => rfl
    | tune => cases h
  | _ => cases h

/-- What the all-off does with a channel begins with its drive. -/
theorem forceOff_run {c : ChannelDef} (hc : site.chan c.id = .ok c)
    (hstops : c.kind.stops = true) :
    (site.forceOff c.id).run = .act (.force c.wire) fun _ =>
      .act (.forced c.wire) fun r => (afterForced site c r).run := by
  have hlines : c.lines = [c.line] := by
    have hways := ways_of_stops hstops
    unfold ChannelDef.lines
    split
    next hkind =>
      rw [hkind] at hways
      cases hways
    · rfl
  unfold Site.forceOff
  rw [hc, of_ok_bind, forcible_of_stops hstops, hlines]
  refine congrArg (Prog.act _) (funext fun _ => congrArg (Prog.act _) (funext fun r => ?_))
  cases r with
  | ok => rfl
  | error e => rfl

theorem forceOff_ends {c : ChannelDef} (hc : site.chan c.id = .ok c)
    (hstops : c.kind.stops = true) :
    Prog.Ends Act.Ready (site.forceOff c.id).run := by
  rw [forceOff_run hc hstops]
  refine ⟨.inr ⟨_, rfl⟩, fun _ => ⟨.inl rfl, fun r => ?_⟩⟩
  exact (afterForced_between c r).mono fun a ha => .inl ha

/-- It is driven before anything can cut it short. -/
theorem forceOff_attempts {c : ChannelDef} (hc : site.chan c.id = .ok c)
    (hstops : c.kind.stops = true) (l : List Wire) :
    Heeds Act.suspends attempts (site.forceOff c.id).run l (· = l ++ [c.wire])
      fun l' _ => l' = l ++ [c.wire] := by
  rw [forceOff_run hc hstops]
  refine ⟨nofun, trivial, fun _ => ⟨fun _ => rfl, trivial, fun r => ?_⟩⟩
  exact (afterForced_between c r).heeds (fun a ha => attempts_prompt ha _) rfl fun _ => rfl

variable {cs : List ChannelDef} (hcs : ∀ c ∈ cs, site.chan c.id = .ok c ∧ c.kind.stops = true)

include hcs

theorem forceAll_ends (report : AllOffReport) :
    Prog.Ends Act.Ready (site.forceAll report (cs.map (·.id))) := by
  induction cs generalizing report with
  | nil => exact ends_pure _
  | cons c cs ih =>
    have hrest := ih fun c' hc' => hcs c' (List.mem_cons_of_mem _ hc')
    obtain ⟨hc, hstops⟩ := hcs c List.mem_cons_self
    rw [List.map_cons]
    refine Prog.ends_bind (ends_perform (.inl rfl)) fun now => ?_
    refine Prog.ends_bind (ends_within _ (forceOff_ends hc hstops)) fun got => ?_
    rcases got with _ | e | ⟨⟨⟩⟩
    · exact hrest _
    · exact hrest _
    · exact hrest _

/-- Each channel in turn is attempted, and filed under one of the two lists. -/
theorem forceAll_attempts (report : AllOffReport) (l : List Wire) :
    Heeds Act.suspends attempts (site.forceAll report (cs.map (·.id))) l (fun _ => True)
      fun l' r => l' = l ++ cs.map ChannelDef.wire ∧
        (r.off ++ r.failed.map Prod.fst).Perm
          (report.off ++ report.failed.map Prod.fst ++ cs.map (·.id)) := by
  induction cs generalizing report l with
  | nil => exact heeds_pure.mpr ⟨(List.append_nil l).symm, List.Perm.of_eq (List.append_nil _).symm⟩
  | cons c cs ih =>
    have hrest := ih fun c' hc' => hcs c' (List.mem_cons_of_mem _ hc')
    obtain ⟨hc, hstops⟩ := hcs c List.mem_cons_self
    -- what is filed next comes to the same, under either list
    have hfiled (next : AllOffReport) (hnext : (next.off ++ next.failed.map Prod.fst).Perm
        (report.off ++ report.failed.map Prod.fst ++ [c.id])) :
        Heeds Act.suspends attempts (site.forceAll next (cs.map (·.id))) (l ++ [c.wire])
          (fun _ => True) fun l' r => l' = l ++ (c :: cs).map ChannelDef.wire ∧
            (r.off ++ r.failed.map Prod.fst).Perm
              (report.off ++ report.failed.map Prod.fst ++ (c :: cs).map (·.id)) := by
      refine (hrest next (l ++ [c.wire])).mono (fun _ => id) ?_
      rintro l' r ⟨rfl, hr⟩
      refine ⟨by rw [List.append_assoc]; rfl, hr.trans ?_⟩
      exact (hnext.append_right _).trans (List.Perm.of_eq (by rw [List.append_assoc]; rfl))
    have hok : (report.off ++ [c.id] ++ report.failed.map Prod.fst).Perm
        (report.off ++ report.failed.map Prod.fst ++ [c.id]) := by
      rw [List.append_assoc, List.append_assoc]
      exact List.perm_append_comm.append_left _
    have hfailed (why : String) :
        (report.off ++ (report.failed ++ [(c.id, why)]).map Prod.fst).Perm
          (report.off ++ report.failed.map Prod.fst ++ [c.id]) := by
      rw [List.map_append, List.append_assoc]
      exact .refl _
    rw [List.map_cons]
    refine heeds_bind.mpr (heeds_perform.mpr ⟨nofun, trivial, fun now => ?_⟩)
    refine heeds_bind.mpr (heeds_within.mpr ⟨(· = l ++ [c.wire]), ?_, ?_⟩)
    · rintro l' rfl
      exact ⟨trivial, hfiled _ (hfailed _)⟩
    · refine (forceOff_attempts hc hstops l).mono (fun _ => id) ?_
      rintro l' (e | ⟨⟨⟩⟩) rfl
      · exact hfiled _ (hfailed _)
      · exact hfiled _ hok

end Run

/-! ### Every all-off -/

/-- The definitions of the channels of the all-off, in its order. -/
theorem exists_stopped (h : Valid site.station) : ∃ cs : List ChannelDef,
    cs.map (·.id) = site.allOffOrder ∧
      ∀ c ∈ cs, c ∈ site.station.channels ∧ site.chan c.id = .ok c ∧ c.kind.stops = true := by
  suffices hall : ∀ ids : List ChannelId, ids ⊆ site.allOffOrder → ∃ cs : List ChannelDef,
      cs.map (·.id) = ids ∧
        ∀ c ∈ cs, c ∈ site.station.channels ∧ site.chan c.id = .ok c ∧ c.kind.stops = true from
    hall _ (List.Subset.refl _)
  intro ids hids
  induction ids with
  | nil => exact ⟨[], rfl, nofun⟩
  | cons x ids ih =>
    obtain ⟨hx, hids⟩ := List.cons_subset.mp hids
    obtain ⟨cs, hmap, hcs⟩ := ih hids
    obtain ⟨c, hc, rfl, hstops⟩ := (mem_allOffOrder h).mp hx
    have hchan := chan_of_channel (h.channel hc)
    refine ⟨c :: cs, by rw [List.map_cons, hmap], fun c' hc' => ?_⟩
    rcases List.mem_cons.mp hc' with rfl | hc'
    · exact ⟨hc, hchan, hstops⟩
    · exact hcs c' hc'

/-- What the program of a command leaves of an all-off of these channels. -/
def Reports (cs : List ChannelDef) (call : Call) (l : List Wire) (r : Result) : Prop :=
  call = .allOff → ∃ report : AllOffReport, r = .ok (.report report) ∧
    l = cs.map ChannelDef.wire ∧ (report.off ++ report.failed.map Prod.fst).Perm (cs.map (·.id))

theorem run_reports {cs : List ChannelDef} (hmap : cs.map (·.id) = site.allOffOrder)
    (hcs : ∀ c ∈ cs, site.chan c.id = .ok c ∧ c.kind.stops = true) (call : Call) :
    Prog.Heeds Act.suspends attempts (site.run call) [] (fun _ => True) (Reports cs call) := by
  by_cases hcall : call = .allOff
  · subst hcall
    refine Prog.heeds_map.mpr (Prog.heeds_bind.mpr ?_)
    rw [← hmap]
    refine (forceAll_attempts hcs ⟨[], []⟩ []).mono (fun _ => id) ?_
    rintro l report ⟨hl, hreport⟩
    refine ⟨nofun, trivial, fun _ _ => ⟨report, rfl, hl, ?_⟩⟩
    simpa using hreport
  · refine (Prog.heeds_of_allows (fun _ _ => trivial) _ _).mono (fun _ => id) fun l r _ h => ?_
    exact absurd h hcall

/-- An all-off that has ended has attempted all its channels, and reports them. -/
theorem reach_reports {cs : List ChannelDef} (hmap : cs.map (·.id) = site.allOffOrder)
    (hcs : ∀ c ∈ cs, site.chan c.id = .ok c ∧ c.kind.stops = true) {w : State} {k : Nat}
    {t : Job Act Act.Answer Call Result} (hw : site.machine.Reachable w) (hk : w.jobs[k]? = some t)
    {r : Result} (hr : w.result k = some r) : Reports cs t.call (attempted k w.shared.log) r := by
  have hheeds := Executor.reach_heeds (fun _ => attempts) (fun _ _ => True)
    (Reports cs) [] (fun k s => attempted k s.log) (fun _ => run_reports hmap hcs) ?_ ?_ ?_ ?_ ?_ hw
  · obtain ⟨p, hp, hresult⟩ := Option.bind_eq_some_iff.mp hr
    obtain ⟨t', ht', hp⟩ := Option.bind_eq_some_iff.mp hp
    obtain rfl := Option.some.inj (hk.symm.trans ht')
    have hdone := (hheeds.1 k t hk).1 p hp
    cases p with
    | done a =>
      obtain rfl := Option.some.inj hresult
      exact hdone
    | act | loop | timeout => cases hresult
  · intro k s hs
    rw [hs.2.2.2.2.2.2.2.2]
    rfl
  · intro k choice a s r s' hexec
    obtain ⟨-, rfl⟩ := perform_iff.mp hexec
    exact attempted_after r k s
  · intro k j choice a s r s' hexec hne
    obtain ⟨-, rfl⟩ := perform_iff.mp hexec
    exact attempted_other hne r s
  · exact fun k j s => rfl
  · intro k e s s' henv
    cases e with
    | input id level =>
      obtain ⟨-, heq⟩ := Option.ite_none_right_eq_some.mp henv
      rw [← Option.some.inj heq]
      rfl
    | land i =>
      obtain ⟨d, -, hs⟩ := Option.map_eq_some_iff.mp henv
      rw [← hs]
      rfl
    | tick | lose | flip | rewrite =>
      rw [← Option.some.inj henv]

/-- Whatever the state in which it is called, whatever else goes on and however the drivers fail.
The all-off is about all amplifier-operate and power channels, each once: the amplifiers before the
power channels, and the channel of a device before those of all that it depends on. When it has
ended, it has begun to drive each of their lines off once, in this order, and each channel is in one
of the two lists of its report. And until it has ended, it can do so by its own steps. -/
theorem all_off_complete (hvalid : site.station.validate = .ok ()) :
    (site.allOffOrder.Nodup ∧
      (∀ x, x ∈ site.allOffOrder ↔
        ∃ c ∈ site.station.channels, c.id = x ∧ (c.kind.isPower || c.kind.isOperate) = true) ∧
      (∀ c ∈ site.station.channels, ∀ c' ∈ site.station.channels, c.kind.isOperate = true →
        c'.kind.isPower = true → [c.id, c'.id].Sublist site.allOffOrder) ∧
      ∀ a b ca cb, TransGen site.station.DependsOn a b → site.station.powerChannel a = some ca →
        site.station.powerChannel b = some cb → [ca, cb].Sublist site.allOffOrder) ∧
    ∀ (w : State) (k : Nat) (t : Job Act Act.Answer Call Result), site.machine.Reachable w →
      w.jobs[k]? = some t → t.call = .allOff →
      (∀ r, w.result k = some r → ∃ report, r = .ok (.report report) ∧
        (∃ cs : List ChannelDef, cs ⊆ site.station.channels ∧ cs.map (·.id) = site.allOffOrder ∧
          attempted k w.shared.log = cs.map ChannelDef.wire) ∧
        (report.off ++ report.failed.map Prod.fst).Perm site.allOffOrder) ∧
      (t.prog ≠ none → ∃ w' r, (site.machine.startedIn w).Reach (Executor.Own k) w' ∧
        w'.result k = some r) := by
  have hvalid := Valid.of_validate hvalid
  refine ⟨⟨nodup_allOffOrder hvalid, fun x => mem_allOffOrder hvalid, ?_, ?_⟩, ?_⟩
  · exact fun c hc c' hc' => operate_before_power hvalid hc hc'
  · exact fun a b ca cb => dependent_before hvalid
  · intro w k t hw hk hcall
    obtain ⟨cs, hmap, hcs⟩ := exists_stopped hvalid
    have hstops : ∀ c ∈ cs, site.chan c.id = .ok c ∧ c.kind.stops = true := fun c hc => (hcs c hc).2
    constructor
    · intro r hr
      obtain ⟨report, hreport, hattempted, hperm⟩ := reach_reports hmap hstops hw hk hr hcall
      exact ⟨report, hreport, ⟨cs, fun c hc => (hcs c hc).1, hmap, hattempted⟩, hmap ▸ hperm⟩
    · intro hlive
      obtain ⟨p, hp⟩ := Option.ne_none_iff_exists'.mp hlive
      refine Executor.exists_result (fun a ha s => exists_answer ha k s) hw hk ?_ hp
      rw [hcall]
      refine Prog.ends_bind (Prog.ends_bind ?_ fun report => ?_) fun report => Prog.ends_pure _
      · rw [← hmap]
        exact forceAll_ends hstops _
      · exact Prog.ends_bind (Prog.ends_perform (.inl rfl)) fun _ => Prog.ends_pure _

/-- An all-off of the bench that has just been called can end by its own steps. -/
theorem all_off_complete_bench : ∃ (w w' : State) (r : Result), (bench false).machine.Reachable w ∧
    ((bench false).machine.startedIn w).Reach (Executor.Own 0) w' ∧ w'.result 0 = some r := by
  let start : State := ⟨.start (fun _ => false) (fun _ => none), []⟩
  let called : State := ⟨start.shared, [⟨.allOff, some ((bench false).run .allOff)⟩]⟩
  have hcalled : (bench false).machine.Reachable called :=
    .step (start_reach (bench false) _ _) trivial (e := .call .allOff) rfl
  obtain ⟨w', r, hw', hr⟩ :=
    ((all_off_complete (bench_valid false)).2 called 0 _ hcalled rfl rfl).2 nofun
  exact ⟨called, w', r, hcalled, hw', hr⟩

end HamsOpen.Station
