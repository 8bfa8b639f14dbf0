import HamsOpen.Station.Plant

/-!
# What a step of the station changes

Each action changes one part of the shared state and tells what it did, so a part of the state is
changed by few actions, and the history tells of every action that drove or read a line.
-/

namespace HamsOpen.Station

variable {site : Site} {k : Nat} {choice : Choice} {a : Act} {r : a.Answer} {s s' : Plant}
variable {w w' : State} {e : Turn Call Choice Outside} {ok : State → Turn Call Choice Outside → Prop}

theorem perform_iff : a.perform site k choice s = some (r, s') ↔
    a.answer site k choice s = some r ∧ a.after site k r s = s' := by
  simp only [Act.perform, Option.map_eq_some_iff, Prod.mk.injEq]
  constructor
  · rintro ⟨r', hr, rfl, rfl⟩
    exact ⟨hr, rfl⟩
  · rintro ⟨hr, rfl⟩
    exact ⟨r, hr, rfl, rfl⟩

namespace Act

@[simp] theorem after_log : (a.after site k r s).log = (a.event k r).toList ++ s.log := rfl

@[simp] theorem after_now : (a.after site k r s).now = s.now := by
  cases a <;> rfl

@[simp] theorem after_lines : (a.after site k r s).lines = s.lines := by
  cases a <;> rfl

@[simp] theorem after_turnedOff : (a.after site k r s).turnedOff = s.turnedOff := by
  cases a <;> rfl

theorem after_drives : (a.after site k r s).drives = s.drives ++ match a with
    | .write w on => [(k, w, on)]
    | .force w => [(k, w, Plant.safeLevel site w)]
    | _ => [] := by
  cases a
  case write | force => rfl
  all_goals exact (List.append_nil _).symm

end Act

/-- The action that an event tells of, and the job that performed it. -/
def Event.act : Event → Option (Nat × Act)
  | .keyed k source _ => some (k, .key source)
  | .write k w on => some (k, .write w on)
  | .written k w on _ => some (k, .written w on)
  | .read k w _ => some (k, .level w)
  | .force k w => some (k, .force w)
  | .forced k w _ => some (k, .forced w)
  | .emitted k e => some (k, .emit e)
  | .stored k id commanded confirmed => some (k, .store id commanded confirmed)
  | .sampled _ _ => none

theorem act_of_event {x : Event} (h : a.event k r = some x) : x.act = some (k, a) := by
  cases a <;> cases h <;> rfl

/-- A step adds to the history what the job that moved was about to do. -/
theorem step_log (h : site.machine.step w e = some w') : ∃ new, w'.shared.log = new ++ w.shared.log ∧
    ∀ x ∈ new, ∀ k a, x.act = some (k, a) → w.current k = some a := by
  rcases Executor.step_shared h with hsame | ⟨k, choice, a, r, -, hcurrent, hexec⟩ | ⟨k, -, hrel⟩ |
    ⟨o, -, henv⟩
  · exact ⟨[], by rw [hsame]; rfl, fun x hx => by cases hx⟩
  · obtain ⟨-, hs'⟩ := perform_iff.mp hexec
    refine ⟨(a.event k r).toList, by rw [← hs']; rfl, fun x hx k' a' hact => ?_⟩
    rw [act_of_event (Option.mem_toList.mp hx)] at hact
    obtain ⟨rfl, rfl⟩ := Prod.mk.inj (Option.some.inj hact)
    exact hcurrent
  · exact ⟨[], by rw [hrel]; rfl, fun x hx => by cases hx⟩
  · cases o with
    | input id level =>
      obtain ⟨-, heq⟩ := Option.ite_none_right_eq_some.mp henv
      rw [← Option.some.inj heq]
      refine ⟨[.sampled id level], rfl, fun x hx k a hact => ?_⟩
      obtain rfl := List.mem_singleton.mp hx
      cases hact
    | land i =>
      obtain ⟨d, -, hs⟩ := Option.map_eq_some_iff.mp henv
      exact ⟨[], by rw [← hs]; rfl, fun x hx => by cases hx⟩
    | tick | lose | flip | rewrite =>
      rw [← Option.some.inj henv]
      exact ⟨[], rfl, fun x hx => by cases hx⟩

/-- What happens by itself locks nothing, and the history tells at most of an input. -/
theorem outside_cases {o : Outside} (h : site.executor.env o s = some s') :
    s'.ops = s.ops ∧ (s'.log = s.log ∨ ∃ id level, s'.log = .sampled id level :: s.log) := by
  cases o with
  | input id level =>
    obtain ⟨-, heq⟩ := Option.ite_none_right_eq_some.mp h
    rw [← Option.some.inj heq]
    exact ⟨rfl, .inr ⟨id, level, rfl⟩⟩
  | land i =>
    obtain ⟨d, -, hs⟩ := Option.map_eq_some_iff.mp h
    rw [← hs]
    exact ⟨rfl, .inl rfl⟩
  | tick | lose | flip | rewrite =>
    rw [← Option.some.inj h]
    exact ⟨rfl, .inl rfl⟩

/-- What the history tells was ahead of the job that did it, when it was started. -/
theorem reach_log (h : site.machine.Reach ok w) {x : Event} (hx : x ∈ w.shared.log)
    (hact : x.act = some (k, a)) : ∃ t, w.jobs[k]? = some t ∧ (site.run t.call).Ahead a := by
  induction h with
  | init hs => simp [hs.1.2.2.2.2.2.2.2] at hx
  | @step w w' e hs hok hst ih =>
    suffices ht : ∃ t, w.jobs[k]? = some t ∧ (site.run t.call).Ahead a by
      obtain ⟨t, ht, hahead⟩ := ht
      obtain ⟨t', ht', hcall, -⟩ := Executor.later_descends (.step (.init rfl) hok hst) ht
      exact ⟨t', ht', hcall ▸ hahead⟩
    obtain ⟨new, hnew, hcurrents⟩ := step_log hst
    rcases List.mem_append.mp (hnew ▸ hx) with hx | hx
    · obtain ⟨p, hp, hcurrent⟩ := Option.bind_eq_some_iff.mp (hcurrents x hx k a hact)
      obtain ⟨t, ht, hp⟩ := Option.bind_eq_some_iff.mp hp
      exact ⟨t, ht, Executor.reach_ahead hs ht hp (Prog.ahead_of_current hcurrent)⟩
    · exact ih hx

/-- What is told after a moment was then still ahead of the jobs that were there. -/
theorem later_log (h : (site.machine.startedIn w).Reach ok w') :
    ∃ new, w'.shared.log = new ++ w.shared.log ∧ ∀ x ∈ new, ∀ k a t, x.act = some (k, a) →
      w.jobs[k]? = some t → ∃ p, t.prog = some p ∧ p.Ahead a := by
  induction h with
  | init hs =>
    obtain rfl := hs
    exact ⟨[], rfl, fun x hx => by cases hx⟩
  | step hs hok hst ih =>
    obtain ⟨old, hold, hahead⟩ := ih
    obtain ⟨new, hnew, hcurrents⟩ := step_log hst
    refine ⟨new ++ old, by rw [hnew, hold, List.append_assoc], fun x hx k a t hact ht => ?_⟩
    rcases List.mem_append.mp hx with hx | hx
    · obtain ⟨t', ht', hdescends⟩ := Executor.later_descends hs ht
      obtain ⟨p, hp, hcurrent⟩ := Option.bind_eq_some_iff.mp (hcurrents x hx k a hact)
      obtain ⟨t'', ht'', hp⟩ := Option.bind_eq_some_iff.mp hp
      obtain rfl := Option.some.inj (ht'.symm.trans ht'')
      exact hdescends.ahead hp (Prog.ahead_of_current hcurrent)
    · exact hahead x hx k a t hact ht

/-- The event begins the drive. -/
def Event.Begins (site : Site) (x : Event) (d : Nat × Wire × Bool) : Prop :=
  x = .write d.1 d.2.1 d.2.2 ∨ x = .force d.1 d.2.1 ∧ d.2.2 = Plant.safeLevel site d.2.1

theorem step_drives (h : site.machine.step w e = some w') {d : Nat × Wire × Bool}
    (hd : d ∈ w'.shared.drives) :
    d ∈ w.shared.drives ∨ ∃ x, w'.shared.log = x :: w.shared.log ∧ x.Begins site d := by
  rcases Executor.step_shared h with hsame | ⟨k, choice, a, r, -, hcurrent, hexec⟩ | ⟨k, -, hrel⟩ |
    ⟨o, -, henv⟩
  · exact .inl (hsame ▸ hd)
  · obtain ⟨-, hs'⟩ := perform_iff.mp hexec
    rw [← hs'] at hd ⊢
    rw [Act.after_drives] at hd
    refine (List.mem_append.mp hd).imp_right fun hd => ?_
    cases a with
    | write w on =>
      obtain rfl := List.mem_singleton.mp hd
      exact ⟨_, rfl, .inl rfl⟩
    | force w =>
      obtain rfl := List.mem_singleton.mp hd
      exact ⟨_, rfl, .inr ⟨rfl, rfl⟩⟩
    | _ => cases hd
  · exact .inl (by simpa [hrel, Site.executor, Plant.release] using hd)
  · refine .inl ?_
    cases o with
    | input id level =>
      obtain ⟨-, heq⟩ := Option.ite_none_right_eq_some.mp henv
      simpa [← Option.some.inj heq] using hd
    | land i =>
      obtain ⟨d', -, hs⟩ := Option.map_eq_some_iff.mp henv
      rw [← hs] at hd
      exact List.mem_of_mem_eraseIdx hd
    | lose i =>
      rw [← Option.some.inj henv] at hd
      exact List.mem_of_mem_eraseIdx hd
    | tick | flip | rewrite => simpa [← Option.some.inj henv] using hd

/-- A drive under way was begun after a moment, or was under way then. -/
theorem later_drives (h : (site.machine.startedIn w).Reach ok w') {d : Nat × Wire × Bool}
    (hd : d ∈ w'.shared.drives) : d ∈ w.shared.drives ∨
      ∀ new, w'.shared.log = new ++ w.shared.log → ∃ x ∈ new, x.Begins site d := by
  induction h with
  | init hs => exact .inl (hs ▸ hd)
  | step hs hok hst ih =>
    obtain ⟨old, hold, -⟩ := later_log hs
    rcases step_drives hst hd with hd | ⟨x, hx, hbegins⟩
    · refine (ih hd).imp_right fun hbegun new hnew => ?_
      obtain ⟨x, hx, hbegins⟩ := hbegun old hold
      obtain ⟨recent, hrecent, -⟩ := step_log hst
      rw [hrecent, hold, ← List.append_assoc] at hnew
      exact ⟨x, List.append_cancel_right hnew ▸ List.mem_append_right _ hx, hbegins⟩
    · refine .inr fun new hnew => ⟨x, ?_, hbegins⟩
      rw [hx, hold, ← List.cons_append] at hnew
      exact List.append_cancel_right hnew ▸ .head _

/-- A drive under way was begun. -/
theorem reach_drives (h : site.machine.Reach ok w) {d : Nat × Wire × Bool}
    (hd : d ∈ w.shared.drives) : ∃ x ∈ w.shared.log, x.Begins site d := by
  induction h with
  | init hs => simp [hs.1.2.2.2.1] at hd
  | step hs hok hst ih =>
    obtain ⟨new, hnew, -⟩ := step_log hst
    rcases step_drives hst hd with hd | ⟨x, hx, hbegins⟩
    · obtain ⟨x, hx, hbegins⟩ := ih hd
      exact ⟨x, hnew ▸ List.mem_append_right _ hx, hbegins⟩
    · exact ⟨x, hx ▸ .head _, hbegins⟩

end HamsOpen.Station
