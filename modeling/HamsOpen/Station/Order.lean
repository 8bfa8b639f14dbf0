import HamsOpen.Lib.Dependency
import HamsOpen.Station.Valid
import Mathlib.Data.String.Basic

/-!
# The dependency graph of a station

The order in which devices are powered on takes out, again and again, the first device by name that
has no dependency left. It fails when some device's dependencies lead to an unknown device or round
a cycle, whichever device one is about.
-/

namespace HamsOpen.Station

namespace StationDef

open Dependency Relation

/-- A device depends on another. -/
def DependsOn (s : StationDef) (d p : DeviceId) : Prop :=
  ∃ x, s.device d = some x ∧ p ∈ x.dependsOn

/-- The dependencies of a device lead to an unknown device, or round a cycle. -/
def Blocked (s : StationDef) : DeviceId → Prop :=
  Dependency.Blocked s.DependsOn fun d => d ∈ s.devices.map (·.id)

/-! ### Taking out devices -/

section Deps

variable {deps : List (DeviceId × List DeviceId)} {n : ℕ} {next d p : DeviceId}
  {order : List DeviceId} {e : StationError}

/-- What is still to be taken out depends on what is left. -/
def Edge (deps : List (DeviceId × List DeviceId)) (d p : DeviceId) : Prop :=
  ∃ l, (d, l) ∈ deps ∧ p ∈ l

/-- A device is taken out, and is no dependency any more. -/
def without (next : DeviceId) (deps : List (DeviceId × List DeviceId)) :
    List (DeviceId × List DeviceId) :=
  (deps.filter (·.1 != next)).map fun d => (d.1, d.2.filter (· != next))

theorem orderFrom_found {l : List DeviceId} (h : deps.find? (·.2.isEmpty) = some (next, l)) :
    orderFrom (n + 1) deps = (next :: ·) <$> orderFrom n (without next deps) := by
  cases deps with
  | nil => cases h
  | cons d deps =>
    simp only [orderFrom, h]
    rfl

theorem orderFrom_stuck (hne : deps ≠ []) (h : deps.find? (·.2.isEmpty) = none) :
    orderFrom n deps = .error cycle := by
  cases deps with
  | nil => exact absurd rfl hne
  | cons d deps =>
    cases n with
    | zero => rfl
    | succ n =>
      simp only [orderFrom, h]

theorem keys_without :
    (without next deps).map Prod.fst = (deps.map Prod.fst).filter (· != next) := by
  unfold without
  rw [List.map_map, List.filter_map]
  rfl

theorem edge_without : Edge (without next deps) d p ↔ Edge deps d p ∧ d ≠ next ∧ p ≠ next := by
  unfold Edge without
  constructor
  · rintro ⟨l, hmem, hp⟩
    obtain ⟨⟨d', l'⟩, hmem', heq⟩ := List.mem_map.mp hmem
    obtain ⟨rfl, rfl⟩ := Prod.mk.inj heq
    obtain ⟨hin, hd⟩ := List.mem_filter.mp hmem'
    obtain ⟨hp, hpne⟩ := List.mem_filter.mp hp
    exact ⟨⟨l', hin, hp⟩, bne_iff_ne.mp hd, bne_iff_ne.mp hpne⟩
  · rintro ⟨⟨l, hmem, hp⟩, hd, hpne⟩
    refine ⟨l.filter (· != next), List.mem_map.mpr ⟨(d, l), ?_, rfl⟩, ?_⟩
    · exact List.mem_filter.mpr ⟨hmem, bne_iff_ne.mpr hd⟩
    · exact List.mem_filter.mpr ⟨hp, bne_iff_ne.mpr hpne⟩

theorem mem_of_find? {l : List DeviceId} (h : deps.find? (·.2.isEmpty) = some (next, l)) :
    (next, []) ∈ deps := by
  have hempty := List.find?_some (p := fun x : DeviceId × List DeviceId => x.2.isEmpty) h
  have hl : l = [] := List.isEmpty_iff.mp hempty
  subst hl
  exact List.mem_of_find?_eq_some h

theorem length_without_lt {l : List DeviceId} (h : (next, l) ∈ deps) :
    (without next deps).length < deps.length := by
  unfold without
  rw [List.length_map]
  apply List.length_filter_lt_length_iff_exists.mpr
  exact ⟨(next, l), h, fun hne => bne_iff_ne.mp hne rfl⟩

/-- What is taken out, and then the others. -/
theorem perm_keys (hnodup : (deps.map Prod.fst).Nodup) {l : List DeviceId} (h : (next, l) ∈ deps) :
    (deps.map Prod.fst).Perm (next :: (without next deps).map Prod.fst) := by
  have hmem : next ∈ deps.map Prod.fst := List.mem_map_of_mem h
  rw [keys_without, ← hnodup.erase_eq_filter]
  exact List.perm_cons_erase hmem

/-- The devices come out once each, behind all they depend on. -/
theorem orderFrom_ok (hnodup : (deps.map Prod.fst).Nodup) (h : orderFrom n deps = .ok order) :
    order.Perm (deps.map Prod.fst) ∧ ∀ d p, Edge deps d p → [p, d].Sublist order := by
  induction n generalizing deps order with
  | zero =>
    cases deps with
    | nil =>
      obtain rfl := Except.ok.inj h
      exact ⟨.refl _, fun d p ⟨l, hl, _⟩ => absurd hl List.not_mem_nil⟩
    | cons => cases h
  | succ n ih =>
    by_cases hnil : deps = []
    · subst hnil
      obtain rfl := Except.ok.inj h
      exact ⟨.refl _, fun d p ⟨l, hl, _⟩ => absurd hl List.not_mem_nil⟩
    · cases hfind : deps.find? (·.2.isEmpty) with
      | none =>
        rw [orderFrom_stuck hnil hfind] at h
        cases h
      | some x =>
        obtain ⟨next, l⟩ := x
        rw [orderFrom_found hfind] at h
        have hready := mem_of_find? hfind
        have hkeys := perm_keys hnodup hready
        obtain ⟨rest, hrest, rfl⟩ : ∃ rest, orderFrom n (without next deps) = .ok rest ∧
            next :: rest = order := by
          cases hrest : orderFrom n (without next deps) with
          | error e =>
            rw [hrest] at h
            cases h
          | ok rest =>
            rw [hrest] at h
            exact ⟨rest, rfl, Except.ok.inj h⟩
        have hnodup' := (List.nodup_cons.mp (hkeys.nodup_iff.mp hnodup)).2
        obtain ⟨hperm, hbehind⟩ := ih hnodup' hrest
        refine ⟨(hperm.cons next).trans hkeys.symm, ?_⟩
        intro d p hedge
        by_cases hd : d = next
        · -- nothing was left that this one depends on
          obtain ⟨l', hl', hp⟩ := hedge
          have hsame := List.inj_on_of_nodup_map hnodup hl' hready hd
          obtain ⟨-, rfl⟩ := Prod.mk.inj hsame
          exact absurd hp List.not_mem_nil
        · by_cases hp : p = next
          · have hin : d ∈ next :: rest := by
              obtain ⟨l', hl', -⟩ := hedge
              exact ((hperm.cons next).trans hkeys.symm).mem_iff.mpr (List.mem_map_of_mem hl')
            rw [hp]
            have hrest := (List.mem_cons.mp hin).resolve_left hd
            exact (List.singleton_sublist.mpr hrest).cons_cons next
          · exact (hbehind d p (edge_without.mpr ⟨hedge, hd, hp⟩)).cons next

/-- When the devices do not all come out, some are left that all depend on one another, or on
unknown devices. -/
theorem orderFrom_error (hlength : deps.length ≤ n) (hnodup : (deps.map Prod.fst).Nodup)
    (h : orderFrom n deps = .error e) : ∃ left, left ≠ [] ∧ left ⊆ deps.map Prod.fst ∧
      ∀ d ∈ left, ∃ p, Edge deps d p ∧ (p ∈ left ∨ p ∉ deps.map Prod.fst) := by
  induction n generalizing deps e with
  | zero =>
    obtain rfl := List.length_eq_zero_iff.mp (Nat.le_zero.mp hlength)
    cases h
  | succ n ih =>
    by_cases hnil : deps = []
    · subst hnil
      cases h
    · cases hfind : deps.find? (·.2.isEmpty) with
      | none =>
        -- each one that is left depends on something
        refine ⟨deps.map Prod.fst, List.map_eq_nil_iff.not.mpr hnil, List.Subset.refl _, ?_⟩
        intro d hd
        obtain ⟨⟨d, l⟩, hmem, rfl⟩ := List.mem_map.mp hd
        have hdeps := List.find?_eq_none.mp hfind _ hmem
        obtain ⟨p, hp⟩ := List.exists_mem_of_ne_nil l fun hl => hdeps (List.isEmpty_iff.mpr hl)
        exact ⟨p, ⟨l, hmem, hp⟩, em _⟩
      | some x =>
        obtain ⟨next, l⟩ := x
        rw [orderFrom_found hfind] at h
        have hready := mem_of_find? hfind
        have hkeys := perm_keys hnodup hready
        have hlt := length_without_lt hready
        have hrest : orderFrom n (without next deps) = .error e := by
          cases hrest : orderFrom n (without next deps) with
          | error e' =>
            rw [hrest] at h
            exact h
          | ok rest =>
            rw [hrest] at h
            cases h
        have hnodup' := (List.nodup_cons.mp (hkeys.nodup_iff.mp hnodup)).2
        obtain ⟨left, hne, hsub, hall⟩ := ih (by omega) hnodup' hrest
        refine ⟨left, hne, fun d hd => hkeys.mem_iff.mpr (List.mem_cons_of_mem _ (hsub hd)), ?_⟩
        intro d hd
        obtain ⟨p, hedge, hp⟩ := hall d hd
        obtain ⟨hedge, -, hpne⟩ := edge_without.mp hedge
        refine ⟨p, hedge, hp.imp_right fun hnot hin => ?_⟩
        exact (List.mem_cons.mp (hkeys.mem_iff.mp hin)).elim hpne hnot

/-- Once there are as many rounds as devices, more make no difference. -/
theorem orderFrom_rounds {m : ℕ} (hn : deps.length ≤ n) (hm : deps.length ≤ m) :
    orderFrom n deps = orderFrom m deps := by
  induction n generalizing deps m with
  | zero =>
    obtain rfl := List.length_eq_zero_iff.mp (Nat.le_zero.mp hn)
    cases m <;> rfl
  | succ n ih =>
    by_cases hnil : deps = []
    · subst hnil
      cases m <;> rfl
    · cases hfind : deps.find? (·.2.isEmpty) with
      | none => rw [orderFrom_stuck hnil hfind, orderFrom_stuck hnil hfind]
      | some x =>
        obtain ⟨next, l⟩ := x
        have hlt := length_without_lt (mem_of_find? hfind)
        obtain ⟨m, rfl⟩ : ∃ k, m = k + 1 := Nat.exists_eq_succ_of_ne_zero (by omega)
        rw [orderFrom_found hfind, orderFrom_found hfind, ih (m := m) (by omega) (by omega)]

end Deps

/-! ### The devices of a station -/

variable {s : StationDef}

/-- A device is put in its place by name. -/
theorem insert_perm {deps : List (DeviceId × List DeviceId)} {id : DeviceId}
    (h : id ∉ deps.map Prod.fst) (l : List DeviceId) :
    (deps.filter (·.1 < id) ++ [(id, l)] ++ deps.filter (id < ·.1)).Perm ((id, l) :: deps) := by
  have habove : deps.filter (id < ·.1) = deps.filter fun d => !decide (d.1 < id) := by
    apply List.filter_congr
    intro d hd
    have hne : d.1 ≠ id := fun heq => h (heq ▸ List.mem_map_of_mem hd)
    rcases lt_or_gt_of_ne hne with hlt | hgt
    · rw [decide_eq_true hlt, decide_eq_false (lt_asymm hlt)]
      rfl
    · rw [decide_eq_true hgt, decide_eq_false (lt_asymm hgt)]
      rfl
  rw [habove, List.append_assoc, List.singleton_append]
  exact List.perm_middle.trans ((List.filter_append_perm _ deps).cons _)

/-- Devices of different names all are in the graph. -/
theorem sorted_perm (h : (s.devices.map (·.id)).Nodup) :
    s.sorted.Perm (s.devices.map fun d => (d.id, d.dependsOn)) := by
  suffices hall : ∀ (devices : List DeviceDef) (deps : List (DeviceId × List DeviceId)),
      (deps.map Prod.fst ++ devices.map (·.id)).Nodup →
      (devices.foldl (fun deps d => deps.filter (·.1 < d.id) ++ [(d.id, d.dependsOn)] ++
        deps.filter (d.id < ·.1)) deps).Perm (deps ++ devices.map fun d => (d.id, d.dependsOn)) from
    hall s.devices [] h
  intro devices
  induction devices with
  | nil =>
    intro deps _
    rw [List.map_nil, List.append_nil]
    exact .refl _
  | cons d devices ih =>
    intro deps hnodup
    have hnew : d.id ∉ deps.map Prod.fst := by
      intro hin
      exact (List.disjoint_of_nodup_append hnodup) hin List.mem_cons_self
    have hinsert := insert_perm hnew d.dependsOn
    rw [List.foldl_cons]
    refine (ih _ ?_).trans ?_
    · refine ((hinsert.map Prod.fst).append_right _).nodup_iff.mpr ?_
      exact List.perm_middle.symm.nodup_iff.mpr hnodup
    · refine (hinsert.append_right _).trans ?_
      exact List.perm_middle.symm

theorem nodup_sorted (h : (s.devices.map (·.id)).Nodup) : (s.sorted.map Prod.fst).Nodup := by
  have hperm := (sorted_perm h).map Prod.fst
  rw [List.map_map] at hperm
  exact hperm.nodup_iff.mpr h

theorem edge_sorted (h : (s.devices.map (·.id)).Nodup) {d p : DeviceId} :
    Edge s.sorted d p ↔ s.DependsOn d p := by
  unfold Edge DependsOn
  constructor
  · rintro ⟨l, hmem, hp⟩
    obtain ⟨x, hx, heq⟩ := List.mem_map.mp ((sorted_perm h).mem_iff.mp hmem)
    obtain ⟨rfl, rfl⟩ := Prod.mk.inj heq
    exact ⟨x, find?_of_nodup h hx, hp⟩
  · rintro ⟨x, hx, hp⟩
    obtain ⟨hmem, rfl⟩ := mem_of_device hx
    exact ⟨x.dependsOn, (sorted_perm h).mem_iff.mpr (List.mem_map_of_mem hmem), hp⟩

/-- An order has every device once, behind all it depends on. -/
theorem powerOnOrder_ordered (h : (s.devices.map (·.id)).Nodup) {order : List DeviceId}
    (horder : s.powerOnOrder = .ok order) :
    (∀ d, d ∈ order ↔ d ∈ s.devices.map (·.id)) ∧ Ordered s.DependsOn order := by
  obtain ⟨hperm, hbehind⟩ := orderFrom_ok (nodup_sorted h) horder
  refine ⟨fun d => ?_, ?_, ?_⟩
  · have hkeys := (sorted_perm h).map Prod.fst
    rw [List.map_map] at hkeys
    exact (hperm.trans hkeys).mem_iff
  · exact hperm.nodup_iff.mpr (nodup_sorted h)
  · intro d _ p hdep
    exact hbehind d p ((edge_sorted h).mpr hdep)

/-- There is no order exactly when some device's dependencies lead to an unknown device or round a
cycle. -/
theorem exists_powerOnOrder_error_iff (h : (s.devices.map (·.id)).Nodup) :
    (∃ e, s.powerOnOrder = .error e) ↔ ∃ d ∈ s.devices.map (·.id), s.Blocked d := by
  constructor
  · rintro ⟨e, he⟩
    obtain ⟨left, hne, hsub, hall⟩ := orderFrom_error (Nat.le_refl _) (nodup_sorted h) he
    have hkeys := (sorted_perm h).map Prod.fst
    rw [List.map_map] at hkeys
    have hdeps : ∀ d ∈ left, ∃ p, s.DependsOn d p ∧
        (p ∈ left ∨ ¬ p ∈ s.devices.map (·.id)) := by
      intro d hd
      obtain ⟨p, hedge, hp⟩ := hall d hd
      exact ⟨p, (edge_sorted h).mp hedge, hp.imp_right fun hnot hin => hnot (hkeys.mem_iff.mpr hin)⟩
    obtain ⟨d, hd, hblocked⟩ := exists_blocked hne hdeps
    exact ⟨d, hkeys.mem_iff.mp (hsub hd), hblocked⟩
  · rintro ⟨d, hd, hblocked⟩
    cases horder : s.powerOnOrder with
    | error e => exact ⟨e, rfl⟩
    | ok order =>
      obtain ⟨hmem, hordered⟩ := powerOnOrder_ordered h horder
      have hknown : (fun d => d ∈ s.devices.map (·.id)) = fun d => d ∈ order := by
        funext d
        exact propext (hmem d).symm
      unfold StationDef.Blocked at hblocked
      rw [hknown] at hblocked
      exact absurd hblocked (hordered.not_blocked ((hmem d).mpr hd))

/-! ### Dependents -/

theorem closure_concat (front : List DeviceId) (d : DeviceId) (set : List DeviceId) :
    s.closure (front ++ [d]) set =
      if (s.device d).any fun x => x.dependsOn.any (s.closure front set).contains then
        d :: s.closure front set else s.closure front set := by
  unfold closure
  rw [List.foldl_append, List.foldl_cons, List.foldl_nil]

theorem any_dependsOn {d : DeviceId} {set : List DeviceId} :
    ((s.device d).any fun x => x.dependsOn.any set.contains) = true ↔
      ∃ p, s.DependsOn d p ∧ p ∈ set := by
  rw [Option.any_eq_true]
  constructor
  · rintro ⟨x, hx, hany⟩
    obtain ⟨p, hp, hset⟩ := List.any_eq_true.mp hany
    exact ⟨p, ⟨x, hx, hp⟩, List.contains_iff_mem.mp hset⟩
  · rintro ⟨p, ⟨x, hx, hp⟩, hset⟩
    exact ⟨x, hx, List.any_eq_true.mpr ⟨p, hp, List.contains_iff_mem.mpr hset⟩⟩

/-- Along an order, what is collected is what depends on the device, directly or not. -/
theorem mem_closure_iff {order front back : List DeviceId} (hordered : Ordered s.DependsOn order)
    (hsplit : order = front ++ back) {id d : DeviceId} :
    d ∈ s.closure front [id] ↔ d = id ∨ d ∈ front ∧ TransGen s.DependsOn d id := by
  induction front using List.reverseRecOn generalizing back d with
  | nil =>
    have hstart : s.closure [] [id] = [id] := rfl
    rw [hstart, List.mem_singleton]
    exact ⟨.inl, fun h => h.resolve_right fun hd => List.not_mem_nil hd.1⟩
  | append_singleton front next ih =>
    rw [List.append_assoc, List.singleton_append] at hsplit
    have hnext : next ∈ order := hsplit ▸ List.mem_append_right _ List.mem_cons_self
    -- the next one is collected exactly when it depends on the device
    have hnew : (∃ p, s.DependsOn next p ∧ p ∈ s.closure front [id]) ↔
        TransGen s.DependsOn next id := by
      constructor
      · rintro ⟨p, hdep, hp⟩
        rcases (ih hsplit).mp hp with rfl | ⟨-, hrest⟩
        · exact .single hdep
        · exact .head hdep hrest
      · intro hreach
        obtain ⟨p, hdep, hrest⟩ := TransGen.head'_iff.mp hreach
        refine ⟨p, hdep, (ih hsplit).mpr ?_⟩
        have hpair := hordered.behind next hnext p hdep
        have hnodup := hordered.nodup
        rw [hsplit] at hpair hnodup
        rcases reflTransGen_iff_eq_or_transGen.mp hrest with heq | htrans
        · exact .inl heq.symm
        · exact .inr ⟨mem_front hnodup hpair, htrans⟩
    rw [closure_concat, List.mem_append, List.mem_singleton]
    split
    next hany =>
      have hreach := hnew.mp (any_dependsOn.mp hany)
      rw [List.mem_cons, ih hsplit]
      constructor
      · rintro (rfl | rfl | ⟨hd, htrans⟩)
        · exact .inr ⟨.inr rfl, hreach⟩
        · exact .inl rfl
        · exact .inr ⟨.inl hd, htrans⟩
      · rintro (rfl | ⟨hd | rfl, htrans⟩)
        · exact .inr (.inl rfl)
        · exact .inr (.inr ⟨hd, htrans⟩)
        · exact .inl rfl
    next hnone =>
      have hnot := mt (fun h => any_dependsOn.mpr (hnew.mpr h)) hnone
      rw [ih hsplit]
      refine or_congr_right ⟨fun h => ⟨.inl h.1, h.2⟩, ?_⟩
      rintro ⟨hd | rfl, htrans⟩
      · exact ⟨hd, htrans⟩
      · exact absurd htrans hnot

/-- When there is an order, the dependents of a device are all that depend on it, directly or
not. -/
theorem mem_dependents_iff (h : (s.devices.map (·.id)).Nodup) {order : List DeviceId}
    (horder : s.powerOnOrder = .ok order) {id d : DeviceId} :
    d ∈ s.dependents id ↔ TransGen s.DependsOn d id := by
  obtain ⟨hmem, hordered⟩ := powerOnOrder_ordered h horder
  unfold dependents
  rw [horder, List.mem_filter, List.mem_reverse, Bool.and_eq_true, bne_iff_ne]
  have hset : d ∈ s.closure order [id] ↔ d = id ∨ d ∈ order ∧ TransGen s.DependsOn d id :=
    mem_closure_iff hordered (List.append_nil order).symm
  constructor
  · rintro ⟨-, hne, hd⟩
    exact (hset.mp (List.contains_iff_mem.mp hd)).elim (absurd · hne) And.right
  · intro hreach
    have hd : d ∈ order := by
      obtain ⟨p, ⟨x, hx, -⟩, -⟩ := TransGen.head'_iff.mp hreach
      obtain ⟨hin, rfl⟩ := mem_of_device hx
      exact (hmem _).mpr (List.mem_map_of_mem hin)
    refine ⟨hd, ?_, List.contains_iff_mem.mpr (hset.mpr (.inr ⟨hd, hreach⟩))⟩
    rintro rfl
    exact hordered.irrefl hd hreach

theorem dependents_of_error {e : StationError} (h : s.powerOnOrder = .error e) (id : DeviceId) :
    s.dependents id = [] := by
  unfold dependents
  rw [h]
  rfl

/-- Each dependent is listed once, before all it depends on. -/
theorem dependents_ordered (h : (s.devices.map (·.id)).Nodup) (id : DeviceId) :
    (s.dependents id).Nodup ∧ ∀ d ∈ s.dependents id, ∀ p ∈ s.dependents id, s.DependsOn d p →
      [d, p].Sublist (s.dependents id) := by
  cases horder : s.powerOnOrder with
  | error e =>
    rw [dependents_of_error horder]
    exact ⟨List.nodup_nil, fun d hd => absurd hd List.not_mem_nil⟩
  | ok order =>
    obtain ⟨-, hordered⟩ := powerOnOrder_ordered h horder
    unfold dependents
    rw [horder]
    refine ⟨(List.nodup_reverse.mpr hordered.nodup).filter _, ?_⟩
    intro d hd p hp hdep
    exact hordered.reverse_filter hd hp hdep

/-! ### The whole graph -/

/-- Whatever the dependencies of devices of different names. There is no order exactly when some
device's dependencies lead to an unknown device or round a cycle, and otherwise it has every device
once, behind all it depends on. Then the dependents of a device are all that depend on it, directly
or not; they are none when there is no order; each is listed once, before all it depends on. And the
order is found in as many rounds as there are devices. -/
theorem graph (s : StationDef) (h : (s.devices.map (·.id)).Nodup) :
    ((∃ e, s.powerOnOrder = .error e) ↔ ∃ d ∈ s.devices.map (·.id), s.Blocked d) ∧
      (∀ order, s.powerOnOrder = .ok order →
        order.Nodup ∧ (∀ d, d ∈ order ↔ d ∈ s.devices.map (·.id)) ∧
          ∀ d p, s.DependsOn d p → [p, d].Sublist order) ∧
      (∀ id, (s.dependents id).Nodup ∧
        (∀ d ∈ s.dependents id, ∀ p ∈ s.dependents id, s.DependsOn d p →
          [d, p].Sublist (s.dependents id)) ∧
        ((∃ order, s.powerOnOrder = .ok order) →
          ∀ d, d ∈ s.dependents id ↔ TransGen s.DependsOn d id) ∧
        ((∃ e, s.powerOnOrder = .error e) → s.dependents id = [])) ∧
      ∀ rounds, s.devices.length ≤ rounds → orderFrom rounds s.sorted = s.powerOnOrder := by
  refine ⟨exists_powerOnOrder_error_iff h, ?_, ?_, ?_⟩
  · intro order horder
    obtain ⟨hmem, hordered⟩ := powerOnOrder_ordered h horder
    refine ⟨hordered.nodup, hmem, ?_⟩
    rintro d p ⟨x, hx, hp⟩
    obtain ⟨hin, rfl⟩ := mem_of_device hx
    exact hordered.behind _ ((hmem _).mpr (List.mem_map_of_mem hin)) p ⟨x, hx, hp⟩
  · intro id
    obtain ⟨hnodup, hbefore⟩ := dependents_ordered h id
    refine ⟨hnodup, hbefore, ?_, ?_⟩
    · rintro ⟨order, horder⟩ d
      exact mem_dependents_iff h horder
    · rintro ⟨e, he⟩
      exact dependents_of_error he id
  · intro rounds hrounds
    have hlength : s.sorted.length = s.devices.length := by
      rw [(sorted_perm h).length_eq, List.length_map]
    exact orderFrom_rounds (hlength.trans_le hrounds) (Nat.le_refl _)

/-- A radio without dependencies beside a switch that depends on itself, and a tuner on it. -/
def looped : StationDef where
  powerMeters := []
  channels := []
  devices := [
    ⟨"radio", .radio, .alwaysOn, [], [], 0, 0, 0⟩,
    ⟨"switch", .switch, .alwaysOn, ["switch"], [], 0, 0, 0⟩,
    ⟨"tuner", .tuner, .alwaysOn, ["radio"], [], 0, 0, 0⟩]
  profiles := []

theorem graph_looped : (looped.devices.map (·.id)).Nodup ∧
    ((∃ e, looped.powerOnOrder = .error e) ↔
      ∃ d ∈ looped.devices.map (·.id), looped.Blocked d) :=
  ⟨by decide, (graph looped (by decide)).1⟩

/-- The radio can be powered on after nothing, and the tuner after it; but there is no order, and
the radio has no dependents. -/
theorem looped_refused : (looped.devices.map (·.id)).Nodup ∧
    (∃ e, looped.powerOnOrder = .error e) ∧ ¬ looped.Blocked "radio" ∧
    TransGen looped.DependsOn "tuner" "radio" ∧ looped.dependents "radio" = [] := by
  have hnone : ∀ p, ¬ looped.DependsOn "radio" p := by
    rintro p ⟨x, hx, hp⟩
    obtain rfl := Option.some.inj hx
    cases hp
  refine ⟨by decide, ⟨cycle, by decide +kernel⟩, ?_, ?_, by decide +kernel⟩
  · rintro ⟨y, hreach, hbad⟩
    rcases hreach.cases_head with rfl | ⟨p, hdep, -⟩
    · rcases hbad with hunknown | hcycle
      · exact hunknown List.mem_cons_self
      · obtain ⟨p, hdep, -⟩ := TransGen.head'_iff.mp hcycle
        exact hnone p hdep
    · exact hnone p hdep
  · exact .single ⟨_, rfl, List.mem_cons_self⟩

end StationDef

end HamsOpen.Station
