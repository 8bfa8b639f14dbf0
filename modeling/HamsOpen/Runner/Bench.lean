import Mathlib

/-!
# The bench of the procedure runner

What a run of the procedure runner has to do with: the instruments and the tools of the bench, the
policy of `tiers.rs`, the instrument that a call is for and the lock file of a reservation from
`locks.rs`, and the safe-state rules of `safe.rs`. Of a JSON value as an argument, only whether it is
a Boolean or a string matters.
-/

namespace HamsOpen.Runner

inductive Tier
  | ReadOnly | ReadConfig | Full
  deriving DecidableEq

/-- The tiers in their order. -/
def Tier.rank : Tier → Nat
  | ReadOnly => 0
  | ReadConfig => 1
  | Full => 2

inductive Kind
  | Scope | Psu | Vna | Sdr | UsbHub | Audio | Hamlib | Rotator | Sa | Example | Procedure | Rx888
  deriving DecidableEq

structure Instrument where
  name : String
  kind : Kind
  deriving DecidableEq

/-- An argument of a call. -/
inductive Arg
  | bool (b : Bool)
  | str (s : String)
  /-- Any other JSON value. -/
  | other (n : Nat)
  deriving DecidableEq

abbrev Args := List (String × Arg)

namespace Args

def get (args : Args) (key : String) : Option Arg := args.lookup key

/-- The argument, when it is a string. -/
def str (args : Args) (key : String) : Option String :=
  match args.get key with
  | some (.str s) => some s
  | _ => none

/-- The argument, when it is a Boolean. -/
def bool (args : Args) (key : String) : Option Bool :=
  match args.get key with
  | some (.bool b) => some b
  | _ => none

end Args

/-! ### Tools -/

/-- A generic tool, and the kinds of instrument that it applies to. -/
structure ToolSpec where
  name : String
  kinds : List Kind
  deriving DecidableEq

def ANY : List Kind := [.Scope, .Psu]

def WITH_VNA : List Kind := [.Scope, .Psu, .Vna, .Sdr]

def TOOLS : List ToolSpec :=
  [⟨"bench_list", ANY⟩, ⟨"bench_identify", WITH_VNA⟩, ⟨"bench_status", WITH_VNA⟩,
    ⟨"bench_measure", ANY⟩, ⟨"bench_capture", [.Scope]⟩, ⟨"bench_scope_spectrum", [.Scope]⟩,
    ⟨"bench_screenshot", [.Scope]⟩, ⟨"bench_set", ANY⟩, ⟨"bench_psu_output", [.Psu]⟩,
    ⟨"bench_psu_safe_state", [.Psu]⟩, ⟨"bench_vna_sweep", [.Vna]⟩,
    ⟨"bench_vna_power_cycle", [.Vna]⟩, ⟨"bench_vna_generator_on", [.Vna]⟩,
    ⟨"bench_vna_generator_off", [.Vna]⟩, ⟨"bench_vna_generator_level", [.Vna]⟩,
    ⟨"bench_vna_generator_am", [.Vna]⟩, ⟨"bench_vna_generator_fm", [.Vna]⟩,
    ⟨"bench_vna_spectrum", [.Vna]⟩, ⟨"bench_vna_meter", [.Vna]⟩,
    ⟨"bench_vna_calibrate_measure", [.Vna]⟩, ⟨"bench_vna_calibrate_build", [.Vna]⟩,
    ⟨"bench_sdr_capture", [.Sdr]⟩, ⟨"bench_sdr_survey", [.Sdr]⟩, ⟨"bench_sdr_coherence", [.Sdr]⟩,
    ⟨"bench_scope_self_cal", [.Scope]⟩]

/-- The instrument that a call of a generic tool is for: the named one, or the only one that fits. -/
def pick (insts : List Instrument) (tool : ToolSpec) (args : Args) : Option Instrument :=
  match args.str "instrument" with
  | some n =>
    match insts.find? (·.name = n) with
    | some i => if i.kind ∈ tool.kinds then some i else none
    | none => none
  | none =>
    match insts.filter (·.kind ∈ tool.kinds) with
    | [one] => some one
    | _ => none

/-- The modules that a call is told the kind of its instrument from. -/
def prefixes : List (String × Kind) :=
  [("bench_audio_", .Audio), ("bench_example_", .Example), ("bench_hamlib_", .Hamlib),
    ("bench_rotator_", .Rotator), ("bench_usb_", .UsbHub)]

def startsWith (name start : String) : Bool := start.toList.isPrefixOf name.toList

/-- The tools that a run cannot call. -/
def NOT_FOR_PROCEDURES : String := "bench_proc_"

/-- The instruments of the bench, and the tools that are listed with their tiers. -/
structure Bench where
  insts : List Instrument
  listed : String → Option Tier

namespace Bench

/-- Whether a run with a tier cap may call a tool; else the kind of the error. -/
def allow (bench : Bench) (name : String) (cap : Tier) : Except String Tier :=
  if startsWith name NOT_FOR_PROCEDURES then .error "policy"
  else
    match bench.listed name with
    | some tier => if tier.rank ≤ cap.rank then .ok tier else .error "tier"
    | none => .error "tool"

/-- The instrument that a call is for, if it can be told. -/
def instrumentOf (bench : Bench) (tool : String) (args : Args) : Option String :=
  match args.str "instrument" with
  | some n => some n
  | none =>
    match TOOLS.find? (·.name = tool) with
    | some spec => (pick bench.insts spec args).map (·.name)
    | none =>
      match prefixes.find? fun p => startsWith tool p.1 with
      | some (_, kind) =>
        match bench.insts.filter (·.kind = kind) with
        | [one] => some one.name
        | _ => none
      | none => none

end Bench

/-! ### Lock files -/

/-- The lock file of an instrument's reservation, in a managed directory. -/
abbrev LockPath := String × String

def lockPath (root instrument : String) : LockPath :=
  (root, String.ofList (instrument.toList.map fun c =>
    if c.isAlphanum || c = '-' then c else '_'))

/-! ### Safe states -/

/-- When a call makes a safe state necessary, and the call that brings it about. -/
structure Rule where
  triggers : List String
  argTrue : Option String
  argIn : Option (String × List String)
  safeTool : String
  safeArg : Option (String × String)
  psuGate : Bool
  deriving DecidableEq

def RULES : List Rule :=
  [⟨["bench_psu_output"], some "on", none, "bench_psu_safe_state", none, true⟩,
    ⟨["bench_vna_generator_on", "bench_vna_generator_am", "bench_vna_generator_fm"], none, none,
      "bench_vna_generator_off", none, false⟩,
    ⟨["bench_example_pulse"], none, none, "bench_example_safe_state", none, false⟩,
    ⟨["bench_hamlib_tx_key_test", "bench_hamlib_tx_power_sweep"], none, none,
      "bench_hamlib_safe_state", none, false⟩,
    ⟨["bench_rotator_point", "bench_rotator_park"], none, none, "bench_rotator_stop", none, false⟩,
    ⟨["bench_set"], none, some ("trigger_mode", ["STOP", "SINGLE"]), "bench_set",
      some ("trigger_mode", "AUTO"), false⟩]

/-- A safe-state call, and the tool that made it necessary. -/
structure Action where
  tool : String
  args : Args
  trigger : String
  deriving DecidableEq

/-- The arguments of a safe-state call: the instrument as it was named, and what the rule adds. -/
def Rule.safeArgs (rule : Rule) (args : Args) : Args :=
  ((args.get "instrument").map fun i => ("instrument", i)).toList ++
    (rule.safeArg.map fun (k, v) => (k, Arg.str v)).toList

/-- The call changes something, as far as the rule is concerned. -/
def Rule.counts (rule : Rule) (args : Args) (safeStatePsuOff : Bool) : Bool :=
  !(rule.psuGate && !safeStatePsuOff) &&
    rule.argTrue.all (fun key => args.bool key = some true) &&
    rule.argIn.all fun (key, values) => (args.str key).any (· ∈ values)

/-- The safe-state call that a call makes necessary. -/
def actionFor (tool : String) (args : Args) (safeStatePsuOff : Bool) : Option Action :=
  if args.bool "dry_run" = some true then none
  else
    match RULES.find? (tool ∈ ·.triggers) with
    | some rule =>
      if rule.counts args safeStatePsuOff then
        some ⟨rule.safeTool, rule.safeArgs args, tool⟩
      else none
    | none => none

/-- Two safe-state calls are one. -/
def Action.same (a b : Action) : Bool := a.tool = b.tool && a.args = b.args

/-- A safe-state call names the instrument as the call did that made it necessary. -/
theorem get_safeArgs {rule : Rule} (hrule : rule ∈ RULES) (args : Args) :
    (rule.safeArgs args).get "instrument" = args.get "instrument" := by
  have hother : rule.safeArg.all (fun p => p.1 ≠ "instrument") = true := by
    have hall : ∀ r ∈ RULES, r.safeArg.all (fun p => p.1 ≠ "instrument") = true := by decide
    exact hall rule hrule
  have hrest : ((rule.safeArg.map fun p => (p.1, Arg.str p.2)).toList).lookup "instrument" = none := by
    cases hsafe : rule.safeArg with
    | none => rfl
    | some p =>
      rw [hsafe] at hother
      have hne : ("instrument" == p.1) = false :=
        beq_eq_false_iff_ne.mpr (Ne.symm (by simpa using hother))
      simp [List.lookup, hne]
  cases hget : args.get "instrument" with
  | none =>
    rw [Rule.safeArgs, hget]
    exact hrest
  | some i =>
    rw [Rule.safeArgs, hget]
    rfl

theorem str_safeArgs {rule : Rule} (hrule : rule ∈ RULES) (args : Args) :
    (rule.safeArgs args).str "instrument" = args.str "instrument" := by
  rw [Args.str, get_safeArgs hrule, Args.str]

/-- Where no instrument is named, a tool is told its instrument from its kinds, or its module. -/
def toldFrom (tool : String) : Option (List Kind) ⊕ Option Kind :=
  match TOOLS.find? (·.name = tool) with
  | some spec => .inl (some spec.kinds)
  | none => .inr ((prefixes.find? fun p => startsWith tool p.1).map (·.2))

theorem toldFrom_safeTool : ∀ rule ∈ RULES, ∀ tool ∈ rule.triggers,
    toldFrom rule.safeTool = toldFrom tool := by
  decide

/-- An unnamed instrument depends only on what it is told from. -/
theorem instrumentOf_congr (bench : Bench) {tool tool' : String} {args args' : Args}
    (htool : toldFrom tool = toldFrom tool') (hargs : args.str "instrument" = args'.str "instrument") :
    bench.instrumentOf tool args = bench.instrumentOf tool' args' := by
  unfold Bench.instrumentOf
  rw [hargs]
  cases hnamed : args'.str "instrument" with
  | some n => rfl
  | none =>
    dsimp only
    unfold toldFrom at htool
    cases hspec : TOOLS.find? (·.name = tool) with
    | some spec =>
      cases hspec' : TOOLS.find? (·.name = tool') with
      | some spec' =>
        rw [hspec, hspec'] at htool
        have hkinds : spec.kinds = spec'.kinds := by simpa using htool
        simp only [pick, hargs, hnamed, hkinds]
      | none =>
        rw [hspec, hspec'] at htool
        cases htool
    | none =>
      cases hspec' : TOOLS.find? (·.name = tool') with
      | some spec' =>
        rw [hspec, hspec'] at htool
        cases htool
      | none =>
        rw [hspec, hspec'] at htool
        dsimp only at htool ⊢
        have hkind := Sum.inr.inj htool
        cases hmodule : prefixes.find? fun p => startsWith tool p.1 with
        | none =>
          cases hmodule' : prefixes.find? fun p => startsWith tool' p.1 with
          | none => rfl
          | some p' =>
            rw [hmodule, hmodule'] at hkind
            cases hkind
        | some p =>
          cases hmodule' : prefixes.find? fun p => startsWith tool' p.1 with
          | none =>
            rw [hmodule, hmodule'] at hkind
            cases hkind
          | some p' =>
            rw [hmodule, hmodule'] at hkind
            have heq : p.2 = p'.2 := Option.some.inj hkind
            simp only [heq]

/-- A safe-state call is for the instrument of the call that made it necessary. -/
theorem instrumentOf_actionFor (bench : Bench) {tool : String} {args : Args} {psuOff : Bool}
    {a : Action} (h : actionFor tool args psuOff = some a) :
    bench.instrumentOf a.tool a.args = bench.instrumentOf tool args := by
  unfold actionFor at h
  split at h
  · cases h
  · cases hrule : RULES.find? (tool ∈ ·.triggers) with
    | none =>
      rw [hrule] at h
      cases h
    | some rule =>
      rw [hrule] at h
      dsimp only at h
      have hmem := List.mem_of_find?_eq_some hrule
      have htrigger : tool ∈ rule.triggers := by simpa using List.find?_some hrule
      split at h
      · obtain rfl := Option.some.inj h
        exact instrumentOf_congr bench (toldFrom_safeTool rule hmem tool htrigger)
          (str_safeArgs hmem args)
      · cases h

end HamsOpen.Runner
