/-
# The precedence of settings

A setting may be given by a flag, by a variable of the environment, by a variable of the
environment file, by a key of the configuration file, or not at all. Loading takes the first of
these that is there. What counts is that it is there, not what it says: an empty variable is
given, and a value that cannot be read is an error and does not let a lower layer through.

The module describes a setting by its names in the layers and by the kind of its values, and says
what a layer gives by looking under that name alone. So what is given for one setting has no
bearing on another.
-/

import FaultRepair.Command.Line
import FaultRepair.Proofs.Store.Reading
import Mathlib.Data.Option.Basic

namespace FaultRepair.Config

open Files Toml List Text Option
open Store (bind_eq_ok)

/-! ## Settings and their kinds -/

namespace FlagKind

abbrev Value : FlagKind → Type
  | .text => Text
  | .texts => List Text
  | .number => Int
  | .switch => Bool

def ofFlag? : (k : FlagKind) → FlagValue → Option k.Value
  | .text, .text t => some t
  | .texts, .texts ts => some ts
  | .number, .number n => some n
  | .switch, .switch b => some b
  | _, _ => none

def inArguments : (k : FlagKind) → Arguments → Text → Option k.Value
  | .text, a, name => a.text? name
  | .texts, a, name => a.texts? name
  | .number, a, name => a.number? name
  | .switch, a, name => a.switch? name

/-- The value of this kind that a variable spells: without the white space around it, and for a
list between its commas. No switch has a variable. -/
def ofVariable? : (k : FlagKind) → Text → Option k.Value
  | .text, t => some (trimSpace t)
  | .texts, t => some (splitList t)
  | .number, t => (Number.decimal (trimSpace t)).toOption
  | .switch, _ => none

/-- The value of this kind that a file gives. -/
def ofValue? : (k : FlagKind) → Toml.Value → Option k.Value
  | .text => textOf?
  | .texts => textsOf?
  | .number => integerOf?
  | .switch => booleanOf?

end FlagKind

def FlagValue.kind : FlagValue → FlagKind
  | .text _ => .text
  | .texts _ => .texts
  | .number _ => .number
  | .switch _ => .switch

inductive Setting where
  | db | trace | traceFormat | output | candidates | ident
  | exclude | patterns | modules
  | expandDepth
  | skipTests | skipGenerated | verbose
  deriving DecidableEq

namespace Setting

def all : List Setting :=
  [.db, .trace, .traceFormat, .output, .candidates, .ident, .exclude, .patterns, .modules,
    .expandDepth, .skipTests, .skipGenerated, .verbose]

theorem mem_all (x : Setting) : x ∈ all := by
  cases x <;> decide

instance {p : Setting → Prop} [DecidablePred p] : Decidable (∀ x, p x) :=
  decidable_of_iff (∀ x ∈ all, p x) ⟨fun h x => h x (mem_all x), fun h x _ => h x⟩

def kind : Setting → FlagKind
  | .db | .trace | .traceFormat | .output | .candidates | .ident => .text
  | .exclude | .patterns | .modules => .texts
  | .expandDepth => .number
  | .skipTests | .skipGenerated | .verbose => .switch

def value : (x : Setting) → Settings → x.kind.Value
  | .db, s => s.db
  | .trace, s => s.trace
  | .traceFormat, s => s.traceFormat
  | .output, s => s.output
  | .candidates, s => s.candidates
  | .ident, s => s.ident
  | .exclude, s => s.exclude
  | .patterns, s => s.patterns
  | .modules, s => s.modules
  | .expandDepth, s => s.expandDepth
  | .skipTests, s => s.skipTests
  | .skipGenerated, s => s.skipGenerated
  | .verbose, s => s.verbose

def inLayer : (x : Setting) → Layer → Option x.kind.Value
  | .db, l => l.db
  | .trace, l => l.trace
  | .traceFormat, l => l.traceFormat
  | .output, l => l.output
  | .candidates, l => l.candidates
  | .ident, l => l.ident
  | .exclude, l => l.exclude
  | .patterns, l => l.patterns
  | .modules, l => l.modules
  | .expandDepth, l => l.expandDepth
  | .skipTests, l => l.skipTests
  | .skipGenerated, l => l.skipGenerated
  | .verbose, l => l.verbose

def flag : Setting → Text
  | .db => "db"
  | .trace => "trace"
  | .traceFormat => "trace-format"
  | .output => "output"
  | .candidates => "candidates"
  | .ident => "ident"
  | .exclude => "exclude"
  | .patterns => "patterns"
  | .modules => "modules"
  | .expandDepth => "depth"
  | .skipTests => "skip-tests"
  | .skipGenerated => "skip-generated"
  | .verbose => "verbose"

def key : Setting → Text
  | .db => "db"
  | .trace => "trace"
  | .traceFormat => "trace_format"
  | .output => "output"
  | .candidates => "candidates"
  | .ident => "ident"
  | .exclude => "exclude"
  | .patterns => "patterns"
  | .modules => "modules"
  | .expandDepth => "expand_depth"
  | .skipTests => "skip_tests"
  | .skipGenerated => "skip_generated"
  | .verbose => "verbose"

/-- The variable of a setting, if it has one. -/
def envName? : Setting → Option Text
  | .db => some "FAULTFIX_DB"
  | .trace => some "FAULTFIX_TRACE"
  | .traceFormat => some "FAULTFIX_TRACE_FORMAT"
  | .output => some "FAULTFIX_OUTPUT"
  | .candidates => some "FAULTFIX_CANDIDATES"
  | .ident => some "FAULTFIX_IDENT"
  | .exclude => some "FAULTFIX_EXCLUDE"
  | .patterns => some "FAULTFIX_PATTERNS"
  | .expandDepth => some "FAULTFIX_EXPAND_DEPTH"
  | .modules | .skipTests | .skipGenerated | .verbose => none

/-- What flags give; the inner `none` is something that is no value of the setting. -/
def inFlags (x : Setting) (a : Arguments) : Option (Option x.kind.Value) :=
  (a.get? x.flag).map x.kind.ofFlag?

def inVariables (x : Setting) (vs : Variables) : Option (Option x.kind.Value) :=
  (x.envName?.bind vs.get?).map x.kind.ofVariable?

/-- What the table of a configuration file gives. -/
def inTable (x : Setting) (t : Table) : Option (Option x.kind.Value) :=
  (settingOf? t x.key).map x.kind.ofValue?

end Setting

structure Layers where
  flags : Arguments
  environment : Variables
  envFile : Variables
  file : Table
  /-- The root of the toolchain, which the defaults rest on. -/
  goRoot : Text

/-- What the highest layer gives that gives a setting at all. -/
def Setting.given (x : Setting) (l : Layers) : Option (Option x.kind.Value) :=
  x.inFlags l.flags <|> x.inVariables l.environment <|> x.inVariables l.envFile <|> x.inTable l.file

/-! ## Names -/

namespace Setting

theorem flag_injective : Function.Injective flag := by
  intro x y
  revert x y
  decide

theorem envName?_injective {x y : Setting} {name : Text} (hx : x.envName? = some name)
    (hy : y.envName? = some name) : x = y := by
  have hsame : ∀ x y : Setting, x.envName?.isSome → x.envName? = y.envName? → x = y := by decide
  exact hsame x y (by rw [hx, isSome_some]) (hx.trans hy.symm)

theorem standsFor_key (x : Setting) : standsFor x.key x.key := by
  cases x <;> decide

/-- A key stands for one setting at most. -/
theorem eq_of_standsFor {x y : Setting} {key : Text} (hx : standsFor x.key key)
    (hy : standsFor y.key key) : x = y := by
  have hrunes : ∀ x y : Setting, runes x.key = runes y.key → x = y := by decide
  exact hrunes x y ((beq_iff_eq.mp hx).symm.trans (beq_iff_eq.mp hy))

theorem value_override (x : Setting) (s : Settings) (l : Layer) :
    x.value (s.override l) = (x.inLayer l).getD (x.value s) := by
  cases x <;> rfl

end Setting

/-! ## Flags -/

/-- No flag with the name of a setting takes anything but values of the setting. -/
def Consistent (specs : List FlagSpec) : Prop :=
  ∀ spec ∈ specs, ∀ x : Setting, spec.name = x.flag → spec.kind = x.kind

instance (specs : List FlagSpec) : Decidable (Consistent specs) :=
  inferInstanceAs (Decidable
    (∀ spec ∈ specs, ∀ x : Setting, spec.name = x.flag → spec.kind = x.kind))

/-- Every flag that was set is one of the command's, with a value of its kind. -/
def Arguments.Typed (specs : List FlagSpec) (a : Arguments) : Prop :=
  ∀ entry ∈ a.flags, ∃ spec ∈ specs, spec.name = entry.1 ∧ entry.2.kind = spec.kind

namespace Arguments

variable {specs : List FlagSpec} {a a' : Arguments}

theorem kind_of_value {spec : FlagSpec} {old : Option FlagValue} {t : Text} {v : FlagValue}
    (h : spec.value old t = .ok v) : v.kind = spec.kind := by
  unfold FlagSpec.value at h
  split at h
  · rename_i hkind
    cases h
    exact hkind.symm
  · rename_i hkind
    -- The fields that the flag has already do not matter for the kind.
    by_cases hempty : t.isEmpty
    · rw [if_pos hempty] at h
      cases h
      exact hkind.symm
    · rw [if_neg hempty] at h
      split at h
      · cases h
        exact hkind.symm
      · cases h
  · rename_i hkind
    split at h
    · cases h
      exact hkind.symm
    · cases h
  · rename_i hkind
    split at h
    · cases h
      exact hkind.symm
    · cases h

/-- A flag that the command has is set, and what comes after goes on from there. -/
theorem Typed.set_bind (ha : a.Typed specs) {p : FlagSpec → Bool} {spec : FlagSpec}
    (hspec : specs.find? p = some spec) {t : Text} {rest : Arguments → Except FlagFault Arguments}
    (hrest : ∀ next, next.Typed specs → rest next = .ok a' → a'.Typed specs)
    (h : (a.set spec t >>= rest) = .ok a') : a'.Typed specs := by
  rw [Arguments.set] at h
  cases hvalue : spec.value (a.get? spec.name) t with
  | error f =>
    rw [hvalue] at h
    cases h
  | ok v =>
    rw [hvalue] at h
    refine hrest _ ?_ h
    intro entry hentry
    rcases mem_cons.mp hentry with rfl | hold
    · exact ⟨spec, mem_of_find?_eq_some hspec, rfl, kind_of_value hvalue⟩
    · exact ha entry hold

theorem Typed.parse (ha : a.Typed specs) {args : List Text}
    (h : Arguments.parse specs a args = .ok a') :
    a'.Typed specs := by
  fun_induction Arguments.parse specs a args with
  | case1 acc =>
    cases h
    exact ha
  | case2 acc rest name hend =>
    cases h
    exact ha
  | case3 | case4 | case8 | case10 | case13 | case14 => cases h
  | case5 acc rest dashed hname hform name spec hfound v hcut ih => exact ha.set_bind hfound ih h
  | case6 acc rest dashed hname hform name spec hfound hswitch hcut ih =>
    exact ha.set_bind hfound ih h
  | case7 acc dashed hname hform name spec hfound hkind v rest hcut ih =>
    exact ha.set_bind hfound ih h
  | case9 acc rest c cluster hc htest ih => exact ih ha h
  | case11 acc rest c cluster hc htest hhelp spec hall hfound ih => exact ha.set_bind hfound ih h
  | case12 acc rest c cluster hc htest hhelp spec d after hcut hfound hgiven ih =>
    exact ha.set_bind hfound ih h
  | case15 acc arg rest hlong hshort ih => exact ih ha h

/-- What was set for a flag has the kind of its setting. -/
theorem Typed.kind_of_get? (ha : a.Typed specs) (hspecs : Consistent specs) {x : Setting}
    {v : FlagValue} (hv : a.get? x.flag = some v) : v.kind = x.kind := by
  obtain ⟨entry, hfound, rfl⟩ := map_eq_some_iff.mp hv
  obtain ⟨spec, hspec, hname, hkind⟩ := ha entry (mem_of_find?_eq_some hfound)
  have hat : entry.1 = x.flag := by simpa using find?_some hfound
  rw [hkind, hspecs spec hspec x (hname.trans hat)]

end Arguments

theorem FlagKind.ofFlag?_isSome {k : FlagKind} {v : FlagValue} (hv : v.kind = k) :
    (k.ofFlag? v).isSome := by
  subst hv
  cases v <;> rfl

theorem FlagKind.inArguments_eq (k : FlagKind) (a : Arguments) (name : Text) :
    k.inArguments a name = (a.get? name).bind k.ofFlag? := by
  cases k <;>
    simp only [inArguments, Arguments.text?, Arguments.texts?, Arguments.number?,
      Arguments.switch?] <;>
    cases a.get? name with
    | none => rfl
    | some v => cases v <;> rfl

/-! ## What single layers give -/

namespace Setting

/-- The layer of the flags has what the flags give. -/
theorem inFlags_eq {specs : List FlagSpec} (hspecs : Consistent specs) {a : Arguments}
    (ha : a.Typed specs) (x : Setting) : x.inFlags a = (x.inLayer (.ofArguments a)).map some := by
  have hlayer : x.inLayer (.ofArguments a) = x.kind.inArguments a x.flag := by
    cases x <;> rfl
  rw [hlayer, FlagKind.inArguments_eq, inFlags]
  cases hget : a.get? x.flag with
  | none => rfl
  | some v =>
    obtain ⟨given, hgiven⟩ := isSome_iff_exists.mp
      (FlagKind.ofFlag?_isSome (ha.kind_of_get? hspecs hget))
    rw [map_some, bind_some, hgiven, map_some]

theorem depthIn_eq {vs : Variables} {depth : Option Int} (h : depthIn vs = .ok depth) :
    (vs.get? "FAULTFIX_EXPAND_DEPTH").map (FlagKind.ofVariable? .number) = depth.map some := by
  rw [depthIn] at h
  cases hget : vs.get? "FAULTFIX_EXPAND_DEPTH" with
  | none =>
    rw [hget] at h
    cases h
    rfl
  | some t =>
    rw [hget, map_some] at h
    cases hnumber : Number.decimal (trimSpace t) with
    | error f =>
      simp only [hnumber] at h
      cases h
    | ok n =>
      simp only [hnumber] at h
      cases h
      rw [map_some, FlagKind.ofVariable?, hnumber]
      rfl

theorem inVariables_eq {vs : Variables} {l : Layer} (h : Layer.ofVariables vs = .ok l)
    (x : Setting) :
    x.inVariables vs = (x.inLayer l).map some := by
  obtain ⟨depth, hdepth, hlayer⟩ := bind_eq_ok.mp h
  cases hlayer
  have htext (name : Text) : (vs.get? name).map (FlagKind.ofVariable? .text) =
      ((vs.get? name).map trimSpace).map some := by
    rw [Option.map_map]
    rfl
  have htexts (name : Text) : (vs.get? name).map (FlagKind.ofVariable? .texts) =
      ((vs.get? name).map splitList).map some := by
    rw [Option.map_map]
    rfl
  cases x with
  | db | trace | traceFormat | output | candidates | ident => exact htext _
  | exclude | patterns => exact htexts _
  | expandDepth => exact depthIn_eq hdepth
  | modules | skipTests | skipGenerated | verbose => rfl

/-- The value of a setting is that of a key that stands for it. -/
theorem exists_of_settingOf? {t : Table} {name : Text} (hname : standsFor name name)
    {v : Toml.Value} (h : settingOf? t name = some v) : ∃ e ∈ t, standsFor name e.1 ∧ e.2 = v := by
  rw [settingOf?] at h
  split at h
  · rename_i given hget
    cases h
    obtain ⟨e, he, rfl⟩ := map_eq_some_iff.mp hget
    have hat : e.1 = name := by simpa using find?_some he
    exact ⟨e, mem_of_find?_eq_some he, hat ▸ hname, rfl⟩
  · obtain ⟨e, he, rfl⟩ := map_eq_some_iff.mp h
    have hstands := find?_some he
    exact ⟨e, mem_of_find?_eq_some he, hstands, rfl⟩

theorem taken?_eq_some_iff {t : Table} {of? : Toml.Value → Option α} {name : String}
    {o : Option α} :
    taken? t of? name = some o ↔ (∀ e ∈ t, standsFor name e.1 → (of? e.2).isSome) ∧
      (settingOf? t name).bind of? = o := by
  rw [taken?]
  split <;> grind

theorem taken?_eq {t : Table} {of? : Toml.Value → Option α} {name : String} {o : Option α}
    (hname : standsFor name name) (h : taken? t of? name = some o) :
    (settingOf? t name).map of? = o.map some := by
  obtain ⟨hkinds, rfl⟩ := taken?_eq_some_iff.mp h
  cases hsetting : settingOf? t name with
  | none => rfl
  | some v =>
    obtain ⟨e, he, hstands, rfl⟩ := exists_of_settingOf? hname hsetting
    obtain ⟨a, ha⟩ := isSome_iff_exists.mp (hkinds e he hstands)
    rw [bind_some, map_some, ha, map_some]

theorem inTable_eq {t : Table} {l : Layer} (h : Layer.ofTable? t = some l) (x : Setting) :
    x.inTable t = (x.inLayer l).map some := by
  -- One step for each key of the table.
  iterate 13 obtain ⟨_, _, h⟩ := bind_eq_some_iff.mp h
  cases h
  cases x <;> exact taken?_eq (by decide) (by assumption)

end Setting

theorem Variables.get?_orElse (vs others : Variables) (name : Text) :
    (vs.orElse others).get? name = (vs.get? name <|> others.get? name) := by
  rw [Variables.orElse, Variables.get?, find?_append]
  cases hfirst : vs.find? (·.1 == name) with
  | some entry =>
    rw [Variables.get?, hfirst]
    rfl
  | none => grind [Variables.get?]

/-- A variable that is set in the environment hides the one of the environment file. -/
theorem Setting.inVariables_orElse (x : Setting) (env envFile : Variables) :
    x.inVariables (env.orElse envFile) = (x.inVariables env <|> x.inVariables envFile) := by
  simp only [inVariables]
  cases x.envName? with
  | none => rfl
  | some name =>
    rw [bind_some, bind_some, bind_some, Variables.get?_orElse]
    cases env.get? name <;> rfl

/-! ## Loading -/

/-- The table of the configuration file. One that nobody named may be missing, and gives
nothing. -/
def tableAt? (files : Tree) (path : Text) : Option Table :=
  match files.read (if path.isEmpty then defaultFile else path) with
  | .ok source => Toml.read? source
  | .error .missing => if path.isEmpty then some [] else none
  | .error _ => none

/-- A command line for a command with these flags leads to settings, and these are the layers they
are loaded from. -/
structure Loads (specs : List FlagSpec) (files : Tree) (env : Variables) (args : List Text)
    (l : Layers) (s : Settings) : Prop where
  flags : Arguments.parse specs {} args = .ok l.flags
  environment : l.environment = env
  envFile : envFileVariables files = .ok l.envFile
  file : tableAt? files ((l.flags.text? "config").getD []) = some l.file
  goRoot : l.goRoot = files.goRoot
  settings : loadWithFlags files env l.flags = .ok s

/-- The layer of the configuration file comes from its table. -/
theorem fileLayer_eq_ok_iff {files : Tree} {path : Text} {l : Layer} :
    fileLayer files path = .ok l ↔ ∃ t, tableAt? files path = some t ∧
      Layer.ofTable? t = some l := by
  simp only [fileLayer, tableAt?]
  cases files.read (if path.isEmpty then defaultFile else path) with
  | ok source =>
    rw [← bind_eq_some_iff]
    dsimp only
    split <;> simp [*]
  | error fault =>
    cases fault with
    | missing =>
      have hempty : Layer.ofTable? [] = some {} := rfl
      cases path.isEmpty <;> simp [hempty]
    | _ => simp

theorem checked_eq_ok_iff {s s' : Settings} : s.checked = .ok s' ↔ s' = s ∧ s.fault? = none := by
  rw [Settings.checked]
  cases s.fault? <;> simp [eq_comm]

theorem mapError_eq_ok_iff {x : Except ε α} {f : ε → ε'} {a : α} : x.mapError f = .ok a ↔
    x = .ok a := by
  cases x <;> simp [Except.mapError]

/-- Settings load if all layers can be read and there is no fault in the settings without the
flags, nor in those with them. They override the defaults by the layers, from the lowest up. -/
theorem loadWithFlags_eq_ok_iff {files : Tree} {env : Variables} {a : Arguments} {s : Settings} :
    loadWithFlags files env a = .ok s ↔ ∃ envFile table file vars,
      envFileVariables files = .ok envFile ∧
      tableAt? files ((a.text? "config").getD []) = some table ∧ Layer.ofTable? table = some file ∧
      Layer.ofVariables (env.orElse envFile) = .ok vars ∧
      (((Settings.defaults files.goRoot).override file).override vars).fault? = none ∧
      s = (((Settings.defaults files.goRoot).override file).override vars).override
        (.ofArguments a) ∧
      s.fault? = none := by
  simp only [loadWithFlags, load, bind_eq_ok, fileLayer_eq_ok_iff, checked_eq_ok_iff,
    mapError_eq_ok_iff]
  grind

/-- Settings made of layers have what the highest layer gives that gives a setting. -/
theorem Setting.value_layered {l : Layers} {file vars flags : Layer} (x : Setting)
    (hfile : Layer.ofTable? l.file = some file)
    (hvars : Layer.ofVariables (l.environment.orElse l.envFile) = .ok vars)
    (hflags : x.inFlags l.flags = (x.inLayer flags).map some) :
    (x.given l).getD (some (x.value (.defaults l.goRoot))) =
      some (x.value ((((Settings.defaults l.goRoot).override file).override vars).override
        flags)) := by
  have hgiven : x.given l = ((x.inLayer flags).map some <|>
      (x.inLayer vars).map some <|> (x.inLayer file).map some) := by
    rw [← hflags, ← x.inVariables_eq hvars, ← x.inTable_eq hfile, x.inVariables_orElse,
      Setting.given]
    cases x.inFlags l.flags <;> cases x.inVariables l.environment <;> rfl
  rw [hgiven, x.value_override, x.value_override, x.value_override]
  cases x.inLayer flags <;> cases x.inLayer vars <;> cases x.inLayer file <;> rfl

/-- What is loaded for a setting is what the highest layer gives that gives it, and can be read. -/
theorem Loads.value_eq {specs : List FlagSpec} (hspecs : Consistent specs) {files : Tree}
    {env : Variables} {args : List Text} {l : Layers} {s : Settings}
    (h : Loads specs files env args l s) (x : Setting) :
    (x.given l).getD (some (x.value (.defaults l.goRoot))) = some (x.value s) := by
  obtain ⟨envFile, table, file, vars, henvFile, htable, hfile, hvars, -, rfl, -⟩ :=
    loadWithFlags_eq_ok_iff.mp h.settings
  obtain rfl : l.envFile = envFile := Except.ok.inj (h.envFile.symm.trans henvFile)
  obtain rfl : l.file = table := some.inj (h.file.symm.trans htable)
  rw [← h.environment] at hvars
  rw [← h.goRoot]
  exact x.value_layered hfile hvars
    (x.inFlags_eq hspecs (.parse (by intro entry hentry; cases hentry) h.flags))

/-! ## Settings do not meddle with each other -/

/-- The layers with one setting given anew in one of them. -/
inductive Layers.Gives (l : Layers) (x : Setting) : Layers → Prop where
  | flag (v : FlagValue) :
      Gives l x { l with flags := { l.flags with flags := (x.flag, v) :: l.flags.flags } }
  | environment {name : Text} (hname : x.envName? = some name) (t : Text) :
      Gives l x { l with environment := (name, t) :: l.environment }
  | envFile {name : Text} (hname : x.envName? = some name) (t : Text) :
      Gives l x { l with envFile := (name, t) :: l.envFile }
  /-- Keys are compared without regard to case. -/
  | file {key : Text} (hkey : standsFor x.key key) (v : Toml.Value) :
      Gives l x { l with file := l.file.set key v }

theorem find?_set {p : Text → Bool} {key : Text} (hkey : p key = false) (t : Table)
    (v : Toml.Value) : (t.set key v).find? (fun e => p e.1) = t.find? fun e => p e.1 := by
  rw [Table.set]
  split
  · have hsame : ((fun e : Text × Toml.Value => p e.1) ∘ fun e =>
      if e.1 == key then (key, v) else e) =
        fun e => p e.1 := by
      funext e
      by_cases hat : e.1 = key
      · simp [hat]
      · simp [hat]
    rw [find?_map, hsame]
    cases hfound : t.find? fun e => p e.1 with
    | none => rfl
    | some e => grind
  · rw [find?_append]
    simp [hkey]

theorem Setting.inTable_set {x y : Setting} (hxy : x ≠ y) {key : Text} (hkey : standsFor y.key key)
    (t : Table) (v : Toml.Value) : x.inTable (t.set key v) = x.inTable t := by
  have hother : ¬ standsFor x.key key := fun hx => hxy (eq_of_standsFor hx hkey)
  have hexact : key ≠ x.key := fun hsame => hother (hsame ▸ x.standsFor_key)
  have hget : (t.set key v).get? x.key = t.get? x.key := by
    rw [Table.get?, Table.get?, find?_set (p := (· == x.key)) (by simpa using hexact)]
  rw [inTable, inTable, settingOf?, settingOf?, hget,
    find?_set (p := standsFor x.key) (by simpa using hother)]

theorem Setting.inVariables_cons {x y : Setting} (hxy : x ≠ y) {name : Text}
    (hname : y.envName? = some name) (vs : Variables) (t : Text) :
      x.inVariables ((name, t) :: vs) = x.inVariables vs := by
  rw [inVariables, inVariables]
  cases hx : x.envName? with
  | none => rfl
  | some other => grind [envName?_injective, Variables.get?]

/-- Giving a setting does not change what is given for another one. -/
theorem Layers.Gives.given_eq {l l' : Layers} {x y : Setting} (h : l.Gives y l') (hxy : x ≠ y) :
    x.given l' = x.given l := by
  cases h with
  | flag v => grind [Setting.flag_injective, Arguments.get?, Setting.given, Setting.inFlags]
  | environment hname t => rw [Setting.given, Setting.given, Setting.inVariables_cons hxy hname]
  | envFile hname t => rw [Setting.given, Setting.given, Setting.inVariables_cons hxy hname]
  | file hkey v => rw [Setting.given, Setting.given, Setting.inTable_set hxy hkey]

theorem Layers.Gives.goRoot_eq {l l' : Layers} {x : Setting} (h : l.Gives x l') :
    l'.goRoot = l.goRoot := by
  cases h <;> rfl

/-- **Settings by precedence.**  Whatever the files, the environment and the command line are,
settings that load have, one by one, the value that the highest layer gives: flags before the
environment, the environment before its file, that before the configuration file, and the defaults
last. What is there counts, and must be readable. Giving one setting anew in one layer changes
no other setting. -/
theorem load_by_precedence {specs : List FlagSpec} (hspecs : Consistent specs) {files : Tree}
    {env : Variables} {args : List Text} {a : Arguments} {s : Settings}
    (hparse : Arguments.parse specs {} args = .ok a) (hload : loadWithFlags files env a = .ok s) :
    ∃ l : Layers, Loads specs files env args l s ∧
      (∀ x : Setting, (x.given l).getD (some (x.value (.defaults l.goRoot))) = some (x.value s)) ∧
      ∀ {files' env' args' l' s' y}, Loads specs files' env' args' l' s' → l.Gives y l' →
        ∀ x ≠ y, x.value s' = x.value s := by
  obtain ⟨envFile, table, file, vars, henvFile, htable, -⟩ := loadWithFlags_eq_ok_iff.mp hload
  have hloads : Loads specs files env args ⟨a, env, envFile, table, files.goRoot⟩ s :=
    ⟨hparse, rfl, henvFile, htable, rfl, hload⟩
  refine ⟨_, hloads, hloads.value_eq hspecs, ?_⟩
  intro files' env' args' l' s' y hloads' hgives x hxy
  have hvalue' := hloads'.value_eq hspecs x
  rw [hgives.given_eq hxy, hgives.goRoot_eq, hloads.value_eq hspecs x] at hvalue'
  exact (some.inj hvalue').symm

/-- Every command's flags take values of the settings they are named for. -/
theorem consistent_flags (v : Command.Verb) : Consistent (v.flags ++ commonFlags) := by
  cases v <;> decide

/-- Both files are there, and give some of the same settings. -/
def layeredFiles : Tree where
  nodes :=
    [("/.env", .file
        "FAULTFIX_DB=env.db\nFAULTFIX_OUTPUT=out # fix\nexport FAULTFIX_EXCLUDE=' /a/, ,/b/'\n"),
      ("/faultfix.toml", .file
        "DB = \"toml.db\"\nident = \"first\"\nexpand_depth = 3\nverbose = true\n")]
  goRoot := "/opt/go"

/-- A variable that is empty, and one with white space around it. -/
def layeredVariables : Variables := [("FAULTFIX_OUTPUT", ""), ("FAULTFIX_EXPAND_DEPTH", " 2 ")]

def layeredArguments : List Text :=
  ["--ident", "last", "--patterns=index-shift", ".", "--patterns", "saturating-abs"]

def layeredFlags : Arguments where
  flags :=
    [("patterns", .texts ["index-shift", "saturating-abs"]), ("patterns", .texts ["index-shift"]),
    ("ident", .text "last")]
  words := ["."]

def layeredSettings : Settings :=
  { Settings.defaults "/opt/go" with
    db := "env.db"
    output := ""
    exclude := ["/a/", "/b/"]
    expandDepth := 2
    patterns := ["index-shift", "saturating-abs"]
    verbose := true }

theorem layered_load_by_precedence :
    Arguments.parse (Command.Verb.run.flags ++ commonFlags) {} layeredArguments = .ok layeredFlags ∧
      loadWithFlags layeredFiles layeredVariables layeredFlags = .ok layeredSettings ∧
      ∃ l : Layers, Loads (Command.Verb.run.flags ++ commonFlags) layeredFiles layeredVariables
          layeredArguments l layeredSettings ∧
        ∀ x : Setting, (x.given l).getD (some (x.value (.defaults l.goRoot))) =
          some (x.value layeredSettings) := by
  have hparse : Arguments.parse (Command.Verb.run.flags ++ commonFlags) {} layeredArguments =
      .ok layeredFlags := rfl
  have hload : loadWithFlags layeredFiles layeredVariables layeredFlags = .ok layeredSettings := by
    rfl
  obtain ⟨l, hloads, hvalues, -⟩ := load_by_precedence (consistent_flags .run) hparse hload
  exact ⟨hparse, hload, l, hloads, hvalues⟩

end FaultRepair.Config
