/-
# Which settings are accepted

Settings are checked twice: as the files and the environment give them, before flags are looked at,
and once more with the flags in front. A key of the configuration file and the depth in the
environment are read before that, whether or not they count in the end. So a flag does not make up
for what it overrides: where a file or a variable has something that no stage can work with, there
are no settings at all.

The module says exactly when settings load, in terms of what the layers give. Flags can only take
away from what is accepted without them.
-/

import FaultRepair.Proofs.Config.Precedence

namespace FaultRepair.Config

open Files Toml

/-- The files and the command line can be read, and these are the layers in them. -/
structure Readable (specs : List FlagSpec) (files : Tree) (env : Variables) (args : List Text)
    (l : Layers) : Prop where
  flags : Arguments.parse specs {} args = .ok l.flags
  environment : l.environment = env
  envFile : envFileVariables files = .ok l.envFile
  file : tableAt? files ((l.flags.text? "config").getD []) = some l.file
  goRoot : l.goRoot = files.goRoot

/-- Each setting is what the highest layer gives that gives it, and the default if none does. -/
def Merged (l : Layers) (s : Settings) : Prop :=
  ∀ x : Setting, (x.given l).getD (some (x.value (.defaults l.goRoot))) = some (x.value s)

def Layers.withoutFlags (l : Layers) : Layers := { l with flags := {} }

theorem Settings.eq_of_value {s s' : Settings} (h : ∀ x : Setting, x.value s = x.value s') :
    s = s' := by
  cases s
  cases s'
  rw [Settings.mk.injEq]
  exact ⟨h .db, h .trace, h .traceFormat, h .output, h .candidates, h .ident, h .exclude,
    h .expandDepth, h .patterns, h .modules, h .skipTests, h .skipGenerated, h .verbose⟩

/-- There is but one way to merge layers that can be read. -/
theorem merged_iff {l : Layers} {file vars flags : Layer}
    (hfile : Layer.ofTable? l.file = some file)
    (hvars : Layer.ofVariables (l.environment.orElse l.envFile) = .ok vars)
    (hflags : ∀ x : Setting, x.inFlags l.flags = (x.inLayer flags).map some) {s : Settings} :
    Merged l s ↔
      s = (((Settings.defaults l.goRoot).override file).override vars).override flags := by
  have hvalue (x : Setting) := x.value_layered hfile hvars (hflags x)
  constructor
  · intro h
    exact Settings.eq_of_value fun x => Option.some.inj ((h x).symm.trans (hvalue x))
  · rintro rfl
    exact hvalue

/-! ## Layers that can be read -/

/-- No key that stands for the setting, in whatever case, has a value of the wrong kind. -/
def Setting.Fits (x : Setting) (t : Table) : Prop :=
  ∀ e ∈ t, standsFor x.key e.1 → (x.kind.ofValue? e.2).isSome

/-- A table that makes a layer has no value of the wrong kind. -/
theorem fits_of_ofTable? {t : Table} {l : Layer} (h : Layer.ofTable? t = some l) (x : Setting) :
    x.Fits t := by
  iterate 13 obtain ⟨_, _, h⟩ := Option.bind_eq_some_iff.mp h
  cases x <;> exact (Setting.taken?_eq_some_iff.mp (by assumption)).1

/-- A table makes a layer if no value is of the wrong kind. -/
theorem exists_ofTable? {t : Table} (h : ∀ x : Setting, x.Fits t) :
    ∃ l, Layer.ofTable? t = some l := by
  have take {α : Type} {of? : Toml.Value → Option α} {name : String}
      {rest : Option α → Option Layer}
      (hname : ∀ e ∈ t, standsFor name e.1 → (of? e.2).isSome) (hrest : ∀ o, ∃ l, rest o = some l) :
      ∃ l, (taken? t of? name >>= rest) = some l := by
    rw [Setting.taken?_eq_some_iff.mpr ⟨hname, rfl⟩]
    exact hrest _
  exact take (h .db) fun _ => take (h .trace) fun _ => take (h .traceFormat) fun _ =>
    take (h .output) fun _ => take (h .candidates) fun _ => take (h .ident) fun _ =>
    take (h .exclude) fun _ => take (h .expandDepth) fun _ => take (h .patterns) fun _ =>
    take (h .modules) fun _ => take (h .skipTests) fun _ => take (h .skipGenerated) fun _ =>
    take (h .verbose) fun _ => ⟨_, rfl⟩

/-- Variables make a layer if the depth is a number. -/
theorem exists_ofVariables {vs : Variables} (h : Setting.inVariables .expandDepth vs ≠ some none) :
    ∃ l, Layer.ofVariables vs = .ok l := by
  suffices hdepth : ∃ depth, depthIn vs = .ok depth by
    obtain ⟨depth, hdepth⟩ := hdepth
    exact ⟨_, Store.bind_eq_ok.mpr ⟨depth, hdepth, rfl⟩⟩
  rw [depthIn]
  cases hget : vs.get? "FAULTFIX_EXPAND_DEPTH" with
  | none => exact ⟨none, rfl⟩
  | some t =>
    cases hnumber : Number.decimal (Text.trimSpace t) with
    | ok n => exact ⟨some n, by simp [hnumber]⟩
    | error f =>
      have hgiven : Setting.inVariables .expandDepth vs =
          some ((Number.decimal (Text.trimSpace t)).toOption) := congrArg (Option.map _) hget
      exact absurd (hgiven.trans (by rw [hnumber]; rfl)) h

/-- **What is accepted.**  Whatever the files, the environment and the command line are, as long as
they can be read: settings load if no key of the configuration file has a value of the wrong kind,
what the layers below the flags come to has no fault, and what all layers come to, which is what
is loaded, has none either. -/
theorem load_accepts_iff {specs : List FlagSpec} (hspecs : Consistent specs) {files : Tree}
    {env : Variables} {args : List Text} {l : Layers} (h : Readable specs files env args l)
    (s : Settings) :
    loadWithFlags files env l.flags = .ok s ↔
      (∀ x : Setting, x.Fits l.file) ∧
      (∃ base, Merged l.withoutFlags base ∧ base.fault? = none) ∧ Merged l s ∧ s.fault? = none := by
  have hflags (x : Setting) : x.inFlags l.flags = (x.inLayer (.ofArguments l.flags)).map some :=
    x.inFlags_eq hspecs (.parse (by intro entry hentry; cases hentry) h.flags)
  have hnoFlags (x : Setting) : x.inFlags l.withoutFlags.flags = (x.inLayer {}).map some := by
    cases x <;> rfl
  rw [loadWithFlags_eq_ok_iff, ← h.environment]
  constructor
  · rintro ⟨envFile, table, file, vars, henvFile, htable, hfile, hvars, hbase, hs, hfault⟩
    obtain rfl : l.envFile = envFile := Except.ok.inj (h.envFile.symm.trans henvFile)
    obtain rfl : l.file = table := Option.some.inj (h.file.symm.trans htable)
    rw [← h.goRoot] at hbase hs
    refine ⟨fits_of_ofTable? hfile,
      ⟨_, (merged_iff (l := l.withoutFlags) hfile hvars hnoFlags).mpr rfl, hbase⟩,
      (merged_iff hfile hvars hflags).mpr hs, hfault⟩
  · rintro ⟨hkinds, ⟨base, hbase, hbaseFault⟩, hs, hfault⟩
    obtain ⟨file, hfile⟩ := exists_ofTable? hkinds
    -- Without flags, a depth that is no number is what counts.
    have hdepth : Setting.inVariables .expandDepth
        (l.environment.orElse l.envFile) ≠ some none := by
      intro hbad
      have hgiven : Setting.given .expandDepth l.withoutFlags = some none := by
        change (Setting.inVariables .expandDepth l.environment <|>
          Setting.inVariables .expandDepth l.envFile <|> Setting.inTable .expandDepth l.file) =
            some none
        rw [Setting.inVariables_orElse] at hbad
        simp only [Option.orElse_eq_orElse, Option.orElse_eq_or] at hbad ⊢
        rw [← Option.or_assoc, hbad]
        rfl
      have hvalue := hbase .expandDepth
      rw [hgiven] at hvalue
      cases hvalue
    obtain ⟨vars, hvars⟩ := exists_ofVariables hdepth
    obtain rfl := (merged_iff (l := l.withoutFlags) hfile hvars hnoFlags).mp hbase
    rw [← h.goRoot]
    exact ⟨_, _, file, vars, h.envFile, h.file, hfile, hvars, hbaseFault,
      (merged_iff hfile hvars hflags).mp hs, hfault⟩

/-- The environment has a depth with blanks around it, and a flag the other convention. -/
theorem first_convention_accepted :
    let env : Variables := [("FAULTFIX_EXPAND_DEPTH", " 2 ")]
    let l : Layers := ⟨⟨[("ident", .text "first")], []⟩, env, [], [], "/usr/local/go"⟩
    Readable (Command.Verb.run.flags ++ commonFlags) {} env ["--ident", "first"] l ∧
      (∃ base, Merged l.withoutFlags base ∧ base.fault? = none) ∧
      Merged l { Settings.defaults l.goRoot with ident := "first", expandDepth := 2 } := by
  intro env l
  have h : Readable (Command.Verb.run.flags ++ commonFlags) {} env ["--ident", "first"] l :=
    ⟨rfl, rfl, rfl, rfl, rfl⟩
  obtain ⟨-, hbase, hmerged, -⟩ := (load_accepts_iff (consistent_flags .run) h _).mp rfl
  exact ⟨h, hbase, hmerged⟩

/-- A variable that makes no sense is refused, although a flag overrides it and all layers together
come to the defaults. -/
theorem overridden_variable_refused :
    let env : Variables := [("FAULTFIX_IDENT", "bogus")]
    let l : Layers := ⟨⟨[("ident", .text "last")], []⟩, env, [], [], "/usr/local/go"⟩
    Readable (Command.Verb.run.flags ++ commonFlags) {} env ["--ident", "last"] l ∧
      Merged l (.defaults l.goRoot) ∧ (Settings.defaults l.goRoot).fault? = none ∧
      loadWithFlags {} env l.flags = .error (.settings (.ident "bogus")) := by
  refine ⟨⟨rfl, rfl, rfl, rfl, rfl⟩, ?_, rfl, rfl⟩
  intro x
  cases x <;> rfl

end FaultRepair.Config
