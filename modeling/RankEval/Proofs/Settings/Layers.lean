/-
Where settings come from. A setting that the environment gives has that value; else it has the one in the file of
settings, if it is there; else it has its default. It does not depend on what is given for the others.

- `part_withEnvironment`: what a variable changes.
- `read?_eq_some_iff`: what a file gives.
- `load_field_by_field`: loading, setting by setting, with a file that gives some of them and variables that give some
  in `load_field_by_field_of_partial_file`.
-/
import RankEval.Proofs.Decimal.Digits
import RankEval.Proofs.Files.Attempts
import RankEval.Proofs.Settings.Sections

namespace RankEval.Settings

open Yaml (Place)

/-! ## The environment -/

/-- a variable gives a number iff its text is one -/
theorem given?_number {σ : Type} (part : σ → Nat) (name setBy : String) (env : Environment) (n : Nat) :
    (Setting.number part name setBy).given? env = some n ↔
      ∃ text, env.get? setBy = some text ∧ Text.IsCount text.toList n := by
  change (env.get? setBy).bind (fun text => Text.count? text.toList) = some n ↔ _
  simp only [Option.bind_eq_some_iff, Text.count?_eq_some_iff]

/-- a variable gives a setting its value, and the others keep theirs -/
theorem part_withEnvironment (s : Settings) (env : Environment) :
    ∀ f ∈ settings, f.part (s.withEnvironment env) = (f.given? env).getD (f.part s) := by
  simp only [settings, Places.settings, Evaluation.settings, Evaluation.ownSettings, metricSettings,
    List.forall_mem_append, List.forall_mem_map, List.forall_mem_cons]
  simp [Setting.given?, Setting.under, Setting.place, Setting.number, Setting.written, withEnvironment,
    Environment.text, Environment.count]

theorem withEnvironment_eq_iff (s s' : Settings) (env : Environment) :
    s.withEnvironment env = s' ↔ ∀ f ∈ settings, f.part s' = (f.given? env).getD (f.part s) := by
  constructor
  · rintro rfl
    exact part_withEnvironment s env
  · intro h
    exact isRecordOf.ext _ _ fun f hf => (part_withEnvironment s env f hf).trans (h f hf).symm

/-! ## Files -/

/-- a file in which whatever is given for a setting is a value of it -/
def IsReadable (d : Place) : Prop :=
  IsRegular d ∧ ∀ f ∈ settings, (f.find? (some d)).isSome → (f.inFile? (some d)).isSome

/-- the settings of a readable file -/
theorem read?_eq_some_iff (d : Place) (s : Settings) :
    read? d = some s ↔ IsReadable d ∧ ∀ f ∈ settings, f.part s = (f.inFile? (some d)).getD (f.part {}) := by
  refine (isRecordOf.record?_iff d s).trans ?_
  simp only [Setting.orDefault?_eq_some_iff, IsReadable, imp_and, forall_and]
  tauto

/-- every readable file has settings -/
theorem exists_read?_iff (d : Place) : (∃ s, read? d = some s) ↔ IsReadable d := by
  refine ⟨fun ⟨s, hs⟩ => ((read?_eq_some_iff d s).1 hs).1, fun hd => ?_⟩
  obtain ⟨s, hs⟩ := isRecordOf.exists_parts fun f => (f.inFile? (some d)).getD (f.part {})
  exact ⟨s, (read?_eq_some_iff d s).2 ⟨hd, hs⟩⟩

theorem parse_eq_ok_iff (text : String) (s : Settings) :
    parse text = .ok s ↔ ∃ d, Yaml.decode? some text = some d ∧ read? d = some s := by
  have hbind : Yaml.decode? read? text = (Yaml.decode? some text).bind read? := by
    simp only [Yaml.decode?, Option.bind_eq_bind, Option.bind_assoc, Option.bind_some]
  rw [parse, hbind, ← Option.bind_eq_some_iff]
  cases (Yaml.decode? some text).bind read? <;> simp

/-! ## Loading -/

/-- the file that settings are read from, if there is one -/
def source? (t : FileTree) (env : Environment) (named : Option FilePath) : Option FilePath :=
  named.or (env.settingsFile?.filter fun path => (t.kind? path).isSome)

/-- what stands in the file that settings are read from, if there is one -/
inductive Holds (t : FileTree) : Option FilePath → Option Place → Prop where
  | nothing : Holds t none none
  | document {path : FilePath} {text : String} {s : Settings} {d : Place} (htext : t.text? path = .ok text)
      (hparse : parse text = .ok s) (hdocument : Yaml.decode? some text = some d) : Holds t (some path) (some d)

theorem Holds.unique {t : FileTree} {source : Option FilePath} {file file' : Option Place} (h : Holds t source file)
    (h' : Holds t source file') : file = file' := by
  cases h with
  | nothing =>
    cases h'
    rfl
  | document htext _ hdocument =>
    cases h' with
    | document htext' _ hdocument' =>
      cases htext.symm.trans htext'
      exact hdocument.symm.trans hdocument'

theorem outcome_ofFile_eq_ok_iff (t : FileTree) (path : FilePath) (s : Settings) :
    (ofFile path).outcome t = .ok s ↔ ∃ text, t.text? path = .ok text ∧ parse text = .ok s := by
  rw [ofFile, Attempt.outcome_bind, Attempt.outcome_text]
  cases t.text? path with
  | error fault => simp [Except.bind]
  | ok text =>
    dsimp only [Except.bind]
    cases h : parse text <;> simp [h]

theorem outcome_load (t : FileTree) (env : Environment) (named : Option FilePath) :
    (load env named).outcome t = match source? t env named with
      | none => .ok (({} : Settings).withEnvironment env)
      | some path => ((ofFile path).outcome t).map fun s => s.withEnvironment env := by
  have hthen (a : Attempt Settings) : (do return (← a).withEnvironment env : Attempt Settings).outcome t =
      (a.outcome t).map fun s => s.withEnvironment env := by
    rw [Attempt.outcome_bind]
    cases a.outcome t <;> rfl
  cases named with
  | some path => exact hthen (ofFile path)
  | none =>
    refine (hthen (ofUser env)).trans ?_
    unfold source? ofUser
    cases env.settingsFile? with
    | none => rfl
    | some path =>
      rw [Attempt.outcome_bind, Attempt.outcome_lift, Attempt.run_pathExists, Option.none_or, Option.filter_some]
      cases (t.kind? path).isSome <;> rfl

/-- settings that a file holds, with what the environment gives in their place -/
theorem withEnvironment_eq_iff_of_read? {d : Place} {s : Settings} (hread : read? d = some s) (env : Environment)
    (s' : Settings) : s.withEnvironment env = s' ↔
      ∀ f ∈ settings, f.part s' = ((f.given? env).or (f.inFile? (some d))).getD (f.part {}) := by
  have hparts := ((read?_eq_some_iff d s).1 hread).2
  rw [withEnvironment_eq_iff]
  refine forall₂_congr fun f hf => ?_
  rw [hparts f hf, Option.getD_or]

/-- what is loaded, from what stands in the file -/
theorem load_eq_ok_iff (t : FileTree) (env : Environment) (named : Option FilePath) (s : Settings) :
    (load env named).outcome t = .ok s ↔ ∃ file, Holds t (source? t env named) file ∧
      ∀ f ∈ settings, f.part s = ((f.given? env).or (f.inFile? file)).getD (f.part {}) := by
  rw [outcome_load]
  cases source? t env named with
  | none =>
    rw [Except.ok.injEq, withEnvironment_eq_iff]
    constructor
    · intro hparts
      exact ⟨none, .nothing, fun f hf => (hparts f hf).trans (by simp [Setting.inFile?, Setting.find?])⟩
    · rintro ⟨_, ⟨⟩, hparts⟩ f hf
      rw [hparts f hf]
      simp [Setting.inFile?, Setting.find?]
  | some path =>
    constructor
    · intro h
      cases hfile : (ofFile path).outcome t with
      | error failure => simp [hfile, Except.map] at h
      | ok s' =>
        obtain ⟨text, htext, hparse⟩ := (outcome_ofFile_eq_ok_iff t path s').1 hfile
        obtain ⟨d, hdocument, hread⟩ := (parse_eq_ok_iff text s').1 hparse
        simp only [hfile, Except.map, Except.ok.injEq] at h
        exact ⟨some d, .document htext hparse hdocument, (withEnvironment_eq_iff_of_read? hread env s).1 h⟩
    · rintro ⟨_, hholds, hparts⟩
      cases hholds with
      | @document _ text s' d htext hparse hdocument =>
        obtain ⟨d', hdocument', hread⟩ := (parse_eq_ok_iff text s').1 hparse
        obtain rfl : d = d' := Option.some.inj (hdocument.symm.trans hdocument')
        dsimp only
        rw [(outcome_ofFile_eq_ok_iff t path s').2 ⟨text, htext, hparse⟩]
        exact congrArg Except.ok ((withEnvironment_eq_iff_of_read? hread env s).2 hparts)

/-- what is loaded for a setting, where it is known what stands in the file -/
theorem part_of_load {t : FileTree} {env : Environment} {named : Option FilePath} {file : Option Place} {s : Settings}
    (hfile : Holds t (source? t env named) file) (hs : (load env named).outcome t = .ok s) :
    ∀ f ∈ settings, f.part s = ((f.given? env).or (f.inFile? file)).getD (f.part {}) := by
  obtain ⟨file', hfile', hparts⟩ := (load_eq_ok_iff t env named s).1 hs
  obtain rfl := hfile.unique hfile'
  exact hparts

/-- **Loading, setting by setting.** A text can be parsed iff it is a YAML file whose sections have no name twice and in
which what is given for a setting is a value of it, whichever settings are given. Loading succeeds iff there is no file
or one that can be parsed. Each setting then has the value that its variable gives, or else the one in the file, or else
its default; a variable for a number gives none if its text is no number. So two loads agree on a setting for which they
are given the same, whatever they are given for the others. No two settings share a place in a file or a variable, and
there is nothing in the settings besides. -/
theorem load_field_by_field (t : FileTree) (env : Environment) (named : Option FilePath) :
    (∀ text, (∃ s, parse text = .ok s) ↔ ∃ d, Yaml.decode? some text = some d ∧ IsReadable d) ∧
      ((∃ s, (load env named).outcome t = .ok s) ↔ ∃ file, Holds t (source? t env named) file) ∧
      (∀ file s, Holds t (source? t env named) file → (load env named).outcome t = .ok s →
        (∀ f ∈ settings, f.part s = ((f.given? env).or (f.inFile? file)).getD (f.part {})) ∧
        ∀ t' env' named' file' s', Holds t' (source? t' env' named') file' →
          (load env' named').outcome t' = .ok s' → ∀ f ∈ settings, f.given? env = f.given? env' →
          f.inFile? file = f.inFile? file' → f.part s = f.part s') ∧
      (∀ (part : Evaluation → Nat) (name setBy : String) (n : Nat),
        (Setting.number part name setBy).given? env = some n ↔
          ∃ text, env.get? setBy = some text ∧ Text.IsCount text.toList n) ∧
      (settings.map Setting.path).Nodup ∧ (settings.filterMap Setting.setBy).Nodup ∧
      ∀ s s' : Settings, (∀ f ∈ settings, f.part s = f.part s') → s = s' := by
  refine ⟨fun text => ?_, ⟨?_, ?_⟩, fun file s hfile hs => ?_,
    fun part name setBy => given?_number part name setBy env, by decide, by decide, isRecordOf.ext⟩
  · simp only [parse_eq_ok_iff, ← exists_read?_iff]
    exact ⟨fun ⟨s, d, hd, hs⟩ => ⟨d, hd, s, hs⟩, fun ⟨d, hd, s, hs⟩ => ⟨s, d, hd, hs⟩⟩
  · rintro ⟨s, hs⟩
    obtain ⟨file, hfile, -⟩ := (load_eq_ok_iff t env named s).1 hs
    exact ⟨file, hfile⟩
  · rintro ⟨file, hfile⟩
    -- there are settings with these values, whatever the values are
    obtain ⟨s, hs⟩ := isRecordOf.exists_parts fun f => ((f.given? env).or (f.inFile? file)).getD (f.part {})
    exact ⟨s, (load_eq_ok_iff t env named s).2 ⟨file, hfile, hs⟩⟩
  · refine ⟨part_of_load hfile hs, fun t' env' named' file' s' hfile' hs' f hf hgiven hin => ?_⟩
    rw [part_of_load hfile hs f hf, part_of_load hfile' hs' f hf, hgiven, hin]

/-- a file that gives five settings, one of them in the section of metrics -/
def partialText : String :=
  "data:\n  tables_dir: /file/tables\n  queries_file: /file/queries\n" ++
    "evaluation:\n  k_values: [5, 20]\n  workers: 9\n  metrics:\n    gain: exponential\n"

def partialTree : FileTree where
  entries := .ofList ([(["eval.yaml"], .file (some partialText))] : List (List String × FileEntry))
  workingDirectory := []

/-- a path that the file gives too, a number that is none, and one with a plus -/
def partialEnvironment : Environment :=
  ⟨[("EVAL_TABLES_DIR", "/env/tables"), ("EVAL_WORKERS", "many"), ("EVAL_SEED", "+7")]⟩

/-- what the file gives; nothing gives the rest -/
def partialFile : Settings where
  places := { tables := "/file/tables", queries := "/file/queries" }
  evaluation := { cutoffs := [5, 20], workers := 9, metrics := { gain := .exponential } }

theorem load_field_by_field_of_partial_file : ∃ d,
    Holds partialTree (source? partialTree partialEnvironment (some "eval.yaml")) (some d) ∧
    ∃ s, (load partialEnvironment (some "eval.yaml")).outcome partialTree = .ok s ∧
      (∀ f ∈ settings, f.part s = ((f.given? partialEnvironment).or (f.inFile? (some d))).getD (f.part {})) ∧
      s.places = { tables := "/env/tables", queries := "/file/queries" } ∧
      s.evaluation = { cutoffs := [5, 20], seed := 7, workers := 9, metrics := { gain := .exponential } } := by
  have htext : partialTree.text? "eval.yaml" = .ok partialText := by decide +kernel
  have hread : Yaml.decode? read? partialText = some partialFile := by decide +kernel
  have hparse : parse partialText = .ok partialFile := by rw [parse, hread]
  obtain ⟨hparses, hloads, hparts, -⟩ := load_field_by_field partialTree partialEnvironment (some "eval.yaml")
  obtain ⟨d, hdocument, -⟩ := (hparses partialText).1 ⟨_, hparse⟩
  have hfile : Holds partialTree (source? partialTree partialEnvironment (some "eval.yaml")) (some d) :=
    .document htext hparse hdocument
  obtain ⟨s, hs⟩ := hloads.2 ⟨_, hfile⟩
  have hload : (load partialEnvironment (some "eval.yaml")).outcome partialTree =
      .ok (partialFile.withEnvironment partialEnvironment) := by
    rw [outcome_load]
    change ((ofFile "eval.yaml").outcome partialTree).map _ = _
    rw [(outcome_ofFile_eq_ok_iff _ _ _).2 ⟨_, htext, hparse⟩]
    rfl
  obtain rfl : s = _ := Except.ok.inj (hs.symm.trans hload)
  exact ⟨d, hfile, _, hs, (hparts _ _ hfile hs).1, by decide, by decide⟩

end RankEval.Settings
