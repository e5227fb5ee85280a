/-
Settings and their sections. Every setting is described once: which part of the settings it is, where it stands in a
file, how it is read there, and which variable gives it. A section of a file gives each of its settings what stands under
the setting's name, or else its default, and this goes for a section within a section.

- `IsRecordOf`: what is known of a section. It gives its settings their values, there is nothing else in it, and every
  combination of values can be had.
- `settings`: every setting.
- `isRecordOf`: what is known of a whole file, put together from its sections.
-/
import RankEval.Proofs.Document.Defaults
import RankEval.Settings.File

namespace RankEval

open Document (member? follow IsSection follow_singleton member?_of_fields?)
open FieldReader (Gives gives_pure gives_withDefault_bind)
open Yaml (Place)

/-! ## Records in YAML -/

namespace Yaml.Place

/-- fields of a YAML file have names -/
theorem named_of_fields? {p : Place} {fields : Fields Place} (h : Document.fields? p = some fields) :
    ∃ members, fields = .named members := by
  change p.fields? = _ at h
  unfold Place.fields? at h
  split at h
  · split at h
    · cases h
    · obtain ⟨members, -, rfl⟩ := Option.map_eq_some_iff.1 h
      exact ⟨members, rfl⟩
  · split at h
    · cases h
      exact ⟨[], rfl⟩
    · cases h

end Yaml.Place

/-! ## Settings, one by one -/

/-- One setting of a section: which part of the section it is, where it stands in a file, how it is read there, and
which variable gives it in which form. -/
structure Setting (σ : Type) where
  {Value : Type}
  part : σ → Value
  path : List String
  read : Place → Option Value
  setBy : Option String := none
  parse : String → Option Value := fun _ => none

namespace Setting

variable {σ τ : Type}

/-- a setting that only a file can give -/
def written {α : Type} (part : σ → α) (name : String) (read : Place → Option α) : Setting σ :=
  { part, path := [name], read }

/-- a path; that of a variable is its text -/
def place (part : σ → FilePath) (name setBy : String) : Setting σ :=
  { written part name Document.text? with setBy, parse := some }

/-- a number; a variable whose text is none counts as not set -/
def number (part : σ → Nat) (name setBy : String) : Setting σ :=
  { written part name Document.nat? with setBy, parse := fun text => Text.count? text.toList }

/-- a setting of a section that is itself kept under a name -/
def under (name : String) (inner : τ → σ) (f : Setting σ) : Setting τ :=
  { f with part := f.part ∘ inner, path := name :: f.path }

/-- the value that the environment gives, if it gives one -/
def given? (f : Setting σ) (env : Environment) : Option f.Value :=
  f.setBy.bind fun name => (env.get? name).bind f.parse

/-- where the setting stands, below a place where there may be something -/
def find? (f : Setting σ) (p : Option Place) : Option Place := p.bind (follow f.path)

/-- the value in a file, if there is one -/
def inFile? (f : Setting σ) (p : Option Place) : Option f.Value := (f.find? p).bind f.read

/-- the value in a file, or else the one among the defaults; nothing where what stands there is no such value -/
def orDefault? (f : Setting σ) (standard : σ) (p : Option Place) : Option f.Value :=
  (f.find? p).elim (some (f.part standard)) f.read

theorem orDefault?_eq_some_iff (f : Setting σ) (standard : σ) (p : Option Place) (x : f.Value) :
    f.orDefault? standard p = some x ↔
      ((f.find? p).isSome → (f.inFile? p).isSome) ∧ x = (f.inFile? p).getD (f.part standard) := by
  unfold orDefault? inFile?
  cases f.find? p with
  | none => simp [eq_comm]
  | some q => cases h : f.read q <;> simp [h, eq_comm]

section
variable (name : String) (standard v : σ) (p : Place)

theorem orDefault?_written {α : Type} (part : σ → α) (read : Place → Option α) :
    (written part name read).orDefault? standard (some p) = some ((written part name read).part v) ↔
      (member? name p).elim (some (part standard)) read = some (part v) := by
  change (follow [name] p).elim (some (part standard)) read = some (part v) ↔ _
  rw [follow_singleton]

theorem orDefault?_place (part : σ → FilePath) (setBy : String) :
    (place part name setBy).orDefault? standard (some p) = some ((place part name setBy).part v) ↔
      (member? name p).elim (some (part standard)) Document.text? = some (part v) :=
  orDefault?_written name standard v p part Document.text?

theorem orDefault?_number (part : σ → Nat) (setBy : String) :
    (number part name setBy).orDefault? standard (some p) = some ((number part name setBy).part v) ↔
      (member? name p).elim (some (part standard)) Document.nat? = some (part v) :=
  orDefault?_written name standard v p part Document.nat?

end

theorem orDefault?_under (name : String) (inner : τ → σ) (f : Setting σ) (standard : τ) (p : Place) :
    (f.under name inner).orDefault? standard (some p) = f.orDefault? (inner standard) (member? name p) := rfl

end Setting

/-! ## Sections -/

/-- What is known of a section that is read with `fields`: which settings are in it and which are their defaults. -/
structure IsRecordOf {σ : Type} (fields : FieldReader Place σ) (standard : σ) (settings : List (Setting σ))
    (Regular : Place → Prop) : Prop where
  /-- what is read has for each setting the value in the file, or its default -/
  record?_iff : ∀ p v, Document.record? fields p = some v ↔
    Regular p ∧ ∀ f ∈ settings, f.orDefault? standard (some p) = some (f.part v)
  /-- there is nothing else in the section -/
  ext : ∀ v v', (∀ f ∈ settings, f.part v = f.part v') → v = v'
  /-- no two settings are the same part of it: each may have any value, whatever the others have -/
  exists_parts : ∀ values : (f : Setting σ) → f.Value, ∃ v, ∀ f ∈ settings, f.part v = values f

/-- it is enough to look at the fields that a place has -/
theorem record?_iff_of_gives {σ : Type} {fields : FieldReader Place σ} {standard : σ} {settings : List (Setting σ)}
    {Regular : Place → Prop}
    (hregular : ∀ p, Regular p → ∃ members, Document.fields? p = some (.named members))
    (hgives : ∀ p members, Document.fields? p = some (.named members) → ∀ v, Gives fields (.named members) v ↔
      Regular p ∧ ∀ f ∈ settings, f.orDefault? standard (some p) = some (f.part v)) (p : Place) (v : σ) :
    Document.record? fields p = some v ↔
      Regular p ∧ ∀ f ∈ settings, f.orDefault? standard (some p) = some (f.part v) := by
  rw [Document.record?_eq_some_iff]
  constructor
  · rintro ⟨found, hfound, hread⟩
    obtain ⟨members, rfl⟩ := Place.named_of_fields? hfound
    exact (hgives p members hfound v).1 hread
  · intro h
    obtain ⟨members, hmembers⟩ := hregular p h.1
    exact ⟨_, hmembers, (hgives p members hmembers v).2 h⟩

namespace IsRecordOf

variable {σ τ : Type} {fields : FieldReader Place σ} {standard : σ} {settings : List (Setting σ)}
  {Regular : Place → Prop} (h : IsRecordOf fields standard settings Regular)

include h

/-- a section that may not be there -/
theorem elim_iff (p : Option Place) (v : σ) :
    p.elim (some standard) (Document.record? fields) = some v ↔
      (∀ q, p = some q → Regular q) ∧ ∀ f ∈ settings, f.orDefault? standard p = some (f.part v) := by
  cases p with
  | none =>
    refine ⟨fun heq => ?_, fun ⟨_, hparts⟩ => ?_⟩
    · cases heq
      exact ⟨fun q hq => (nomatch hq), fun f _ => rfl⟩
    · exact congrArg some (h.ext _ _ fun f hf => Option.some.inj (hparts f hf))
  | some q =>
    simp only [Option.elim_some, h.record?_iff, Option.some.injEq, forall_eq']

end IsRecordOf

namespace Settings

/-! ## The settings there are -/

def Places.settings : List (Setting Places) :=
  [.place tables "tables_dir" "EVAL_TABLES_DIR", .place related "ground_truth_dir" "EVAL_GROUND_TRUTH_DIR",
    .place pages "wikipages_file" "EVAL_WIKIPAGES_FILE", .place queries "queries_file" "EVAL_QUERIES_FILE",
    .place results "results_dir" "EVAL_RESULTS_DIR"]

def metricSettings : List (Setting Metric.Options) :=
  [.written Metric.Options.gain "gain" (Document.choice? Metric.Gain.choices),
    .written Metric.Options.auc "auc" (Document.choice? Metric.UndefinedAuc.choices)]

/-- how queries are evaluated, without the metrics -/
def Evaluation.ownSettings : List (Setting Evaluation) :=
  [.written cutoffs "k_values" (Document.listOf? Document.nat?),
    .written tuples "tuples" (Document.listOf? Document.small?),
    .written votes "votes" (Document.listOf? Document.small?),
    .written exclusion "exclusion" (Document.choice? Exclusion.choices),
    .written scope "universe" (Document.choice? Scope.choices),
    .written truth "ground_truth" (Document.choice? Truth.choices),
    .number seed "seed" "EVAL_SEED",
    .written wantsFullTopK "require_full_top_k" Document.bool?,
    .written onFailure "error_policy" (Document.choice? OnFailure.choices),
    .number workers "workers" "EVAL_WORKERS"]

def Evaluation.settings : List (Setting Evaluation) :=
  ownSettings ++ metricSettings.map (.under "metrics" metrics)

/-- every setting -/
def settings : List (Setting Settings) :=
  Places.settings.map (.under "data" places) ++ Evaluation.settings.map (.under "evaluation" evaluation) ++
    [.written variants "configurations" (Document.listOf? Configuration.read?)]

/-! ## Each section -/

def evaluationNames : List String :=
  ["k_values", "tuples", "votes", "exclusion", "universe", "ground_truth", "seed", "require_full_top_k", "metrics",
    "error_policy", "workers"]

/-- a file's section of places names none of them twice -/
def Places.IsRegular : Place → Prop :=
  IsSection ["tables_dir", "ground_truth_dir", "wikipages_file", "queries_file", "results_dir"]

/-- a file's section of how queries are evaluated, with the section inside it -/
def Evaluation.IsRegular (p : Place) : Prop :=
  IsSection evaluationNames p ∧ ∀ q, member? "metrics" p = some q → IsSection ["gain", "auc"] q

/-- a file of settings, with its sections -/
def IsRegular (d : Place) : Prop :=
  IsSection ["data", "evaluation", "configurations"] d ∧ (∀ p, member? "data" d = some p → Places.IsRegular p) ∧
    ∀ p, member? "evaluation" d = some p → Evaluation.IsRegular p

theorem Places.isRecordOf : IsRecordOf Places.fields {} Places.settings Places.IsRegular where
  record?_iff := by
    refine record?_iff_of_gives (fun p ⟨members, hmembers, _⟩ => ⟨members, hmembers⟩) fun p members hp v => ?_
    cases v
    simp only [Places.settings, Setting.orDefault?_place, Places.IsRegular, IsSection, Places.fields,
      member?_of_fields? hp, hp, gives_withDefault_bind, gives_pure, Option.some.injEq, Fields.named.injEq,
      exists_eq_left', List.forall_mem_cons, Places.mk.injEq]
    -- the fields one after the other, each known to stand once, against all names and then all values
    grind
  ext v v' h := by
    cases v
    cases v'
    simp only [Places.settings, List.forall_mem_cons] at h
    obtain ⟨htables, hrelated, hpages, hqueries, hresults, -⟩ := h
    exact (Places.mk.injEq ..).mpr ⟨htables, hrelated, hpages, hqueries, hresults⟩
  exists_parts values := by
    let value (i : Fin 5) := values (Places.settings.get i)
    refine ⟨⟨value 0, value 1, value 2, value 3, value 4⟩, ?_⟩
    simp only [Places.settings, List.forall_mem_cons]
    exact ⟨rfl, rfl, rfl, rfl, rfl, by simp⟩

theorem metrics_isRecordOf : IsRecordOf Metric.Options.fields {} metricSettings (IsSection ["gain", "auc"]) where
  record?_iff := by
    refine record?_iff_of_gives (fun p ⟨members, hmembers, _⟩ => ⟨members, hmembers⟩) fun p members hp v => ?_
    cases v
    simp only [metricSettings, Setting.orDefault?_written, IsSection, Metric.Options.fields,
      member?_of_fields? hp, hp, gives_withDefault_bind, gives_pure, Option.some.injEq, Fields.named.injEq,
      exists_eq_left', List.forall_mem_cons, Metric.Options.mk.injEq]
    grind
  ext v v' h := by
    cases v
    cases v'
    simp only [metricSettings, List.forall_mem_cons] at h
    exact (Metric.Options.mk.injEq ..).mpr ⟨h.1, h.2.1⟩
  exists_parts values := by
    let value (i : Fin 2) := values (metricSettings.get i)
    refine ⟨⟨value 0, value 1⟩, ?_⟩
    simp only [metricSettings, List.forall_mem_cons]
    exact ⟨rfl, rfl, by simp⟩

theorem Evaluation.isRecordOf : IsRecordOf Evaluation.fields {} Evaluation.settings Evaluation.IsRegular where
  record?_iff := by
    refine record?_iff_of_gives (fun p ⟨⟨members, hmembers, _⟩, _⟩ => ⟨members, hmembers⟩) fun p members hp v => ?_
    have hgives : Gives Evaluation.fields (.named members) v ↔ IsSection evaluationNames p ∧
        (∀ f ∈ ownSettings, f.orDefault? {} (some p) = some (f.part v)) ∧
        (member? "metrics" p).elim (some {}) (Document.record? Metric.Options.fields) = some v.metrics := by
      have hread : Metric.Options.read? (D := Place) = Document.record? Metric.Options.fields := rfl
      cases v
      simp only [ownSettings, Setting.orDefault?_written, Setting.orDefault?_number, IsSection, evaluationNames,
        Evaluation.fields, member?_of_fields? hp, hp, gives_withDefault_bind, gives_pure, Option.some.injEq,
        Fields.named.injEq, exists_eq_left', List.forall_mem_cons, Evaluation.mk.injEq, hread]
      grind
    rw [hgives, metrics_isRecordOf.elim_iff]
    simp only [Evaluation.settings, List.forall_mem_append, List.forall_mem_map, Setting.orDefault?_under,
      Evaluation.IsRegular]
    tauto
  ext v v' h := by
    cases v
    cases v'
    simp only [Evaluation.settings, Evaluation.ownSettings, List.forall_mem_append, List.forall_mem_cons,
      List.forall_mem_map] at h
    obtain ⟨⟨hcutoffs, htuples, hvotes, hexclusion, hscope, htruth, hseed, hfull, hfailure, hworkers, -⟩, hmetrics⟩ := h
    exact (Evaluation.mk.injEq ..).mpr ⟨hcutoffs, htuples, hvotes, hexclusion, hscope, htruth, hseed, hfull,
      metrics_isRecordOf.ext _ _ hmetrics, hfailure, hworkers⟩
  exists_parts values := by
    let value (i : Fin 10) := values (ownSettings.get i)
    obtain ⟨m, hm⟩ := metrics_isRecordOf.exists_parts fun f => values (f.under "metrics" metrics)
    refine ⟨⟨value 0, value 1, value 2, value 3, value 4, value 5, value 6, value 7, m, value 8, value 9⟩, ?_⟩
    simp only [Evaluation.settings, Evaluation.ownSettings, List.forall_mem_append, List.forall_mem_cons,
      List.forall_mem_map]
    exact ⟨⟨rfl, rfl, rfl, rfl, rfl, rfl, rfl, rfl, rfl, rfl, by simp⟩, hm⟩

theorem isRecordOf : IsRecordOf fields {} settings IsRegular where
  record?_iff := by
    refine record?_iff_of_gives (fun p ⟨⟨members, hmembers, _⟩, _⟩ => ⟨members, hmembers⟩) fun p members hp v => ?_
    have hgives : Gives fields (.named members) v ↔ IsSection ["data", "evaluation", "configurations"] p ∧
        (member? "data" p).elim (some {}) (Document.record? Places.fields) = some v.places ∧
        (member? "evaluation" p).elim (some {}) (Document.record? Evaluation.fields) = some v.evaluation ∧
        (member? "configurations" p).elim (some Configuration.standardMatrix)
          (Document.listOf? Configuration.read?) = some v.variants := by
      cases v
      simp only [IsSection, fields, member?_of_fields? hp, hp, gives_withDefault_bind, gives_pure, Option.some.injEq,
        Fields.named.injEq, exists_eq_left', List.forall_mem_cons, Settings.mk.injEq]
      grind
    rw [hgives, Places.isRecordOf.elim_iff, Evaluation.isRecordOf.elim_iff]
    simp only [settings, List.forall_mem_append, List.forall_mem_map, List.forall_mem_singleton,
      Setting.orDefault?_under, Setting.orDefault?_written, IsRegular]
    tauto
  ext v v' h := by
    cases v
    cases v'
    simp only [settings, List.forall_mem_append, List.forall_mem_map, List.forall_mem_singleton] at h
    obtain ⟨⟨hplaces, hevaluation⟩, hvariants⟩ := h
    exact (Settings.mk.injEq ..).mpr
      ⟨Places.isRecordOf.ext _ _ hplaces, Evaluation.isRecordOf.ext _ _ hevaluation, hvariants⟩
  exists_parts values := by
    obtain ⟨places, hplaces⟩ := Places.isRecordOf.exists_parts fun f => values (f.under "data" Settings.places)
    obtain ⟨evaluation, hevaluation⟩ :=
      Evaluation.isRecordOf.exists_parts fun f => values (f.under "evaluation" Settings.evaluation)
    let own : Setting Settings := .written variants "configurations" (Document.listOf? Configuration.read?)
    refine ⟨⟨places, evaluation, values own⟩, ?_⟩
    simp only [settings, List.forall_mem_append, List.forall_mem_map, List.forall_mem_singleton]
    exact ⟨⟨hplaces, hevaluation⟩, rfl⟩

end Settings

end RankEval
