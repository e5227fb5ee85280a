/-
How settings are read from files and written to them. A setting that is not there has its default.
-/
import RankEval.Engine.Format
import RankEval.Metric.Format
import RankEval.Settings.Basic

namespace RankEval.Settings

namespace Scope

def choices : List (String × Scope) := [("corpus", .corpus), ("labeled", .labeled), ("output", .output)]

def datum : Scope → Datum
  | .corpus => .text "corpus"
  | .labeled => .text "labeled"
  | .output => .text "output"

end Scope

namespace Truth

def choices : List (String × Truth) := [("related_pages", .relatedPages), ("co_membership", .coMembership)]

def datum : Truth → Datum
  | .relatedPages => .text "related_pages"
  | .coMembership => .text "co_membership"

end Truth

namespace OnFailure

def choices : List (String × OnFailure) := [("skip", .skip), ("abort", .abort)]

def datum : OnFailure → Datum
  | .skip => .text "skip"
  | .abort => .text "abort"

end OnFailure

section
variable {D : Type} [Document D]

def Places.fields : FieldReader D Places := do
  return {
    tables := ← .withDefault "" "tables_dir" Document.text?
    related := ← .withDefault "" "ground_truth_dir" Document.text?
    pages := ← .withDefault "" "wikipages_file" Document.text?
    queries := ← .withDefault "" "queries_file" Document.text?
    results := ← .withDefault "" "results_dir" Document.text?
  }

def Evaluation.fields : FieldReader D Evaluation := do
  let standard : Evaluation := {}
  return {
    cutoffs := ← .withDefault standard.cutoffs "k_values" (Document.listOf? Document.nat?)
    tuples := ← .withDefault standard.tuples "tuples" (Document.listOf? Document.small?)
    votes := ← .withDefault standard.votes "votes" (Document.listOf? Document.small?)
    exclusion := ← .withDefault standard.exclusion "exclusion" (Document.choice? Exclusion.choices)
    scope := ← .withDefault standard.scope "universe" (Document.choice? Scope.choices)
    truth := ← .withDefault standard.truth "ground_truth" (Document.choice? Truth.choices)
    seed := ← .withDefault standard.seed "seed" Document.nat?
    wantsFullTopK := ← .withDefault standard.wantsFullTopK "require_full_top_k" Document.bool?
    metrics := ← .withDefault standard.metrics "metrics" Metric.Options.read?
    onFailure := ← .withDefault standard.onFailure "error_policy" (Document.choice? OnFailure.choices)
    workers := ← .withDefault standard.workers "workers" Document.nat?
  }

def fields : FieldReader D Settings := do
  let standard : Settings := {}
  return {
    places := ← .withDefault standard.places "data" (Document.record? Places.fields)
    evaluation := ← .withDefault standard.evaluation "evaluation" (Document.record? Evaluation.fields)
    variants := ← .withDefault standard.variants "configurations" (Document.listOf? Configuration.read?)
  }

def read? : D → Option Settings := Document.record? fields

end

def Places.datum (p : Places) : Datum :=
  .record [("tables_dir", .text p.tables), ("ground_truth_dir", .text p.related), ("wikipages_file", .text p.pages),
    ("queries_file", .text p.queries), ("results_dir", .text p.results)]

def Evaluation.datum (e : Evaluation) : Datum :=
  .record [("k_values", .listOf .count e.cutoffs), ("tuples", .listOf .count e.tuples),
    ("votes", .listOf .count e.votes), ("exclusion", e.exclusion.datum), ("universe", e.scope.datum),
    ("ground_truth", e.truth.datum), ("seed", .count e.seed), ("require_full_top_k", .flag e.wantsFullTopK),
    ("metrics", e.metrics.datum), ("error_policy", e.onFailure.datum), ("workers", .count e.workers)]

def datum (s : Settings) : Datum :=
  .record [("data", s.places.datum), ("evaluation", s.evaluation.datum),
    ("configurations", .listOf Configuration.datum s.variants)]

end RankEval.Settings
