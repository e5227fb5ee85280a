/-
How metric options are read from files and written to them, and the metrics of a query.
-/
import RankEval.Metric.Record
import RankEval.Document.Datum
import RankEval.Document.Reading

namespace RankEval.Metric

namespace Gain

def choices : List (String × Gain) := [("linear", .linear), ("exponential", .exponential)]

def datum : Gain → Datum
  | .linear => .text "linear"
  | .exponential => .text "exponential"

end Gain

namespace UndefinedAuc

def choices : List (String × UndefinedAuc) := [("strict", .strict), ("omit", .omit)]

def datum : UndefinedAuc → Datum
  | .strict => .text "strict"
  | .omit => .text "omit"

end UndefinedAuc

section
variable {D : Type} [Document D]

def Options.fields : FieldReader D Options := do
  return {
    gain := ← .withDefault .linear "gain" (Document.choice? Gain.choices)
    auc := ← .withDefault .strict "auc" (Document.choice? UndefinedAuc.choices)
  }

def Options.read? : D → Option Options := Document.record? Options.fields

def Record.fields : FieldReader D Record := do
  return {
    k := ← .required "k" Document.nat?
    ndcg := ← .required "ndcg" Document.float?
    precisionAtK := ← .required "precision_at_k" Document.float?
    recallAtK := ← .required "recall_at_k" Document.float?
    auc := ← .optional "auc" Document.float?
    relevant := ← .required "num_relevant_at_k" Document.nat?
  }

def Record.read? : D → Option Record := Document.record? Record.fields

end

def Options.datum (o : Options) : Datum := .record [("gain", o.gain.datum), ("auc", o.auc.datum)]

def Record.datum (r : Record) : Datum :=
  .record [("k", .count r.k), ("ndcg", .number r.ndcg), ("precision_at_k", .number r.precisionAtK),
    ("recall_at_k", .number r.recallAtK), ("auc", .optional .number r.auc), ("num_relevant_at_k", .count r.relevant)]

end RankEval.Metric
