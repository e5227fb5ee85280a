/-
How reports are read from files and written to them.
-/
import RankEval.Engine.Format
import RankEval.Metric.Format
import RankEval.Report.Basic

namespace RankEval.Report

section
variable {D : Type} [Document D]

def FieldSummary.fields : FieldReader D (FieldSummary Float) := do
  return {
    mean := ← .optional "mean" Document.float?
    deviation := ← .optional "std" Document.float?
    count := ← .required "count" Document.nat?
    values := ← .required "values" (Document.listOf? Document.float?)
  }

def FieldSummary.read? : D → Option (FieldSummary Float) := Document.record? FieldSummary.fields

def Summary.fields : FieldReader D Summary := do
  return {
    count := ← .required "count" Document.nat?
    skipped := ← .required "skipped" Document.nat?
    failed := ← .withDefault 0 "failed" Document.nat?
    ndcg := ← .required "ndcg" FieldSummary.read?
    precisionAtK := ← .required "precision_at_k" FieldSummary.read?
    recallAtK := ← .required "recall_at_k" FieldSummary.read?
    auc := ← .required "auc" FieldSummary.read?
    relevant := ← .required "num_relevant_at_k" FieldSummary.read?
  }

def QueryRecord.fields : FieldReader D QueryRecord := do
  return {
    query := ← .required "query" Document.text?
    record := ← .required "record" Metric.Record.read?
  }

def Distribution.fields : FieldReader D Distribution := do
  return {
    records := ← .required "records" (Document.listOf? (Document.record? QueryRecord.fields))
    skipped := ← .required "skipped" (Document.listOf? Document.text?)
    failed := ← .withDefault [] "failed" (Document.listOf? Document.text?)
  }

def Entry.fields : FieldReader D Entry := do
  return {
    key := ← .required "key" EvaluationKey.read?
    summary := ← .required "summary" (Document.record? Summary.fields)
    distribution := ← .required "distribution" (Document.record? Distribution.fields)
  }

def fields : FieldReader D Report := do
  return { entries := ← .required "entries" (Document.listOf? (Document.record? Entry.fields)) }

def read? : D → Option Report := Document.record? fields

end

def FieldSummary.datum (f : FieldSummary Float) : Datum :=
  .record [("mean", .optional .number f.mean), ("std", .optional .number f.deviation), ("count", .count f.count),
    ("values", .listOf .number f.values)]

def Summary.datum (s : Summary) : Datum :=
  .record [("count", .count s.count), ("skipped", .count s.skipped), ("failed", .count s.failed),
    ("ndcg", s.ndcg.datum), ("precision_at_k", s.precisionAtK.datum), ("recall_at_k", s.recallAtK.datum),
    ("auc", s.auc.datum), ("num_relevant_at_k", s.relevant.datum)]

def QueryRecord.datum (r : QueryRecord) : Datum := .record [("query", .text r.query), ("record", r.record.datum)]

def Distribution.datum (d : Distribution) : Datum :=
  .record [("records", .listOf QueryRecord.datum d.records), ("skipped", .listOf .text d.skipped),
    ("failed", .listOf .text d.failed)]

def Entry.datum (e : Entry) : Datum :=
  .record [("key", e.key.datum), ("summary", e.summary.datum), ("distribution", e.distribution.datum)]

def datum (r : Report) : Datum := .record [("entries", .listOf Entry.datum r.entries)]

end RankEval.Report
