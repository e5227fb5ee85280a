/-
What was found under one evaluation key: the metrics of each query, and the queries without any; and their summary.
-/
import RankEval.Metric.Record
import RankEval.Report.Statistics

namespace RankEval.Report

/-- the metrics of one query -/
structure QueryRecord where
  query : String
  record : Metric.Record
  deriving DecidableEq

structure Distribution where
  records : List QueryRecord
  /-- queries without usable engine output -/
  skipped : List String
  /-- queries that could not be evaluated -/
  failed : List String
  deriving DecidableEq

/-- the statistics of a distribution -/
structure Summary where
  count : Nat
  skipped : Nat
  failed : Nat
  ndcg : FieldSummary Float
  precisionAtK : FieldSummary Float
  recallAtK : FieldSummary Float
  auc : FieldSummary Float
  relevant : FieldSummary Float
  deriving DecidableEq

namespace Distribution

def empty : Distribution := ⟨[], [], []⟩

/-- one metric of every record -/
def values (d : Distribution) (metric : Metric.Record → Float) : List Float := d.records.map fun r => metric r.record

/-- the AUC of every record that has one -/
def aucValues (d : Distribution) : List Float := d.records.filterMap fun r => r.record.auc

def summarize (d : Distribution) : Summary where
  count := d.records.length
  skipped := d.skipped.length
  failed := d.failed.length
  ndcg := .ofValues (d.values Metric.Record.ndcg)
  precisionAtK := .ofValues (d.values Metric.Record.precisionAtK)
  recallAtK := .ofValues (d.values Metric.Record.recallAtK)
  auc := .ofValues d.aucValues
  relevant := .ofValues (d.values fun r => Float.ofNat r.relevant)

end Distribution

end RankEval.Report
