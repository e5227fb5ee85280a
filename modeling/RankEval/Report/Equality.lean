/-
When two reports hold the same values. Numbers are compared as numbers: both zeros are equal, and what is no number is
equal to nothing, not even to itself.
-/
import RankEval.Report.Basic

namespace RankEval.Report

/-- two values that may be missing -/
def sameOptional (a b : Option Float) : Bool :=
  match a, b with
  | some x, some y => x == y
  | none, none => true
  | _, _ => false

def FieldSummary.same (a b : FieldSummary Float) : Bool :=
  sameOptional a.mean b.mean && sameOptional a.deviation b.deviation && a.count == b.count &&
    a.values.isEqv b.values fun x y => x == y

def Summary.same (a b : Summary) : Bool :=
  a.count == b.count && a.skipped == b.skipped && a.failed == b.failed && a.ndcg.same b.ndcg &&
    a.precisionAtK.same b.precisionAtK && a.recallAtK.same b.recallAtK && a.auc.same b.auc && a.relevant.same b.relevant

def QueryRecord.same (a b : QueryRecord) : Bool :=
  a.query == b.query && a.record.k == b.record.k && a.record.ndcg == b.record.ndcg &&
    a.record.precisionAtK == b.record.precisionAtK && a.record.recallAtK == b.record.recallAtK &&
    sameOptional a.record.auc b.record.auc && a.record.relevant == b.record.relevant

def Distribution.same (a b : Distribution) : Bool :=
  a.records.isEqv b.records QueryRecord.same && a.skipped == b.skipped && a.failed == b.failed

def Entry.same (a b : Entry) : Bool :=
  decide (a.key = b.key) && a.summary.same b.summary && a.distribution.same b.distribution

/-- whether two reports have the same entries in the same order -/
def same (a b : Report) : Bool := a.entries.isEqv b.entries Entry.same

end RankEval.Report
