/-
The log of a run. For every evaluation key it holds what was found so far, and it only ever grows.
-/
import Std.Data.TreeMap.Lemmas
import RankEval.Engine.Key
import RankEval.Report.Distribution

namespace RankEval.Report

/-- what can happen to one query under one key -/
inductive Outcome where
  /-- it was evaluated -/
  | scored (record : Metric.Record)
  /-- there is no usable engine output -/
  | missing
  /-- it could not be evaluated -/
  | failed
  deriving DecidableEq

/-- the distributions by key -/
structure Ledger where
  distributions : Std.TreeMap EvaluationKey Distribution

namespace Ledger

def empty : Ledger := ⟨∅⟩

/-- adds a query at the end of the list it belongs to -/
def append (d : Distribution) (query : String) : Outcome → Distribution
  | .scored record => { d with records := d.records ++ [⟨query, record⟩] }
  | .missing => { d with skipped := d.skipped ++ [query] }
  | .failed => { d with failed := d.failed ++ [query] }

/-- logs what happened to a query under a key -/
def log (l : Ledger) (key : EvaluationKey) (query : String) (outcome : Outcome) : Ledger :=
  ⟨l.distributions.alter key fun d => some (append (d.getD .empty) query outcome)⟩

/-- the keys under which anything was logged, in order -/
def keys (l : Ledger) : List EvaluationKey := l.distributions.keys

def distribution? (l : Ledger) (key : EvaluationKey) : Option Distribution := l.distributions[key]?

/-- the statistics of a key under which anything was logged -/
def summary? (l : Ledger) (key : EvaluationKey) : Option Summary := (l.distribution? key).map Distribution.summarize

end Ledger

end RankEval.Report
