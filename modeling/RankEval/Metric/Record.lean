/-
All metrics of one query at one cutoff.
-/
import RankEval.Metric.Gain
import RankEval.Metric.RankSum

namespace RankEval.Metric

/-- what to do when the AUC is undefined: no candidate is relevant, or every one is -/
inductive UndefinedAuc where
  /-- the evaluation fails -/
  | strict
  /-- the record has no AUC -/
  | omit
  deriving DecidableEq, Repr

structure Options where
  gain : Gain := .linear
  auc : UndefinedAuc := .strict
  deriving DecidableEq, Repr

/-- the metrics of one query; `k` is the cutoff that was used, at most the number of candidates -/
structure Record where
  k : Nat
  ndcg : Float
  precisionAtK : Float
  recallAtK : Float
  /-- absent iff undefined, under `UndefinedAuc.omit` -/
  auc : Option Float
  relevant : Nat
  deriving DecidableEq

/-- the AUC for a record -/
def optionalAuc (policy : UndefinedAuc) (relevance : List Float) (scores : AlignedScores) :
    Except Error (Option Float) :=
  match auc Float relevance scores, policy with
  | .ok value, _ => .ok (some value)
  | .error (.noRelevantItems _), .omit => .ok none
  | .error (.allRelevant _), .omit => .ok none
  | .error e, _ => .error e

/-- every metric of one query -/
def evaluate (options : Options) (relevance : List Float) (scores : AlignedScores) (k : Nat) :
    Except Error Record := do
  let k ← validate relevance scores.values k
  let area ← optionalAuc options.auc relevance scores
  let found := hits relevance scores.values k
  return {
    k
    ndcg := normalisedDcg options.gain.apply discount relevance scores.values k
    precisionAtK := Float.ofNat found / Float.ofNat k
    recallAtK := Arithmetic.ratio Float found (relevantCount relevance)
    auc := area
    relevant := found
  }

end RankEval.Metric
