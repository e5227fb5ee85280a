/-
Metrics that count relevant candidates among the first `k` of the ranking.
-/
import RankEval.Metric.Ranking
import RankEval.Metric.Validation

namespace RankEval.Metric

/-- a candidate is relevant iff its relevance is positive -/
def isRelevant (relevance : Float) : Bool := decide (0.0 < relevance)

def relevantCount (relevance : List Float) : Nat := relevance.countP isRelevant

/-- the values at the given positions -/
def pick (values : List Float) (positions : List Nat) : List Float :=
  let table := values.toArray
  positions.map fun i => table[i]?.getD 0.0

/-- the relevance of the first `k` candidates of the ranking by `scores` -/
def topRelevance (relevance scores : List Float) (k : Nat) : List Float :=
  pick relevance ((ranking scores).take k)

/-- how many of the first `k` candidates are relevant -/
def hits (relevance scores : List Float) (k : Nat) : Nat := relevantCount (topRelevance relevance scores k)

/-- the number of relevant candidates among the first `k` -/
def relevantAtK (relevance scores : List Float) (k : Nat) : Except Error Nat :=
  (validate relevance scores k).map fun k => hits relevance scores k

section
variable (R : Type) [Arithmetic R]

/-- the part of the first `k` candidates that is relevant -/
def precisionAtK (relevance scores : List Float) (k : Nat) : Except Error R :=
  (validate relevance scores k).map fun k =>
    Arithmetic.ofNat (hits relevance scores k) / Arithmetic.ofNat k

/-- the part of the relevant candidates that is among the first `k`; 0 if none is relevant -/
def recallAtK (relevance scores : List Float) (k : Nat) : Except Error R :=
  (validate relevance scores k).map fun k =>
    Arithmetic.ratio R (hits relevance scores k) (relevantCount relevance)

end

end RankEval.Metric
