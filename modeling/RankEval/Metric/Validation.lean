/-
The checks every metric makes before it computes anything, in a fixed order.
-/
import RankEval.Metric.Error

namespace RankEval.Metric

/-- the first relevance that no metric accepts -/
def badRelevance (relevance : List Float) : Option Error :=
  relevance.zipIdx.findSome? fun (value, index) =>
    if !value.isFinite then some (.nonFinite .relevance index)
    else if value < 0.0 then some (.negativeRelevance value index)
    else none

/-- the first score that no metric accepts -/
def badScore (scores : List Float) : Option Error :=
  scores.zipIdx.findSome? fun (value, index) =>
    if !value.isFinite then some (.nonFinite .score index) else none

/-- checks the two vectors and the cutoff; the result is the cutoff, at most the number of candidates -/
def validate (relevance scores : List Float) (k : Nat) : Except Error Nat :=
  if relevance.length ≠ scores.length then .error (.lengthMismatch relevance.length scores.length)
  else if k = 0 then .error .zeroCutoff
  else if relevance.isEmpty then .error .emptyInput
  else match badRelevance relevance with
    | some e => .error e
    | none => match badScore scores with
      | some e => .error e
      | none => .ok (min k relevance.length)

end RankEval.Metric
