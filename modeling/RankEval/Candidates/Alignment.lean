/-
Relevance and scores of one query side by side, over the same tables in the same order.
-/
import RankEval.Candidates.Predicted
import RankEval.Candidates.Relevance
import RankEval.Decimal.Layout

namespace RankEval

/-- index-aligned relevance and scores -/
structure AlignedPair where
  tables : List TableId
  relevance : List Float
  scores : AlignedScores
  deriving DecidableEq

namespace AlignedPair

open Decimal (natText)

/-- universe and ground truth do not cover the same tables -/
inductive Mismatch where
  | sizes (candidates judged : Nat)
  | unjudged (table : TableId)
  deriving DecidableEq, Repr

def Mismatch.message : Mismatch → String
  | .sizes candidates judged =>
    "candidate universe has " ++ natText candidates ++ " tables but ground truth covers " ++ natText judged
  | .unjudged table => "table '" ++ table ++ "' is in the candidate universe but has no ground-truth entry"

/-- Leaves the excluded tables out of universe and ground truth and aligns the scores with what remains. Both must then
cover the same tables. -/
def prepare (u : CandidateUniverse) (truth : RelevanceMap) (predicted : PredictedScores) (excluded : List TableId) :
    Except Mismatch AlignedPair :=
  let u := u.without excluded
  let truth := truth.without excluded
  let judged := Std.TreeSet.ofList truth.tables
  if u.length ≠ truth.length then .error (.sizes u.length truth.length)
  else match u.items.find? fun t => !judged.contains t with
    | some stray => .error (.unjudged stray)
    | none => .ok ⟨truth.tables, truth.values, predicted.align truth.tables⟩

end AlignedPair

end RankEval
