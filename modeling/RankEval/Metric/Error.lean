/-
Why a metric has no value, and the wording of each reason.
-/
import RankEval.Decimal.Layout

namespace RankEval.Metric

open Decimal (natText)

/-- the two vectors that a metric compares -/
inductive Side where
  | relevance
  | score
  deriving DecidableEq, Repr

/-- inputs for which a metric is not defined -/
inductive Error where
  /-- the vectors are not index-aligned -/
  | lengthMismatch (relevance scores : Nat)
  /-- nothing is asked for -/
  | zeroCutoff
  /-- nothing to rank -/
  | emptyInput
  | nonFinite (side : Side) (index : Nat)
  | negativeRelevance (value : Float) (index : Nat)
  /-- the AUC has no positive class -/
  | noRelevantItems (n : Nat)
  /-- the AUC has no negative class -/
  | allRelevant (n : Nat)
  deriving DecidableEq

def Side.name : Side → String
  | .relevance => "relevance"
  | .score => "score"

def Error.message : Error → String
  | .lengthMismatch relevance scores =>
    "relevance vector has " ++ natText relevance ++ " entries but score vector has " ++ natText scores
  | .zeroCutoff => "cutoff k must be positive"
  | .emptyInput => "cannot evaluate an empty candidate universe"
  | .nonFinite side index => "non-finite " ++ side.name ++ " value at position " ++ natText index
  | .negativeRelevance value index =>
    "negative relevance " ++ Decimal.plain.text value ++ " at position " ++ natText index
  | .noRelevantItems n => "AUC is undefined: no relevant items among " ++ natText n ++ " candidates"
  | .allRelevant n => "AUC is undefined: all " ++ natText n ++ " candidates are relevant"

end RankEval.Metric
