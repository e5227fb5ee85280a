/-
The engine's results: where they lie, and the scores for one query in a file of their own.
-/
import RankEval.Candidates.Predicted
import RankEval.Engine.Key
import RankEval.Inputs.Judgments

namespace RankEval

open Decimal (natText)

namespace EvaluationKey

/-- the directory of a hashing variant's parameters -/
def hashParts (mode : Representation) (vectors bandSize : Nat) : List FilePath :=
  [mode.name, "vectors_" ++ natText vectors, "bandsize_" ++ natText bandSize]

/-- the directories of a variant's results -/
def variantParts (key : EvaluationKey) : List FilePath :=
  let vote := "vote_" ++ natText key.vote
  match key.configuration with
  | .typesLsh v b => vote :: hashParts .types v b
  | .embeddingsLsh v b => vote :: hashParts .embeddings v b
  | .columnAggregated mode v b => vote :: "aggregation" :: hashParts mode v b
  | .baseline .types => ["baseline", "baseline_jaccard"]
  | .baseline .embeddings => ["baseline", "baseline_cosine"]
  | .bm25Prefilter mode => ["baseline", "baseline_bm25_prefiltering", mode.name]
  | .bm25 _ => ["baseline", "bm25"]

/-- The file with the results of a query. A keyword search has one file for all queries. -/
def resultPath (key : EvaluationKey) (results : FilePath) (query : String) : FilePath :=
  let sizes := [natText key.k, natText key.tuples ++ "-tuple"]
  let file := match key.configuration with
    | .bm25 field => [field.name, "content.txt"]
    | _ => ["search_output", query, "filenameToScore.json"]
  Path.joinAll results (key.variantParts ++ sizes ++ file)

end EvaluationKey

namespace Inputs

/-- a table with its score -/
def scoreEntry? : Json.Place → Option (TableId × Float) := Document.record? do
  return (← .required "tableID" Document.text?, ← .required "score" Document.float?)

def scoreFile? : Json.Place → Option PredictedScores := Document.record? do
  return .ofList (← .required "scores" (Document.listOf? scoreEntry?))

/-- the scores in a file; none if there is no such file -/
def scores (path : FilePath) : Attempt (Option PredictedScores) := do
  if ← (Reading.isFile path : Reading _) then return some (← jsonFile scoreFile? path) else return none

end Inputs

end RankEval
