/-
The command that scores one output of the engine against a file of judgments.
-/
import RankEval.CommandLine.Command
import RankEval.CommandLine.Script
import RankEval.Decimal.Fixed
import RankEval.Inputs.Corpus
import RankEval.Inputs.Judgments
import RankEval.Inputs.ScoreFile
import RankEval.Report.Table

namespace RankEval.CommandLine

open Decimal (natText fixed)

/-- the judged tables, then the other scored ones -/
def judgedAndScored (judgments : Inputs.Judgments) (predicted : PredictedScores) : CandidateUniverse :=
  .ofList (judgments.map Prod.fst ++ predicted.tables)

/-- every judged table vouches for itself -/
def judgedTruth (judgments : Inputs.Judgments) : GroundTruth :=
  judgments.foldl (fun g (table, score) => g.withKey table score [table]) .empty

/-- relevance and scores over some candidates -/
def judgedPair (u : CandidateUniverse) (judgments : Inputs.Judgments) (predicted : PredictedScores)
    (excluded : List TableId) : Except AlignedPair.Mismatch AlignedPair :=
  AlignedPair.prepare u (.build u [judgedTruth judgments]) predicted excluded

/-- the line above the metrics -/
def candidatesLine (pair : AlignedPair) : String :=
  "Candidates: " ++ natText pair.tables.length ++ " (" ++
    natText (pair.relevance.countP fun r => decide (0.0 < r)) ++ " relevant, " ++
    natText pair.scores.scoredCount ++ " scored)"

/-- the line of one cutoff -/
def metricsLine (r : Metric.Record) : String :=
  "k=" ++ Report.padRight 5 (natText r.k) ++ " ndcg=" ++ fixed 4 r.ndcg ++ "  P@k=" ++ fixed 4 r.precisionAtK ++
    "  R@k=" ++ fixed 4 r.recallAtK ++ "  auc=" ++ (r.auc.map (fixed 4)).getD "-" ++ "  relevant@k=" ++ natText r.relevant

/-- the width of the horizontal lines -/
def pageWidth : Nat := 60

/-- the metrics at one cutoff -/
def cutoffScript (options : Metric.Options) (pair : AlignedPair) (k : Nat) : Script Unit := do
  match Metric.evaluate options pair.relevance pair.scores k with
  | .ok record => Script.line (metricsLine record)
  | .error e => throw ⟨"Failed to compute metrics at k=" ++ natText k, [e.message]⟩

def queryScript (o : QueryOptions) : Script (Option Save) := do
  let judgments ← Script.reading "Failed to load ground truth" (Inputs.judgments o.judgments)
  match ← Script.reading "Failed to load scores" (Inputs.scores o.scores) with
  | none => throw ⟨"No engine output at '" ++ o.scores ++ "'", []⟩
  | some predicted =>
    let u ← match o.tables with
      | some directory => Script.reading "Failed to scan tables" (Inputs.corpus directory)
      | none => pure (judgedAndScored judgments predicted)
    match judgedPair u judgments predicted o.excluded with
    | .error mismatch => throw (.ofFailure (.settings (.coverage mismatch)))
    | .ok pair =>
      Script.line (candidatesLine pair)
      Script.line (Report.rule pageWidth)
      o.cutoffs.forM (cutoffScript { auc := if o.omitAuc then .omit else .strict } pair)
      return none

end RankEval.CommandLine
