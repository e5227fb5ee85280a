/-
How one query is scored. Nothing here reads a file: the engine's output and the related titles are given.
-/
import RankEval.Candidates.Alignment
import RankEval.Failure
import RankEval.Inputs.Corpus
import RankEval.Inputs.Judgments
import RankEval.Inputs.PageTables
import RankEval.Inputs.Query
import RankEval.Settings.Validity

namespace RankEval

/-- what the evaluation of every query depends on -/
structure Evaluator where
  settings : Settings
  corpus : CandidateUniverse
  pages : Inputs.PageTables

namespace Evaluator

/-- the tables that a query is evaluated over, before any is excluded -/
def candidates (e : Evaluator) (q : Query) (k : Nat) (predicted : PredictedScores) : CandidateUniverse :=
  match e.settings.evaluation.scope with
  | .corpus => e.corpus
  | .labeled => .labeled q.tables e.corpus (.ofNat e.settings.evaluation.seed)
  | .output => .ofList (predicted.tables.take k)

/-- the relevance of related titles or, without any, of lying on the query's page -/
def truth (e : Evaluator) (q : Query) : Option Inputs.Judgments → GroundTruth
  | some related => e.pages.groundTruth related
  | none => .coMembership q.address q.tables

/-- relevance and scores of a query, over its candidates less those that are excluded -/
def pair (e : Evaluator) (q : Query) (k : Nat) (related : Option Inputs.Judgments) (predicted : PredictedScores) :
    Except AlignedPair.Mismatch AlignedPair :=
  let u := e.candidates q k predicted
  AlignedPair.prepare u (.build u [e.truth q related]) predicted
    (e.settings.evaluation.exclusion.tables q.selected q.tables)

/-- the metrics of a query -/
def score (e : Evaluator) (q : Query) (k : Nat) (related : Option Inputs.Judgments) (predicted : PredictedScores) :
    Except Failure Metric.Record :=
  match e.pair q k related predicted with
  | .error mismatch => .error (.settings (.coverage mismatch))
  | .ok pair => (Metric.evaluate e.settings.evaluation.metrics pair.relevance pair.scores k).mapError .metric

/-- checks the settings and reads corpus and pages; only related pages need the latter -/
def ofSettings (s : Settings) : Attempt Evaluator := do
  match s.check with
  | .error fault => throw (.settings fault)
  | .ok _ =>
    let corpus ← Inputs.corpus s.places.tables
    match s.evaluation.truth with
    | .relatedPages => return ⟨s, corpus, ← Inputs.pageTables s.places.pages⟩
    | .coMembership => return ⟨s, corpus, .empty⟩

/-- the queries that the settings name -/
def queries (e : Evaluator) : Attempt (List Query) := Inputs.queries e.settings.places.queries

end Evaluator

end RankEval
