/-
A run: every key with every query, key by key. What happens to each of them is logged, or ends the run if the settings
ask for that. Several workers log what happens in the order in which they are done.
-/
import Std.Data.TreeSet.Lemmas
import RankEval.Campaign.Cache
import RankEval.Campaign.Evaluator
import RankEval.Inputs.ScoreFile
import RankEval.Report.Basic

namespace RankEval

open Report (Ledger Outcome)

namespace Settings

/-- the vote thresholds of a variant; 0 stands for none -/
def Evaluation.votesOf (e : Evaluation) (variant : Configuration) : List Nat :=
  if variant.usesVote then e.votes else [0]

/-- the keys of a variant -/
def Evaluation.keysOf (e : Evaluation) (variant : Configuration) : List EvaluationKey :=
  e.tuples.flatMap fun tuples => e.cutoffs.flatMap fun k => (e.votesOf variant).map fun vote =>
    ⟨variant, tuples, k, vote⟩

/-- the keys of all variants, in order -/
def keys (s : Settings) : List EvaluationKey :=
  (Std.TreeSet.ofList (s.variants.flatMap s.evaluation.keysOf)).toList

end Settings

/-- The order in which a number of workers are done with queries under keys. A single worker is done with them in the
order in which they are given. -/
structure Schedule where
  order : Nat → List (EvaluationKey × Query) → List (EvaluationKey × Query)
  perm : ∀ workers units, (order workers units).Perm units
  single : ∀ units, order 1 units = units

/-- any number of workers do the work of one -/
def Schedule.sequential : Schedule := ⟨fun _ units => units, fun _ units => .refl units, fun _ => rfl⟩

namespace Evaluator

/-- what the engine returned for a query under a key, if it did -/
def predicted (e : Evaluator) (key : EvaluationKey) (q : Query) : Cached (Option PredictedScores) := do
  let path := key.resultPath e.settings.places.results q.name
  match key.configuration.scoreFormat with
  | .perQuery => Cache.attempt (Inputs.scores path)
  | .rankedRows => return (← Cache.ranking path).bind fun rows => rows.lookup q.name

/-- the related titles of a query, if its relevance comes from them -/
def related (e : Evaluator) (q : Query) : Cached (Option Inputs.Judgments) := do
  match e.settings.evaluation.truth with
  | .relatedPages => return some (← Cache.relatedTitles e.settings.places.related q.page)
  | .coMembership => return none

/-- whether the engine returned too few tables for a cutoff -/
def isShort (e : Evaluator) (k : Nat) (predicted : PredictedScores) : Bool :=
  e.settings.evaluation.wantsFullTopK && decide (predicted.length < k)

/-- the metrics of a query under a key; none without usable output of the engine -/
def evaluate (e : Evaluator) (key : EvaluationKey) (q : Query) : Cached (Option Metric.Record) := do
  match ← e.predicted key q with
  | none => return none
  | some predicted =>
    if e.isShort key.k predicted then return none
    else
      match e.score q key.k (← e.related q) predicted with
      | .ok record => return some record
      | .error failure => throw failure

/-- what to log for a result; under `abort` a failure stays one -/
def settle (policy : Settings.OnFailure) : Except Failure (Option Metric.Record) → Except Failure Outcome
  | .ok (some record) => .ok (.scored record)
  | .ok none => .ok .missing
  | .error failure =>
    match policy with
    | .skip => .ok .failed
    | .abort => .error failure

/-- evaluates a query under a key and logs what happened -/
def step (e : Evaluator) (l : Ledger) (unit : EvaluationKey × Query) : Cached Ledger := do
  match settle e.settings.evaluation.onFailure (← Cache.observe (e.evaluate unit.1 unit.2)) with
  | .ok outcome => return l.log unit.1 unit.2.name outcome
  | .error failure => throw failure

/-- every key with every query -/
def units (e : Evaluator) (queries : List Query) : List (EvaluationKey × Query) :=
  e.settings.keys.flatMap fun key => queries.map fun q => (key, q)

/-- evaluates queries under keys, one after the other -/
def runUnits (e : Evaluator) (units : List (EvaluationKey × Query)) : Cached Report :=
  return .ofLedger (← units.foldlM e.step .empty)

/-- evaluates every query under every key -/
def run (e : Evaluator) (queries : List Query) : Cached Report := e.runUnits (e.units queries)

/-- evaluates every query under every key, in the order in which the workers are done -/
def runBy (e : Evaluator) (schedule : Schedule) (queries : List Query) : Cached Report :=
  e.runUnits (schedule.order e.settings.evaluation.workers (e.units queries))

end Evaluator

end RankEval
