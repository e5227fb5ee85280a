/-
What happens to one query under one key.

The engine's output and the related titles are found out, and whatever cannot be found out is a failure; there is no
other way in which files matter. So what happens to a query under a key depends on the two of them alone, not on which
queries were evaluated before.

- `gives_evaluate`: the metrics of a query under a key.
- `gives_step`: a step of a run.
- `stepIn_skip`: under `skip`, it logs what happens and does not fail.
- `isShort_iff`: when there is too little output of the engine.
- `outcomeIn_iff`: when a query is skipped, when it fails, and which metrics it has otherwise.
-/
import Mathlib.Data.Finset.Card
import RankEval.Campaign.Run
import RankEval.Proofs.Campaign.Caching

namespace RankEval.Evaluator

open Report (Ledger Outcome)

variable (e : Evaluator) (t : FileTree) (found : Found) (key : EvaluationKey) (q : Query)

/-- what the engine returned, if it did -/
def predictedIn : Except Failure (Option PredictedScores) :=
  match key.configuration.scoreFormat with
  | .perQuery => Attempt.outcome t (Inputs.scores (key.resultPath e.settings.places.results q.name))
  | .rankedRows =>
    (found.rows (key.resultPath e.settings.places.results q.name)).map fun rows => rows.bind fun r => r.lookup q.name

/-- the related titles, if relevance comes from them -/
def relatedIn : Except Failure (Option Inputs.Judgments) :=
  match e.settings.evaluation.truth with
  | .relatedPages => (found.titles q.page).map some
  | .coMembership => .ok none

/-- the metrics that the engine's output has -/
def scoreIn (predicted : PredictedScores) : Except Failure Metric.Record :=
  (e.relatedIn found q).bind fun related => e.score q key.k related predicted

/-- the metrics of a query under a key; none without usable output of the engine -/
def evaluateIn : Except Failure (Option Metric.Record) :=
  (e.predictedIn t found key q).bind fun
    | none => .ok none
    | some predicted => if e.isShort key.k predicted then .ok none else (e.scoreIn found key q predicted).map some

/-- what happens to a query under a key if a failure does not end the run -/
def outcomeIn : Outcome :=
  match e.evaluateIn t found key q with
  | .ok (some record) => .scored record
  | .ok none => .missing
  | .error _ => .failed

/-- a step of a run -/
def stepIn (l : Ledger) (unit : EvaluationKey × Query) : Except Failure Ledger :=
  (settle e.settings.evaluation.onFailure (e.evaluateIn t found unit.1 unit.2)).map fun outcome =>
    l.log unit.1 unit.2.name outcome

/-- under `skip`, a step logs what happens -/
theorem stepIn_skip (hskip : e.settings.evaluation.onFailure = .skip) (l : Ledger) (unit : EvaluationKey × Query) :
    e.stepIn t found l unit = .ok (l.log unit.1 unit.2.name (e.outcomeIn t found unit.1 unit.2)) := by
  unfold stepIn outcomeIn
  rw [hskip]
  rcases e.evaluateIn t found unit.1 unit.2 with failure | _ | record <;> rfl

/-- There is too little output if all of a cutoff is wanted and fewer tables are returned, each of them counted once. -/
theorem isShort_iff (k : ℕ) (predicted : PredictedScores) : e.isShort k predicted = true ↔
    e.settings.evaluation.wantsFullTopK = true ∧ predicted.tables.toFinset.card < k := by
  have hlength : predicted.tables.length = predicted.length := List.length_map _
  have hcard := List.toFinset_card_of_nodup predicted.nodup
  change predicted.tables.toFinset.card = predicted.tables.length at hcard
  rw [hcard, hlength, isShort, Bool.and_eq_true, decide_eq_true_iff]

/-- **When what happens.** A query is skipped without output of the engine or, if all of the cutoff is wanted, with
fewer tables than that. It fails if the output cannot be loaded, or if there is enough of it and it cannot be scored. In
the remaining case it has metrics. -/
theorem outcomeIn_iff :
    (e.outcomeIn t found key q = .missing ↔ e.predictedIn t found key q = .ok none ∨
      ∃ predicted, e.predictedIn t found key q = .ok (some predicted) ∧
        e.settings.evaluation.wantsFullTopK = true ∧ predicted.tables.toFinset.card < key.k) ∧
    (e.outcomeIn t found key q = .failed ↔ (∃ failure, e.predictedIn t found key q = .error failure) ∨
      ∃ predicted failure, e.predictedIn t found key q = .ok (some predicted) ∧
        ¬ (e.settings.evaluation.wantsFullTopK = true ∧ predicted.tables.toFinset.card < key.k) ∧
        e.scoreIn found key q predicted = .error failure) ∧
    ∀ record, e.outcomeIn t found key q = .scored record ↔
      ∃ predicted, e.predictedIn t found key q = .ok (some predicted) ∧
        ¬ (e.settings.evaluation.wantsFullTopK = true ∧ predicted.tables.toFinset.card < key.k) ∧
        e.scoreIn found key q predicted = .ok record := by
  simp only [← isShort_iff]
  unfold outcomeIn evaluateIn
  rcases e.predictedIn t found key q with failure | _ | predicted
  · simp [Except.bind]
  · simp [Except.bind]
  · by_cases hshort : e.isShort key.k predicted = true
    · simp [Except.bind, hshort]
    · cases hscore : e.scoreIn found key q predicted <;> simp [Except.bind, Except.map, hshort, hscore]

/-! ## Evaluation -/

section
variable {t} {found}

open Cached

theorem gives_predicted :
    Gives t e.settings.places.related found (e.predicted key q) (e.predictedIn t found key q) := by
  unfold predicted predictedIn
  cases key.configuration.scoreFormat with
  | perQuery => exact gives_attempt _
  | rankedRows => exact gives_map (gives_ranking _) _

theorem gives_related : Gives t e.settings.places.related found (e.related q) (e.relatedIn found q) := by
  unfold related relatedIn
  cases e.settings.evaluation.truth with
  | relatedPages => exact gives_map (gives_relatedTitles _) _
  | coMembership => exact gives_pure _

/-- **The metrics of a query under a key** depend on what can be found out, and on nothing that happened before. -/
theorem gives_evaluate : Gives t e.settings.places.related found (e.evaluate key q) (e.evaluateIn t found key q) := by
  unfold evaluate evaluateIn
  refine gives_bind (e.gives_predicted key q) fun output => ?_
  cases output with
  | none => exact gives_pure _
  | some predicted =>
    dsimp only
    split
    · exact gives_pure _
    · have hmap : (e.scoreIn found key q predicted).map some = (e.relatedIn found q).bind fun related =>
          (e.score q key.k related predicted).map some := by
        unfold scoreIn
        cases e.relatedIn found q <;> rfl
      rw [hmap]
      refine gives_bind (e.gives_related q) fun related => ?_
      cases e.score q key.k related predicted with
      | error failure => exact gives_throw failure
      | ok record => exact gives_pure _

/-- so do the steps of a run, and on what was logged before -/
theorem gives_step (l : Ledger) (unit : EvaluationKey × Query) :
    Gives t e.settings.places.related found (e.step l unit) (e.stepIn t found l unit) := by
  have hobserve : Gives t e.settings.places.related found (Cache.observe (e.evaluate unit.1 unit.2))
      (.ok (e.evaluateIn t found unit.1 unit.2)) := gives_observe (e.gives_evaluate unit.1 unit.2)
  intro cache hfound
  obtain ⟨kept, hrun, hkept⟩ := hobserve cache hfound
  refine ⟨kept, ?_, hkept⟩
  unfold step stepIn
  rw [outcome_bind, hrun]
  dsimp only
  cases settle e.settings.evaluation.onFailure (e.evaluateIn t found unit.1 unit.2) <;> rfl

end

end RankEval.Evaluator
