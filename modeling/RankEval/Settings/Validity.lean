/-
Which settings an evaluation can be run with.
-/
import RankEval.Failure
import RankEval.Settings.Basic

namespace RankEval.Settings

/-- refuses a path that is not known -/
def requirePath (path : FilePath) (what setBy : String) : Except SettingsFault Unit :=
  if path.isEmpty then .error (.required what setBy) else .ok ()

/-- the places that every evaluation needs, and those that related pages need -/
def Places.check (p : Places) (truth : Truth) : Except SettingsFault Unit := do
  requirePath p.tables "Tables directory" "EVAL_TABLES_DIR"
  requirePath p.queries "Queries file" "EVAL_QUERIES_FILE"
  requirePath p.results "Results directory" "EVAL_RESULTS_DIR"
  if truth = .relatedPages then
    requirePath p.related "Ground truth directory" "EVAL_GROUND_TRUTH_DIR"
    requirePath p.pages "Wikipages file" "EVAL_WIKIPAGES_FILE"

/-- refuses settings that an evaluation cannot be run with, for the first reason there is -/
def check (s : Settings) : Except SettingsFault Unit := do
  s.places.check s.evaluation.truth
  if s.evaluation.cutoffs.isEmpty || s.evaluation.cutoffs.contains 0 then throw .cutoffs
  if s.evaluation.tuples.isEmpty || s.evaluation.votes.isEmpty then throw .tuplesOrVotes
  if s.evaluation.workers = 0 then throw .workers
  if s.variants.isEmpty then throw .configurations

end RankEval.Settings
