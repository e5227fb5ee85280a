/-
Settings that are given by environment variables. A variable that is set goes before every file, even if it is empty;
one that should be a number and is none counts as not set.
-/
import RankEval.Settings.Basic
import RankEval.Text.Basic

namespace RankEval

/-- the variables that are set, with their values -/
structure Environment where
  settings : List (String × String)
  deriving DecidableEq, Repr

namespace Environment

/-- the variables that settings depend on -/
def names : List String :=
  ["EVAL_TABLES_DIR", "EVAL_GROUND_TRUTH_DIR", "EVAL_WIKIPAGES_FILE", "EVAL_QUERIES_FILE", "EVAL_RESULTS_DIR",
    "EVAL_WORKERS", "EVAL_SEED", "XDG_CONFIG_HOME", "HOME"]

def get? (env : Environment) (name : String) : Option String := env.settings.lookup name

/-- the value of a variable, or else another text -/
def text (env : Environment) (name default : String) : String := (env.get? name).getD default

/-- the number in a variable, or else another one -/
def count (env : Environment) (name : String) (default : Nat) : Nat :=
  ((env.get? name).bind fun value => Text.count? value.toList).getD default

/-- the directory of a user's settings -/
def settingsDirectory? (env : Environment) : Option FilePath :=
  match (env.get? "XDG_CONFIG_HOME").filter Path.isAbsolute with
  | some own => some own
  | none => ((env.get? "HOME").filter fun home => !home.isEmpty).map fun home => Path.join home ".config"

/-- the file that settings are read from if no other one is named -/
def settingsFile? (env : Environment) : Option FilePath :=
  env.settingsDirectory?.map fun dir => Path.joinAll dir ["table-search-eval", "config.yaml"]

end Environment

/-- settings with what the environment gives in the place of what they had -/
def Settings.withEnvironment (s : Settings) (env : Environment) : Settings :=
  { s with
    places := {
      tables := env.text "EVAL_TABLES_DIR" s.places.tables
      related := env.text "EVAL_GROUND_TRUTH_DIR" s.places.related
      pages := env.text "EVAL_WIKIPAGES_FILE" s.places.pages
      queries := env.text "EVAL_QUERIES_FILE" s.places.queries
      results := env.text "EVAL_RESULTS_DIR" s.places.results
    }
    evaluation := {
      s.evaluation with
      workers := env.count "EVAL_WORKERS" s.evaluation.workers
      seed := env.count "EVAL_SEED" s.evaluation.seed
    } }

end RankEval
