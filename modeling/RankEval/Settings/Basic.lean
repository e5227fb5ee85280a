/-
The settings of an evaluation: where its inputs lie, how queries are evaluated, and which engine variants are compared.
Every setting has a default.
-/
import RankEval.Candidates.Exclusion
import RankEval.Engine.Configuration
import RankEval.Files.Path
import RankEval.Metric.Record

namespace RankEval

namespace Settings

/-- where the inputs lie; an empty path is one that is not known -/
structure Places where
  /-- the directory with every table of the corpus -/
  tables : FilePath := ""
  /-- the directory with the related titles of every page -/
  related : FilePath := ""
  /-- the file with the tables of every page -/
  pages : FilePath := ""
  queries : FilePath := ""
  /-- the directory that the engine's results lie below -/
  results : FilePath := ""
  deriving DecidableEq, Repr

/-- which tables a query is evaluated over -/
inductive Scope where
  /-- every table of the corpus -/
  | corpus
  /-- the tables of the query's page and as many others -/
  | labeled
  /-- the engine's own first results -/
  | output
  deriving DecidableEq, Repr

/-- what makes a table relevant -/
inductive Truth where
  /-- the score of a related page that it lies on -/
  | relatedPages
  /-- lying on the query's own page -/
  | coMembership
  deriving DecidableEq, Repr

/-- what becomes of a run when a query cannot be evaluated -/
inductive OnFailure where
  /-- the failure is logged and the run goes on -/
  | skip
  /-- the run ends with the failure -/
  | abort
  deriving DecidableEq, Repr

/-- how queries are evaluated -/
structure Evaluation where
  cutoffs : List Nat := [10, 100]
  /-- the numbers of query tuples that the engine was run with -/
  tuples : List Nat := [1]
  /-- the vote thresholds that the engine was run with -/
  votes : List Nat := [1]
  exclusion : Exclusion := .keepAll
  scope : Scope := .corpus
  truth : Truth := .relatedPages
  /-- the seed for the other tables of a labeled scope -/
  seed : Nat := 0
  /-- whether fewer results than the cutoff count as none -/
  wantsFullTopK : Bool := true
  metrics : Metric.Options := {}
  onFailure : OnFailure := .skip
  /-- how many queries may be evaluated at once; with more than one, results are logged in the order they are done -/
  workers : Nat := 4
  deriving DecidableEq, Repr

end Settings

structure Settings where
  places : Settings.Places := {}
  evaluation : Settings.Evaluation := {}
  /-- the engine variants to compare -/
  variants : List Configuration := Configuration.standardMatrix
  deriving DecidableEq, Repr

/-- default settings, with the places of tables, queries and results -/
def Settings.ofPlaces (tables queries results : FilePath) : Settings :=
  { places := { tables, queries, results } }

end RankEval
