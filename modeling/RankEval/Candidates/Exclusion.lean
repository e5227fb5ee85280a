/-
Which of a query's own tables are left out of its evaluation.
-/
import RankEval.Candidates.Distinct
import RankEval.Document.Datum

namespace RankEval

inductive Exclusion where
  /-- nothing is left out -/
  | keepAll
  /-- the table that the query was sampled from -/
  | queryTable
  /-- every table of the query's page -/
  | queryPageTables
  deriving DecidableEq, Repr

namespace Exclusion

/-- the names of the modes -/
def choices : List (String × Exclusion) :=
  [("none", .keepAll), ("query_table", .queryTable), ("query_wikipage_tables", .queryPageTables)]

def datum : Exclusion → Datum
  | .keepAll => .text "none"
  | .queryTable => .text "query_table"
  | .queryPageTables => .text "query_wikipage_tables"

/-- the tables to leave out -/
def tables (mode : Exclusion) (selected : Option TableId) (page : List TableId) : List TableId :=
  match mode with
  | .keepAll => []
  | .queryTable => selected.toList
  | .queryPageTables => page

end Exclusion

end RankEval
