/-
Queries: pages whose tables the search started from.
-/
import RankEval.Candidates.Distinct
import RankEval.Engine.Key
import RankEval.Inputs.Judgments

namespace RankEval

structure Query where
  page : Nat
  /-- the address of the page -/
  address : String
  /-- the tables on the page -/
  tables : List TableId
  /-- the table that the query was sampled from, if known -/
  selected : Option TableId
  deriving DecidableEq, Repr

namespace Query

/-- the name of a query in paths and reports -/
def name (q : Query) : String := EvaluationKey.queryName q.page

variable {D : Type} [Document D]

def fields : FieldReader D Query := do
  return {
    page := ← .required "wikipage_id" Document.nat?
    address := ← .required "wikipage" Document.text?
    tables := ← .required "tables" (Document.listOf? Document.text?)
    selected := ← .withDefault none "selected_table" (Document.optional? Document.text?)
  }

def read? : D → Option Query := Document.record? fields

end Query

/-- the queries in a file -/
def Inputs.queries (path : FilePath) : Attempt (List Query) := jsonFile (Document.listOf? Query.read?) path

end RankEval
