/-
The engine's scores for many queries in one file: a row for every query and table, with tabs between its columns.

The first column is the number of the query's page, the third one the table and the fifth one the score.
-/
import RankEval.Candidates.Predicted
import RankEval.Decimal.Reading
import RankEval.Engine.Key
import RankEval.Failure
import RankEval.Text.Basic

namespace RankEval.Inputs

/-- one row -/
structure RankedRow where
  page : Nat
  table : TableId
  score : Float
  deriving DecidableEq

/-- a line that is not blank as a row -/
def row (line : List Char) : Except RowFault RankedRow :=
  match Text.splitAt '\t' line with
  | page :: _ :: table :: _ :: score :: _ =>
    match Text.count? (Text.trim page), Decimal.float? (Text.trim score) with
    | none, _ => .error .page
    | _, none => .error .score
    | some page, some score => .ok ⟨page, String.ofList (Text.trim table), score⟩
  | _ => .error .columns

/-- the rows of some lines, the first of which has number `n`; blank lines are left out -/
def rowsFrom (n : Nat) : List (List Char) → Except (Nat × RowFault) (List RankedRow)
  | [] => .ok []
  | line :: rest =>
    if (Text.trim line).isEmpty then rowsFrom (n + 1) rest
    else match row line with
      | .error fault => .error (n, fault)
      | .ok r => (rowsFrom (n + 1) rest).map (r :: ·)

/-- the scores of all queries, in file order -/
structure RankedRows where
  rows : List RankedRow
  deriving DecidableEq

namespace RankedRows

def parse (text : String) : Except (Nat × RowFault) RankedRows :=
  (rowsFrom 1 (Text.lines text.toList)).map RankedRows.mk

/-- the scores of a query; none if it has no row -/
def lookup (r : RankedRows) (query : String) : Option PredictedScores :=
  let own := r.rows.filter fun row => EvaluationKey.queryName row.page == query
  if own.isEmpty then none else some (.ofList (own.map fun row => (row.table, row.score)))

/-- the number of queries that have rows -/
def queryCount (r : RankedRows) : Nat :=
  (Distinct.names (r.rows.map fun row => EvaluationKey.queryName row.page)).length

end RankedRows

/-- the rows in a file; none if there is no such file -/
def rankedRows (path : FilePath) : Attempt (Option RankedRows) := do
  if ← (Reading.isFile path : Reading _) then
    match RankedRows.parse (← Attempt.text path) with
    | .ok rows => return some rows
    | .error (line, fault) => throw (.malformed path (.row line fault))
  else return none

end RankEval.Inputs
