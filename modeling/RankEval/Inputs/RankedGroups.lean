/-
The scores of many queries grouped while their file is read: every row goes to the scores of its query, which are kept
with an index of their tables.

It answers what the list of all rows answers (`RankedRows`), without a search through the rows of other queries.
-/
import RankEval.Candidates.Stored
import RankEval.Inputs.RankedRows

namespace RankEval.Inputs

/-- the scores of every query that has rows, under the query's name -/
structure RankedGroups where
  byQuery : Std.TreeMap String Indexed

namespace RankedGroups

def empty : RankedGroups := ⟨∅⟩

/-- a row goes behind the others of its query, unless its table is there -/
def add (g : RankedGroups) (r : RankedRow) : RankedGroups :=
  let query := EvaluationKey.queryName r.page
  ⟨g.byQuery.insert query ((g.byQuery.getD query .empty).push r.table r.score)⟩

/-- adds the rows of some lines, the first of which has number `n`, up to a line that is none -/
def readFrom (n : Nat) (g : RankedGroups) : List (List Char) → Except (Nat × RowFault) RankedGroups
  | [] => .ok g
  | line :: rest =>
    if (Text.trim line).isEmpty then readFrom (n + 1) g rest
    else match row line with
      | .error fault => .error (n, fault)
      | .ok r => readFrom (n + 1) (g.add r) rest

def parse (text : String) : Except (Nat × RowFault) RankedGroups := readFrom 1 empty (Text.lines text.toList)

/-- the scores of a query; none if it has no row -/
def lookup (g : RankedGroups) (query : String) : Option Indexed := g.byQuery[query]?

/-- the number of queries that have rows -/
def queryCount (g : RankedGroups) : Nat := g.byQuery.size

end RankedGroups

end RankEval.Inputs
