/-
Which tables were found on which page of the encyclopedia, and the relevance that scored pages give to their tables.
-/
import Std.Data.TreeMap.Lemmas
import RankEval.Candidates.GroundTruth
import RankEval.Inputs.Judgments

namespace RankEval.Inputs

/-- The tables of every page, by its address. -/
structure PageTables where
  byPage : Std.TreeMap String (List TableId)

namespace PageTables

/-- Lists of tables by page; the lists of one page are joined in order. -/
def ofList (pairs : List (String × List TableId)) : PageTables := ⟨GroundTruth.gather pairs⟩

def empty : PageTables := ofList []

/-- the tables of a page; none if it is not known -/
def tablesOf (m : PageTables) (page : String) : List TableId := m.byPage.getD page []

/-- the part that the addresses of all pages start with -/
def addressStart : String := "https://en.wikipedia.org/wiki/"

/-- the relevance of titles, each vouching for the tables of its page -/
def groundTruth (m : PageTables) (scores : List (String × Float)) : GroundTruth :=
  scores.foldl (fun g (title, score) => g.withKey title score (m.tablesOf (addressStart ++ title))) .empty

end PageTables

/-- a page with its tables -/
def pageEntry? : Json.Place → Option (String × List TableId) := Document.record? do
  return (← .required "wikipage" Document.text?, ← .required "tables" (Document.listOf? Document.text?))

/-- the page tables in a file -/
def pageTables (path : FilePath) : Attempt PageTables :=
  return .ofList (← jsonFile (Document.listOf? pageEntry?) path)

end RankEval.Inputs
