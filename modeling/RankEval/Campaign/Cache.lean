/-
Files that are read once and kept: rankings of many queries, and the related titles of a page. A file that cannot be
read is not kept, and is read again.
-/
import RankEval.Inputs.Judgments
import RankEval.Inputs.RankedRows

namespace RankEval

/-- what is kept: rankings by path, also where there is none, and related titles by page -/
structure Cache where
  rankings : Std.TreeMap FilePath (Option Inputs.RankedRows)
  related : Std.TreeMap Nat Inputs.Judgments

/-- a computation that reads files, keeps some and may fail; what is kept outlives a failure -/
abbrev Cached := ExceptT Failure (StateT Cache Reading)

namespace Cache

def empty : Cache := ⟨∅, ∅⟩

/-- an attempt that keeps nothing -/
def attempt {α : Type} (a : Attempt α) : Cached α := ExceptT.mk (StateT.lift a.run)

/-- a result or failure as a value -/
def observe {α : Type} (c : Cached α) : Cached (Except Failure α) := ExceptT.lift c.run

/-- the rows of a ranking file -/
def ranking (path : FilePath) : Cached (Option Inputs.RankedRows) := do
  match (← get).rankings[path]? with
  | some known => return known
  | none =>
    let rows ← attempt (Inputs.rankedRows path)
    modify fun cache => { cache with rankings := cache.rankings.insert path rows }
    return rows

/-- the titles that are related to a page, from its file in a directory -/
def relatedTitles (directory : FilePath) (page : Nat) : Cached Inputs.Judgments := do
  match (← get).related[page]? with
  | some known => return known
  | none =>
    let titles ← attempt (Inputs.relatedTitles directory page)
    modify fun cache => { cache with related := cache.related.insert page titles }
    return titles

end Cache

end RankEval
