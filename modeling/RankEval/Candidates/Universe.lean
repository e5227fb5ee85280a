/-
The tables that a query is evaluated over, in a fixed order and each once.
-/
import RankEval.Candidates.Distinct
import RankEval.Random.Sample

namespace RankEval

structure CandidateUniverse where
  items : List TableId
  nodup : items.Nodup
  deriving DecidableEq

namespace CandidateUniverse

/-- the tables of a list at their first occurrences -/
def ofList (tables : List TableId) : CandidateUniverse := ⟨Distinct.names tables, Distinct.nodup_names tables⟩

def empty : CandidateUniverse := ofList []

def length (u : CandidateUniverse) : Nat := u.items.length

def isEmpty (u : CandidateUniverse) : Bool := u.items.isEmpty

def contains (u : CandidateUniverse) (table : TableId) : Bool := u.items.contains table

/-- the elements that are not excluded, in order -/
def remaining (excluded tables : List TableId) : List TableId :=
  let out := Std.TreeSet.ofList excluded
  tables.filter fun t => !out.contains t

/-- the universe less some tables -/
def without (u : CandidateUniverse) (excluded : List TableId) : CandidateUniverse :=
  ⟨remaining excluded u.items, u.nodup.filter _⟩

/-- The tables of a page and as many others, drawn from the corpus by a seed; all others of the corpus if there are not
as many. -/
def labeled (page : List TableId) (corpus : CandidateUniverse) (seed : UInt64) : CandidateUniverse :=
  let pool := (remaining page corpus.items).toArray
  let drawn := (Random.sample pool.size page.length (.ofSeed seed)).filterMap fun i => pool[i]?
  ofList (page ++ drawn)

end CandidateUniverse

end RankEval
