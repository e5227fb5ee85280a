/-
What the engine returned for one query: tables with scores, in its order. A table that is returned again keeps its first
score.
-/
import Std.Data.TreeMap.Lemmas
import RankEval.Candidates.Distinct
import RankEval.Candidates.Aligned

namespace RankEval

structure PredictedScores where
  ranked : List (TableId × Float)
  nodup : (ranked.map Prod.fst).Nodup
  deriving DecidableEq

namespace PredictedScores

def ofList (pairs : List (TableId × Float)) : PredictedScores :=
  ⟨Distinct.firstBy Prod.fst pairs, Distinct.nodup_keys_firstBy Prod.fst pairs⟩

def empty : PredictedScores := ofList []

def get? (p : PredictedScores) (table : TableId) : Option Float := p.ranked.lookup table

def length (p : PredictedScores) : Nat := p.ranked.length

def isEmpty (p : PredictedScores) : Bool := p.ranked.isEmpty

/-- the tables in the engine's order -/
def tables (p : PredictedScores) : List TableId := p.ranked.map Prod.fst

/-- the score of every key, in order -/
def align (p : PredictedScores) (keys : List TableId) : AlignedScores :=
  let index := Std.TreeMap.ofList p.ranked
  .ofOptions (keys.map fun key => index[key]?)

end PredictedScores

end RankEval
