/-
Where relevance comes from: related keys (pages) with scores, and the tables that each key vouches for.
-/
import Std.Data.TreeMap.Lemmas
import RankEval.Candidates.Distinct

namespace RankEval

/-- Scored keys, and grants of tables to keys. A key vouches for the tables of all its grants. -/
structure GroundTruth where
  scores : List (String × Float)
  grants : List (String × List TableId)
  deriving DecidableEq

namespace GroundTruth

def empty : GroundTruth := ⟨[], []⟩

/-- adds a key with its score and tables -/
def withKey (g : GroundTruth) (key : String) (score : Float) (tables : List TableId) : GroundTruth :=
  ⟨g.scores ++ [(key, score)], g.grants ++ [(key, tables)]⟩

/-- relevance 1 for every table of a page -/
def coMembership (page : String) (tables : List TableId) : GroundTruth := empty.withKey page 1.0 tables

/-- joins the lists that belong to one key, in order -/
def gather (grants : List (String × List TableId)) : Std.TreeMap String (List TableId) :=
  grants.foldl (fun index grant => index.insert grant.1 (index.getD grant.1 [] ++ grant.2)) ∅

/-- every table with every score that is vouched for it, in order -/
def certified (g : GroundTruth) : List (TableId × Float) :=
  let index := gather g.grants
  g.scores.flatMap fun (key, score) => (index.getD key []).map fun table => (table, score)

end GroundTruth

end RankEval
