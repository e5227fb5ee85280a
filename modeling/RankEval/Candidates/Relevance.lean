/-
The relevance of every table of a universe, in universe order. Scores are merged by maximum, so that no source lowers
what another one gave.
-/
import RankEval.Candidates.GroundTruth
import RankEval.Candidates.Universe

namespace RankEval

structure RelevanceMap where
  entries : List (TableId × Float)
  nodup : (entries.map Prod.fst).Nodup

namespace RelevanceMap

theorem ext_entries {a b : RelevanceMap} (h : a.entries = b.entries) : a = b := by
  cases a
  cases b
  cases h
  rfl

instance : DecidableEq RelevanceMap := fun a b => decidable_of_iff (a.entries = b.entries) ⟨ext_entries, congrArg _⟩

/-- the larger of a relevance and a score; a score that is no number changes nothing -/
def raise (current score : Float) : Float := if current < score then score else current

/-- a map over the tables of a universe -/
def ofUniverse (u : CandidateUniverse) (value : TableId → Float) : RelevanceMap :=
  ⟨u.items.map fun t => (t, value t), by simpa [List.map_map, Function.comp_def] using u.nodup⟩

/-- every table has relevance 0 -/
def zeroed (u : CandidateUniverse) : RelevanceMap := ofUniverse u fun _ => 0.0

/-- the largest of 0 and the scores of each table -/
def peaks (scores : List (TableId × Float)) : Std.TreeMap String Float :=
  scores.foldl (fun index (table, score) => index.insert table (raise (index.getD table 0.0) score)) ∅

/-- the relevance that some sources give to the tables of a universe -/
def build (u : CandidateUniverse) (sources : List GroundTruth) : RelevanceMap :=
  let index := peaks (sources.flatMap GroundTruth.certified)
  ofUniverse u fun t => index.getD t 0.0

/-- raises some tables of the map to a score -/
def withSelfRelevance (m : RelevanceMap) (tables : List TableId) (score : Float) : RelevanceMap :=
  let own := Std.TreeSet.ofList tables
  ⟨m.entries.map fun (t, r) => (t, if own.contains t then raise r score else r), by
    simpa [List.map_map, Function.comp_def] using m.nodup⟩

/-- the map less some tables -/
def without (m : RelevanceMap) (excluded : List TableId) : RelevanceMap :=
  let out := Std.TreeSet.ofList excluded
  ⟨m.entries.filter fun (t, _) => !out.contains t, (List.filter_sublist.map Prod.fst).nodup m.nodup⟩

def get? (m : RelevanceMap) (table : TableId) : Option Float := m.entries.lookup table

def contains (m : RelevanceMap) (table : TableId) : Bool := (m.get? table).isSome

/-- the tables in universe order -/
def tables (m : RelevanceMap) : List TableId := m.entries.map Prod.fst

/-- the relevance of the tables in universe order -/
def values (m : RelevanceMap) : List Float := m.entries.map Prod.snd

/-- the number of tables with a positive relevance -/
def relevantCount (m : RelevanceMap) : Nat := m.entries.countP fun (_, r) => decide (0.0 < r)

def length (m : RelevanceMap) : Nat := m.entries.length

def isEmpty (m : RelevanceMap) : Bool := m.entries.isEmpty

end RelevanceMap

end RankEval
