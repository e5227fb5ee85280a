/-
The three containers of an evaluation in the form in which their content can be found fast: a list in its order, and
apart from it a set of its members or an index of their places. Every operation keeps both up to date on its own.

`Containers` names the operations on universes, maps of relevance and scores of an engine, so that one session of
operations can be followed in this form (`Containers.stored`) and in the form in which a container is its list
(`Containers.listed`).
-/
import RankEval.Candidates.Alignment

namespace RankEval

/-- the scores of an engine with one more table; a table that is there already keeps its score -/
def PredictedScores.push (p : PredictedScores) (table : TableId) (score : Float) : PredictedScores :=
  .ofList (p.ranked ++ [(table, score)])

/-! ## Sets of tables -/

/-- the tables of a universe in order, and the set of them -/
structure StoredUniverse where
  items : List TableId
  members : Std.TreeSet TableId

namespace StoredUniverse

def empty : StoredUniverse := ⟨[], ∅⟩

def contains (u : StoredUniverse) (table : TableId) : Bool := u.members.contains table

def length (u : StoredUniverse) : Nat := u.items.length

def insert (u : StoredUniverse) (table : TableId) : StoredUniverse :=
  if u.contains table then u else ⟨u.items ++ [table], u.members.insert table⟩

def ofList (tables : List TableId) : StoredUniverse := tables.foldl insert empty

def without (u : StoredUniverse) (excluded : List TableId) : StoredUniverse :=
  let out := Std.TreeSet.ofList excluded
  ofList (u.items.filter fun t => !out.contains t)

def labeled (page : List TableId) (corpus : StoredUniverse) (seed : UInt64) : StoredUniverse :=
  let own := Std.TreeSet.ofList page
  let pool := (corpus.items.filter fun t => !own.contains t).toArray
  let drawn := (Random.sample pool.size page.length (.ofSeed seed)).filterMap fun i => pool[i]?
  ofList (page ++ drawn)

end StoredUniverse

/-! ## Tables with values -/

/-- tables with values in order, and the place of each table in the list -/
structure Indexed where
  entries : List (TableId × Float)
  places : Std.TreeMap TableId Nat

namespace Indexed

def empty : Indexed := ⟨[], ∅⟩

/-- numbers the tables of a list -/
def ofEntries (entries : List (TableId × Float)) : Indexed :=
  ⟨entries, entries.zipIdx.foldl (fun places (e, i) => places.insert e.1 i) ∅⟩

def tables (x : Indexed) : List TableId := x.entries.map Prod.fst

def values (x : Indexed) : List Float := x.entries.map Prod.snd

def contains (x : Indexed) (table : TableId) : Bool := x.places.contains table

/-- the value at the place of a table -/
def get? (x : Indexed) (table : TableId) : Option Float := do
  let i ← x.places[table]?
  x.values[i]?

def length (x : Indexed) : Nat := x.entries.length

/-- appends a table unless it is there -/
def push (x : Indexed) (table : TableId) (value : Float) : Indexed :=
  if x.contains table then x else ⟨x.entries ++ [(table, value)], x.places.insert table x.entries.length⟩

def ofPairs (pairs : List (TableId × Float)) : Indexed := pairs.foldl (fun x (t, v) => x.push t v) empty

def zeroed (u : StoredUniverse) : Indexed := ofEntries (u.items.map fun t => (t, 0.0))

/-- raises the value at the place of a table, if it has one -/
def raise (x : Indexed) (table : TableId) (score : Float) : Indexed :=
  match x.places[table]? with
  | none => x
  | some i => { x with entries := x.entries.modify i fun e => (e.1, RelevanceMap.raise e.2 score) }

def build (u : StoredUniverse) (sources : List GroundTruth) : Indexed :=
  sources.foldl (fun x source => source.certified.foldl (fun x (t, s) => x.raise t s) x) (zeroed u)

def withSelfRelevance (x : Indexed) (tables : List TableId) (score : Float) : Indexed :=
  tables.foldl (fun x t => x.raise t score) x

def without (x : Indexed) (excluded : List TableId) : Indexed :=
  let out := Std.TreeSet.ofList excluded
  ofEntries (x.entries.filter fun (t, _) => !out.contains t)

end Indexed

/-- aligns stored containers, all of which are asked through their index -/
def AlignedPair.prepareStored (u : StoredUniverse) (truth predicted : Indexed) (excluded : List TableId) :
    Except Mismatch AlignedPair :=
  let u := u.without excluded
  let truth := truth.without excluded
  if u.length ≠ truth.length then .error (.sizes u.length truth.length)
  else match u.items.find? fun t => !truth.contains t with
    | some stray => .error (.unjudged stray)
    | none => .ok ⟨truth.tables, truth.values, .ofOptions (truth.tables.map predicted.get?)⟩

/-! ## Sessions -/

/-- the operations that create and change universes `U`, maps of relevance `M` and scores of an engine `P` -/
structure Containers (U M P : Type) where
  ofTables : List TableId → U
  labeled : List TableId → U → UInt64 → U
  narrowed : U → List TableId → U
  zeroed : U → M
  built : U → List GroundTruth → M
  selfRelevant : M → List TableId → Float → M
  without : M → List TableId → M
  ofScores : List (TableId × Float) → P
  push : P → TableId → Float → P

/-- the containers in a form with sets and indices -/
def Containers.stored : Containers StoredUniverse Indexed Indexed where
  ofTables := .ofList
  labeled := .labeled
  narrowed := .without
  zeroed := .zeroed
  built := .build
  selfRelevant := .withSelfRelevance
  without := .without
  ofScores := .ofPairs
  push := .push

/-- the containers as lists -/
def Containers.listed : Containers CandidateUniverse RelevanceMap PredictedScores where
  ofTables := .ofList
  labeled := .labeled
  narrowed := .without
  zeroed := .zeroed
  built := .build
  selfRelevant := .withSelfRelevance
  without := .without
  ofScores := .ofList
  push := .push

/-- an operation; the containers that it is applied to are named by their numbers -/
inductive ContainerOp where
  | ofTables (tables : List TableId)
  | labeled (page : List TableId) (corpus : Nat) (seed : UInt64)
  | narrowed (u : Nat) (excluded : List TableId)
  | zeroed (u : Nat)
  | built (u : Nat) (sources : List GroundTruth)
  | selfRelevant (m : Nat) (tables : List TableId) (score : Float)
  | without (m : Nat) (excluded : List TableId)
  | ofScores (pairs : List (TableId × Float))
  | push (p : Nat) (table : TableId) (score : Float)

/-- the containers that were made so far -/
structure ContainerSession (U M P : Type) where
  universes : List U
  truths : List M
  outputs : List P

namespace Containers

variable {U M P : Type}

/-- An operation adds what it makes; only `push` changes a container in place. Where a number names no container,
nothing happens. -/
def step (c : Containers U M P) (s : ContainerSession U M P) : ContainerOp → ContainerSession U M P
  | .ofTables tables => { s with universes := s.universes ++ [c.ofTables tables] }
  | .labeled page corpus seed =>
    { s with universes := s.universes ++ (s.universes[corpus]?.map (c.labeled page · seed)).toList }
  | .narrowed u excluded =>
    { s with universes := s.universes ++ (s.universes[u]?.map (c.narrowed · excluded)).toList }
  | .zeroed u => { s with truths := s.truths ++ (s.universes[u]?.map c.zeroed).toList }
  | .built u sources => { s with truths := s.truths ++ (s.universes[u]?.map (c.built · sources)).toList }
  | .selfRelevant m tables score =>
    { s with truths := s.truths ++ (s.truths[m]?.map (c.selfRelevant · tables score)).toList }
  | .without m excluded => { s with truths := s.truths ++ (s.truths[m]?.map (c.without · excluded)).toList }
  | .ofScores pairs => { s with outputs := s.outputs ++ [c.ofScores pairs] }
  | .push p table score => { s with outputs := s.outputs.modify p (c.push · table score) }

/-- the containers after some operations -/
def run (c : Containers U M P) (ops : List ContainerOp) : ContainerSession U M P := ops.foldl c.step ⟨[], [], []⟩

end Containers

end RankEval
