/-
The variants of the search engine that are compared, with their parameters.
-/
import RankEval.Decimal.Layout

namespace RankEval

open Decimal (natText)

/-- how the engine represents an entity -/
inductive Representation where
  | types
  | embeddings
  deriving DecidableEq, Repr

/-- which text of a query the keyword search gets -/
inductive QueryField where
  | entities
  | text
  deriving DecidableEq, Repr

/-- an engine variant; a hashing variant has a number of vectors and a band size -/
inductive Configuration where
  | typesLsh (vectors bandSize : Nat)
  | embeddingsLsh (vectors bandSize : Nat)
  /-- hashing over the columns of a table together -/
  | columnAggregated (mode : Representation) (vectors bandSize : Nat)
  | bm25 (field : QueryField)
  /-- every table is compared -/
  | baseline (mode : Representation)
  /-- only what a keyword search returns is compared -/
  | bm25Prefilter (mode : Representation)
  deriving DecidableEq, Repr

/-- the form of the files that a variant writes -/
inductive ScoreFormat where
  /-- one file for every query -/
  | perQuery
  /-- one table of rows for all queries -/
  | rankedRows
  deriving DecidableEq, Repr

def Representation.name : Representation → String
  | .types => "types"
  | .embeddings => "embeddings"

def QueryField.name : QueryField → String
  | .entities => "entities"
  | .text => "text"

namespace Configuration

/-- the parameters of a hashing variant in a label -/
def hashLabel (letter : String) (vectors bandSize : Nat) : String :=
  letter ++ "(V=" ++ natText vectors ++ ", BS=" ++ natText bandSize ++ ")"

/-- a short text for tables -/
def label : Configuration → String
  | .typesLsh v b => hashLabel "T" v b
  | .embeddingsLsh v b => hashLabel "E" v b
  | .columnAggregated .types v b => hashLabel "TC" v b
  | .columnAggregated .embeddings v b => hashLabel "EC" v b
  | .bm25 field => "BM25 - " ++ field.name
  | .baseline .types => "B - Jaccard"
  | .baseline .embeddings => "B - Cosine"
  | .bm25Prefilter mode => "BM25 prefilter - " ++ mode.name

/-- whether the results depend on a vote threshold -/
def usesVote : Configuration → Bool
  | .typesLsh _ _ | .embeddingsLsh _ _ | .columnAggregated _ _ _ => true
  | _ => false

def scoreFormat : Configuration → ScoreFormat
  | .bm25 _ => .rankedRows
  | _ => .perQuery

/-- the numbers of vectors and band sizes that are compared -/
def standardSizes : List (Nat × Nat) := [(30, 10), (32, 8), (128, 8)]

/-- the variants that are compared unless others are named -/
def standardMatrix : List Configuration :=
  standardSizes.map (fun (v, b) => .typesLsh v b) ++
  standardSizes.map (fun (v, b) => .embeddingsLsh v b) ++
  standardSizes.map (fun (v, b) => .columnAggregated .types v b) ++
  standardSizes.map (fun (v, b) => .columnAggregated .embeddings v b) ++
  [.baseline .types, .baseline .embeddings, .bm25 .entities, .bm25 .text, .bm25Prefilter .types,
    .bm25Prefilter .embeddings]

/-- the place of a representation in the order of variants -/
def modeRank : Representation → Nat
  | .types => 0
  | .embeddings => 1

def fieldRank : QueryField → Nat
  | .entities => 0
  | .text => 1

/-- Variants are ordered by kind, then by their parameters. -/
def rank : Configuration → List Nat
  | .typesLsh v b => [0, v, b]
  | .embeddingsLsh v b => [1, v, b]
  | .columnAggregated mode v b => [2, modeRank mode, v, b]
  | .bm25 field => [3, fieldRank field]
  | .baseline mode => [4, modeRank mode]
  | .bm25Prefilter mode => [5, modeRank mode]

end Configuration

end RankEval
