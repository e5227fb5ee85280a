/-
How engine variants and keys are read from files and written to them.
-/
import RankEval.Engine.Key
import RankEval.Document.Datum
import RankEval.Document.Reading

namespace RankEval

namespace Representation

def choices : List (String × Representation) := [("types", .types), ("embeddings", .embeddings)]

def datum (mode : Representation) : Datum := .text mode.name

end Representation

namespace QueryField

def choices : List (String × QueryField) := [("entities", .entities), ("text", .text)]

def datum (field : QueryField) : Datum := .text field.name

end QueryField

namespace Configuration

/-- a parameter of a hashing variant -/
def size? : Content → Option Nat := Content.nat? (Nat.pow 2 32)

/-- one of some names -/
def choice? {α : Type} (choices : List (String × α)) (c : Content) : Option α :=
  (c.variant? (choices.map Prod.fst)).bind fun name => choices.lookup name

/-- the two parameters of a hashing variant -/
def hashing? (make : Nat → Nat → Configuration) (fields : TaggedFields) : Option Configuration := do
  let [v, b] ← fields.values? ["vectors", "band_size"] | none
  return make (← size? v) (← size? b)

/-- the single field of a variant -/
def single? {α : Type} (name : String) (choices : List (String × α)) (make : α → Configuration)
    (fields : TaggedFields) : Option Configuration := do
  let [c] ← fields.values? [name] | none
  return make (← choice? choices c)

def ofTagged? (t : Tagged) : Option Configuration :=
  if t.variant = "types_lsh" then hashing? .typesLsh t.fields
  else if t.variant = "embeddings_lsh" then hashing? .embeddingsLsh t.fields
  else if t.variant = "column_aggregated" then do
    let [m, v, b] ← t.fields.values? ["mode", "vectors", "band_size"] | none
    return .columnAggregated (← choice? Representation.choices m) (← size? v) (← size? b)
  else if t.variant = "bm25" then single? "field" QueryField.choices .bm25 t.fields
  else if t.variant = "baseline" then single? "mode" Representation.choices .baseline t.fields
  else if t.variant = "bm25_prefilter" then single? "mode" Representation.choices .bm25Prefilter t.fields
  else none

/-- reads a variant: its kind stands under `kind`, or before its fields -/
def read? {D : Type} [Document D] (d : D) : Option Configuration := (Document.tagged? "kind" d).bind ofTagged?

def datum : Configuration → Datum
  | .typesLsh v b => .record [("kind", .text "types_lsh"), ("vectors", .count v), ("band_size", .count b)]
  | .embeddingsLsh v b => .record [("kind", .text "embeddings_lsh"), ("vectors", .count v), ("band_size", .count b)]
  | .columnAggregated mode v b =>
    .record [("kind", .text "column_aggregated"), ("mode", mode.datum), ("vectors", .count v), ("band_size", .count b)]
  | .bm25 field => .record [("kind", .text "bm25"), ("field", field.datum)]
  | .baseline mode => .record [("kind", .text "baseline"), ("mode", mode.datum)]
  | .bm25Prefilter mode => .record [("kind", .text "bm25_prefilter"), ("mode", mode.datum)]

end Configuration

namespace EvaluationKey

variable {D : Type} [Document D]

def fields : FieldReader D EvaluationKey := do
  return {
    configuration := ← .required "configuration" Configuration.read?
    tuples := ← .required "tuples" Document.small?
    k := ← .required "k" Document.nat?
    vote := ← .required "vote" Document.small?
  }

def read? : D → Option EvaluationKey := Document.record? fields

def datum (key : EvaluationKey) : Datum :=
  .record [("configuration", key.configuration.datum), ("tuples", .count key.tuples), ("k", .count key.k),
    ("vote", .count key.vote)]

end EvaluationKey

end RankEval
