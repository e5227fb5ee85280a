/-
A value whose kind is not known in advance, kept until it is: what stands beside the name of a variant.
-/

namespace RankEval

/-- Kept values. Numbers other than natural ones and truth values are told apart from the rest, but not from each
other: no variant has a field of such a kind. -/
inductive Content where
  | null
  | nat (n : Nat)
  | text (s : String)
  | other
  | list (items : List Content)
  | map (entries : List (Content × Content))

namespace Content

/-- a natural number below `bound` -/
def nat? (bound : Nat) : Content → Option Nat
  | .nat n => if n < bound then some n else none
  | _ => none

/-- the one of some names that a value gives, by the name itself or by its place among them -/
def pick? (names : List String) : Content → Option String
  | .text s => if names.contains s then some s else none
  | .nat n => names[n]?
  | _ => none

/-- whether a value stands for nothing at all -/
def isUnit : Content → Bool
  | .null => true
  | .map [] => true
  | _ => false

/-- A variant without fields: its name, or a map from its name to nothing. -/
def variant? (names : List String) : Content → Option String
  | .text s => pick? names (.text s)
  | .map [(key, value)] => if value.isUnit then pick? names key else none
  | _ => none

end Content

/-- the fields of a variant, by name or in order -/
inductive TaggedFields where
  | named (entries : List (Content × Content))
  | placed (items : List Content)

/-- the name of a variant and its fields -/
structure Tagged where
  variant : String
  fields : TaggedFields

namespace TaggedFields

/-- whether a key means the field `name`, the one at some place of a variant; `none` if it cannot be a key -/
def keyMeans? (names : List String) (name : String) : Content → Option Bool
  | .text s => some (s == name)
  | .nat n => some (names[n]? == some name)
  | _ => none

/-- the value of each field, in the order of `names`; a field without a value, or with two, is an error -/
def values? (names : List String) : TaggedFields → Option (List Content)
  | .placed items => if items.length = names.length then some items else none
  | .named entries => names.mapM fun name => do
    let hits ← entries.filterMapM fun (key, value) =>
      (keyMeans? names name key).map fun hit => if hit then some value else none
    match hits with
    | [value] => some value
    | _ => none

end TaggedFields

end RankEval
