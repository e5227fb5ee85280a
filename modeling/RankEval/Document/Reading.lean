/-
Typed reading of a parsed file, whatever its format. A `Document` is a place in such a file; each of its functions says
whether there is a value of one kind there. Records are read field by field with `Fields`.
-/
import RankEval.Document.Content

namespace RankEval

/-- the fields of a record: by name, or in the order in which the record declares them -/
inductive Fields (D : Type) where
  | named (members : List (String × D))
  | placed (items : List D)

/-- a format's rules for reading values -/
class Document (D : Type) where
  /-- a natural number below 2^64 -/
  nat? : D → Option Nat
  float? : D → Option Float
  text? : D → Option String
  bool? : D → Option Bool
  /-- `some none` where there is nothing -/
  present? : D → Option (Option D)
  items? : D → Option (List D)
  fields? : D → Option (Fields D)
  /-- the name of a variant that has no fields -/
  variant? : D → Option String
  /-- a variant with fields, its name standing under a key or before the others -/
  tagged? : (key : String) → D → Option Tagged

namespace Document

variable {D α : Type} [Document D]

/-- a natural number below 2^32 -/
def small? (d : D) : Option Nat := (nat? d).filter fun n => decide (n < Nat.pow 2 32)

/-- a list of values of one kind -/
def listOf? (read : D → Option α) (d : D) : Option (List α) := (items? d).bind fun items => items.mapM read

/-- a value that may be missing -/
def optional? (read : D → Option α) (d : D) : Option (Option α) :=
  match present? d with
  | none => none
  | some none => some none
  | some (some d) => (read d).map some

/-- one of some variants without fields -/
def choice? (choices : List (String × α)) (d : D) : Option α := (variant? d).bind fun name => choices.lookup name

end Document

/-- reads some fields of a record; what it has not yet read is its state -/
abbrev FieldReader (D α : Type) := StateT (Fields D) Option α

namespace FieldReader

variable {D α : Type}

/-- A field: `some none` if it is not there. A name that stands twice is an error. -/
def find (name : String) : FieldReader D (Option D)
  | .named members =>
    match members.filter fun m => m.1 == name with
    | [] => some (none, .named members)
    | [m] => some (some m.2, .named members)
    | _ => none
  | .placed [] => some (none, .placed [])
  | .placed (d :: rest) => some (some d, .placed rest)

/-- a field that must be there -/
def required (name : String) (read : D → Option α) : FieldReader D α := do
  let some d ← find name | failure
  StateT.lift (read d)

/-- a field that stands for `value` where it is not there -/
def withDefault (value : α) (name : String) (read : D → Option α) : FieldReader D α := do
  match ← find name with
  | some d => StateT.lift (read d)
  | none => return value

/-- A field whose value may be missing. It may also not be there, but only where fields have names. -/
def optional [Document D] (name : String) (read : D → Option α) : FieldReader D (Option α) := do
  match ← find name with
  | some d => StateT.lift (Document.optional? read d)
  | none =>
    match ← get with
    | .named _ => return none
    | .placed _ => failure

end FieldReader

/-- reads a record; fields that no one asked for are ignored where they have names, and an error otherwise -/
def Document.record? {D α : Type} [Document D] (reader : FieldReader D α) (d : D) : Option α := do
  let fields ← Document.fields? d
  match ← reader fields with
  | (value, .named _) => some value
  | (value, .placed []) => some value
  | _ => none

end RankEval
