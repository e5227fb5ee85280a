/-
Data as it is written to a file: the value of a report or a setting before a format gives it a text.
-/

namespace RankEval

/-- what a file format can write -/
inductive Datum where
  | null
  | flag (b : Bool)
  | count (n : Nat)
  | number (x : Float)
  | text (s : String)
  | list (items : List Datum)
  | record (members : List (String × Datum))

namespace Datum

/-- a value that may be missing -/
def optional {α : Type} (f : α → Datum) : Option α → Datum
  | none => null
  | some x => f x

/-- a list of values of one kind -/
def listOf {α : Type} (f : α → Datum) (xs : List α) : Datum := list (xs.map f)

end Datum

end RankEval
