/-
JSON files that hold a value of a known shape; and relevance by name: objects from titles or tables to numbers, in the
order of their keys.
-/
import RankEval.Decimal.Layout
import RankEval.Failure
import RankEval.Json.Document

namespace RankEval.Inputs

/-- the value that a JSON file holds -/
def jsonFile {α : Type} (read : Json.Place → Option α) (path : FilePath) : Attempt α := do
  let text ← Attempt.text path
  match Json.decode? read text with
  | some value => return value
  | none => throw (.malformed path .shape)

/-- names with their relevance -/
abbrev Judgments := List (String × Float)

/-- the judgments in a file -/
def judgments (path : FilePath) : Attempt Judgments := jsonFile (Json.mapOf? Document.float?) path

/-- the scores of the titles that are related to a page, from the file of its number -/
def relatedTitles (directory : FilePath) (page : Nat) : Attempt Judgments :=
  judgments (Path.join directory (Decimal.natText page ++ ".json"))

end RankEval.Inputs
