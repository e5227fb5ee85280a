/-
What is evaluated: an engine variant with the number of query tuples, the cutoff and the vote threshold it was run with;
its order and its text.
-/
import RankEval.Engine.Configuration
import RankEval.Files.Path

namespace RankEval

open Decimal (natText)

structure EvaluationKey where
  configuration : Configuration
  tuples : Nat
  k : Nat
  vote : Nat
  deriving DecidableEq, Repr

namespace EvaluationKey

/-- keys are ordered by variant, tuples, cutoff and vote -/
def rank (key : EvaluationKey) : List Nat := key.configuration.rank ++ [key.tuples, key.k, key.vote]

instance : Ord EvaluationKey := ⟨compareOn rank⟩

/-- the text of a key -/
def text (key : EvaluationKey) : String :=
  key.configuration.label ++ " | vote=" ++ natText key.vote ++ " tuples=" ++ natText key.tuples ++ " k=" ++
    natText key.k

/-- the name of a query in paths and reports -/
def queryName (page : Nat) : String := "wikipage_" ++ natText page

end EvaluationKey

end RankEval
