/-
Mean and standard deviation of a list of values.
-/
import RankEval.Arithmetic

namespace RankEval.Report

variable {R : Type} [Arithmetic R]

/-- the sum of the values over their number -/
def mean (values : List R) : R := Arithmetic.total values / Arithmetic.ofNat values.length

/-- the root of the mean squared distance from the mean -/
def deviation (values : List R) : R :=
  let centre := mean values
  Arithmetic.sqrt (Arithmetic.total (values.map fun v => (v - centre) * (v - centre)) / Arithmetic.ofNat values.length)

/-- The values of one metric. Mean and deviation are absent where there are no values. -/
structure FieldSummary (R : Type) where
  mean : Option R
  deviation : Option R
  count : Nat
  values : List R
  deriving DecidableEq

namespace FieldSummary

def ofValues (values : List R) : FieldSummary R :=
  if values.isEmpty then ⟨none, none, 0, []⟩
  else ⟨some (Report.mean values), some (Report.deviation values), values.length, values⟩

end FieldSummary

end RankEval.Report
