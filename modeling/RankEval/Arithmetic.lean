/-
The number systems in which a metric is computed. A metric is written once, over any `Arithmetic R`; doubles are one
instance, and a statement about exact values uses the same definition at another one.

- `Arithmetic.total`: a sum, added from left to right.
- `total_append_singleton`: one more summand.
-/

namespace RankEval

/-- the operations that a metric is built from -/
class Arithmetic (R : Type) extends Add R, Sub R, Mul R, Div R where
  /-- a count as a number -/
  ofNat : Nat → R
  /-- a measured value as a number -/
  ofFloat : Float → R
  /-- what a sum starts from: the neutral element of addition -/
  nothing : R
  sqrt : R → R

namespace Arithmetic

/-- Doubles. A sum starts from negative zero: it alone leaves every double, negative zero included, unchanged. -/
instance : Arithmetic Float where
  ofNat := Float.ofNat
  ofFloat x := x
  nothing := -0.0
  sqrt := Float.sqrt

variable {R : Type} [Arithmetic R]

/-- the sum of a list, added from left to right -/
def total (xs : List R) : R := xs.foldl (· + ·) nothing

theorem total_append_singleton (xs : List R) (x : R) : total (xs ++ [x]) = total xs + x := by
  simp [total]

/-- one count over another; nothing out of nothing is 0 -/
def ratio (R : Type) [Arithmetic R] (part whole : Nat) : R :=
  if whole = 0 then ofNat 0 else ofNat part / ofNat whole

end Arithmetic

end RankEval
