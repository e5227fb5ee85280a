/-
Exact numbers in place of doubles: every metric that is written over an `Arithmetic` can be read in the rationals, where
nothing is rounded, or in the reals, where there are also all roots and logarithms.

- `total_eq_sum`, `total_eq_sum_real`: a sum from left to right is the sum.
-/
import Mathlib
import RankEval.Arithmetic

namespace RankEval

namespace Double

open Float.Model (UnpackedFloat)

/-- the rational number that a value stands for; 0 if it stands for none -/
def valueOf : UnpackedFloat → ℚ
  | .finite sign m e _ => sign.apply m * 2 ^ e
  | _ => 0

/-- the rational number that a finite double stands for -/
def value (x : Float) : ℚ := valueOf x.toModel.unpack

end Double

namespace Arithmetic

/-- Rationals. Only roots are not exact, unless they are rational. -/
instance : Arithmetic ℚ where
  ofNat n := n
  ofFloat := Double.value
  nothing := 0
  sqrt := Rat.sqrt

/-- Reals. Nothing is rounded. -/
noncomputable instance : Arithmetic ℝ where
  ofNat n := n
  ofFloat x := Double.value x
  nothing := 0
  sqrt := Real.sqrt

theorem total_eq_sum (xs : List ℚ) : total xs = xs.sum := List.sum_eq_foldl.symm

theorem total_eq_sum_real (xs : List ℝ) : total xs = xs.sum := List.sum_eq_foldl.symm

end Arithmetic

end RankEval
