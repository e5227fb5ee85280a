/-
Doubles with a fixed number of decimal places. The exact value is rounded, a half going to the even neighbour, and the
sign stays even where the rest rounds to zero.
-/
import RankEval.Decimal.Layout

namespace RankEval.Decimal

/-- `m · 2^q` in units of `10^(-places)`, rounded -/
def inPlaces (places m : Nat) (q : Int) : Nat :=
  let s := Binary.scale (m * Nat.pow 10 places) 1 (-q)
  roundQuotient .toEven s.1 s.2

/-- a number of units of `10^(-places)`, for positive `places` -/
def placesText (places units : Nat) : List Char :=
  let part := Nat.toDigits 10 (units % Nat.pow 10 places)
  Nat.toDigits 10 (units / Nat.pow 10 places) ++ '.' :: zeros (places - part.length) ++ part

/-- the text of a double with `places` decimal places -/
def fixed (places : Nat) (x : Float) : String :=
  match Binary.ofFloat x with
  | .nan => "NaN"
  | .infinite negative => if negative then "-inf" else "inf"
  | .finite negative m q =>
    let magnitude := placesText places (inPlaces places m q)
    String.ofList (if negative then '-' :: magnitude else magnitude)

end RankEval.Decimal
