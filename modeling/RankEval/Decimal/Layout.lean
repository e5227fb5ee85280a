/-
Texts of doubles. A `Layout` says how the shortest digits are set out: which magnitudes are written positionally, how
the rest show their exponent, and what stands for values that are no number.
-/
import RankEval.Decimal.Shortest
import RankEval.Decimal.Numeral

namespace RankEval.Decimal

/-- how a double is written -/
structure Layout where
  /-- which neighbour an exact tie between two shortest decimals goes to -/
  tie : Tie
  /-- `(a, b)`: written positionally iff the leading digit's power of ten is at least `a` and below `b`; `none`: always -/
  positional : Option (Int × Int)
  /-- whether a positional whole number ends in a point and a zero -/
  pointed : Bool
  /-- what stands before an exponent that is not negative -/
  plus : String
  nan : String
  infinity : String
  negativeInfinity : String
  deriving DecidableEq, Repr

/-- a number in decimal notation -/
def natText (n : Nat) : String := String.ofList (Nat.toDigits 10 n)

/-- a whole number with a minus sign if it is negative -/
def intText (n : Int) : String := if n < 0 then "-" ++ natText n.natAbs else natText n.natAbs

def zeros (n : Nat) : List Char := List.replicate n '0'

/-- the digits `ds`, the last of which stands for `10^e`, without an exponent -/
def positionalText (pointed : Bool) (ds : List Char) (e : Int) : List Char :=
  if 0 ≤ e then ds ++ zeros e.toNat ++ if pointed then ['.', '0'] else []
  else
    let places := (-e).toNat
    if places < ds.length then ds.take (ds.length - places) ++ '.' :: ds.drop (ds.length - places)
    else '0' :: '.' :: zeros (places - ds.length) ++ ds

/-- the digits `ds` with a point after the first one and an exponent -/
def exponentText (plus : String) (ds : List Char) (lead : Int) : List Char :=
  let mantissa := match ds with
    | [] => []
    | [d] => [d]
    | d :: rest => d :: '.' :: rest
  mantissa ++ 'e' :: (if lead < 0 then intText lead else plus ++ intText lead).toList

namespace Layout

/-- the text of the positive number `d · 10^e` -/
def magnitudeText (l : Layout) (d : Nat) (e : Int) : List Char :=
  let ds := Nat.toDigits 10 d
  let lead := e + Int.ofNat ds.length - 1
  let isPositional := match l.positional with
    | none => true
    | some (least, bound) => decide (least ≤ lead) && decide (lead < bound)
  if isPositional then positionalText l.pointed ds e else exponentText l.plus ds lead

def binaryText (l : Layout) : Binary → String
  | .nan => l.nan
  | .infinite negative => if negative then l.negativeInfinity else l.infinity
  | .finite negative m q =>
    let magnitude :=
      if m = 0 then positionalText l.pointed ['0'] 0
      else
        let s := shortest l.tie m q
        l.magnitudeText s.1 s.2
    String.ofList (if negative then '-' :: magnitude else magnitude)

/-- the text of a double -/
def text (l : Layout) (x : Float) : String := l.binaryText (Binary.ofFloat x)

end Layout

/-- Plain notation: never an exponent, and no point after a whole number. -/
def plain : Layout where
  tie := .up
  positional := none
  pointed := false
  plus := ""
  nan := "NaN"
  infinity := "inf"
  negativeInfinity := "-inf"

/-- Compact notation: positional from `1e-4` to below `1e16`, always with a point. -/
def compact : Layout where
  tie := .up
  positional := some (-4, 16)
  pointed := true
  plus := ""
  nan := "NaN"
  infinity := "inf"
  negativeInfinity := "-inf"

end RankEval.Decimal
