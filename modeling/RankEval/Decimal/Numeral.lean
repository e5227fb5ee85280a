/-
Decimal numerals as they are written (sign, digits before and after the point, power of ten) and the double they stand
for: the nearest one, a tie going to the even significand.
-/
import RankEval.Decimal.Binary

namespace RankEval.Decimal

/-- the value of a list of digits, most significant first -/
def ofDigits (ds : List Nat) : Nat := ds.foldl (fun n d => 10 * n + d) 0

/-- the value of a decimal digit -/
def digitValue (c : Char) : Nat := c.toNat - '0'.toNat

/-- the digits that a text starts with, and the rest of it -/
def spanDigits (cs : List Char) : List Nat × List Char :=
  ((cs.takeWhile Char.isDigit).map digitValue, cs.dropWhile Char.isDigit)

/-- A text that is nothing but an exponent: `e` or `E`, a sign or none, and digits. The empty text is exponent 0. -/
def exponent? : List Char → Option Int
  | [] => some 0
  | c :: cs =>
    if c = 'e' ∨ c = 'E' then
      let (negative, ds) := match cs with
        | '+' :: ds => (false, ds)
        | '-' :: ds => (true, ds)
        | ds => (false, ds)
      match spanDigits ds with
      | (d :: rest, []) => some (if negative then -Int.ofNat (ofDigits (d :: rest)) else Int.ofNat (ofDigits (d :: rest)))
      | _ => none
    else none

/-- the double nearest to `c · 10^e`. Far beyond the range of doubles the power of ten is not computed:
`10^400` overflows, and `c · 10^e < 10^(log2 c + 1 + e)`. -/
def nearest (negative : Bool) (c : Nat) (e : Int) : Binary :=
  if c = 0 then .finite negative 0 Binary.leastExponent
  else if 400 < e then .infinite negative
  else if e + Int.ofNat c.log2 < -400 then .finite negative 0 Binary.leastExponent
  else if 0 ≤ e then Binary.nearest negative (c * Nat.pow 10 e.toNat) 1
  else Binary.nearest negative c (Nat.pow 10 (-e).toNat)

/-- a decimal numeral; `exponent` is the power of ten it is multiplied by -/
structure Numeral where
  negative : Bool
  whole : List Nat
  fraction : List Nat
  exponent : Int
  deriving DecidableEq, Repr

namespace Numeral

def coefficient (n : Numeral) : Nat := ofDigits (n.whole ++ n.fraction)

/-- the power of ten of the last digit -/
def scale (n : Numeral) : Int := n.exponent - Int.ofNat n.fraction.length

/-- the nearest double -/
def toFloat (n : Numeral) : Float := (nearest n.negative n.coefficient n.scale).toFloat

end Numeral

end RankEval.Decimal
