/-
JSON numbers: their grammar, the whole numbers among them, and the quick reading as a double.

The quick reading takes the leading digits as a 64-bit whole number and multiplies or divides it by a power of ten. Each
of the two steps rounds, so that the result is not always the nearest double.
-/
import RankEval.Decimal.Numeral

namespace RankEval.Json

open Decimal (Numeral spanDigits exponent?)

/-- a number as it is written; `integral` iff it has neither a point nor an exponent -/
structure Number where
  numeral : Numeral
  integral : Bool
  deriving DecidableEq, Repr

namespace Number

/-- the part of a number after its whole digits -/
def tail? (negative : Bool) (whole : List Nat) : List Char → Option Number
  | '.' :: cs =>
    match spanDigits cs with
    | ([], _) => none
    | (fraction, rest) => (exponent? rest).map fun e => ⟨⟨negative, whole, fraction, e⟩, false⟩
  | rest => (exponent? rest).map fun e => ⟨⟨negative, whole, [], e⟩, rest.isEmpty⟩

/-- a whole text as a number: no leading zeros, and digits on both sides of a point -/
def ofChars? (cs : List Char) : Option Number :=
  let (negative, cs) := match cs with
    | '-' :: cs => (true, cs)
    | cs => (false, cs)
  match spanDigits cs with
  | ([], _) => none
  | (0 :: _ :: _, _) => none
  | (whole, rest) => tail? negative whole rest

/-- the number as a natural number below 2^64; `-0` is none -/
def toNat? (n : Number) : Option Nat :=
  let value := n.numeral.coefficient
  if n.integral && !n.numeral.negative && decide (value < Nat.pow 2 64) then some value else none

/-- 64-bit significand and power of ten while a number is read digit by digit -/
structure Scan where
  significand : Nat
  exponent : Int
  full : Bool
  deriving DecidableEq, Repr

/-- A digit before the point. From the first one that does not fit, every digit only raises the exponent. -/
def Scan.whole (s : Scan) (d : Nat) : Scan :=
  if s.full || decide (Nat.pow 2 64 ≤ s.significand * 10 + d) then { s with exponent := s.exponent + 1, full := true }
  else { s with significand := s.significand * 10 + d }

/-- A digit behind the point. From the first one that does not fit, the digits are ignored. -/
def Scan.fraction (s : Scan) (d : Nat) : Scan :=
  if s.full || decide (Nat.pow 2 64 ≤ s.significand * 10 + d) then { s with full := true }
  else { s with significand := s.significand * 10 + d, exponent := s.exponent - 1 }

/-- the significand and exponent of a numeral -/
def scan (n : Numeral) : Scan :=
  let whole := n.whole.foldl Scan.whole ⟨0, 0, false⟩
  n.fraction.foldl Scan.fraction { whole with full := false }

/-- the double nearest to `10^n` -/
def powerOfTen (n : Nat) : Float := (Decimal.nearest false 1 (Int.ofNat n)).toFloat

/-- Multiplies or divides by a power of ten. Tables of powers end at `10^308`: beyond it a positive number overflows, and
divisions by `10^308` follow each other until one power is left or the value is 0, which three divisions are enough
for. -/
def applyExponent : Nat → Float → Int → Option Float
  | 0, f, _ => some f
  | fuel + 1, f, e =>
    if e.natAbs ≤ 308 then
      if 0 ≤ e then
        let product := f * powerOfTen e.natAbs
        if product.isInf then none else some product
      else some (f / powerOfTen e.natAbs)
    else if f == 0.0 then some f
    else if 0 ≤ e then none
    else applyExponent fuel (f / powerOfTen 308) (e + 308)

/-- the least exponent that does not fit in 32 bits -/
def exponentLimit : Int := 2147483648

/-- The quick reading as a double; `none` if the number is too large. -/
def toFloat? (n : Number) : Option Float :=
  let s := scan n.numeral
  let magnitude :=
    if exponentLimit ≤ n.numeral.exponent.natAbs then
      if s.significand ≠ 0 ∧ 0 < n.numeral.exponent then none else some 0.0
    else applyExponent 8 (Float.ofNat s.significand) (s.exponent + n.numeral.exponent)
  magnitude.map fun f => if n.numeral.negative then -f else f

end Number

end RankEval.Json
