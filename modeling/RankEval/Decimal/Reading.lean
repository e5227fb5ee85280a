/-
Doubles as text: a numeral with digits on at least one side of the point, or the name of a value that no numeral has.
The result is the nearest double, and an infinity beyond the largest one.
-/
import RankEval.Decimal.Numeral

namespace RankEval.Decimal

/-- a numeral without a sign -/
def numeral? (negative : Bool) (cs : List Char) : Option Numeral :=
  let (whole, rest) := spanDigits cs
  let (fraction, rest) := match rest with
    | '.' :: rest => spanDigits rest
    | rest => ([], rest)
  if whole.isEmpty && fraction.isEmpty then none
  else (exponent? rest).map fun e => ⟨negative, whole, fraction, e⟩

/-- the value of a name, in small letters -/
def named? (negative : Bool) (cs : List Char) : Option Float :=
  let name := cs.map Char.toLower
  if name = ['n', 'a', 'n'] then some (Binary.toFloat .nan)
  else if name = ['i', 'n', 'f'] ∨ name = ['i', 'n', 'f', 'i', 'n', 'i', 't', 'y'] then
    some (Binary.toFloat (.infinite negative))
  else none

/-- a text without a sign as a double -/
def unsigned? (negative : Bool) (cs : List Char) : Option Float :=
  match numeral? negative cs with
  | some n => some n.toFloat
  | none => named? negative cs

/-- a text as a double -/
def float? : List Char → Option Float
  | '-' :: cs => unsigned? true cs
  | '+' :: cs => unsigned? false cs
  | cs => unsigned? false cs

end RankEval.Decimal
