/-
Texts: the lines of a text and the parts of a line, blanks around them, and natural numbers below 2^64.

The blanks are the characters with the Unicode property White_Space.
-/
import RankEval.Decimal.Numeral

namespace RankEval.Text

/-- the parts between the occurrences of a character -/
def splitAt (sep : Char) (cs : List Char) : List (List Char) :=
  cs.foldr (fun c parts => if c = sep then [] :: parts else match parts with
    | part :: rest => (c :: part) :: rest
    | [] => [[c]]) [[]]

/-- drops a carriage return at the end -/
def dropReturn (cs : List Char) : List Char :=
  match cs.reverse with
  | '\r' :: rest => rest.reverse
  | _ => cs

/-- The parts that end in a line feed lose a carriage return before it. What follows the last line feed is a line as it
is, and none if it is empty. -/
def finishLines : List (List Char) → List (List Char)
  | [] => []
  | [last] => if last.isEmpty then [] else [last]
  | part :: rest => dropReturn part :: finishLines rest

/-- the lines of a text -/
def lines (cs : List Char) : List (List Char) := finishLines (splitAt '\n' cs)

/-- the ranges of the property White_Space -/
def blankRanges : List (Nat × Nat) :=
  [(0x9, 0xD), (0x20, 0x20), (0x85, 0x85), (0xA0, 0xA0), (0x1680, 0x1680), (0x2000, 0x200A), (0x2028, 0x2029),
    (0x202F, 0x202F), (0x205F, 0x205F), (0x3000, 0x3000)]

def isBlank (c : Char) : Bool := blankRanges.any fun (first, last) => decide (first ≤ c.toNat) && decide (c.toNat ≤ last)

/-- a text without the blanks at its ends -/
def trim (cs : List Char) : List Char := ((cs.dropWhile isBlank).reverse.dropWhile isBlank).reverse

/-- Digits, a plus before them or not. -/
def count? (cs : List Char) : Option Nat :=
  let ds := match cs with
    | '+' :: ds => ds
    | ds => ds
  match Decimal.spanDigits ds with
  | (d :: rest, []) =>
    let n := Decimal.ofDigits (d :: rest)
    if n < Nat.pow 2 64 then some n else none
  | _ => none

end RankEval.Text
