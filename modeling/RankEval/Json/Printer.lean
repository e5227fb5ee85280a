/-
Data as JSON text, laid out over lines with two blanks for every level. An empty list or record stays on its line.
-/
import RankEval.Document.Datum
import RankEval.Decimal.Layout

namespace RankEval.Json

/-- Numbers: positional from `1e-5` to below `1e16`, always with a point; a plus before other exponents. What is not
finite becomes `null`. -/
def numberLayout : Decimal.Layout where
  tie := .toEven
  positional := some (-5, 16)
  pointed := true
  plus := "+"
  nan := "null"
  infinity := "null"
  negativeInfinity := "null"

/-- a hexadecimal digit -/
def hexDigit (n : Nat) : Char := (Nat.digitChar n)

/-- a character of a string -/
def escapeChar (c : Char) : List Char :=
  if c = '"' then ['\\', '"']
  else if c = '\\' then ['\\', '\\']
  else if c = '\x08' then ['\\', 'b']
  else if c = '\x0c' then ['\\', 'f']
  else if c = '\n' then ['\\', 'n']
  else if c = '\r' then ['\\', 'r']
  else if c = '\t' then ['\\', 't']
  else if c.toNat < 0x20 then ['\\', 'u', '0', '0', hexDigit (c.toNat / 16), hexDigit (c.toNat % 16)]
  else [c]

/-- a string with its quotes -/
def quote (s : String) : List Char := '"' :: s.toList.flatMap escapeChar ++ ['"']

/-- a new line at some level -/
def newLine (level : Nat) : List Char := '\n' :: List.replicate (2 * level) ' '

mutual

/-- the text of data whose first line is already begun -/
def render (level : Nat) : Datum → List Char
  | .null => ['n', 'u', 'l', 'l']
  | .flag b => if b then ['t', 'r', 'u', 'e'] else ['f', 'a', 'l', 's', 'e']
  | .count n => Nat.toDigits 10 n
  | .number x => (numberLayout.text x).toList
  | .text s => quote s
  | .list [] => ['[', ']']
  | .list (x :: xs) =>
    '[' :: newLine (level + 1) ++ render (level + 1) x ++ renderItems (level + 1) xs ++ newLine level ++ [']']
  | .record [] => ['\x7b', '\x7d']
  | .record ((key, x) :: xs) =>
    '\x7b' :: newLine (level + 1) ++ quote key ++ ':' :: ' ' :: render (level + 1) x ++ renderMembers (level + 1) xs ++
      newLine level ++ ['\x7d']

/-- the items of a list behind the first -/
def renderItems (level : Nat) : List Datum → List Char
  | [] => []
  | x :: xs => ',' :: newLine level ++ render level x ++ renderItems level xs

/-- the members of a record behind the first -/
def renderMembers (level : Nat) : List (String × Datum) → List Char
  | [] => []
  | (key, x) :: xs =>
    ',' :: newLine level ++ quote key ++ ':' :: ' ' :: render level x ++ renderMembers level xs

end

/-- data as JSON text -/
def print (d : Datum) : String := String.ofList (render 0 d)

end RankEval.Json
