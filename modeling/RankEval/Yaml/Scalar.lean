/-
What plain scalars stand for: nothing, truth values, numbers, or their own text.
-/
import RankEval.Decimal.Reading

namespace RankEval.Yaml.Scalar

def isNull (s : String) : Bool := s == "~" || s == "null" || s == "Null" || s == "NULL"

def bool? (s : String) : Option Bool :=
  if s == "true" || s == "True" || s == "TRUE" then some true
  else if s == "false" || s == "False" || s == "FALSE" then some false
  else none

/-- the value of a digit of some base -/
def digit? (base : Nat) (c : Char) : Option Nat :=
  let v :=
    if c.isDigit then c.toNat - '0'.toNat
    else if 'a' ≤ c ∧ c ≤ 'z' then c.toNat - 'a'.toNat + 10
    else if 'A' ≤ c ∧ c ≤ 'Z' then c.toNat - 'A'.toNat + 10
    else base
  if v < base then some v else none

/-- digits of some base, at least one -/
def inBase? (base : Nat) (cs : List Char) : Option Nat :=
  if cs.isEmpty then none
  else cs.foldlM (fun n c => (digit? base c).map fun d => base * n + d) 0

/-- whether a text is a zero with more digits behind it, with or without a sign; it is no number -/
def isPadded (cs : List Char) : Bool :=
  let ds := match cs with
    | '+' :: ds => ds
    | '-' :: ds => ds
    | ds => ds
  match ds with
  | '0' :: rest => !rest.isEmpty && rest.all Char.isDigit
  | _ => false

/-- digits with or without the prefix of a base; a sign does not belong to them -/
def magnitude? (padded : Bool) (cs : List Char) : Option Nat :=
  let based := match cs with
    | '0' :: 'x' :: ds => inBase? 16 ds
    | '0' :: 'o' :: ds => inBase? 8 ds
    | '0' :: 'b' :: ds => inBase? 2 ds
    | _ => none
  match based with
  | some n => some n
  | none => if padded then none else inBase? 10 cs

/-- a whole number that is not negative, with a plus or without -/
def nat? (s : String) : Option Nat :=
  let cs := s.toList
  magnitude? (isPadded cs) (match cs with
    | '+' :: ds => ds
    | ds => ds)

/-- a whole number with a minus before it -/
def negative? (s : String) : Option Nat :=
  let cs := s.toList
  match cs with
  | '-' :: ds => magnitude? (isPadded cs) ds
  | _ => none

/-- a finite double in decimal notation, an infinity or a value that is no number -/
def float? (s : String) : Option Float :=
  if s == ".inf" || s == ".Inf" || s == ".INF" || s == "+.inf" || s == "+.Inf" || s == "+.INF" then
    some (Decimal.Binary.toFloat (.infinite false))
  else if s == "-.inf" || s == "-.Inf" || s == "-.INF" then some (Decimal.Binary.toFloat (.infinite true))
  else if s == ".nan" || s == ".NaN" || s == ".NAN" then some (Decimal.Binary.toFloat .nan)
  else
    let cs := match s.toList with
      | '+' :: '+' :: _ => []
      | '+' :: '-' :: _ => []
      | '+' :: cs => cs
      | cs => cs
    (Decimal.float? cs).filter Float.isFinite

/-- A whole number of at most 128 bits: whether it has a minus, and its magnitude. -/
def whole? (s : String) : Option (Bool × Nat) :=
  match (nat? s).filter fun n => decide (n < Nat.pow 2 128) with
  | some n => some (false, n)
  | none => ((negative? s).filter fun n => decide (n ≤ Nat.pow 2 127)).map fun n => (true, n)

/-- what a plain scalar stands for -/
inductive Meaning where
  | null
  | bool (b : Bool)
  | whole (negative : Bool) (n : Nat)
  | float (x : Float)
  | text

/-- the meaning of a plain scalar -/
def meaning (s : String) : Meaning :=
  if s.isEmpty || isNull s then .null
  else match bool? s with
    | some b => .bool b
    | none =>
      match whole? s with
      | some (negative, n) => .whole negative n
      | none =>
        if isPadded s.toList then .text
        else match float? s with
          | some x => .float x
          | none => .text

/-- whether a plain scalar is read as its own text -/
def isText (s : String) : Bool :=
  match meaning s with
  | .text => true
  | _ => false

end RankEval.Yaml.Scalar
