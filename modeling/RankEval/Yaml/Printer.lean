/-
Data as YAML text. Records are block mappings and lists block sequences that are not indented under their key; an empty
list stays on its line. A text is written plain where that reads back as the same text, and otherwise in quotes or, with
line feeds in it, as a literal block.
-/
import RankEval.Decimal.Layout
import RankEval.Document.Datum
import RankEval.Yaml.Cursor
import RankEval.Yaml.Scalar

namespace RankEval.Yaml

/-- Numbers: positional from `1e-5` to below `1e16`, always with a point. -/
def numberLayout : Decimal.Layout where
  tie := .toEven
  positional := some (-5, 16)
  pointed := true
  plus := ""
  nan := ".nan"
  infinity := ".inf"
  negativeInfinity := "-.inf"

/-! ## Texts -/

/-- characters that can be written as they are -/
def isPrintable (c : Char) : Bool :=
  let n := c.toNat
  n == 0xA || (0x20 ≤ n && n ≤ 0x7E) || (0xA0 ≤ n && n ≤ 0xD7FF) || (0xE000 ≤ n && n ≤ 0xFFFD && n != 0xFEFF) ||
    0x10000 ≤ n

/-- whether a character of one class stands right before one of another -/
def hasPair (p q : Char → Bool) (cs : List Char) : Bool := (cs.zip cs.tail).any fun (a, b) => p a && q b

def isSpace (c : Char) : Bool := c == ' '

/-- whether a text has a mark in it that a plain scalar must not have; `spaced` if a gap stands before `cs` -/
def hasInnerMark (spaced : Bool) : List Char → Bool
  | [] => false
  | c :: rest =>
    (c == ':' && atGap rest) || (c == '#' && spaced) || hasInnerMark (isBlank c || isBreak c) rest

/-- characters that a plain scalar must not start with -/
def isStartMark (c : Char) : Bool :=
  ['#', ',', '[', ']', '\x7b', '\x7d', '&', '*', '!', '|', '>', '\'', '"', '%', '@', '\x60'].contains c

/-- whether a plain scalar could be taken for something else -/
def hasMark (cs : List Char) : Bool :=
  cs.take 3 == ['-', '-', '-'] || cs.take 3 == ['.', '.', '.'] || hasInnerMark false cs || match cs with
    | [] => false
    | c :: rest => isStartMark c || ((c == '-' || c == '?' || c == ':') && atGap rest)

/-- whether blanks or breaks stand at the ends of a text -/
def hasLooseEnd (cs : List Char) : Bool :=
  let loose (c : Char) : Bool := isSpace c || isBreak c
  cs.head?.any loose || cs.getLast?.any loose

def plainAllowed (cs : List Char) : Bool :=
  cs.all isPrintable && !cs.any isBreak && !hasLooseEnd cs && !hasMark cs

def singleAllowed (cs : List Char) : Bool :=
  cs.all isPrintable && !hasPair isSpace isBreak cs && !hasPair isBreak isSpace cs

def literalAllowed (cs : List Char) : Bool :=
  cs.all isPrintable && !hasPair isSpace isBreak cs && !cs.getLast?.any isSpace

def spaces (n : Nat) : List Char := List.replicate n ' '

/-- the lines of a text, each indented where it is not empty; `fresh` at the start of a line -/
def indented (column : Nat) (fresh : Bool) : List Char → List Char
  | [] => []
  | c :: rest =>
    if isBreak c then c :: indented column true rest
    else (if fresh then spaces column else []) ++ c :: indented column false rest

/-- a digit in hexadecimal, with capital letters -/
def hexDigit (n : Nat) : Char := (Nat.digitChar n).toUpper

/-- `width` digits of a number in hexadecimal -/
def hexDigits (width n : Nat) : List Char :=
  (List.range width).map fun i => hexDigit (n / Nat.pow 16 (width - 1 - i) % 16)

/-- a character between double quotes -/
def escapeChar (c : Char) : List Char :=
  let n := c.toNat
  if isPrintable c && !isBreak c && c != '"' && c != '\\' then [c]
  else if n = 0 then ['\\', '0']
  else if n = 7 then ['\\', 'a']
  else if n = 8 then ['\\', 'b']
  else if n = 9 then ['\\', 't']
  else if n = 10 then ['\\', 'n']
  else if n = 11 then ['\\', 'v']
  else if n = 12 then ['\\', 'f']
  else if n = 13 then ['\\', 'r']
  else if n = 0x1B then ['\\', 'e']
  else if c = '"' then ['\\', '"']
  else if c = '\\' then ['\\', '\\']
  else if n = 0x85 then ['\\', 'N']
  else if n = 0x2028 then ['\\', 'L']
  else if n = 0x2029 then ['\\', 'P']
  else if n < 0x100 then '\\' :: 'x' :: hexDigits 2 n
  else if n < 0x10000 then '\\' :: 'u' :: hexDigits 4 n
  else '\\' :: 'U' :: hexDigits 8 n

def doubleQuoted (cs : List Char) : List Char := '"' :: cs.flatMap escapeChar ++ ['"']

/-- a quote is written twice; a line after a break is indented, and so is the closing quote -/
def singleQuoted (column : Nat) (cs : List Char) : List Char :=
  let body := indented column false (cs.flatMap fun c => if c = '\'' then ['\'', '\''] else [c])
  '\'' :: body ++ (if cs.getLast?.any isBreak then spaces column else []) ++ ['\'']

/-- the marks behind the bar of a literal block: an indentation where the first line starts with a blank, and what
becomes of the breaks at the end -/
def literalHints (cs : List Char) : List Char :=
  let loose := cs.head?.any fun c => isSpace c || isBreak c
  let chomping := match cs.reverse with
    | [] => ['-']
    | [last] => if isBreak last then ['+'] else ['-']
    | last :: before :: _ => if !isBreak last then ['-'] else if isBreak before then ['+'] else []
  (if loose then ['2'] else []) ++ chomping

/-- a literal block below column `column`, up to the end of its last line -/
def literalBlock (column : Nat) (cs : List Char) : List Char :=
  '|' :: literalHints cs ++ '\n' :: indented column true cs ++ if cs.getLast?.any isBreak then [] else ['\n']

/-- a text in quotes -/
def quoted (column : Nat) (cs : List Char) : List Char :=
  if singleAllowed cs then singleQuoted column cs else doubleQuoted cs

/-- a text as a scalar, up to the end of its last line; its lines are indented to `column` -/
def textScalar (column : Nat) (s : String) : List Char :=
  let cs := s.toList
  if cs.contains '\n' then if literalAllowed cs then literalBlock column cs else doubleQuoted cs ++ ['\n']
  else if !Scalar.isText s || Scalar.isPadded cs then quoted column cs ++ ['\n']
  else if plainAllowed cs then cs ++ ['\n']
  else quoted column cs ++ ['\n']

/-! ## Data -/

/-- what needs no lines of its own, up to the end of its line; `column` is that of the collection around it -/
def scalar (column : Nat) : Datum → List Char
  | .null => ['n', 'u', 'l', 'l', '\n']
  | .flag b => (if b then ['t', 'r', 'u', 'e'] else ['f', 'a', 'l', 's', 'e']) ++ ['\n']
  | .count n => Nat.toDigits 10 n ++ ['\n']
  | .number x => (numberLayout.text x).toList ++ ['\n']
  | .text s => textScalar (column + 2) s
  | .list _ => ['[', ']', '\n']
  | .record _ => ['\x7b', '\x7d', '\n']

mutual

/-- a value behind its key; the keys stand at `column` -/
def renderValue (column : Nat) : Datum → List Char
  | .record (m :: ms) => '\n' :: renderMembers (column + 2) false (m :: ms)
  | .list (x :: xs) => '\n' :: renderItems column false (x :: xs)
  | d => ' ' :: scalar column d

/-- an item behind its dash, which stands at `column` -/
def renderItem (column : Nat) : Datum → List Char
  | .record (m :: ms) => renderMembers (column + 2) true (m :: ms)
  | .list (x :: xs) => renderItems (column + 2) true (x :: xs)
  | d => scalar column d

/-- members at `column`; the first one is `inline` behind a dash -/
def renderMembers (column : Nat) (inline : Bool) : List (String × Datum) → List Char
  | [] => []
  | (key, d) :: rest =>
    (if inline then [] else spaces column) ++ key.toList ++ ':' :: renderValue column d ++
      renderMembers column false rest

/-- items at `column` -/
def renderItems (column : Nat) (inline : Bool) : List Datum → List Char
  | [] => []
  | d :: rest =>
    (if inline then [] else spaces column) ++ '-' :: ' ' :: renderItem column d ++ renderItems column false rest

end

/-- data as YAML text -/
def print : Datum → String
  | .record (m :: ms) => String.ofList (renderMembers 0 false (m :: ms))
  | .list (x :: xs) => String.ofList (renderItems 0 false (x :: xs))
  | d => String.ofList (scalar 0 d)

end RankEval.Yaml
