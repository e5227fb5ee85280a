/-
Places in a YAML text, and the classes of characters that the tokens are made of.
-/

namespace RankEval.Yaml

/-! ## Characters -/

/-- characters that may stand in a YAML text at all -/
def isAllowed (c : Char) : Bool :=
  let n := c.toNat
  n == 0x9 || n == 0xA || n == 0xD || (0x20 ≤ n && n ≤ 0x7E) || n == 0x85 || (0xA0 ≤ n && n ≤ 0xD7FF) ||
    (0xE000 ≤ n && n ≤ 0xFFFD) || 0x10000 ≤ n

def isBreak (c : Char) : Bool :=
  c == '\n' || c == '\r' || c == '\u0085' || c == '\u2028' || c == '\u2029'

def isBlank (c : Char) : Bool := c == ' ' || c == '\t'

/-- whether a text starts with a blank or a break, or is over -/
def atGap : List Char → Bool
  | [] => true
  | c :: _ => isBlank c || isBreak c

/-- characters of names -/
def isWord (c : Char) : Bool := c.isAlphanum || c == '_' || c == '-'

/-- the characters that enclose and divide flow collections -/
def isFlowMark (c : Char) : Bool := c == ',' || c == '[' || c == ']' || c == '\x7b' || c == '\x7d'

/-! ## Places -/

/-- a place in a text and what follows it; all counts start at 0 -/
structure Cursor where
  index : Nat
  line : Nat
  column : Nat
  rest : List Char
  deriving DecidableEq, Repr

namespace Cursor

def start (text : List Char) : Cursor := ⟨0, 0, 0, text⟩

/-- goes over `n` characters of one line, after which `rest` follows -/
def past (c : Cursor) (n : Nat) (rest : List Char) : Cursor :=
  { c with index := c.index + n, column := c.column + n, rest }

/-- goes over one character -/
def skip (c : Cursor) : Cursor :=
  match c.rest with
  | [] => c
  | _ :: rest => c.past 1 rest

/-- goes over all characters of a class -/
def skipWhile (p : Char → Bool) (c : Cursor) : Cursor :=
  c.past (c.rest.takeWhile p).length (c.rest.dropWhile p)

/-- goes over a break; a carriage return and a line feed are one -/
def skipBreak (c : Cursor) : Cursor :=
  match c.rest with
  | '\r' :: '\n' :: rest => ⟨c.index + 2, c.line + 1, 0, rest⟩
  | _ :: rest => ⟨c.index + 1, c.line + 1, 0, rest⟩
  | [] => c

/-- what a break stands for in a scalar -/
def breakText (c : Cursor) : List Char :=
  match c.rest with
  | '\u2028' :: _ => ['\u2028']
  | '\u2029' :: _ => ['\u2029']
  | _ => ['\n']

/-- whether a break follows -/
def atBreak (c : Cursor) : Bool :=
  match c.rest with
  | ch :: _ => isBreak ch
  | [] => false

/-- whether the next line starts with three dashes or dots that stand alone -/
def atMarker (c : Cursor) (mark : Char) : Bool :=
  c.column == 0 && match c.rest with
    | a :: b :: d :: rest => a == mark && b == mark && d == mark && atGap rest
    | _ => false

/-- whether a document begins or ends here -/
def atDocumentMarker (c : Cursor) : Bool := c.atMarker '-' || c.atMarker '.'

end Cursor

/-! ## Gaps between the words of a scalar -/

/-- blanks and breaks: the blanks before the first break, and the breaks -/
structure Gap where
  blanks : List Char
  breaks : List (List Char)
  deriving DecidableEq, Repr

namespace Gap

/-- What a gap becomes within a scalar. A single line feed is folded to a blank, more of them lose one. -/
def text (g : Gap) : List Char :=
  match g.breaks with
  | [] => g.blanks
  | ['\n'] :: [] => [' ']
  | ['\n'] :: more => more.flatten
  | breaks => breaks.flatten

end Gap

/-- Goes over blanks and breaks. Blanks count until the first break, or not at all if `folded`; after a break no tab may
stand left of column `margin`. -/
def scanGap (margin : Nat) (folded : Bool) : Nat → Cursor → Gap → Option (Gap × Cursor)
  | 0, _, _ => none
  | fuel + 1, c, g =>
    match c.rest with
    | [] => some (g, c)
    | ch :: _ =>
      if isBlank ch then
        if folded || !g.breaks.isEmpty then
          if ch == '\t' && !g.breaks.isEmpty && decide (c.column < margin) then none
          else scanGap margin folded fuel c.skip g
        else scanGap margin folded fuel c.skip { g with blanks := g.blanks ++ [ch] }
      else if isBreak ch then
        scanGap margin folded fuel c.skipBreak ⟨if folded then g.blanks else [], g.breaks ++ [c.breakText]⟩
      else some (g, c)

end RankEval.Yaml
