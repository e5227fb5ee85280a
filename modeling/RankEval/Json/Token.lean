/-
The tokens of a JSON text. The text is read character by character: `Lexer.step` is the whole rule, and a text is the
fold of it.
-/
import RankEval.Json.Number

namespace RankEval.Json

/-- Tokens. A string is `none` if it holds one half of a surrogate pair without the other. -/
inductive Token where
  | beginList
  | endList
  | beginObject
  | endObject
  | colon
  | comma
  | null
  | bool (b : Bool)
  | number (n : Number)
  | text (s : Option String)
  deriving DecidableEq, Repr

/-- a character of a string, or a half of a surrogate pair that an escape names -/
inductive Piece where
  | char (c : Char)
  | surrogate (unit : Nat)
  deriving DecidableEq, Repr

namespace Piece

def ofUnit (unit : Nat) : Piece :=
  if 0xD800 ≤ unit ∧ unit < 0xE000 then .surrogate unit else .char (Char.ofNat unit)

/-- joins halves to characters; `none` if one stands alone -/
def join : List Piece → Option (List Char)
  | [] => some []
  | .char c :: rest => (join rest).map (c :: ·)
  | .surrogate high :: .surrogate low :: rest =>
    if high < 0xDC00 ∧ 0xDC00 ≤ low then
      (join rest).map (Char.ofNat (0x10000 + (high - 0xD800) * 0x400 + (low - 0xDC00)) :: ·)
    else none
  | .surrogate _ :: _ => none

end Piece

/-- what the lexer is in the middle of; parts already read are in reverse order -/
inductive LexState where
  | between
  | word (letters : List Char)
  | number (chars : List Char)
  | quoted (pieces : List Piece)
  | escaped (pieces : List Piece)
  /-- `left` hexadecimal digits of an escape are still to come -/
  | hex (pieces : List Piece) (left value : Nat)
  deriving DecidableEq, Repr

/-- tokens so far, in reverse order, and the state -/
structure Lexer where
  tokens : List Token
  state : LexState
  deriving DecidableEq, Repr

namespace Lexer

def start : Lexer := ⟨[], .between⟩

def isNumberChar (c : Char) : Bool := c.isDigit || c == '-' || c == '+' || c == '.' || c == 'e' || c == 'E'

/-- the value of a hexadecimal digit -/
def hexValue? (c : Char) : Option Nat :=
  if c.isDigit then some (c.toNat - '0'.toNat)
  else if 'a' ≤ c ∧ c ≤ 'f' then some (c.toNat - 'a'.toNat + 10)
  else if 'A' ≤ c ∧ c ≤ 'F' then some (c.toNat - 'A'.toNat + 10)
  else none

/-- the character that a one-letter escape stands for -/
def escape? : Char → Option Char
  | '"' => some '"'
  | '\\' => some '\\'
  | '/' => some '/'
  | 'b' => some '\x08'
  | 'f' => some '\x0c'
  | 'n' => some '\n'
  | 'r' => some '\r'
  | 't' => some '\t'
  | _ => none

def word? (letters : List Char) : Option Token :=
  if letters = ['t', 'r', 'u', 'e'] then some (.bool true)
  else if letters = ['f', 'a', 'l', 's', 'e'] then some (.bool false)
  else if letters = ['n', 'u', 'l', 'l'] then some .null
  else none

/-- a character that does not continue a word, a number or a string -/
def fresh (tokens : List Token) (c : Char) : Option Lexer :=
  match c with
  | ' ' | '\t' | '\n' | '\r' => some ⟨tokens, .between⟩
  | '[' => some ⟨.beginList :: tokens, .between⟩
  | ']' => some ⟨.endList :: tokens, .between⟩
  | '\x7b' => some ⟨.beginObject :: tokens, .between⟩
  | '\x7d' => some ⟨.endObject :: tokens, .between⟩
  | ':' => some ⟨.colon :: tokens, .between⟩
  | ',' => some ⟨.comma :: tokens, .between⟩
  | '"' => some ⟨tokens, .quoted []⟩
  | _ =>
    if c == '-' || c.isDigit then some ⟨tokens, .number [c]⟩
    else if c.isLower then some ⟨tokens, .word [c]⟩
    else none

/-- ends a word or number -/
def settle (l : Lexer) : Option (List Token) :=
  match l.state with
  | .between => some l.tokens
  | .word letters => (word? letters.reverse).map (· :: l.tokens)
  | .number chars => (Number.ofChars? chars.reverse).map (.number · :: l.tokens)
  | _ => none

/-- reads one character -/
def step (l : Lexer) (c : Char) : Option Lexer :=
  match l.state with
  | .between => fresh l.tokens c
  | .word letters => if c.isLower then some ⟨l.tokens, .word (c :: letters)⟩ else l.settle.bind (fresh · c)
  | .number chars => if isNumberChar c then some ⟨l.tokens, .number (c :: chars)⟩ else l.settle.bind (fresh · c)
  | .quoted pieces =>
    if c = '"' then some ⟨.text ((Piece.join pieces.reverse).map String.ofList) :: l.tokens, .between⟩
    else if c = '\\' then some ⟨l.tokens, .escaped pieces⟩
    else if c.toNat < 0x20 then none
    else some ⟨l.tokens, .quoted (.char c :: pieces)⟩
  | .escaped pieces =>
    if c = 'u' then some ⟨l.tokens, .hex pieces 4 0⟩
    else (escape? c).map fun e => ⟨l.tokens, .quoted (.char e :: pieces)⟩
  | .hex pieces left value =>
    (hexValue? c).map fun d =>
      let value := value * 16 + d
      if left ≤ 1 then ⟨l.tokens, .quoted (.ofUnit value :: pieces)⟩ else ⟨l.tokens, .hex pieces (left - 1) value⟩

end Lexer

/-- the tokens of a text -/
def tokens? (s : String) : Option (List Token) :=
  ((s.toList.foldlM Lexer.step Lexer.start).bind Lexer.settle).map List.reverse

end RankEval.Json
