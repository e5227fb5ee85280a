/-
The tokens of a YAML text. `Scan.step` reads one of them; the scan keeps what the rest depends on: how far blocks are
indented, how many flow collections are open, and where a mapping key may have begun that only a later colon reveals.
-/
import RankEval.Yaml.BlockText
import RankEval.Yaml.PlainText
import RankEval.Yaml.Property

namespace RankEval.Yaml

/-- A place where a key may have begun: the number of its first token, and whether it must turn out to be one. -/
structure KeyStart where
  required : Bool
  token : Nat
  index : Nat
  line : Nat
  column : Nat
  deriving DecidableEq, Repr

structure Scan where
  cursor : Cursor
  /-- the tokens so far, in reverse order -/
  tokens : List Token
  count : Nat
  /-- the column of the innermost block, and of the ones around it; -1 outside of all -/
  indent : Int
  outer : List Int
  /-- whether a key may begin here -/
  keyAllowed : Bool
  /-- for the current level of flow collections and each one around it, where a key may have begun -/
  keys : List (Option KeyStart)
  deriving DecidableEq, Repr

namespace Scan

def start (text : List Char) : Scan := ⟨.start text, [], 0, -1, [], true, [none]⟩

/-- whether the scan is within a flow collection -/
def inFlow (s : Scan) : Bool := decide (1 < s.keys.length)

def push (s : Scan) (t : Token) : Scan := { s with tokens := t :: s.tokens, count := s.count + 1 }

/-- puts a token before the one with number `n` -/
def insertAt (s : Scan) (n : Nat) (t : Token) : Scan :=
  let behind := s.count - n
  { s with tokens := s.tokens.take behind ++ t :: s.tokens.drop behind, count := s.count + 1 }

/-- a key has to end on its line and within this many characters -/
def keyLimit : Nat := 1024

/-- gives up the key starts that lie too far back; one that had to be a key is an error -/
def dropStale (s : Scan) : Option Scan := do
  let keys ← s.keys.mapM fun key => match key with
    | none => some none
    | some k =>
      if k.line < s.cursor.line ∨ k.index + keyLimit < s.cursor.index then
        if k.required then none else some none
      else some (some k)
  return { s with keys }

/-- gives up the key start of this level -/
def dropKey (s : Scan) : Option Scan :=
  match s.keys with
  | some k :: rest => if k.required then none else some { s with keys := none :: rest }
  | _ => some s

/-- notes that a key may begin here; it must be one where it stands at the indentation of its block -/
def saveKey (s : Scan) : Option Scan :=
  if !s.keyAllowed then some s
  else do
    let required := !s.inFlow && s.indent == Int.ofNat s.cursor.column
    let s ← s.dropKey
    return { s with keys := some ⟨required, s.count, s.cursor.index, s.cursor.line, s.cursor.column⟩ :: s.keys.tail }

/-- opens a block at a column to the right of the current one; its token goes before the one with number `n` -/
def indentTo (s : Scan) (column n : Nat) (t : Token) : Scan :=
  if s.inFlow || decide (Int.ofNat column ≤ s.indent) then s
  else ({ s with indent := Int.ofNat column, outer := s.indent :: s.outer }).insertAt n t

/-- closes the blocks that are indented further than a column -/
def closeBlocks (column : Int) : List Int → Scan → Scan
  | [], s => s
  | outer :: rest, s =>
    if column < s.indent then closeBlocks column rest ({ s with indent := outer, outer := rest }.push .blockEnd) else s

def unindentTo (s : Scan) (column : Int) : Scan := if s.inFlow then s else closeBlocks column s.outer s

/-- goes to the next token, over blanks, breaks and comments -/
def skipToToken (flow : Bool) : Nat → Bool → Cursor → Bool × Cursor
  | 0, allowed, c => (allowed, c)
  | fuel + 1, allowed, c =>
    let c := if c.index == 0 && c.rest.head? == some '\ufeff' then c.skip else c
    let c := c.skipWhile fun ch => ch == ' ' || ((flow || !allowed) && ch == '\t')
    let c := if c.rest.head? == some '#' then c.skipWhile fun ch => !isBreak ch else c
    if c.atBreak then skipToToken flow fuel (allowed || !flow) c.skipBreak else (allowed, c)

/-- a token of one character -/
def single (s : Scan) (t : Token) : Scan := { s.push t with cursor := s.cursor.skip }

/-- a document marker or directive closes all blocks -/
def closeAll (s : Scan) : Option Scan := do
  let s ← (s.unindentTo (-1)).dropKey
  return { s with keyAllowed := false }

/-- the start of a flow collection -/
def openFlow (s : Scan) (t : Token) : Option Scan := do
  let s ← s.saveKey
  return { s.single t with keys := none :: s.keys, keyAllowed := true }

/-- the end of a flow collection -/
def closeFlow (s : Scan) (t : Token) : Option Scan := do
  let s ← s.dropKey
  let keys := match s.keys with
    | _ :: k :: rest => k :: rest
    | keys => keys
  return { s.single t with keys, keyAllowed := false }

/-- the dash of a block sequence -/
def blockEntry (s : Scan) : Option Scan := do
  if !s.inFlow && !s.keyAllowed then failure
  let s := if s.inFlow then s else s.indentTo s.cursor.column s.count .blockSequence
  let s ← s.dropKey
  return { s.single .blockEntry with keyAllowed := true }

/-- a question mark before a key -/
def explicitKey (s : Scan) : Option Scan := do
  if !s.inFlow && !s.keyAllowed then failure
  let s := if s.inFlow then s else s.indentTo s.cursor.column s.count .blockMapping
  let s ← s.dropKey
  return { s.single .key with keyAllowed := !s.inFlow }

/-- a colon before a value; what lies before it on its line turns out to be a key -/
def valueMark (s : Scan) : Option Scan :=
  match s.keys with
  | some k :: rest =>
    let s := (s.insertAt k.token .key).indentTo k.column k.token .blockMapping
    some { s.single .value with keys := none :: rest, keyAllowed := false }
  | _ =>
    if s.inFlow then some { s.single .value with keyAllowed := false }
    else if !s.keyAllowed then none
    else
      let s := s.indentTo s.cursor.column s.count .blockMapping
      some { s.single .value with keyAllowed := true }

/-- a token that may begin a key -/
def content (s : Scan) (read : Cursor → Option (Token × Cursor)) : Option Scan := do
  let s ← s.saveKey
  let (t, cursor) ← read s.cursor
  return { s.push t with cursor, keyAllowed := false }

/-- a plain scalar; behind a break a key may begin -/
def plain (s : Scan) (fuel : Nat) : Option Scan := do
  let s ← s.saveKey
  let (text, broken, cursor) ← plainScalar s.inFlow (s.indent + 1).toNat fuel s.cursor
  return { s.push (.scalar (String.ofList text) .plain) with cursor, keyAllowed := broken }

/-- a block scalar -/
def block (s : Scan) (literal : Bool) (fuel : Nat) : Option Scan := do
  let s ← s.dropKey
  let (text, cursor) ← blockScalar literal s.indent fuel s.cursor
  return { s.push (.scalar (String.ofList text) (if literal then .literal else .folded)) with cursor, keyAllowed := true }

/-- characters that cannot begin a plain scalar, unless what follows them says otherwise -/
def isIndicator (c : Char) : Bool :=
  ['-', '?', ':', ',', '[', ']', '\x7b', '\x7d', '#', '&', '*', '!', '|', '>', '\'', '"', '%', '@', '\x60'].contains c

/-- a directive -/
def directive (s : Scan) (fuel : Nat) : Option Scan := do
  let s ← s.closeAll
  let (t, cursor) ← scanDirective fuel s.cursor
  return { s.push t with cursor }

/-- a document marker -/
def marker (s : Scan) (t : Token) : Option Scan := do
  let s ← s.closeAll
  return { s.push t with cursor := s.cursor.past 3 (s.cursor.rest.drop 3) }

/-- the token that begins with character `c`, after which `rest` follows -/
def token (s : Scan) (fuel : Nat) (c : Char) (rest : List Char) : Option Scan :=
  if c == '%' && s.cursor.column == 0 then s.directive fuel
  else if s.cursor.atMarker '-' then s.marker .documentStart
  else if s.cursor.atMarker '.' then s.marker .documentEnd
  else if c == '[' then s.openFlow .flowSequence
  else if c == '\x7b' then s.openFlow .flowMapping
  else if c == ']' then s.closeFlow .flowSequenceEnd
  else if c == '\x7d' then s.closeFlow .flowMappingEnd
  else if c == ',' then s.dropKey.map fun s => { s.single .flowEntry with keyAllowed := true }
  else if c == '-' && atGap rest then s.blockEntry
  else if c == '?' && (s.inFlow || atGap rest) then s.explicitKey
  else if c == ':' && (s.inFlow || atGap rest) then s.valueMark
  else if c == '*' then s.content fun c => (anchorName c).map fun (name, c) => (.alias name, c)
  else if c == '&' then s.content fun c => (anchorName c).map fun (name, c) => (.anchor name, c)
  else if c == '!' then s.content fun c => (scanTag s.inFlow fuel c).map fun (handle, suffix, c) => (.tag handle suffix, c)
  else if c == '|' && !s.inFlow then s.block true fuel
  else if c == '>' && !s.inFlow then s.block false fuel
  else if c == '\'' then s.content fun c => (quotedScalar true fuel c).map fun (text, c) =>
    (.scalar (String.ofList text) .singleQuoted, c)
  else if c == '"' then s.content fun c => (quotedScalar false fuel c).map fun (text, c) =>
    (.scalar (String.ofList text) .doubleQuoted, c)
  else if !isIndicator c || (c == '-' && !rest.head?.any isBlank) ||
      (!s.inFlow && (c == '?' || c == ':') && !atGap rest) then s.plain fuel
  else none

/-- reads tokens up to the end of the text -/
def run (size : Nat) : Nat → Scan → Option (List Token)
  | 0, _ => none
  | fuel + 1, s => do
    let (keyAllowed, cursor) := skipToToken s.inFlow (size + 1) s.keyAllowed s.cursor
    let s ← dropStale { s with keyAllowed, cursor }
    let s := s.unindentTo (Int.ofNat s.cursor.column)
    match s.cursor.rest with
    | [] =>
      let s ← s.closeAll
      return s.tokens.reverse
    | c :: rest =>
      let s ← s.token (size + 1) c rest
      run size fuel s

end Scan

/-- The tokens of a text. Each step takes at least one character. -/
def tokens? (text : String) : Option (List Token) :=
  let cs := text.toList
  if cs.all isAllowed then Scan.run cs.length (cs.length + 1) (.start cs) else none

end RankEval.Yaml
