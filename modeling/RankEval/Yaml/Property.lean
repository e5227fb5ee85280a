/-
Anchors, tags and directives.
-/
import RankEval.Yaml.QuotedText
import RankEval.Yaml.Token

namespace RankEval.Yaml

/-- the name of an anchor or alias whose mark follows -/
def anchorName (c : Cursor) : Option (String × Cursor) :=
  let name := c.skip.rest.takeWhile isWord
  let c := c.skip.skipWhile isWord
  let ends := match c.rest with
    | [] => true
    | ch :: _ => atGap c.rest || ['?', ':', ',', ']', '\x7d', '%', '@', '\x60'].contains ch
  if name.isEmpty || !ends then none else some (String.ofList name, c)

/-- characters of tags; some more between angle brackets -/
def isTagChar (wide : Bool) (c : Char) : Bool :=
  isWord c || [';', '/', '?', ':', '@', '&', '=', '+', '$', '.', '%', '!', '~', '*', '\'', '(', ')'].contains c ||
    (wide && [',', '[', ']'].contains c)

/-- the byte that a percent sign and two digits stand for -/
def escapedByte? : List Char → Option (Nat × List Char)
  | '%' :: a :: b :: rest => do return (16 * (← hexValue? a) + (← hexValue? b), rest)
  | _ => none

/-- the bytes of a character that start with `first`; `n` more follow -/
def escapedBytes? : Nat → List Char → Option (List Nat × List Char)
  | 0, cs => some ([], cs)
  | n + 1, cs => do
    let (b, cs) ← escapedByte? cs
    if b / 64 ≠ 2 then failure
    let (bs, cs) ← escapedBytes? n cs
    return (b :: bs, cs)

/-- a character written as escaped bytes, and how many bytes they are -/
def escapedChar? (cs : List Char) : Option (Char × Nat × List Char) := do
  let (b, rest) ← escapedByte? cs
  let (width, start) ←
    if b < 0x80 then some (1, b)
    else if b / 32 = 6 then some (2, b % 32)
    else if b / 16 = 14 then some (3, b % 16)
    else if b / 8 = 30 then some (4, b % 8)
    else none
  let (bs, rest) ← escapedBytes? (width - 1) rest
  return (Char.ofNat (bs.foldl (fun n b => 64 * n + b % 64) start), width, rest)

/-- the text of a tag and how many characters it was written with -/
def tagText (wide : Bool) : Nat → List Char → Option (List Char × Nat × List Char)
  | 0, _ => none
  | fuel + 1, cs =>
    match cs with
    | [] => some ([], 0, [])
    | c :: rest =>
      if c == '%' then do
        let (ch, width, rest) ← escapedChar? cs
        let (text, n, rest) ← tagText wide fuel rest
        return (ch :: text, n + 3 * width, rest)
      else if isTagChar wide c then do
        let (text, n, rest) ← tagText wide fuel rest
        return (c :: text, n + 1, rest)
      else some ([], 0, cs)

/-- A handle: an exclamation mark, word characters, and perhaps another mark. -/
def tagHandle (cs : List Char) : Option (List Char × List Char) :=
  match cs with
  | '!' :: rest =>
    let name := rest.takeWhile isWord
    match rest.dropWhile isWord with
    | '!' :: rest => some ('!' :: name ++ ['!'], rest)
    | rest => some ('!' :: name, rest)
  | _ => none

/-- the handle and the rest of a tag that follows -/
def tagParts (fuel : Nat) (c : Cursor) : Option (String × String × Cursor) :=
  match c.rest with
  | '!' :: '<' :: rest => do
    let (text, n, rest) ← tagText true fuel rest
    if text.isEmpty then failure
    let '>' :: rest := rest | failure
    return ("", String.ofList text, c.past (n + 3) rest)
  | _ => do
    let (handle, rest) ← tagHandle c.rest
    let (text, n, rest) ← tagText false fuel rest
    let c := c.past (handle.length + n) rest
    if 1 < handle.length ∧ handle.getLast? = some '!' then
      if text.isEmpty then failure
      return (String.ofList handle, String.ofList text, c)
    let suffix := handle.drop 1 ++ text
    return if suffix.isEmpty then ("", "!", c) else ("!", String.ofList suffix, c)

/-- a tag that follows; a blank, a break or a comma within a flow collection ends it -/
def scanTag (flow : Bool) (fuel : Nat) (c : Cursor) : Option (String × String × Cursor) := do
  let (handle, suffix, c) ← tagParts fuel c
  if !atGap c.rest && !(flow && c.rest.head? == some ',') then failure
  return (handle, suffix, c)

/-- a number of a version: at most nine digits -/
def versionNumber (cs : List Char) : Option (Nat × List Char) :=
  let ds := cs.takeWhile Char.isDigit
  if ds.isEmpty || 9 < ds.length then none
  else some (ds.foldl (fun n d => 10 * n + (d.toNat - '0'.toNat)) 0, cs.dropWhile Char.isDigit)

/-- the value of a directive -/
def directiveValue (name : String) (fuel : Nat) (cs : List Char) : Option (Token × List Char) :=
  let cs := cs.dropWhile isBlank
  if name = "YAML" then do
    let (major, rest) ← versionNumber cs
    let '.' :: rest := rest | failure
    let (minor, rest) ← versionNumber rest
    return (.version major minor, rest)
  else if name = "TAG" then do
    let (handle, rest) ← tagHandle cs
    if handle ≠ ['!'] ∧ handle.getLast? ≠ some '!' then failure
    if rest.head?.all fun c => !isBlank c then failure
    let (start, _, rest) ← tagText true fuel (rest.dropWhile isBlank)
    if start.isEmpty || !atGap rest then failure
    return (.tagHandle (String.ofList handle) (String.ofList start), rest)
  else none

/-- a directive whose mark follows, up to the end of its line -/
def scanDirective (fuel : Nat) (c : Cursor) : Option (Token × Cursor) := do
  let cs := c.skip.rest
  let name := cs.takeWhile isWord
  let rest := cs.dropWhile isWord
  if name.isEmpty || !atGap rest then failure
  let (token, rest) ← directiveValue (String.ofList name) fuel rest
  let rest := rest.dropWhile isBlank
  let rest := if rest.head? == some '#' then rest.dropWhile fun d => !isBreak d else rest
  if rest.head?.any fun d => !isBreak d then failure
  return (token, (c.past (c.rest.length - rest.length) rest).skipBreak)

end RankEval.Yaml
