/-
Scalars in quotes. Between single quotes a quote is written twice; between double quotes a backslash starts an escape.
-/
import RankEval.Yaml.Cursor

namespace RankEval.Yaml

/-- the value of a hexadecimal digit -/
def hexValue? (c : Char) : Option Nat :=
  if c.isDigit then some (c.toNat - '0'.toNat)
  else if 'a' ≤ c ∧ c ≤ 'f' then some (c.toNat - 'a'.toNat + 10)
  else if 'A' ≤ c ∧ c ≤ 'F' then some (c.toNat - 'A'.toNat + 10)
  else none

/-- the character with a number in hexadecimal digits -/
def hexChar? (ds : List Char) : Option Char := do
  let n ← ds.foldlM (fun n d => (hexValue? d).map fun v => 16 * n + v) 0
  if n < 0xD800 ∨ (0xE000 ≤ n ∧ n ≤ 0x10FFFF) then some (Char.ofNat n) else none

/-- the character that a one-letter escape stands for -/
def namedEscape? : Char → Option Char
  | '0' => some '\x00'
  | 'a' => some '\x07'
  | 'b' => some '\x08'
  | 't' => some '\t'
  | '\t' => some '\t'
  | 'n' => some '\n'
  | 'v' => some '\x0b'
  | 'f' => some '\x0c'
  | 'r' => some '\r'
  | 'e' => some '\x1b'
  | ' ' => some ' '
  | '"' => some '"'
  | '/' => some '/'
  | '\\' => some '\\'
  | 'N' => some '\u0085'
  | '_' => some '\u00a0'
  | 'L' => some '\u2028'
  | 'P' => some '\u2029'
  | _ => none

/-- The characters up to the next gap or quote, how many were read for them, and what follows. A backslash at the end of
a line is left to the gap. -/
def doubleWord : List Char → Option (List Char × Nat × List Char)
  | [] => some ([], 0, [])
  | '\\' :: 'x' :: a :: b :: rest => do
    let c ← hexChar? [a, b]
    let (word, n, rest) ← doubleWord rest
    return (c :: word, n + 4, rest)
  | '\\' :: 'u' :: a :: b :: c :: d :: rest => do
    let ch ← hexChar? [a, b, c, d]
    let (word, n, rest) ← doubleWord rest
    return (ch :: word, n + 6, rest)
  | '\\' :: 'U' :: a :: b :: c :: d :: e :: f :: g :: h :: rest => do
    let ch ← hexChar? [a, b, c, d, e, f, g, h]
    let (word, n, rest) ← doubleWord rest
    return (ch :: word, n + 10, rest)
  | '\\' :: c :: rest =>
    if isBreak c then some ([], 0, '\\' :: c :: rest)
    else do
      let ch ← namedEscape? c
      let (word, n, rest) ← doubleWord rest
      return (ch :: word, n + 2, rest)
  | c :: rest =>
    if isBlank c || isBreak c || c == '"' then some ([], 0, c :: rest)
    else if c == '\\' then none
    else (doubleWord rest).map fun (word, n, rest) => (c :: word, n + 1, rest)

/-- the same between single quotes -/
def singleWord : List Char → List Char × Nat × List Char
  | [] => ([], 0, [])
  | '\'' :: '\'' :: rest =>
    let (word, n, rest) := singleWord rest
    ('\'' :: word, n + 2, rest)
  | c :: rest =>
    if isBlank c || isBreak c || c == '\'' then ([], 0, c :: rest)
    else
      let (word, n, rest) := singleWord rest
      (c :: word, n + 1, rest)

/-- a quoted scalar from its next word on; `before` is what was read, in reverse order -/
def quotedFrom (single : Bool) : Nat → Cursor → List Char → Option (List Char × Cursor)
  | 0, _, _ => none
  | fuel + 1, c, before =>
    if c.atDocumentMarker then none
    else match if single then some (singleWord c.rest) else doubleWord c.rest with
      | none => none
      | some (word, n, rest) =>
        let c := c.past n rest
        let before := word.reverse ++ before
        let folded := !single && c.rest.head? == some '\\'
        let c := if folded then c.skip.skipBreak else c
        match c.rest with
        | [] => none
        | ch :: _ =>
          if ch == (if single then '\'' else '"') then some (before.reverse, c.skip)
          else match scanGap 0 folded (fuel + 1) c ⟨[], []⟩ with
            | none => none
            | some (gap, c) =>
              let between := if folded then gap.breaks.flatten else gap.text
              quotedFrom single fuel c (between.reverse ++ before)

/-- a quoted scalar whose opening quote follows -/
def quotedScalar (single : Bool) (fuel : Nat) (c : Cursor) : Option (List Char × Cursor) :=
  quotedFrom single fuel c.skip []

end RankEval.Yaml
