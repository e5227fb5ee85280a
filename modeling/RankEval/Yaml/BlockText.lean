/-
Block scalars: the lines below a bar (kept as they are) or an angle bracket (folded), as far as they are indented.
-/
import RankEval.Yaml.Cursor

namespace RankEval.Yaml

/-- what becomes of the breaks at the end of a block scalar -/
inductive Chomping where
  | strip
  | clip
  | keep
  deriving DecidableEq, Repr

/-- the first line of a block scalar: chomping, and the indentation if it is given -/
structure BlockHeader where
  chomping : Chomping
  indentation : Option Nat
  deriving DecidableEq, Repr

def chomping? : Char → Option Chomping
  | '+' => some .keep
  | '-' => some .strip
  | _ => none

/-- a digit that gives an indentation -/
def indentation? (c : Char) : Option Nat := if c.isDigit && c != '0' then some (c.toNat - '0'.toNat) else none

/-- the marks behind the bar, each of them once, and their number; a zero is an error -/
def blockHeader : List Char → Option (BlockHeader × Nat)
  | [] => some (⟨.clip, none⟩, 0)
  | a :: rest =>
    match chomping? a, rest with
    | some chomping, b :: _ =>
      if b == '0' then none
      else match indentation? b with
        | some n => some (⟨chomping, some n⟩, 2)
        | none => some (⟨chomping, none⟩, 1)
    | some chomping, [] => some (⟨chomping, none⟩, 1)
    | none, rest =>
      if a == '0' then none
      else match indentation? a with
        | none => some (⟨.clip, none⟩, 0)
        | some n =>
          match rest.head?.bind chomping? with
          | some chomping => some (⟨chomping, some n⟩, 2)
          | none => some (⟨.clip, some n⟩, 1)

/-- Goes over indentation and empty lines up to column `indent`, or over all indentation if it is not known yet. The
result has the breaks and the furthest column of an indentation. -/
def blockBreaks (indent : Option Nat) : Nat → Cursor → List (List Char) → Nat → Option (List (List Char) × Nat × Cursor)
  | 0, _, _, _ => none
  | fuel + 1, c, breaks, furthest =>
    let blanks := (c.rest.takeWhile (· == ' ')).length
    let n := match indent with
      | none => blanks
      | some i => min blanks (i - c.column)
    let c := c.past n (c.rest.drop n)
    let furthest := max furthest c.column
    let within := match indent with
      | none => true
      | some i => decide (c.column < i)
    if within && c.rest.head? == some '\t' then none
    else if c.atBreak then blockBreaks indent fuel c.skipBreak (breaks ++ [c.breakText]) furthest
    else some (breaks, furthest, c)

/-- the lines of a block scalar read so far, in reverse order, and the breaks behind the last one -/
structure BlockLines where
  text : List Char
  leading : List Char
  trailing : List (List Char)
  /-- whether the last line started with a blank -/
  blank : Bool
  deriving DecidableEq, Repr

/-- what the breaks between two lines become; `blank` if the next line starts with a blank -/
def BlockLines.between (literal blank : Bool) (l : BlockLines) : List Char :=
  if !literal && l.leading == ['\n'] && !l.blank && !blank then
    (if l.trailing.isEmpty then [' '] else []) ++ l.trailing.flatten
  else l.leading ++ l.trailing.flatten

/-- the lines of a block scalar at column `indent` -/
def blockLines (literal : Bool) (indent : Nat) : Nat → Cursor → BlockLines → Option (BlockLines × Cursor)
  | 0, _, _ => none
  | fuel + 1, c, l =>
    if c.column ≠ indent then some (l, c)
    else match c.rest with
      | [] => some (l, c)
      | ch :: _ =>
        let blank := isBlank ch
        let line := c.rest.takeWhile fun d => !isBreak d
        let text := line.reverse ++ ((l.between literal blank).reverse ++ l.text)
        let c := c.skipWhile fun d => !isBreak d
        let leading := if c.rest.isEmpty then [] else c.breakText
        let c := c.skipBreak
        match blockBreaks (some indent) (fuel + 1) c [] 0 with
        | none => none
        | some (trailing, _, c) => blockLines literal indent fuel c ⟨text, leading, trailing, blank⟩

/-- a block scalar whose mark follows, below something indented to `parent` columns (-1 at the top) -/
def blockScalar (literal : Bool) (parent : Int) (fuel : Nat) (c : Cursor) : Option (List Char × Cursor) := do
  let c := c.skip
  let (header, n) ← blockHeader c.rest
  let c := (c.past n (c.rest.drop n)).skipWhile isBlank
  let c := if c.rest.head? == some '#' then c.skipWhile fun d => !isBreak d else c
  if !c.rest.isEmpty && !c.atBreak then failure
  let c := c.skipBreak
  let given := header.indentation.map fun n => if 0 ≤ parent then parent.toNat + n else n
  let (trailing, furthest, c) ← blockBreaks given fuel c [] 0
  let indent := given.getD (max furthest (max 1 (parent + 1).toNat))
  let (lines, c) ← blockLines literal indent fuel c ⟨[], [], trailing, false⟩
  let tail := match header.chomping with
    | .strip => []
    | .clip => lines.leading
    | .keep => lines.leading ++ lines.trailing.flatten
  return (lines.text.reverse ++ tail, c)

end RankEval.Yaml
