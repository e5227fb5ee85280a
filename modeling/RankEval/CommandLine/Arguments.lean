/-
Arguments of a command before they mean anything: options with the values given to them, and values that stand alone.

An option takes its values from behind an equals sign or, if it is a single letter, from the rest of its argument; else
from the arguments after it, up to the next one that starts with a dash. A dash by itself is a value, and what follows
two dashes stands alone.
-/

namespace RankEval.CommandLine

/-- how many values an option takes from the arguments after it -/
inductive Arity where
  | none
  | one
  | several
  deriving DecidableEq, Repr

/-- an option and how it is spelled -/
structure Switch (ι : Type) where
  id : ι
  letter : Option Char
  word : Option String
  arity : Arity

/-- what is given, in order -/
inductive Given (ι : Type) where
  | option (id : ι) (values : List String)
  | value (s : String)
  /-- an argument that only looks like an option, or an option with a value that it does not take -/
  | strange
  deriving DecidableEq, Repr

/-- an option that can take more values -/
structure Waiting (ι : Type) where
  id : ι
  arity : Arity
  values : List String

/-- the form of an argument -/
inductive Form where
  | twoDashes
  | word (name : List Char) (value : Option (List Char))
  | letters (cs : List Char)
  | plain
  deriving DecidableEq, Repr

/-- splits what stands before and behind the first equals sign -/
def splitEquals (cs : List Char) : List Char × Option (List Char) :=
  match cs.dropWhile (· != '=') with
  | [] => (cs, none)
  | _ :: value => (cs.takeWhile (· != '='), some value)

def formOf : List Char → Form
  | ['-', '-'] => .twoDashes
  | '-' :: '-' :: cs => .word (splitEquals cs).1 (splitEquals cs).2
  | ['-'] => .plain
  | '-' :: cs => .letters cs
  | _ => .plain

section
variable {ι : Type}

/-- an option with the values it took -/
def closed : Option (Waiting ι) → List (Given ι)
  | none => []
  | some w => [.option w.id w.values]

/-- an option that is spelled out, and whether it waits for values -/
def byWord (known : List (Switch ι)) (name : List Char) (value : Option (List Char)) :
    List (Given ι) × Option (Waiting ι) :=
  match known.find? fun s => s.word == some (String.ofList name), value with
  | none, _ => ([.strange], none)
  | some s, none => if s.arity = .none then ([.option s.id []], none) else ([], some ⟨s.id, s.arity, []⟩)
  | some s, some v => if s.arity = .none then ([.strange], none) else ([.option s.id [String.ofList v]], none)

/-- options that are single letters, and whether the last one waits for values -/
def byLetters (known : List (Switch ι)) : List Char → List (Given ι) × Option (Waiting ι)
  | [] => ([], none)
  | c :: rest =>
    match known.find? fun s => s.letter == some c with
    | none => ([.strange], none)
    | some s =>
      if s.arity = .none then
        let others := byLetters known rest
        (.option s.id [] :: others.1, others.2)
      else match rest with
        | [] => ([], some ⟨s.id, s.arity, []⟩)
        | '=' :: v => ([.option s.id [String.ofList v]], none)
        | v => ([.option s.id [String.ofList v]], none)

/-- what is given by arguments, the option before them waiting for values or not -/
def givenFrom (known : List (Switch ι)) : Option (Waiting ι) → List String → List (Given ι)
  | waiting, [] => closed waiting
  | waiting, arg :: rest =>
    match formOf arg.toList with
    | .twoDashes => closed waiting ++ rest.map .value
    | .word name value =>
      let found := byWord known name value
      closed waiting ++ found.1 ++ givenFrom known found.2 rest
    | .letters cs =>
      let found := byLetters known cs
      closed waiting ++ found.1 ++ givenFrom known found.2 rest
    | .plain =>
      match waiting with
      | none => .value arg :: givenFrom known none rest
      | some w =>
        let w := { w with values := w.values ++ [arg] }
        if w.arity = .several then givenFrom known (some w) rest else closed (some w) ++ givenFrom known none rest

/-- what is given by arguments -/
def given (known : List (Switch ι)) (args : List String) : List (Given ι) := givenFrom known none args

end

end RankEval.CommandLine
