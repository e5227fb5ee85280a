/-
What a command does: it reads files, shows lines, and then ends, fails, or saves one text. It changes nothing before it
has read all it needs, so that a failure leaves everything as it was.
-/
import RankEval.Decimal.Fixed
import RankEval.Failure
import RankEval.Files.Saving
import RankEval.Text.Basic

namespace RankEval.CommandLine

/-- a piece of output -/
inductive Shown where
  | text (s : String)
  /-- a line that ends with the time since the start of the command -/
  | timed (s : String)
  deriving DecidableEq, Repr

/-- a number of nanoseconds in a unit, with two decimal places -/
def inUnit (nanoseconds unit : Nat) (name : String) : String :=
  String.ofList (Decimal.placesText 2 (Decimal.roundQuotient .toEven (nanoseconds * 100) unit)) ++ name

/-- a time in the largest unit of which it has at least one -/
def elapsedText (nanoseconds : Nat) : String :=
  if 1000000000 ≤ nanoseconds then inUnit nanoseconds 1000000000 "s"
  else if 1000000 ≤ nanoseconds then inUnit nanoseconds 1000000 "ms"
  else if 1000 ≤ nanoseconds then inUnit nanoseconds 1000 "µs"
  else inUnit nanoseconds 1 "ns"

/-- why a command fails: what it could not do, and the chain of causes -/
structure Complaint where
  what : String
  causes : List String := []
  deriving DecidableEq, Repr

namespace Complaint

/-- what could not be done because of a failure -/
def because (what : String) (f : Failure) : Complaint := ⟨what, f.chain⟩

/-- a failure that needs no more words -/
def ofFailure (f : Failure) : Complaint := ⟨f.message, f.chain.tail⟩

/-- the lines of a cause, indented behind its number if it has one -/
def causeText (first rest : String) (cause : String) : String :=
  first ++ ("\n" ++ rest).intercalate ((Text.splitAt '\n' cause.toList).map String.ofList)

/-- a cause with its number, which is right-aligned in five places -/
def numberedCause (n : Nat) (cause : String) : String :=
  let number := Decimal.natText n
  causeText (String.ofList (List.replicate (5 - number.length) ' ') ++ number ++ ": ") "       " cause

/-- the causes below a complaint; a single one has no number -/
def causesText : List String → String
  | [] => ""
  | [cause] => "\n\nCaused by:\n" ++ causeText "    " "    " cause
  | causes => "\n\nCaused by:\n" ++ "\n".intercalate (causes.mapIdx numberedCause)

def text (c : Complaint) : String := "Error: " ++ c.what ++ causesText c.causes

end Complaint

/-- a text to save, and what is shown once it is -/
structure Save where
  path : FilePath
  text : String
  done : String
  deriving DecidableEq, Repr

/-- a part of a command; what is shown outlives a complaint -/
abbrev Script := ExceptT Complaint (StateT (List Shown) Reading)

namespace Script

/-- shows one line -/
def line (s : String) : Script Unit := modify fun shown => shown ++ [.text (s ++ "\n")]

/-- shows lines that end as they should already -/
def block (s : String) : Script Unit := modify fun shown => shown ++ [.text s]

/-- shows a line that ends with the time -/
def timed (s : String) : Script Unit := modify fun shown => shown ++ [.timed s]

/-- a result that a failure keeps from being there -/
def demand {α : Type} (what : String) : Except Failure α → Script α
  | .ok a => return a
  | .error f => throw (.because what f)

/-- reads files; `what` cannot be done if that fails -/
def reading {α : Type} (what : String) (a : Attempt α) : Script α := do
  demand what (← ExceptT.lift (StateT.lift a.run))

/-- asks a question to the file system -/
def ask {α : Type} (r : Reading α) : Script α := ExceptT.lift (StateT.lift r)

end Script

/-- how a command ended -/
structure Completion where
  shown : List Shown
  complaint : Option Complaint
  deriving DecidableEq, Repr

/-- the complaint that a text could not be saved -/
def saveComplaint (path : FilePath) (fault : Fault) : Complaint :=
  .because "Failed to save report" (.io path (.plain fault))

/-- carries out a command in a file system -/
def Script.perform (script : Script (Option Save)) (t : FileTree) : FileTree × Completion :=
  match (script.run []).run t with
  | (.error complaint, shown) => (t, ⟨shown, some complaint⟩)
  | (.ok none, shown) => (t, ⟨shown, none⟩)
  | (.ok (some save), shown) =>
    match t.save save.path save.text with
    | (t, none) => (t, ⟨shown ++ [.text (save.done ++ "\n")], none⟩)
    | (t, some (path, fault)) => (t, ⟨shown, some (saveComplaint path fault)⟩)

end RankEval.CommandLine
