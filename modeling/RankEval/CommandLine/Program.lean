/-
The program: from its arguments to what it shows and how it exits.
-/
import RankEval.CommandLine.RunScript
import RankEval.CommandLine.ViewScript

namespace RankEval.CommandLine

/-- what carries out a command -/
def Command.script (schedule : Schedule) (env : Environment) : Command → Script (Option Save)
  | .run options => runScript schedule env options
  | .query options => queryScript options
  | .summary report => summaryScript report
  | .settings named => settingsScript env named

/-- name and version of the program -/
def versionLine : String := "table-eval 0.2.0"

/-- what is shown if there is no command to carry out -/
def Notice.shown : Notice → List Shown
  | .version => [.text (versionLine ++ "\n")]
  | _ => []

/-- how the program exits if there is no command to carry out -/
def Notice.exitCode : Notice → Nat
  | .misuse => 2
  | _ => 0

/-- how the program exits after a command -/
def Completion.exitCode (c : Completion) : Nat := if c.complaint.isSome then 1 else 0

/-- the end of the program: what it shows, what it complains of, and its exit code -/
structure Exit where
  shown : List Shown
  complaint : Option Complaint
  code : Nat
  deriving DecidableEq, Repr

/-- runs the program in a file system, the workers of a run being done as a schedule says -/
def programBy (schedule : Schedule) (env : Environment) (args : List String) (t : FileTree) : FileTree × Exit :=
  match Command.parse args with
  | .error notice => (t, ⟨notice.shown, none, notice.exitCode⟩)
  | .ok command =>
    let (t, c) := (command.script schedule env).perform t
    (t, ⟨c.shown, c.complaint, c.exitCode⟩)

/-- runs the program in a file system, one thing after the other -/
def program (env : Environment) (args : List String) (t : FileTree) : FileTree × Exit :=
  programBy .sequential env args t

end RankEval.CommandLine
