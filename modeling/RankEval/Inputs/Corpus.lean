/-
The tables of a corpus: the names of all files below a directory, in order.
-/
import RankEval.Candidates.Universe
import RankEval.Failure

namespace RankEval.Inputs

/-- a file whose name starts with a dot is hidden -/
def isHidden (name : String) : Bool := name.startsWith "."

/-- the names of the tables among some files -/
def tableNames (names : List String) : List TableId :=
  (names.filter fun name => !isHidden name).mergeSort fun a b => decide (a ≤ b)

/-- the universe of the tables below a directory -/
def corpusOf (path : FilePath) (d : Directory) : Except Failure CandidateUniverse :=
  match d.fileNames path with
  | .error fault => .error (.io fault.path (.walk fault))
  | .ok names =>
    let tables := tableNames names
    if tables.isEmpty then .error (.emptyCorpus path) else .ok (.ofList tables)

/-- the corpus below a directory -/
def corpus (path : FilePath) : Attempt CandidateUniverse := do
  if ← (Reading.isDirectory path : Reading _) then corpusOf path (← (Reading.directoryOf path : Reading _))
  else throw (.noCorpus path)

end RankEval.Inputs
