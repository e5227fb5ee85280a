/-
Everything that can go wrong outside the metrics' own definitions, and how it is worded.
-/
import RankEval.Candidates.Alignment
import RankEval.Files.Reading
import RankEval.Metric.Error

namespace RankEval

open Decimal (natText)

/-- what is wrong with a row of a ranking -/
inductive RowFault where
  | columns
  | page
  | score
  deriving DecidableEq, Repr

/-- why a file does not hold what it should -/
inductive Malformation where
  /-- it is no value of the right shape -/
  | shape
  /-- a line, counted from 1, is no row -/
  | row (line : Nat) (fault : RowFault)
  deriving DecidableEq, Repr

/-- what makes settings, or a run's inputs taken together, unusable -/
inductive SettingsFault where
  | unreadable
  /-- a path that is needed, and the variable that can give it -/
  | required (what setBy : String)
  | cutoffs
  | tuplesOrVotes
  | workers
  | configurations
  | coverage (mismatch : AlignedPair.Mismatch)
  deriving DecidableEq, Repr

/-- why a file system does not give what is asked for -/
inductive FileFault where
  | plain (fault : Fault)
  | walk (fault : WalkFault)
  deriving DecidableEq, Repr

inductive Failure where
  | io (path : FilePath) (fault : FileFault)
  /-- a report cannot be read back -/
  | serialization
  | malformed (path : FilePath) (why : Malformation)
  | noCorpus (path : FilePath)
  | emptyCorpus (path : FilePath)
  | noReport (path : FilePath)
  | settings (fault : SettingsFault)
  | metric (error : Metric.Error)
  deriving DecidableEq

def RowFault.message : RowFault → String
  | .columns => "expected at least 5 columns"
  | .page => "bad wikipage id"
  | .score => "bad score"

/-- what follows the path of a malformed file -/
def Malformation.suffix : Malformation → String
  | .shape => ""
  | .row line fault => ": line " ++ natText line ++ ": " ++ fault.message

def SettingsFault.message : SettingsFault → String
  | .unreadable => "Failed to parse config file"
  | .required what setBy =>
    what ++ " is required. Set " ++ setBy ++ " environment variable or add to config file."
  | .cutoffs => "k_values must be a non-empty list of positive cutoffs"
  | .tuplesOrVotes => "tuples and votes must not be empty"
  | .workers => "workers must be at least 1"
  | .configurations => "at least one configuration must be listed"
  | .coverage mismatch => mismatch.message

def FileFault.message : FileFault → String
  | .plain fault => fault.message
  | .walk fault => fault.message

namespace Failure

def message : Failure → String
  | .io path fault => "I/O error for path '" ++ path ++ "': " ++ fault.message
  | .serialization => "Serialization error"
  | .malformed path why => "Malformed input in '" ++ path ++ "'" ++ why.suffix
  | .noCorpus path => "Corpus path '" ++ path ++ "' does not exist or is not a directory"
  | .emptyCorpus path => "No tables found in corpus at '" ++ path ++ "'"
  | .noReport path => "Report file not found at '" ++ path ++ "'"
  | .settings fault => "Configuration error: " ++ fault.message
  | .metric error => "Metric computation error: " ++ error.message

/-- a failure's message, then the messages of what caused it -/
def chain (f : Failure) : List String :=
  f.message :: match f with
    | .io _ (.plain fault) => [fault.message]
    | .io _ (.walk (.entry path fault)) => [(WalkFault.entry path fault).message, fault.message]
    | .io _ (.walk fault) => [fault.message]
    | .metric error => [error.message]
    | _ => []

end Failure

/-- a computation that reads files and may fail -/
abbrev Attempt := ExceptT Failure Reading

namespace Attempt

/-- the text of a file -/
def text (path : FilePath) : Attempt String := do
  match ← (Reading.textOf path : Reading _) with
  | .ok s => return s
  | .error fault => throw (.io path (.plain fault))

end Attempt

end RankEval
