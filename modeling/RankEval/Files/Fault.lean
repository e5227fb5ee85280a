/-
Why a file or directory cannot be used, and the wording of each reason.
-/
import RankEval.Files.Path

namespace RankEval

/-- what a file system refuses, and files that are no text -/
inductive Fault where
  | notFound
  | exists
  | notDirectory
  | isDirectory
  | linkLoop
  | notText
  /-- a refusal of another kind, in the file system's words -/
  | other (message : String)
  deriving DecidableEq, Repr

def Fault.message : Fault → String
  | .notFound => "No such file or directory (os error 2)"
  | .exists => "File exists (os error 17)"
  | .notDirectory => "Not a directory (os error 20)"
  | .isDirectory => "Is a directory (os error 21)"
  | .linkLoop => "Too many levels of symbolic links (os error 40)"
  | .notText => "stream did not contain valid UTF-8"
  | .other message => message

/-- why the files below a directory cannot be listed -/
inductive WalkFault where
  /-- an entry cannot be followed -/
  | entry (path : FilePath) (fault : Fault)
  /-- a link leads to a directory that it lies in -/
  | loop (path ancestor : FilePath)
  deriving DecidableEq, Repr

def WalkFault.path : WalkFault → FilePath
  | .entry path _ => path
  | .loop path _ => path

def WalkFault.message : WalkFault → String
  | .entry path fault => "IO error for operation on " ++ path ++ ": " ++ fault.message
  | .loop path ancestor => "File system loop found: " ++ path ++ " points to an ancestor " ++ ancestor

end RankEval
