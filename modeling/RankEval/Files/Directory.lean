/-
All that lies below a directory, links followed, and the files among it.
-/
import RankEval.Files.Fault

namespace RankEval

/-- what an entry of a directory leads to -/
inductive Directory where
  | file
  | directory (entries : List (String × Directory))
  /-- a link that leads nowhere -/
  | broken (fault : Fault)
  /-- a link to the directory that many levels above the one it lies in -/
  | loop (up : Nat)

namespace Directory

mutual

/-- the names of all files below `entries` of the innermost directory of `above`, in the order of the walk -/
def names (above : List FilePath) : List (String × Directory) → Except WalkFault (List String)
  | [] => .ok []
  | (name, entry) :: rest => do
    let first ← entry.namesAt above name
    let others ← names above rest
    return first ++ others

/-- the names of the files that an entry leads to -/
def namesAt (above : List FilePath) (name : String) : Directory → Except WalkFault (List String)
  | .file => .ok [name]
  | .directory entries => names (Path.join (above.headD "") name :: above) entries
  | .broken fault => .error (.entry (Path.join (above.headD "") name) fault)
  | .loop up => .error (.loop (Path.join (above.headD "") name) (above[up]?.getD ""))

end

/-- the names of all files below a directory -/
def fileNames (path : FilePath) : Directory → Except WalkFault (List String)
  | .directory entries => names [path] entries
  | _ => .ok []

end Directory

end RankEval
