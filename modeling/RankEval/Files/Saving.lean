/-
Writing a file into a file system: missing directories above it are made first.
-/
import RankEval.Files.Tree

namespace RankEval.FileTree

/-- the tree with an entry put under a full path -/
def put (t : FileTree) (at_ : List String) (entry : FileEntry) : FileTree :=
  { t with entries := t.entries.insert at_ entry }

/-- makes one directory; a link in its place is not followed -/
def makeDirectory (t : FileTree) (path : FilePath) : Except Fault FileTree :=
  let all := (parts path).filter fun part => part != "" && part != "."
  match all.getLast? with
  | none => if path.isEmpty then .error .notFound else .error .exists
  | some name =>
    match t.resolveFrom linkLimit (startOf t.workingDirectory path) all.dropLast with
    | .error fault => .error fault
    | .ok (.absent _ _) => .error .notFound
    | .ok (.found above) =>
      if t.entry? above ≠ some .directory then .error .notDirectory
      else if name = ".." ∨ (t.entry? (above ++ [name])).isSome then .error .exists
      else .ok (t.put (above ++ [name]) .directory)

/-- Makes a directory and, where that is refused because there is nothing above it, first those above. A refusal leaves
what was made before it. -/
def makeDirectories (t : FileTree) : Nat → FilePath → FileTree × Option Fault
  | 0, _ => (t, some .notFound)
  | fuel + 1, path =>
    if path.isEmpty then (t, none)
    else match t.makeDirectory path with
      | .ok t => (t, none)
      | .error .notFound =>
        match Path.parent? path with
        | none => (t, some .notFound)
        | some above =>
          match makeDirectories t fuel above with
          | (t, some fault) => (t, some fault)
          | (t, none) =>
            match t.makeDirectory path with
            | .ok t => (t, none)
            | .error fault => (t, if t.kind? path = some .directory then none else some fault)
      | .error fault => (t, if t.kind? path = some .directory then none else some fault)

/-- why a path that ends in a slash is no file -/
def slashFault (t : FileTree) (path : FilePath) : Fault :=
  match ((parts path).filter fun part => part != "").reverse with
  | [] => .isDirectory
  | _ :: above =>
    match t.resolveFrom linkLimit (startOf t.workingDirectory path) above.reverse with
    | .error fault => fault
    | .ok (.absent _ _) => .notFound
    | .ok (.found at_) => if t.entry? at_ = some .directory then .isDirectory else .notDirectory

/-- puts a text into a file, which is made if it is not there -/
def writeText (t : FileTree) (path : FilePath) (text : String) : Except Fault FileTree :=
  if path.endsWith "/" then .error (t.slashFault path)
  else match t.resolve path with
    | .error fault => .error fault
    | .ok (.absent above name) => .ok (t.put (above ++ [name]) (.file (some text)))
    | .ok (.found at_) =>
      match t.entry? at_ with
      | some (.file _) => .ok (t.put at_ (.file (some text)))
      | _ => .error .isDirectory

/-- Puts a text into a file after making the directories it lies in. The result is the tree after that and, where
something was refused, the path it was refused for. -/
def save (t : FileTree) (path : FilePath) (text : String) : FileTree × Option (FilePath × Fault) :=
  let made := match Path.parent? path with
    | none => (t, none)
    | some above =>
      if above.isEmpty || (t.kind? above).isSome then (t, none)
      else match t.makeDirectories (above.length + 1) above with
        | (t, none) => (t, none)
        | (t, some fault) => (t, some (above, fault))
  match made with
  | (t, some refused) => (t, some refused)
  | (t, none) =>
    match t.writeText path text with
    | .ok t => (t, none)
    | .error fault => (t, some (path, fault))

end RankEval.FileTree
