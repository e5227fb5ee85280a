/-
A file system as a value: directories, text files and symbolic links below one root, and a working directory.

- `run_bind`: what a computation that reads files gives in it is what its parts give, one after the other.
-/
import Std.Data.TreeMap.Lemmas
import RankEval.Files.Reading
import RankEval.Text.Basic

namespace RankEval

/-- what stands under a name; a file whose bytes are no text has none -/
inductive FileEntry where
  | file (text : Option String)
  | directory
  | link (target : FilePath)
  deriving DecidableEq, Repr

/-- The entries under their full paths, which are lists of names from the root. The root itself has no entry. -/
structure FileTree where
  entries : Std.TreeMap (List String) FileEntry
  workingDirectory : List String

namespace FileTree

/-- where a path leads to -/
inductive Target where
  | found (at_ : List String)
  /-- the last name of the path is not in its directory -/
  | absent (directory : List String) (name : String)
  deriving DecidableEq, Repr

/-- the entry at a full path -/
def entry? (t : FileTree) (at_ : List String) : Option FileEntry :=
  if at_ = [] then some .directory else t.entries[at_]?

/-- the parts of a path -/
def parts (path : FilePath) : List String := (Text.splitAt '/' path.toList).map String.ofList

/-- where a path starts -/
def startOf (base : List String) (path : FilePath) : List String := if Path.isAbsolute path then [] else base

/-- goes from part to part; `follow` continues from a directory with the parts of a link's target -/
def walk (t : FileTree) (follow : List String → List String → Except Fault Target) (here : List String) :
    List String → Except Fault Target
  | [] => .ok (.found here)
  | part :: rest =>
    if t.entry? here ≠ some .directory then .error .notDirectory
    else if part = "" ∨ part = "." then walk t follow here rest
    else if part = ".." then walk t follow here.dropLast rest
    else match t.entry? (here ++ [part]) with
      | none => if rest = [] then .ok (.absent here part) else .error .notFound
      | some (.link target) => follow (startOf here target) (parts target ++ rest)
      | some _ => walk t follow (here ++ [part]) rest

/-- goes from part to part and through at most `links - 1` links -/
def resolveFrom (t : FileTree) : Nat → List String → List String → Except Fault Target
  | 0, _, _ => .error .linkLoop
  | links + 1, here, rest => t.walk (t.resolveFrom links) here rest

/-- the number of links that a path may lead through, plus one -/
def linkLimit : Nat := 41

/-- where a path leads to, links followed -/
def resolve (t : FileTree) (path : FilePath) : Except Fault Target :=
  if path.isEmpty then .error .notFound
  else t.resolveFrom linkLimit (startOf t.workingDirectory path) (parts path)

def kind? (t : FileTree) (path : FilePath) : Option FileKind :=
  match t.resolve path with
  | .ok (.found at_) =>
    match t.entry? at_ with
    | some (.file _) => some .file
    | some .directory => some .directory
    | _ => none
  | _ => none

def text? (t : FileTree) (path : FilePath) : Except Fault String :=
  match t.resolve path with
  | .error fault => .error fault
  | .ok (.absent _ _) => .error .notFound
  | .ok (.found at_) =>
    match t.entry? at_ with
    | some (.file (some text)) => .ok text
    | some (.file none) => .error .notText
    | some .directory => .error .isDirectory
    | _ => .error .notFound

/-- the names in a directory, in order -/
def names (t : FileTree) (at_ : List String) : List String :=
  t.entries.keys.filterMap fun key => if key.dropLast = at_ then key.getLast? else none

mutual

/-- what the innermost directory of `above` leads to -/
def below (t : FileTree) : Nat → List (List String) → Directory
  | 0, _ => .directory []
  | fuel + 1, above =>
    let here := above.headD []
    .directory ((t.names here).map fun name => (name, t.belowEntry fuel above (here ++ [name]) name))

/-- what an entry of the innermost directory of `above` leads to -/
def belowEntry (t : FileTree) (fuel : Nat) (above : List (List String)) (at_ : List String) (name : String) :
    Directory :=
  match t.entry? at_ with
  | some .directory => t.below fuel (at_ :: above)
  | some (.link _) =>
    match t.resolveFrom linkLimit (above.headD []) [name] with
    | .error fault => .broken fault
    | .ok (.absent _ _) => .broken .notFound
    | .ok (.found target) =>
      if t.entry? target = some .directory then
        match above.idxOf? target with
        | some up => .loop up
        | none => t.below fuel (target :: above)
      else .file
  | _ => .file

end

/-- What lies below a path. A chain of nested directories meets no directory twice by a link, so that it is no longer
than the square of the number of entries. -/
def directory (t : FileTree) (path : FilePath) : Directory :=
  match t.resolve path with
  | .ok (.found at_) =>
    if t.entry? at_ = some .directory then t.below ((t.entries.size + 2) * (t.entries.size + 2)) [at_]
    else .directory []
  | _ => .directory []

end FileTree

/-- the answer of a file system to a chain of questions -/
def Reading.run {α : Type} (t : FileTree) : Reading α → α
  | .done a => a
  | .kind path next => (next (t.kind? path)).run t
  | .text path next => (next (t.text? path)).run t
  | .listing path next => (next (t.directory path)).run t

namespace Reading

variable {α β : Type} (t : FileTree)

@[simp] theorem run_pure (a : α) : (pure a : Reading α).run t = a := rfl

/-- the questions of a second computation are asked after those of the first -/
@[simp] theorem run_bind (r : Reading α) (f : α → Reading β) : (r >>= f).run t = (f (r.run t)).run t := by
  change (r.bind f).run t = _
  induction r with
  | done a => rfl
  | kind path next ih => exact ih _
  | text path next ih => exact ih _
  | listing path next ih => exact ih _

end Reading

end RankEval
