/-
Computations that read files. A `Reading` is a chain of questions to a file system, each of which may depend on the
answers before it; it has no way to change anything.
-/
import RankEval.Files.Directory

namespace RankEval

/-- what a path leads to -/
inductive FileKind where
  | file
  | directory
  deriving DecidableEq, Repr

/-- the questions that a computation asks before it is done -/
inductive Reading (α : Type) where
  | done (a : α)
  /-- what does a path lead to, if to anything? -/
  | kind (path : FilePath) (next : Option FileKind → Reading α)
  /-- which text does a file hold? -/
  | text (path : FilePath) (next : Except Fault String → Reading α)
  /-- what lies below a directory? -/
  | listing (path : FilePath) (next : Directory → Reading α)

namespace Reading

variable {α β : Type}

/-- asks the questions of a first computation, then those of a second one -/
def bind : Reading α → (α → Reading β) → Reading β
  | .done a, f => f a
  | .kind path next, f => .kind path fun k => (next k).bind f
  | .text path next, f => .text path fun t => (next t).bind f
  | .listing path next, f => .listing path fun d => (next d).bind f

instance : Monad Reading where
  pure := .done
  bind := bind

def kindOf (path : FilePath) : Reading (Option FileKind) := .kind path .done

def textOf (path : FilePath) : Reading (Except Fault String) := .text path .done

def directoryOf (path : FilePath) : Reading Directory := .listing path .done

/-- whether a path leads to anything -/
def pathExists (path : FilePath) : Reading Bool := return (← kindOf path).isSome

def isFile (path : FilePath) : Reading Bool := return (← kindOf path) == some .file

def isDirectory (path : FilePath) : Reading Bool := return (← kindOf path) == some .directory

end Reading

end RankEval
