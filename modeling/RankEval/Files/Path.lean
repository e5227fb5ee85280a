/-
File paths as texts: parts divided by slashes. Nothing here looks at a file system.
-/

namespace RankEval

/-- the path of a file or directory -/
abbrev FilePath := String

namespace Path

/-- A path below another one. One slash stands between the two, none if the first is empty or already ends in one; a
second path that is absolute replaces the first. -/
def join (base part : FilePath) : FilePath :=
  if part.startsWith "/" then part
  else if base.isEmpty || base.endsWith "/" then base ++ part
  else base ++ "/" ++ part

/-- a path below another one, part by part -/
def joinAll (base : FilePath) (parts : List FilePath) : FilePath := parts.foldl join base

def isAbsolute (p : FilePath) : Bool := p.startsWith "/"

/-- drops slashes, and dots that stand for the directory itself, from the end; the text is in reverse order -/
def dropTail : List Char → List Char
  | ['/'] => ['/']
  | '/' :: rest => dropTail rest
  | '.' :: '/' :: rest => dropTail ('/' :: rest)
  | cs => cs

/-- drops slashes from the end of a path, in reverse order, other than the root's own -/
def dropSlashes : List Char → List Char
  | ['/'] => ['/']
  | '/' :: rest => dropSlashes rest
  | cs => cs

/-- the last part of a path; neither the root nor a step upwards has a name -/
def name? (p : FilePath) : Option String :=
  let last := ((dropTail p.toList.reverse).takeWhile (· != '/')).reverse
  if last.isEmpty || last == ['.'] || last == ['.', '.'] then none else some (String.ofList last)

/-- the path of the directory that a path lies in; a single part lies in the empty path -/
def parent? (p : FilePath) : Option FilePath :=
  match dropTail p.toList.reverse with
  | [] => none
  | ['/'] => none
  | cs => some (String.ofList (dropTail (dropSlashes (cs.dropWhile (· != '/')))).reverse)

/-- what follows the last dot of a name; a dot at its start does not count -/
def extension? (p : FilePath) : Option String :=
  (name? p).bind fun name =>
    let tail := name.toList.reverse.takeWhile (· != '.')
    if tail.length + 1 < name.length then some (String.ofList tail.reverse) else none

end Path

end RankEval
