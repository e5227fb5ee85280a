/-
The program on a real file system. Everything it decides is decided elsewhere; this module asks the file system what a
command wants to know, saves what it wants to save, and shows what it shows.
-/
import RankEval.CommandLine.Program

namespace RankEval.CommandLine

/-- whether an error has a certain number; some calls give it negated -/
def hasNumber (code number : UInt32) : Bool := code == number || code == 0 - number

/-- why the file system refuses something -/
def faultOf (e : IO.Error) : Fault :=
  match e with
  | .noFileOrDirectory _ _ _ => .notFound
  | .alreadyExists _ _ _ => .exists
  | .inappropriateType _ code _ =>
    if hasNumber code 20 then .notDirectory else if hasNumber code 21 then .isDirectory else .other e.toString
  | _ => .other e.toString

/-- a result, or why it is refused -/
def attempting {α : Type} (act : IO α) : IO (Except Fault α) := do
  try return .ok (← act)
  catch e => return .error (faultOf e)

def kindAt (path : FilePath) : IO (Option FileKind) := do
  match ← attempting (IO.FS.realPath path) with
  | .ok real => return some (if ← real.isDir then .directory else .file)
  | .error _ => return none

def textAt (path : FilePath) : IO (Except Fault String) := do
  match ← attempting (IO.FS.readBinFile path) with
  | .error fault => return .error fault
  | .ok bytes =>
    match String.fromUTF8? bytes with
    | some text => return .ok text
    | none => return .error .notText

/-- what lies below a directory; `above` are the directories it lies in, links resolved -/
partial def directoryAt (above : List String) (path : FilePath) : IO Directory := do
  match ← attempting (IO.FS.realPath path) with
  | .error fault => return .broken fault
  | .ok real =>
    if ← real.isDir then
      match above.idxOf? real.toString with
      | some up => return .loop up
      | none =>
        let entries ← real.readDir
        return .directory (← entries.toList.mapM fun entry => do
          return (entry.fileName, ← directoryAt (real.toString :: above) (Path.join path entry.fileName)))
    else return .file

/-- the answers of the file system to a chain of questions -/
def ask {α : Type} : Reading α → IO α
  | .done a => return a
  | .kind path next => do ask (next (← kindAt path))
  | .text path next => do ask (next (← textAt path))
  | .listing path next => do ask (next (← directoryAt [] path))

/-- why a directory could not be made; that it is there already is no reason -/
def refusal (path : FilePath) (made : Except Fault Unit) : IO (Option Fault) := do
  match made with
  | .ok _ => return none
  | .error fault => return if (← kindAt path) == some .directory then none else some fault

/-- makes a directory and, if there is nothing above it, first those above -/
partial def makeDirectories (path : FilePath) : IO (Option Fault) := do
  if path.isEmpty then return none
  match ← attempting (IO.FS.createDir path) with
  | .error .notFound =>
    match Path.parent? path with
    | none => return some .notFound
    | some above =>
      match ← makeDirectories above with
      | some fault => return some fault
      | none => refusal path (← attempting (IO.FS.createDir path))
  | made => refusal path made

/-- saves a text, after making the directories above it; gives the path that was refused, if any -/
def store (save : Save) : IO (Option (FilePath × Fault)) := do
  match Path.parent? save.path with
  | some above =>
    if !above.isEmpty && (← kindAt above).isNone then
      if let some fault ← makeDirectories above then return some (above, fault)
  | none => pure ()
  match ← attempting (IO.FS.writeFile save.path save.text) with
  | .error fault => return some (save.path, fault)
  | .ok _ => return none

/-- shows output; `start` is when the command began -/
def display (start : Nat) (shown : List Shown) : IO Unit :=
  shown.forM fun
    | .text s => IO.print s
    | .timed s => do IO.println (s ++ " in " ++ elapsedText ((← IO.monoNanosNow) - start))

/-- the variables that commands depend on -/
def environment : IO Environment := do
  let found ← Environment.names.filterMapM fun name => do return (← IO.getEnv name).map fun value => (name, value)
  return ⟨found⟩

/-- ends a command with a complaint -/
def complain (c : Complaint) : IO UInt32 := do
  IO.eprintln c.text
  return 1

/-- carries out a command -/
def carryOut (command : Command) : IO UInt32 := do
  let start ← IO.monoNanosNow
  let (result, shown) ← ask ((command.script .sequential (← environment)).run [])
  display start shown
  match result with
  | .error complaint => complain complaint
  | .ok none => return 0
  | .ok (some save) =>
    match ← store save with
    | none =>
      IO.println save.done
      return 0
    | some (path, fault) => complain (saveComplaint path fault)

end RankEval.CommandLine

open RankEval.CommandLine in
def main (args : List String) : IO UInt32 := do
  match Command.parse args with
  | .ok command => carryOut command
  | .error notice =>
    display 0 notice.shown
    return UInt32.ofNat notice.exitCode
