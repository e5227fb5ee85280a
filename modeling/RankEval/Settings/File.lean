/-
Settings files. They are YAML, and an empty one holds the defaults.
-/
import RankEval.Failure
import RankEval.Settings.Environment
import RankEval.Settings.Format
import RankEval.Yaml.Document
import RankEval.Yaml.Printer

namespace RankEval.Settings

/-- the settings that a text holds -/
def parse (text : String) : Except Failure Settings :=
  match Yaml.decode? read? text with
  | some s => .ok s
  | none => .error (.settings .unreadable)

/-- settings as YAML text -/
def print (s : Settings) : String := Yaml.print s.datum

/-- the settings in a file -/
def ofFile (path : FilePath) : Attempt Settings := do
  match parse (← Attempt.text path) with
  | .ok s => return s
  | .error f => throw f

/-- the settings of the user's own file if there is one, else the defaults -/
def ofUser (env : Environment) : Attempt Settings := do
  match env.settingsFile? with
  | some path => if ← (Reading.pathExists path : Reading _) then ofFile path else return {}
  | none => return {}

/-- the settings of a named file, or else of the user's own one, and of the environment -/
def load (env : Environment) (named : Option FilePath) : Attempt Settings := do
  let s ← match named with
    | some path => ofFile path
    | none => ofUser env
  return s.withEnvironment env

end RankEval.Settings
