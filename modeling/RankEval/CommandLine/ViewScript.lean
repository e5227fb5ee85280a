/-
The commands that only show something: the table of a saved report, and the settings in effect.
-/
import RankEval.CommandLine.QueryScript
import RankEval.Settings.File
import RankEval.Settings.Validity

namespace RankEval.CommandLine

open Decimal (natText)

/-- the line below the table of a report -/
def totalsLine (r : Report) : String :=
  natText r.entries.length ++ " keys, " ++ natText r.totals.evaluated ++ " evaluated, " ++ natText r.totals.skipped ++
    " skipped, " ++ natText r.totals.failed ++ " failed"

def summaryScript (path : FilePath) : Script (Option Save) := do
  if ← Script.ask (Report.isSaved path) then
    let report ← Script.reading "Failed to load report" (Report.load path)
    Script.block report.table
    Script.line (Report.rule Report.tableWidth)
    Script.line (totalsLine report)
    return none
  else throw ⟨"Report not found at '" ++ path ++ "'. Run 'run' command first.", []⟩

/-- where settings come from; a file that is not there gives none -/
def originLine (file : Option (FilePath × Bool)) : String :=
  match file with
  | some (path, true) => "Config file: " ++ path
  | some (path, false) => "Config file: " ++ path ++ " (not found, using defaults)"
  | none => "Config file: none (using defaults)"

/-- whether an evaluation can be run with settings -/
def verdictLine (s : Settings) : String :=
  match s.check with
  | .ok _ => "Configuration is valid."
  | .error fault => "Configuration error: " ++ (Failure.settings fault).message

def settingsScript (env : Environment) (named : Option FilePath) : Script (Option Save) := do
  let settings ← Script.reading "Failed to load configuration" (Settings.load env named)
  let origin ← match named.or env.settingsFile? with
    | some path => do pure (some (path, ← Script.ask (Reading.pathExists path)))
    | none => pure none
  Script.line (originLine origin)
  Script.line (Report.rule pageWidth)
  Script.block settings.print
  Script.line (Report.rule pageWidth)
  Script.line (verdictLine settings)
  return none

end RankEval.CommandLine
