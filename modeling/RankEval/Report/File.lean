/-
Reports as files, in a format that the extension of their path names.
-/
import RankEval.Failure
import RankEval.Json.Document
import RankEval.Json.Printer
import RankEval.Report.Format
import RankEval.Yaml.Document
import RankEval.Yaml.Printer

namespace RankEval

/-- the formats of report files -/
inductive ReportFormat where
  | json
  | yaml
  deriving DecidableEq, Repr

namespace ReportFormat

/-- The format of a path: YAML for two extensions in small letters, otherwise JSON. -/
def ofPath (path : FilePath) : ReportFormat :=
  if Path.extension? path = some "yaml" ∨ Path.extension? path = some "yml" then .yaml else .json

/-- the text of a report -/
def print (format : ReportFormat) (r : Report) : String :=
  match format with
  | .json => Json.print r.datum
  | .yaml => Yaml.print r.datum

/-- the report that a text holds -/
def parse? (format : ReportFormat) (text : String) : Option Report :=
  match format with
  | .json => Json.decode? Report.read? text
  | .yaml => Yaml.decode? Report.read? text

end ReportFormat

namespace Report

/-- the path of a report if no other one is given -/
def defaultPath : FilePath := "evaluation_report.json"

/-- the text of a report for a path -/
def textFor (path : FilePath) (r : Report) : String := (ReportFormat.ofPath path).print r

/-- the report in a file -/
def load (path : FilePath) : Attempt Report := do
  if ← (Reading.pathExists path : Reading _) then
    match (ReportFormat.ofPath path).parse? (← Attempt.text path) with
    | some r => return r
    | none => throw .serialization
  else throw (.noReport path)

/-- whether a path leads to a file -/
def isSaved (path : FilePath) : Reading Bool := Reading.isFile path

end Report

end RankEval
