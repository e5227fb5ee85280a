/-
The command that evaluates every variant over all queries and saves the report.
-/
import RankEval.Campaign.Run
import RankEval.CommandLine.Command
import RankEval.CommandLine.Script
import RankEval.Report.Table
import RankEval.Settings.File

namespace RankEval.CommandLine

open Decimal (natText)

namespace RunOptions

/-- settings with what the options give in the place of what they had -/
def override (o : RunOptions) (s : Settings) : Settings :=
  { s with
    evaluation := {
      s.evaluation with
      workers := o.workers.getD s.evaluation.workers
      cutoffs := if o.cutoffs.isEmpty then s.evaluation.cutoffs else o.cutoffs
    } }

/-- where the report goes -/
def reportPath (o : RunOptions) : FilePath := o.output.getD Report.defaultPath

/-- the settings of a run -/
def load (o : RunOptions) (env : Environment) : Attempt Settings := return o.override (← Settings.load env o.settings)

end RunOptions

/-- the line before a run -/
def announcement (e : Evaluator) (queries : List Query) : String :=
  "Evaluating " ++ natText e.settings.variants.length ++ " configurations over " ++ natText queries.length ++
    " queries (" ++ natText e.corpus.length ++ " tables in corpus)..."

/-- the line after a run, up to the time it took -/
def conclusion (t : Report.Totals) : String :=
  "Evaluated " ++ natText t.evaluated ++ " query results, skipped " ++ natText t.skipped ++ ", failed " ++
    natText t.failed

/-- a run with nothing kept from before -/
def freshRun (schedule : Schedule) (e : Evaluator) (queries : List Query) : Attempt Report :=
  ExceptT.mk (Prod.fst <$> (e.runBy schedule queries).run .empty)

def runScript (schedule : Schedule) (env : Environment) (o : RunOptions) : Script (Option Save) := do
  let settings ← Script.reading "Failed to load configuration" (o.load env)
  let e ← Script.reading "Failed to prepare evaluation" (Evaluator.ofSettings settings)
  let queries ← Script.reading "Failed to load queries" e.queries
  Script.line (announcement e queries)
  let report ← Script.reading "Evaluation failed" (freshRun schedule e queries)
  Script.line ""
  Script.block report.table
  Script.line (Report.rule Report.tableWidth)
  Script.timed (conclusion report.totals)
  return some ⟨o.reportPath, report.textFor o.reportPath, "Report saved to: " ++ o.reportPath⟩

end RankEval.CommandLine
