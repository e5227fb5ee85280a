/-
Reports as a table of text: one line for every key, with columns of fixed width.
-/
import RankEval.Report.Basic
import RankEval.Decimal.Fixed

namespace RankEval.Report

open Decimal (natText fixed)

/-- fills up with blanks behind the text -/
def padRight (width : Nat) (s : String) : String := s ++ String.ofList (List.replicate (width - s.length) ' ')

/-- fills up with blanks before the text -/
def padLeft (width : Nat) (s : String) : String := String.ofList (List.replicate (width - s.length) ' ') ++ s

/-- a horizontal line -/
def rule (width : Nat) : String := String.ofList (List.replicate width '─')

/-- the width of a table -/
def tableWidth : Nat := 118

/-- mean and deviation; a dash where there are none -/
def statistics (f : FieldSummary Float) : String :=
  match f.mean, f.deviation with
  | some mean, some deviation => fixed 3 mean ++ "±" ++ fixed 3 deviation
  | _, _ => "-"

/-- one line of the table -/
def tableLine (name count skipped failed ndcg precision recalled auc : String) : String :=
  padRight 44 name ++ " " ++ padLeft 6 count ++ " " ++ padLeft 5 skipped ++ " " ++ padLeft 5 failed ++ " " ++
    padLeft 13 ndcg ++ " " ++ padLeft 13 precision ++ " " ++ padLeft 13 recalled ++ " " ++ padLeft 13 auc ++ "\n"

def entryLine (e : Entry) : String :=
  tableLine e.key.text (natText e.summary.count) (natText e.summary.skipped) (natText e.summary.failed)
    (statistics e.summary.ndcg) (statistics e.summary.precisionAtK) (statistics e.summary.recallAtK)
    (statistics e.summary.auc)

/-- the table of a report -/
def table (r : Report) : String :=
  tableLine "configuration" "n" "skip" "fail" "ndcg" "precision" "recall" "auc" ++ rule tableWidth ++ "\n" ++
    String.join (r.entries.map entryLine)

end RankEval.Report
