/-
The result of a run: for every evaluation key, in order, what was found and its statistics.
-/
import RankEval.Report.Ledger

namespace RankEval

namespace Report

structure Entry where
  key : EvaluationKey
  summary : Summary
  distribution : Distribution
  deriving DecidableEq

/-- how many queries were evaluated, skipped and failed, over all keys -/
structure Totals where
  evaluated : Nat
  skipped : Nat
  failed : Nat
  deriving DecidableEq, Repr

end Report

structure Report where
  entries : List Report.Entry
  deriving DecidableEq

namespace Report

def ofLedger (l : Ledger) : Report :=
  ⟨l.distributions.toList.map fun (key, d) => ⟨key, d.summarize, d⟩⟩

/-- the first entry of a key -/
def get? (r : Report) (key : EvaluationKey) : Option Entry := r.entries.find? fun e => e.key = key

/-- the sum of two 64-bit counts -/
def addCount (a b : Nat) : Nat := (a + b) % Nat.pow 2 64

def totals (r : Report) : Totals :=
  r.entries.foldl (fun t e =>
    ⟨addCount t.evaluated e.summary.count, addCount t.skipped e.summary.skipped, addCount t.failed e.summary.failed⟩)
    ⟨0, 0, 0⟩

end Report

end RankEval
