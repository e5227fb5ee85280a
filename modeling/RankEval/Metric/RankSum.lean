/-
The area under the ROC curve from the sum of the relevant candidates' ranks.

With `n` candidates of which `r` are relevant, the area is `(n - (r - 1) / 2 - sum of ranks / r) / (n - r)`. Only the
candidates that the engine scored are ranked; the others share the mean of the remaining ranks.
-/
import RankEval.Metric.TopK
import RankEval.Candidates.Aligned

namespace RankEval.Metric

section
variable {R : Type} [Arithmetic R]

/-- hands out ranks in order to the flagged positions; the others get `tail` -/
def spread (tail : R) : List Bool → List R → List R
  | [], _ => []
  | true :: flags, rank :: ranks => rank :: spread tail flags ranks
  | true :: flags, [] => tail :: spread tail flags []
  | false :: flags, ranks => tail :: spread tail flags ranks

variable (R)

/-- the rank of every candidate -/
def candidateRanks (values : List Float) (flags : List Bool) : List R :=
  let scored := (values.zip flags).filterMap fun (value, flag) => if flag then some value else none
  spread (meanRank R (scored.length + 1) values.length) flags (averageRanks R scored)

/-- the sum of the relevant candidates' ranks, in candidate order -/
def rankSum (relevance values : List Float) (flags : List Bool) : R :=
  Arithmetic.total <| (relevance.zip (candidateRanks R values flags)).filterMap fun (value, rank) =>
    if isRelevant value then some rank else none

/-- the area that belongs to a rank sum -/
def areaOf (n r : Nat) (sum : R) : R :=
  let n : R := Arithmetic.ofNat n
  let r : R := Arithmetic.ofNat r
  (n - (r - Arithmetic.ofNat 1) / Arithmetic.ofNat 2 - sum / r) / (n - r)

/-- the area under the ROC curve -/
def auc (relevance : List Float) (scores : AlignedScores) : Except Error R := do
  let _ ← validate relevance scores.values 1
  let n := relevance.length
  let r := relevantCount relevance
  if r = 0 then .error (.noRelevantItems n)
  else if r = n then .error (.allRelevant n)
  else .ok (areaOf R n r (rankSum R relevance scores.values (scores.flags n)))

end

end RankEval.Metric
