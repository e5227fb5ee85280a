/-
The ranks that tied scores share, written into a table. One loop goes from group to group along the ranked order; a
second one finds where the group ends. Every member of the group gets its rank at its own position.
-/
import RankEval.Metric.Ranking

namespace RankEval.Metric

/-- the first place of the order, from `stop` on, whose score is not tied with that of the candidate `first` -/
def groupEnd (scores : List Float) (order : List Nat) (first stop : Nat) : Nat :=
  if h : stop < order.length then
    if tied (scores.getD first 0.0) (scores.getD order[stop] 0.0) then groupEnd scores order first (stop + 1) else stop
  else stop
termination_by order.length - stop

theorem le_groupEnd (scores : List Float) (order : List Nat) (first stop : Nat) :
    stop ≤ groupEnd scores order first stop := by
  fun_induction groupEnd with
  | case1 stop h htied ih => exact Nat.le_of_succ_le ih
  | case2 => exact Nat.le_refl _
  | case3 => exact Nat.le_refl _

section
variable {R : Type}

/-- gives all candidates of a group one rank -/
def writeGroup (ranks : Array R) (group : List Nat) (rank : R) : Array R :=
  group.foldl (fun ranks i => ranks.setIfInBounds i rank) ranks

variable [Arithmetic R]

/-- writes the ranks from the place `start` of the order on -/
def writeRanks (scores : List Float) (order : List Nat) (start : Nat) (ranks : Array R) : Array R :=
  if h : start < order.length then
    let stop := groupEnd scores order order[start] (start + 1)
    writeRanks scores order stop (writeGroup ranks ((order.take stop).drop start) (meanRank R (start + 1) stop))
  else ranks
termination_by order.length - start
decreasing_by
  have hstop := le_groupEnd scores order order[start] (start + 1)
  omega

variable (R)

/-- the rank of every score, by position -/
def rankTable (scores : List Float) : List R :=
  (writeRanks scores (ranking scores) 0 (Array.replicate scores.length (Arithmetic.ofNat 0))).toList

end

end RankEval.Metric
