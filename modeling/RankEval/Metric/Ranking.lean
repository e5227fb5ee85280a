/-
The order in which candidates are ranked: by score, highest first, equal scores in the order in which they are given;
and the ranks that tied scores share.

- `ranking_perm`: every position is ranked exactly once.
-/
import RankEval.Arithmetic

namespace RankEval.Metric

/-- whether a score may stand before another: it is not smaller -/
def precedes (a b : Float) : Bool := !decide (a < b)

/-- scores with their positions, highest score first; the sort is stable -/
def ranked (scores : List Float) : List (Float × Nat) :=
  scores.zipIdx.mergeSort fun a b => precedes a.1 b.1

/-- the positions in ranked order -/
def ranking (scores : List Float) : List Nat := (ranked scores).map Prod.snd

theorem ranking_perm (scores : List Float) : (ranking scores).Perm (List.range scores.length) := by
  have h := (List.mergeSort_perm scores.zipIdx fun a b => precedes a.1 b.1).map Prod.snd
  rwa [List.zipIdx_map_snd, ← List.range_eq_range'] at h

@[simp] theorem length_ranking (scores : List Float) : (ranking scores).length = scores.length := by
  simpa using (ranking_perm scores).length_eq

/-- neither score is smaller -/
def tied (a b : Float) : Bool := precedes a b && precedes b a

section
variable (R : Type) [Arithmetic R]

/-- the mean of the ranks `first, …, last` -/
def meanRank (first last : Nat) : R := Arithmetic.ofNat (first + last) / Arithmetic.ofNat 2

/-- gives every member of a group the group's mean rank; `taken` ranks are used up before -/
def groupRanks (taken : Nat) : List (List (Float × Nat)) → List (R × Nat)
  | [] => []
  | group :: rest =>
    let last := taken + group.length
    group.map (fun entry => (meanRank R (taken + 1) last, entry.2)) ++ groupRanks last rest

/-- The 1-based rank of every score, highest score first. Tied scores share the mean of their ranks. -/
def averageRanks (scores : List Float) : List R :=
  let groups := (ranked scores).splitBy fun a b => tied a.1 b.1
  ((groupRanks R 0 groups).mergeSort fun a b => decide (a.2 ≤ b.2)).map Prod.fst

end

end RankEval.Metric
