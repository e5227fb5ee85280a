/-
Scores aligned with a list of candidates: one value per candidate, and which of them the engine gave.
-/

namespace RankEval

/-- One score per candidate. Flags beyond the last value mean nothing, and a candidate without a flag is not scored. -/
structure AlignedScores where
  values : List Float
  scored : List Bool
  deriving DecidableEq

namespace AlignedScores

/-- every value is an engine score -/
def dense (values : List Float) : AlignedScores := ⟨values, values.map fun _ => true⟩

/-- a candidate that the engine did not return has score 0 -/
def ofOptions (scores : List (Option Float)) : AlignedScores :=
  ⟨scores.map fun s => s.getD 0.0, scores.map Option.isSome⟩

def isScored (a : AlignedScores) (i : Nat) : Bool := a.scored[i]?.getD false

def scoredCount (a : AlignedScores) : Nat := a.scored.countP id

def length (a : AlignedScores) : Nat := a.values.length

def isEmpty (a : AlignedScores) : Bool := a.values.isEmpty

/-- the flags of the first `n` candidates -/
def flags (a : AlignedScores) (n : Nat) : List Bool :=
  a.scored.take n ++ List.replicate (n - a.scored.length) false

@[simp] theorem length_flags (a : AlignedScores) (n : Nat) : (a.flags n).length = n := by
  simp [flags]; omega

theorem getElem?_flags (a : AlignedScores) (n i : Nat) (h : i < n) : (a.flags n)[i]? = some (a.isScored i) := by
  unfold flags isScored
  rw [List.getElem?_append]
  split
  · next hi =>
    rw [List.getElem?_take_of_lt h]
    rw [List.length_take] at hi
    rw [List.getElem?_eq_getElem (by omega)]; rfl
  · next hi =>
    rw [List.length_take] at hi
    rw [List.getElem?_eq_none (l := a.scored) (by omega), List.getElem?_replicate, if_pos]
    · rfl
    · rw [List.length_take]; omega

end AlignedScores

end RankEval
