/-
Discounted cumulative gain. What a relevance is worth (`gain`) and how much a position counts (`discount`) are
parameters, so that the same sum can be read with exact gains and discounts.
-/
import RankEval.Metric.TopK

namespace RankEval.Metric

/-- what a relevance is worth -/
inductive Gain where
  /-- the relevance itself -/
  | linear
  /-- `2^relevance - 1` -/
  | exponential
  deriving DecidableEq, Repr

def Gain.apply : Gain → Float → Float
  | .linear, relevance => relevance
  | .exponential, relevance => Float.exp2 relevance - 1.0

/-- what the gain at a position (from 0) is divided by -/
def discount (position : Nat) : Float := Float.log2 (Float.ofNat position + 2.0)

section
variable {R : Type} [Arithmetic R]

/-- the gains of a list of relevances, each divided by the discount of its position -/
def dcg (gain : Float → R) (discount : Nat → R) (relevance : List Float) : R :=
  Arithmetic.total (relevance.zipIdx.map fun (value, position) => gain value / discount position)

/-- the gain of the first `k` of the ranking by `scores` over that of the first `k` of the ranking by relevance -/
def normalisedDcg [BEq R] (gain : Float → R) (discount : Nat → R) (relevance scores : List Float) (k : Nat) : R :=
  let ideal := dcg gain discount (topRelevance relevance relevance k)
  if ideal == Arithmetic.ofNat 0 then Arithmetic.ofNat 0
  else dcg gain discount (topRelevance relevance scores k) / ideal

end

/-- normalised gain at cutoff `k`; 0 if no candidate is relevant -/
def ndcgAtK (relevance scores : List Float) (k : Nat) (gain : Gain) : Except Error Float :=
  (validate relevance scores k).map fun k => normalisedDcg gain.apply discount relevance scores k

end RankEval.Metric
