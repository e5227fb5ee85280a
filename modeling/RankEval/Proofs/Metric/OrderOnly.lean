/-
Metrics see scores only through their order. What a score is counts for nothing: any other finite scores that put the
same candidates above one another, with the same ones scored, give the same result, bit by bit.

- `ranking_of_sameOrder`: the stable order is the same.
- `candidateRanks_of_sameOrder`: so are the ranks, shared ones and those of candidates without a score.
- `evaluate_of_order`: so is every result, for scores in the same order and for scores that a function is applied to.
- `evaluate_of_order_five`: five candidates with two ties, one of them between both zeros.
-/
import RankEval.Proofs.Metric.MannWhitney
import RankEval.Proofs.Metric.RankedOrder

namespace RankEval.Metric

open Double (isNaN_of_isFinite beq_iff_not_lt)

/-- Two lists of scores for the same candidates. The same ones are scored, and of any two candidates the first has the
smaller score in one list iff it has in the other. -/
structure SameOrder (a b : AlignedScores) : Prop where
  length : a.values.length = b.values.length
  finite : ∀ x ∈ a.values, x.isFinite = true
  finite' : ∀ x ∈ b.values, x.isFinite = true
  scored : ∀ i < a.values.length, a.isScored i = b.isScored i
  lt_iff : ∀ i < a.values.length, ∀ j < a.values.length,
    (a.values.getD i 0.0 < a.values.getD j 0.0 ↔ b.values.getD i 0.0 < b.values.getD j 0.0)

section
variable {a b : AlignedScores} {relevance : List Float}

/-- equal scores are equal scores -/
theorem SameOrder.beq_eq (h : SameOrder a b) {i j : ℕ} (hi : i < a.values.length) (hj : j < a.values.length) :
    (a.values.getD i 0.0 == a.values.getD j 0.0) = (b.values.getD i 0.0 == b.values.getD j 0.0) := by
  have hnum : ∀ i, (a.values.getD i 0.0).isNaN = false := fun i => isNaN_of_isFinite (isFinite_getD h.finite i)
  have hnum' : ∀ i, (b.values.getD i 0.0).isNaN = false := fun i => isNaN_of_isFinite (isFinite_getD h.finite' i)
  rw [Bool.eq_iff_iff, beq_iff_not_lt (hnum i) (hnum j), beq_iff_not_lt (hnum' i) (hnum' j),
    h.lt_iff i hi j hj, h.lt_iff j hj i hi]

/-! ## The ranking -/

/-- **The stable order is the same.** -/
theorem ranking_of_sameOrder (h : SameOrder a b) : ranking a.values = ranking b.values := by
  have horder := stableOrder_ranking h.finite
  refine (stableOrder_iff h.finite' _).1 ⟨h.length ▸ horder.perm, ?_⟩
  refine horder.falls.imp_of_mem fun {i j} hi hj hij => ?_
  have hi : i < a.values.length := List.mem_range.1 (horder.perm.mem_iff.1 hi)
  have hj : j < a.values.length := List.mem_range.1 (horder.perm.mem_iff.1 hj)
  rwa [h.lt_iff j hj i hi, h.beq_eq hi hj] at hij

theorem topRelevance_of_sameOrder (h : SameOrder a b) (relevance : List Float) (k : ℕ) :
    topRelevance relevance a.values k = topRelevance relevance b.values k := by
  rw [topRelevance, ranking_of_sameOrder h, topRelevance]

/-! ## The ranks -/

/-- candidates in the same order beat the same candidates, and are level with the same ones -/
theorem beats_of_sameOrder (h : SameOrder a b) {i j : ℕ} (hi : i < a.values.length) (hj : j < a.values.length) :
    (candidateAt relevance a i).beats (candidateAt relevance a j) =
        (candidateAt relevance b i).beats (candidateAt relevance b j) ∧
      (candidateAt relevance a i).level (candidateAt relevance a j) =
        (candidateAt relevance b i).level (candidateAt relevance b j) := by
  unfold Candidate.beats Candidate.level candidateAt
  dsimp only
  rw [h.scored i hi, h.scored j hj, h.beq_eq hi hj]
  simp only [h.lt_iff j hj i hi, and_self]

/-- **The ranks are the same**, whether they are shared by equal scores or by the candidates without a score. -/
theorem candidateRanks_of_sameOrder (R : Type) [Arithmetic R] (h : SameOrder a b)
    (hlen : relevance.length = a.values.length) :
    candidateRanks R a.values (a.flags relevance.length) = candidateRanks R b.values (b.flags relevance.length) := by
  have hlen' : relevance.length = b.values.length := hlen.trans h.length
  have hsame : ∀ i < relevance.length, placement R (candidates relevance a) (candidateAt relevance a i) =
      placement R (candidates relevance b) (candidateAt relevance b i) := by
    intro i hi
    -- a rank counts the candidates ahead and those abreast
    have hahead : ahead (candidates relevance a) (candidateAt relevance a i) =
        ahead (candidates relevance b) (candidateAt relevance b i) :=
      countP_candidates_congr hlen hlen' fun j hj => (beats_of_sameOrder h (hlen ▸ hj) (hlen ▸ hi)).1
    have habreast : abreast (candidates relevance a) (candidateAt relevance a i) =
        abreast (candidates relevance b) (candidateAt relevance b i) :=
      countP_candidates_congr hlen hlen' fun j hj => (beats_of_sameOrder h (hlen ▸ hi) (hlen ▸ hj)).2
    rw [placement, placement, hahead, habreast]
  have hranks : ∀ scores : AlignedScores, relevance.length = scores.values.length →
      (candidates relevance scores).map (placement R (candidates relevance scores)) =
        (List.range relevance.length).map fun i =>
          placement R (candidates relevance scores) (candidateAt relevance scores i) := by
    intro scores hlen
    conv_lhs => arg 2; rw [candidates_eq_map_range hlen]
    rw [List.map_map]
    rfl
  rw [candidateRanks_eq_map R hlen h.finite, candidateRanks_eq_map R hlen' h.finite', hranks a hlen, hranks b hlen']
  exact List.map_congr_left fun i hi => hsame i (List.mem_range.1 hi)

/-! ## The results -/

/-- finite scores pass the checks, whatever they are -/
theorem validate_of_sameOrder (h : SameOrder a b) (relevance : List Float) (k : ℕ) :
    validate relevance a.values k = validate relevance b.values k := by
  unfold validate
  rw [h.length, (badScore_eq_none_iff _).2 h.finite, (badScore_eq_none_iff _).2 h.finite']

theorem auc_of_sameOrder (R : Type) [Arithmetic R] (h : SameOrder a b) (relevance : List Float) :
    auc R relevance a = auc R relevance b := by
  unfold auc
  rw [validate_of_sameOrder h]
  cases hv : validate relevance b.values 1 with
  | error e => rfl
  | ok c =>
    have hlen : relevance.length = a.values.length := ((validate_eq_ok_iff ..).1 hv).1.trans h.length.symm
    simp only [rankSum, candidateRanks_of_sameOrder R h hlen]

theorem evaluate_of_sameOrder (h : SameOrder a b) (options : Options) (relevance : List Float) (k : ℕ) :
    evaluate options relevance a k = evaluate options relevance b k := by
  unfold evaluate optionalAuc normalisedDcg hits
  simp only [validate_of_sameOrder h, auc_of_sameOrder Float h, topRelevance_of_sameOrder h]

end

/-! ## Functions of scores -/

/-- A function that takes some finite scores to finite ones in the same order, and 0 to itself. There are only finitely
many doubles, so no function other than the identity could be asked to do this for all of them. -/
structure KeepsOrder (f : Float → Float) (scores : List Float) : Prop where
  finite : ∀ x ∈ scores, x.isFinite = true ∧ (f x).isFinite = true
  lt_iff : ∀ x ∈ scores, ∀ y ∈ scores, (x < y ↔ f x < f y)
  zero : f 0.0 = 0.0

section
variable {f : Float → Float} {answers : List (Option Float)}

/-- a candidate without an answer has score 0 before and after -/
theorem values_map (hf : f 0.0 = 0.0) : (AlignedScores.ofOptions (answers.map (Option.map f))).values =
    (AlignedScores.ofOptions answers).values.map f := by
  simp only [AlignedScores.ofOptions, List.map_map]
  refine List.map_congr_left fun s _ => ?_
  cases s with
  | none => exact hf.symm
  | some s => rfl

theorem isScored_map (i : ℕ) : (AlignedScores.ofOptions (answers.map (Option.map f))).isScored i =
    (AlignedScores.ofOptions answers).isScored i := by
  simp only [AlignedScores.isScored, AlignedScores.ofOptions, List.map_map]
  congr 3
  funext s
  cases s <;> rfl

theorem sameOrder_map (hf : KeepsOrder f (AlignedScores.ofOptions answers).values) :
    SameOrder (.ofOptions answers) (.ofOptions (answers.map (Option.map f))) where
  length := by simp [AlignedScores.ofOptions]
  finite x hx := (hf.finite x hx).1
  finite' := by
    rw [values_map hf.zero]
    intro x hx
    obtain ⟨y, hy, rfl⟩ := List.mem_map.1 hx
    exact (hf.finite y hy).2
  scored i _ := (isScored_map i).symm
  lt_iff i hi j hj := by
    have hget : ∀ i, ((AlignedScores.ofOptions answers).values.map f).getD i 0.0 =
        f ((AlignedScores.ofOptions answers).values.getD i 0.0) := by
      intro i
      rw [← hf.zero, List.getD_map, hf.zero]
    have hmem : ∀ i < (AlignedScores.ofOptions answers).values.length,
        (AlignedScores.ofOptions answers).values.getD i 0.0 ∈ (AlignedScores.ofOptions answers).values := by
      intro i hi
      rw [List.getD_eq_getElem _ _ hi]
      exact List.getElem_mem hi
    rw [values_map hf.zero, hget, hget]
    exact hf.lt_iff _ (hmem i hi) _ (hmem j hj)

end

/-- **Metrics see scores only through their order.** Finite scores in the same order, with the same candidates scored,
give the same result: the same error, or records that are equal in every field. So do an engine's scores after any
function that keeps their order and takes 0, which stands for no score, to 0. -/
theorem evaluate_of_order (options : Options) (relevance : List Float) (k : ℕ) :
    (∀ a b, SameOrder a b → evaluate options relevance a k = evaluate options relevance b k) ∧
      ∀ (f : Float → Float) (answers : List (Option Float)), KeepsOrder f (AlignedScores.ofOptions answers).values →
        evaluate options relevance (.ofOptions (answers.map (Option.map f))) k =
          evaluate options relevance (.ofOptions answers) k := by
  refine ⟨fun a b h => evaluate_of_sameOrder h options relevance k, fun f answers hf => ?_⟩
  exact (evaluate_of_sameOrder (sameOrder_map hf) options relevance k).symm

/-- the last flag is missing; both zeros are equal -/
def fiveScores : AlignedScores := ⟨[0.5, -1.0, 0.0, 0.5, -0.0], [true, true, false, true]⟩

/-- the same order far from 0, and no score that is 0 -/
def fiveOthers : AlignedScores := ⟨[700.0, -0.25, 3.0, 700.0, 3.0], [true, true, false, true, false]⟩

/-- Five candidates with two ties, one of them between both zeros, and three of them after their scores are tripled. -/
theorem evaluate_of_order_five :
    SameOrder fiveScores fiveOthers ∧
      evaluate {} [1.0, 0.0, 2.0, 0.0, 0.0] fiveScores 3 = evaluate {} [1.0, 0.0, 2.0, 0.0, 0.0] fiveOthers 3 ∧
      ((evaluate {} [1.0, 0.0, 2.0, 0.0, 0.0] fiveOthers 3).toOption.map fun r => (r.k, r.auc.isSome)) =
        some (3, true) ∧
      KeepsOrder (· * 3.0) (AlignedScores.ofOptions [some 0.25, none, some (-1.0)]).values ∧
      evaluate {} [1.0, 0.0, 0.0] (.ofOptions [some (0.25 * 3.0), none, some (-1.0 * 3.0)]) 1 =
        evaluate {} [1.0, 0.0, 0.0] (.ofOptions [some 0.25, none, some (-1.0)]) 1 := by
  have horder : SameOrder fiveScores fiveOthers := by
    refine ⟨by decide, by decide, by decide, by decide, by decide +kernel⟩
  have htripled : KeepsOrder (· * 3.0) (AlignedScores.ofOptions [some 0.25, none, some (-1.0)]).values := by
    refine ⟨by decide +kernel, by decide +kernel, by decide⟩
  exact ⟨horder, (evaluate_of_order {} _ 3).1 _ _ horder, by decide +kernel, htripled,
    (evaluate_of_order {} _ 1).2 _ _ htripled⟩

end RankEval.Metric
