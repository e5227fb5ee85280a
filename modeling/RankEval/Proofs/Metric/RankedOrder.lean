/-
The ranked order, by what it is: every position once, higher scores before lower ones, and equal scores as they are
given. And what stands at a position of it.

- `stableOrder_iff_of_numbers`: the ranking is that order, and there is no other one.
- `falling_ranking`: scores fall along the ranking.
- `topRelevance_eq_map`: the first relevances of a ranking, position by position.
- `value_relevanceAt_le`: ranked by themselves, relevances fall.
-/
import RankEval.Metric.TopK
import RankEval.Proofs.Double.Value
import RankEval.Proofs.Metric.SharedRanks

namespace RankEval.Metric

open Double (place value isNaN_of_isFinite lt_iff_place beq_iff_place lt_iff_value beq_iff_value)

/-! ## The stable order -/

/-- The positions of a list of scores, highest score first. Positions with equal scores are in ascending order. -/
structure StableOrder (scores : List Float) (order : List ℕ) : Prop where
  perm : order.Perm (List.range scores.length)
  falls : order.Pairwise fun i j => scores.getD j 0.0 < scores.getD i 0.0 ∨
    (scores.getD i 0.0 == scores.getD j 0.0) = true ∧ i < j

section
variable {scores : List Float}

theorem getD_of_mem_zipIdx {e : Float × ℕ} (he : e ∈ scores.zipIdx) : scores.getD e.2 0.0 = e.1 := by
  rw [List.getD_eq_getElem?_getD, List.mk_mem_zipIdx_iff_getElem?.1 he, Option.getD_some]

/-- what stands at all positions, in their order -/
theorem map_getD_range (values : List Float) : (List.range values.length).map (fun i => values.getD i 0.0) = values :=
  List.ext_getElem (by simp) fun i _ hi => by simp [hi]

theorem map_getD_ranking (scores : List Float) :
    (ranking scores).map (fun i => scores.getD i 0.0) = (ranked scores).map Prod.fst := by
  rw [ranking, List.map_map]
  exact List.map_congr_left fun e he => getD_of_mem_zipIdx (List.mem_mergeSort.1 he)

/-- along the ranking no score is above one that stands before it -/
theorem falling_ranking (h : ∀ x ∈ scores, x.isNaN = false) :
    Falling (fun i => place (scores.getD i 0.0)) (ranking scores) := by
  have hfalls : ((ranking scores).map fun i => scores.getD i 0.0).Pairwise fun x y => place y ≤ place x := by
    rw [map_getD_ranking, List.pairwise_map]
    exact falling_ranked h
  exact List.pairwise_map.1 hfalls

theorem isNaN_getD (h : ∀ x ∈ scores, x.isNaN = false) (i : ℕ) : (scores.getD i 0.0).isNaN = false := by
  rw [List.getD_eq_getElem?_getD]
  cases hget : scores[i]? with
  | none => rfl
  | some x => exact h x (List.mem_of_getElem? hget)

/-- What is ranked is ranked by score and then by position: a stable sort compares the positions as well. -/
theorem pairwise_ranked (h : ∀ x ∈ scores, x.isNaN = false) :
    (ranked scores).Pairwise fun a b => place b.1 < place a.1 ∨ place a.1 = place b.1 ∧ a.2 < b.2 := by
  set before : Float × ℕ → Float × ℕ → Bool := fun a b => decide (place b.1 ≤ place a.1) with hbefore
  have hsorted := List.pairwise_mergeSort (@List.zipIdxLE_trans _ before placed_trans)
    (List.zipIdxLE_total placed_total) scores.zipIdx.zipIdx
  have hranked : (ranked scores).Pairwise fun a b => place b.1 ≤ place a.1 ∧ (place a.1 = place b.1 → a.2 ≤ b.2) := by
    rw [ranked_eq_mergeSort_place h, ← List.mergeSort_zipIdx, List.pairwise_map]
    refine hsorted.imp_of_mem fun {a b} ha hb hab => ?_
    -- an entry that is numbered once more gets the number that it has
    have hnumbered : ∀ e ∈ scores.zipIdx.zipIdx, e.1.2 = e.2 := by
      intro e he
      obtain ⟨i, hi, rfl⟩ := List.mem_iff_getElem.1 he
      simp
    rw [List.zipIdxLE, ← hnumbered a (List.mem_mergeSort.1 ha), ← hnumbered b (List.mem_mergeSort.1 hb)] at hab
    by_cases hle : place b.1.1 ≤ place a.1.1
    · refine ⟨hle, fun htie => ?_⟩
      rw [hbefore, if_pos (decide_eq_true hle), if_pos (decide_eq_true htie.le)] at hab
      exact of_decide_eq_true hab
    · rw [hbefore, if_neg (by simpa using hle)] at hab
      exact absurd hab Bool.false_ne_true
  have hdistinct : (ranking scores).Nodup := (ranking_perm scores).nodup_iff.2 List.nodup_range
  refine (hranked.and (List.pairwise_map.1 hdistinct)).imp fun {a b} ⟨⟨hle, htie⟩, hne⟩ => ?_
  rcases hle.lt_or_eq with hlt | heq
  · exact .inl hlt
  · exact .inr ⟨heq.symm, lt_of_le_of_ne (htie heq.symm) hne⟩

theorem stableOrder_ranking_of_numbers (h : ∀ x ∈ scores, x.isNaN = false) : StableOrder scores (ranking scores) := by
  refine ⟨ranking_perm scores, ?_⟩
  rw [ranking, List.pairwise_map]
  refine (pairwise_ranked h).imp_of_mem fun {a b} ha hb hab => ?_
  have hza : a ∈ scores.zipIdx := List.mem_mergeSort.1 ha
  have hzb : b ∈ scores.zipIdx := List.mem_mergeSort.1 hb
  have hna : a.1.isNaN = false := h a.1 (List.fst_mem_of_mem_zipIdx hza)
  have hnb : b.1.isNaN = false := h b.1 (List.fst_mem_of_mem_zipIdx hzb)
  rw [getD_of_mem_zipIdx hza, getD_of_mem_zipIdx hzb, lt_iff_place hnb hna, beq_iff_place hna hnb]
  exact hab

theorem isFinite_getD (h : ∀ x ∈ scores, x.isFinite = true) (i : ℕ) : (scores.getD i 0.0).isFinite = true := by
  rw [List.getD_eq_getElem?_getD]
  cases hget : scores[i]? with
  | none => rfl
  | some x => exact h x (List.mem_of_getElem? hget)

/-- **The ranking is the stable order**, and there is no other one. -/
theorem stableOrder_iff_of_numbers (h : ∀ x ∈ scores, x.isNaN = false) (order : List ℕ) :
    StableOrder scores order ↔ order = ranking scores := by
  have hranking := stableOrder_ranking_of_numbers h
  refine ⟨fun horder => ?_, fun heq => heq ▸ hranking⟩
  refine List.Perm.eq_of_pairwise (fun i j _ _ hij hji => ?_) horder.falls hranking.falls
    (horder.perm.trans hranking.perm.symm)
  -- no two positions stand before each other
  have hi := isNaN_getD h i
  have hj := isNaN_getD h j
  rw [lt_iff_place hj hi, beq_iff_place hi hj] at hij
  rw [lt_iff_place hi hj, beq_iff_place hj hi] at hji
  rcases hij with hlt | ⟨heq, hlt⟩ <;> rcases hji with hlt' | ⟨heq', hlt'⟩
  · exact absurd hlt' hlt.not_gt
  · exact absurd heq' hlt.ne
  · exact absurd heq.symm hlt'.ne'
  · exact absurd hlt' hlt.not_gt

theorem stableOrder_ranking (h : ∀ x ∈ scores, x.isFinite = true) : StableOrder scores (ranking scores) :=
  stableOrder_ranking_of_numbers fun x hx => isNaN_of_isFinite (h x hx)

theorem stableOrder_iff (h : ∀ x ∈ scores, x.isFinite = true) (order : List ℕ) :
    StableOrder scores order ↔ order = ranking scores :=
  stableOrder_iff_of_numbers (fun x hx => isNaN_of_isFinite (h x hx)) order

end

/-! ## Positions of a ranking -/

/-- the relevance of the candidate at a position of the ranking by `scores` -/
def relevanceAt (relevance scores : List Float) (p : ℕ) : Float := relevance.getD ((ranking scores).getD p 0) 0.0

section
variable {relevance scores : List Float} {c : ℕ}

theorem topRelevance_eq_map (hc : c ≤ scores.length) :
    topRelevance relevance scores c = (List.range c).map (relevanceAt relevance scores) := by
  refine List.ext_getElem (by simp [topRelevance, pick, hc]) fun p _ hp => ?_
  have hpc : p < c := by simpa using hp
  have hp' : p < (ranking scores).length := by rw [length_ranking]; omega
  simp [topRelevance, pick, relevanceAt, List.getElem?_eq_getElem hp']

/-- the candidate at a position is one of the candidates -/
theorem relevanceAt_mem {p : ℕ} (hlen : relevance.length = scores.length) (hp : p < relevance.length) :
    relevanceAt relevance scores p ∈ relevance := by
  have hp' : p < (ranking scores).length := by rwa [length_ranking, ← hlen]
  have hmem : (ranking scores)[p] ∈ List.range scores.length :=
    (ranking_perm scores).mem_iff.1 (List.getElem_mem hp')
  have hbound : (ranking scores)[p] < relevance.length := hlen ▸ List.mem_range.1 hmem
  rw [relevanceAt, List.getD_eq_getElem _ _ hp', List.getD_eq_getElem _ _ hbound]
  exact List.getElem_mem hbound

/-- all relevances, in ranked order -/
theorem map_relevanceAt_perm (hlen : relevance.length = scores.length) :
    ((List.range relevance.length).map (relevanceAt relevance scores)).Perm relevance := by
  have hall : (List.range relevance.length).map (relevanceAt relevance scores) =
      (ranking scores).map fun i => relevance.getD i 0.0 := by
    rw [hlen, ← topRelevance_eq_map le_rfl, topRelevance, List.take_of_length_le (length_ranking scores).le]
    simp [pick]
  rw [hall]
  conv_rhs => rw [← map_getD_range relevance, hlen]
  exact (ranking_perm scores).map _

/-- Ranked by themselves, relevances fall. -/
theorem value_relevanceAt_le (h : ∀ x ∈ relevance, x.isFinite = true) {p q : ℕ} (hpq : p < q)
    (hq : q < relevance.length) :
    value (relevanceAt relevance relevance q) ≤ value (relevanceAt relevance relevance p) := by
  have hq' : q < (ranking relevance).length := by rwa [length_ranking]
  have hfalls := List.pairwise_iff_getElem.1 (stableOrder_ranking h).falls p q (hpq.trans hq') hq' hpq
  have hfinite : ∀ r < relevance.length, (relevanceAt relevance relevance r).isFinite = true :=
    fun r hr => h _ (relevanceAt_mem rfl hr)
  rw [← List.getD_eq_getElem _ 0 hq', ← List.getD_eq_getElem _ 0 (hpq.trans hq')] at hfalls
  rcases hfalls with hlt | ⟨heq, -⟩
  · exact ((lt_iff_value (hfinite q hq) (hfinite p (hpq.trans hq))).1 hlt).le
  · exact ((beq_iff_value (hfinite p (hpq.trans hq)) (hfinite q hq)).1 heq).ge

/-- ranked by themselves, no relevance is greater than the first -/
theorem value_le_first (h : ∀ x ∈ relevance, x.isFinite = true) {x : Float} (hx : x ∈ relevance) :
    value x ≤ value (relevanceAt relevance relevance 0) := by
  obtain ⟨p, hp, rfl⟩ := List.mem_map.1 ((map_relevanceAt_perm rfl).mem_iff.2 hx)
  rcases Nat.eq_zero_or_pos p with rfl | hpos
  · exact le_rfl
  · exact value_relevanceAt_le h hpos (List.mem_range.1 hp)

end

end RankEval.Metric
