/-
The rank sum as a double. Ranks are halves of naturals, and with fewer than `2 ^ 26` candidates all of them together are
fewer than `2 ^ 53` halves: no addition is rounded, so that it does not matter in which order the ranks are added.

- `value_placement`: the rank of a candidate is exact.
- `value_rankSum`: so is the sum of the relevant candidates' ranks.
- `rankSum_of_perm`: candidates in another order have the same rank sum.
-/
import RankEval.Proofs.Double.Sums
import RankEval.Proofs.Metric.CountedRanks

namespace RankEval.Metric

section
variable {cs ds : List Candidate} {c : Candidate}

/-- a rank, twice over -/
def twicePlacement (cs : List Candidate) (c : Candidate) : ℕ := 2 * ahead cs c + abreast cs c + 1

theorem twicePlacement_le (hfin : ∀ c ∈ cs, c.score.isFinite = true) (hc : c.score.isFinite = true) :
    twicePlacement cs c ≤ 2 * cs.length + 1 := by
  have hthree := countP_add_countP_add_countP (fun d => d.beats c) (fun d => c.beats d) (fun d => c.level d) cs
    fun d hd => by
      rw [Nat.add_comm (d.beats c).toNat]
      exact beats_or_level hc (hfin d hd)
  unfold twicePlacement ahead abreast
  omega

theorem twicePlacement_perm (h : cs.Perm ds) : twicePlacement cs = twicePlacement ds := by
  funext c
  rw [twicePlacement, twicePlacement, ahead, ahead, abreast, abreast, h.countP_eq, h.countP_eq]

/-- as doubles, ranks of candidates are exact -/
theorem value_placement (hlen : cs.length < 2 ^ 26) (hfin : ∀ c ∈ cs, c.score.isFinite = true)
    (hc : c.score.isFinite = true) : (placement Float cs c).isFinite = true ∧
      Double.value (placement Float cs c) = twicePlacement cs c * 2 ^ (-1 : ℤ) := by
  have hle := twicePlacement_le hfin hc
  rw [zpow_neg_one, ← div_eq_mul_inv]
  exact value_meanRank (hle.trans (by omega))

/-- the ranks of the relevant candidates, all together and twice over -/
def twiceRankSum (cs : List Candidate) : ℕ := ((cs.filter Candidate.relevant).map (twicePlacement cs)).sum

theorem twiceRankSum_perm (h : cs.Perm ds) : twiceRankSum cs = twiceRankSum ds := by
  rw [twiceRankSum, twiceRankSum, twicePlacement_perm h]
  exact ((h.filter _).map _).sum_eq

theorem twiceRankSum_pos (h : 0 < cs.countP Candidate.relevant) : 0 < twiceRankSum cs := by
  refine List.sum_pos _ (List.forall_mem_map.2 fun c _ => Nat.succ_pos _) ?_
  rw [List.countP_eq_length_filter, List.length_pos_iff] at h
  simpa using h

theorem twiceRankSum_le (hfin : ∀ c ∈ cs, c.score.isFinite = true) :
    twiceRankSum cs ≤ cs.length * (2 * cs.length + 1) := by
  have hsum := List.sum_le_card_nsmul ((cs.filter Candidate.relevant).map (twicePlacement cs)) (2 * cs.length + 1) <|
    List.forall_mem_map.2 fun c hc => twicePlacement_le hfin (hfin c (List.mem_of_mem_filter hc))
  rw [List.length_map, smul_eq_mul] at hsum
  exact hsum.trans (Nat.mul_le_mul_right _ (List.length_filter_le _ _))

end

section
variable {relevance relevance' : List Float} {scores scores' : AlignedScores} {k c : ℕ}

/-- **The rank sum is exact** for fewer than `2 ^ 26` candidates. -/
theorem value_rankSum (hlen : relevance.length = scores.values.length) (hn : relevance.length < 2 ^ 26)
    (hfin : ∀ x ∈ scores.values, x.isFinite = true) :
    (rankSum Float relevance scores.values (scores.flags relevance.length)).isFinite = true ∧
      Double.value (rankSum Float relevance scores.values (scores.flags relevance.length)) =
        twiceRankSum (candidates relevance scores) * 2 ^ (-1 : ℤ) := by
  have hfinite : ∀ c ∈ candidates relevance scores, c.score.isFinite = true :=
    fun c hc => hfin _ (score_mem_of_mem_candidates hlen hc)
  rw [← length_candidates hlen] at hn
  rw [rankSum_eq_total Float hlen hfin]
  refine Double.value_total_units (by decide) (by decide)
    (fun c hc => value_placement hn hfinite (hfinite c (List.mem_of_mem_filter hc))) ?_
  calc twiceRankSum (candidates relevance scores) ≤ _ := twiceRankSum_le hfinite
    _ ≤ 2 ^ 26 * 2 ^ 27 := Nat.mul_le_mul hn.le (by omega)
    _ = 2 ^ 53 := by norm_num

/-- **The rank sum does not depend on the order of candidates**: none of its additions is rounded. -/
theorem rankSum_of_perm (hv : validate relevance scores.values k = .ok c)
    (hlen' : relevance'.length = scores'.values.length)
    (hperm : (candidates relevance' scores').Perm (candidates relevance scores)) (hn : relevance.length < 2 ^ 26)
    (h0 : 0 < relevantCount relevance) :
    rankSum Float relevance' scores'.values (scores'.flags relevance'.length) =
      rankSum Float relevance scores.values (scores.flags relevance.length) := by
  obtain ⟨hlen, -, -, -, hfin, -⟩ := (validate_eq_ok_iff ..).1 hv
  obtain ⟨-, -, -, -, hfin', -⟩ := (validate_eq_ok_iff ..).1 (validate_perm hv hlen' hperm)
  have hn' : relevance'.length < 2 ^ 26 := by
    rwa [← length_candidates hlen', hperm.length_eq, length_candidates hlen]
  obtain ⟨hfinite, hvalue⟩ := value_rankSum hlen hn hfin
  obtain ⟨hfinite', hvalue'⟩ := value_rankSum hlen' hn' hfin'
  rw [twiceRankSum_perm hperm, ← hvalue] at hvalue'
  rw [relevantCount_eq_countP hlen] at h0
  have hpos : 0.0 < rankSum Float relevance scores.values (scores.flags relevance.length) := by
    rw [Double.lt_iff_value (by decide) hfinite, Double.value_zero, hvalue]
    exact mul_pos (by exact_mod_cast twiceRankSum_pos h0) (Double.two_zpow_pos _)
  exact (Double.eq_of_place hpos ((Double.value_eq_iff_place hfinite hfinite').1 hvalue'.symm)).symm

end

end RankEval.Metric
