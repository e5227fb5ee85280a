/-
What a cutoff can do. The first `k` candidates of every cutoff are a beginning of one order, which lists every candidate
once. So from one cutoff to the next at most one relevant candidate is found, and those that are not found are among the
candidates behind the cutoff.

- `hits_eq_countP`: relevant candidates are counted along the order.
- `hits_step`: one candidate more.
- `hits_add_countP_drop`: those that are found and those behind are all of them.
- `cutoff_laws`: how found candidates, precision and recall depend on the cutoff, from 1 to beyond the candidates.
-/
import RankEval.Proofs.Double.Quotients
import RankEval.Proofs.Metric.RankedOrder
import RankEval.Proofs.Metric.Validity

namespace RankEval.Metric

section
variable {relevance scores : List Float} {c : ℕ}

/-! ## Counting along the order -/

theorem hits_eq_countP (relevance scores : List Float) (c : ℕ) :
    hits relevance scores c = ((ranking scores).take c).countP fun j => isRelevant (relevance.getD j 0.0) := by
  rw [hits, topRelevance, relevantCount, pick, List.countP_map]
  simp [Function.comp_def]

/-- the order lists all relevant candidates -/
theorem countP_ranking (hlen : relevance.length = scores.length) :
    (ranking scores).countP (fun j => isRelevant (relevance.getD j 0.0)) = relevantCount relevance := by
  rw [(ranking_perm scores).countP_eq]
  conv_rhs => rw [relevantCount, ← map_getD_range relevance, List.countP_map, hlen]
  rfl

/-- one candidate more is relevant, or is not -/
theorem hits_step (relevance scores : List Float) (c : ℕ) :
    hits relevance scores c ≤ hits relevance scores (c + 1) ∧
      hits relevance scores (c + 1) ≤ hits relevance scores c + 1 := by
  rw [hits_eq_countP, hits_eq_countP, List.take_add_one, List.countP_append]
  refine ⟨Nat.le_add_right _ _, Nat.add_le_add_left ?_ _⟩
  refine List.countP_le_length.trans ?_
  cases (ranking scores)[c]? <;> simp

theorem hits_mono (relevance scores : List Float) : Monotone (hits relevance scores) :=
  monotone_nat_of_le_succ fun c => (hits_step relevance scores c).1

theorem hits_le (relevance scores : List Float) (c : ℕ) : hits relevance scores c ≤ c := by
  rw [hits_eq_countP]
  exact List.countP_le_length.trans (List.length_take_le _ _)

/-- What is not found is behind the cutoff. -/
theorem hits_add_countP_drop (hlen : relevance.length = scores.length) (c : ℕ) :
    hits relevance scores c + ((ranking scores).drop c).countP (fun j => isRelevant (relevance.getD j 0.0)) =
      relevantCount relevance := by
  rw [hits_eq_countP, ← List.countP_append, List.take_append_drop, countP_ranking hlen]

theorem hits_le_relevantCount (hlen : relevance.length = scores.length) (c : ℕ) :
    hits relevance scores c ≤ relevantCount relevance :=
  (Nat.le_add_right _ _).trans_eq (hits_add_countP_drop hlen c)

/-- behind the cutoff there are only so many candidates -/
theorem relevantCount_le_hits_add (hlen : relevance.length = scores.length) (c : ℕ) :
    relevantCount relevance ≤ hits relevance scores c + (relevance.length - c) := by
  rw [← hits_add_countP_drop hlen c]
  refine Nat.add_le_add_left (List.countP_le_length.trans_eq ?_) _
  rw [List.length_drop, length_ranking, hlen]

theorem hits_of_length_le (hlen : relevance.length = scores.length) (hc : relevance.length ≤ c) :
    hits relevance scores c = relevantCount relevance := by
  have hbehind := relevantCount_le_hits_add hlen c
  rw [Nat.sub_eq_zero_of_le hc, Nat.add_zero] at hbehind
  exact le_antisymm (hits_le_relevantCount hlen c) hbehind

/-- a cutoff beyond the candidates finds what the last one does -/
theorem hits_min (hlen : relevance.length = scores.length) (k : ℕ) :
    hits relevance scores (min k relevance.length) = hits relevance scores k := by
  rcases le_total k relevance.length with hk | hk
  · rw [min_eq_left hk]
  · rw [min_eq_right hk, hits_of_length_le hlen le_rfl, hits_of_length_le hlen hk]

end

/-! ## Metrics of vectors that are accepted -/

section
variable {relevance scores : List Float} {k c : ℕ}

theorem relevantAtK_of_validate (hv : validate relevance scores k = .ok c) :
    relevantAtK relevance scores k = .ok (hits relevance scores c) := by
  rw [relevantAtK, hv]
  rfl

variable (R : Type) [Arithmetic R]

theorem precisionAtK_of_validate (hv : validate relevance scores k = .ok c) : precisionAtK R relevance scores k =
    .ok (Arithmetic.ofNat (hits relevance scores c) / Arithmetic.ofNat c) := by
  rw [precisionAtK, hv]
  rfl

theorem recallAtK_of_validate (hv : validate relevance scores k = .ok c) : recallAtK R relevance scores k =
    .ok (Arithmetic.ratio R (hits relevance scores c) (relevantCount relevance)) := by
  rw [recallAtK, hv]
  rfl

end

/-! ## The laws -/

/-- How the number of relevant candidates among the first `k`, and the shares of `k` and of all relevant candidates that
it makes, depend on `k`, for `n` candidates of which `r` are relevant. -/
structure CutoffLaws (n r : ℕ) (found : ℕ → ℕ) (precision recalled : ℕ → ℚ) : Prop where
  step : ∀ k, 1 ≤ k → k < n → found k ≤ found (k + 1) ∧ found (k + 1) ≤ found k + 1
  at_most : ∀ k, 1 ≤ k → found k ≤ min k r
  at_least : ∀ k, 1 ≤ k → k ≤ n → r ≤ found k + (n - k)
  all_found : ∀ k, 1 ≤ k → n ≤ k → found k = r
  precision_eq : ∀ k, 1 ≤ k → precision k = found k / (min k n : ℕ)
  precision_of_all : ∀ k, 1 ≤ k → n ≤ k → precision k = r / n
  recalled_eq : ∀ k, 1 ≤ k → recalled k = if r = 0 then 0 else (found k / r : ℚ)
  recalled_mono : ∀ k l, 1 ≤ k → k ≤ l → recalled k ≤ recalled l
  recalled_le_one : ∀ k, 1 ≤ k → recalled k ≤ 1
  recalled_of_all : ∀ k, 1 ≤ k → n ≤ k → 0 < r → recalled k = 1

/-- the laws hold of what is counted along an order -/
theorem cutoffLaws_hits {relevance scores : List Float} (hlen : relevance.length = scores.length) :
    CutoffLaws relevance.length (relevantCount relevance) (hits relevance scores)
      (fun k => hits relevance scores k / (min k relevance.length : ℕ))
      fun k => Arithmetic.ratio ℚ (hits relevance scores k) (relevantCount relevance) := by
  have hratio (k : ℕ) : Arithmetic.ratio ℚ (hits relevance scores k) (relevantCount relevance) =
      if relevantCount relevance = 0 then 0 else (hits relevance scores k / relevantCount relevance : ℚ) := by
    unfold Arithmetic.ratio
    split_ifs
    · exact Nat.cast_zero
    · rfl
  have hle (k : ℕ) : (hits relevance scores k : ℚ) ≤ relevantCount relevance := by
    exact_mod_cast hits_le_relevantCount hlen k
  refine ⟨?step, ?at_most, ?at_least, ?all_found, fun _ _ => rfl, ?precision_of_all, fun k _ => hratio k,
    ?recalled_mono, ?recalled_le_one, ?recalled_of_all⟩
  case step => exact fun k _ _ => hits_step relevance scores k
  case at_most => exact fun k _ => le_min (hits_le relevance scores k) (hits_le_relevantCount hlen k)
  case at_least => exact fun k _ _ => relevantCount_le_hits_add hlen k
  case all_found => exact fun k _ hk => hits_of_length_le hlen hk
  case precision_of_all =>
    intro k _ hk
    rw [hits_of_length_le hlen hk, min_eq_right hk]
  case recalled_mono =>
    intro k l _ hkl
    have hmono : (hits relevance scores k : ℚ) ≤ hits relevance scores l := by
      exact_mod_cast hits_mono relevance scores hkl
    rw [hratio, hratio]
    split_ifs
    · exact le_rfl
    · gcongr
  case recalled_le_one =>
    intro k _
    rw [hratio]
    split_ifs
    · exact zero_le_one
    · exact div_le_one_of_le₀ (hle k) (Nat.cast_nonneg _)
  case recalled_of_all =>
    intro k _ hk hsome
    have hne : (relevantCount relevance : ℚ) ≠ 0 := by exact_mod_cast hsome.ne'
    rw [hratio, if_neg hsome.ne', hits_of_length_le hlen hk, div_self hne]

/-- **Cutoff laws.** Vectors that are accepted have counts and shares at every cutoff from 1 on. A cutoff that is one
greater finds as many relevant candidates or one more. No cutoff finds more than there are relevant ones or more than it
takes, nor fewer than there must be if all candidates behind it are relevant; from the number of candidates on all are
found. So recall never falls, and ends at 1 if there is anything to find. As doubles, of two recalls the one at the
greater cutoff is never the smaller one either. -/
theorem cutoff_laws (relevance scores : List Float) (k c : ℕ) (hv : validate relevance scores k = .ok c) :
    ∃ (found : ℕ → ℕ) (precision recalled : ℕ → ℚ),
      CutoffLaws relevance.length (relevantCount relevance) found precision recalled ∧
      (∀ k, 1 ≤ k → relevantAtK relevance scores k = .ok (found k) ∧
        precisionAtK ℚ relevance scores k = .ok (precision k) ∧ recallAtK ℚ relevance scores k = .ok (recalled k)) ∧
      ∀ k l, 1 ≤ k → k ≤ l → ∃ p q, recallAtK Float relevance scores k = .ok p ∧
        recallAtK Float relevance scores l = .ok q ∧ ¬ q < p := by
  obtain ⟨hlen, -, hne, hrel, hscores, -⟩ := (validate_eq_ok_iff ..).1 hv
  have hvalid : ∀ k, 1 ≤ k → validate relevance scores k = .ok (min k relevance.length) := fun k hk =>
    (validate_eq_ok_iff ..).2 ⟨hlen, Nat.one_le_iff_ne_zero.1 hk, hne, hrel, hscores, rfl⟩
  refine ⟨_, _, _, cutoffLaws_hits hlen, fun k hk => ⟨?_, ?_, ?_⟩, fun k l hk hkl => ?_⟩
  · rw [relevantAtK_of_validate (hvalid k hk), hits_min hlen]
  · rw [precisionAtK_of_validate ℚ (hvalid k hk), hits_min hlen]
    rfl
  · rw [recallAtK_of_validate ℚ (hvalid k hk), hits_min hlen]
  · refine ⟨_, _, recallAtK_of_validate Float (hvalid k hk), recallAtK_of_validate Float (hvalid l (hk.trans hkl)), ?_⟩
    rw [hits_min hlen, hits_min hlen]
    exact Double.not_ratio_lt_ratio (hits_mono relevance scores hkl) _

/-- Five candidates, three of them relevant; the first by score is not, and two share a score. -/
theorem cutoff_laws_of_five :
    validate [1.0, 0.0, 2.0, 0.0, 0.5] [0.5, 0.75, 0.5, -1.0, -0.0] 2 = .ok 2 ∧
      ∃ (found : ℕ → ℕ) (precision recalled : ℕ → ℚ), CutoffLaws 5 3 found precision recalled ∧
        (∀ k, 1 ≤ k → relevantAtK [1.0, 0.0, 2.0, 0.0, 0.5] [0.5, 0.75, 0.5, -1.0, -0.0] k = .ok (found k)) ∧
        found 1 = 0 ∧ found 4 = 3 ∧ precision 9 = 3 / 5 ∧ recalled 2 = 1 / 3 ∧ recalled 9 = 1 := by
  have hv : validate [1.0, 0.0, 2.0, 0.0, 0.5] [0.5, 0.75, 0.5, -1.0, -0.0] 2 = .ok 2 := by decide +kernel
  obtain ⟨found, precision, recalled, hlaws, hmetrics, -⟩ :=
    cutoff_laws [1.0, 0.0, 2.0, 0.0, 0.5] [0.5, 0.75, 0.5, -1.0, -0.0] 2 2 hv
  have hr : relevantCount [1.0, 0.0, 2.0, 0.0, 0.5] = 3 := by decide
  rw [hr] at hlaws
  have horder : [1, 0, 2, 4, 3] = ranking [0.5, 0.75, 0.5, -1.0, -0.0] :=
    (stableOrder_iff (by decide) _).1 ⟨by decide, by decide⟩
  have hfound : ∀ k, 1 ≤ k → k ≤ 5 → found k =
      ([1, 0, 2, 4, 3].take k).countP fun j => isRelevant ([1.0, 0.0, 2.0, 0.0, 0.5].getD j 0.0) := by
    intro k hk hk5
    have hvalid : validate [1.0, 0.0, 2.0, 0.0, 0.5] [0.5, 0.75, 0.5, -1.0, -0.0] k = .ok k :=
      (validate_eq_ok_iff ..).2 ⟨by simp, by omega, by simp, by decide, by decide, by simpa using hk5⟩
    rw [horder, ← hits_eq_countP]
    exact Except.ok.inj ((hmetrics k hk).1.symm.trans (relevantAtK_of_validate hvalid))
  refine ⟨hv, found, precision, recalled, hlaws, fun k hk => (hmetrics k hk).1, hfound 1 (by decide) (by decide),
    hfound 4 (by decide) (by decide), ?_, ?_, hlaws.recalled_of_all 9 (by decide) (by decide) (by decide)⟩
  · exact_mod_cast hlaws.precision_of_all 9 (by decide) (by decide)
  · have hone : found 2 = 1 := hfound 2 (by decide) (by decide)
    rw [hlaws.recalled_eq 2 (by decide), hone]
    norm_num

end RankEval.Metric
