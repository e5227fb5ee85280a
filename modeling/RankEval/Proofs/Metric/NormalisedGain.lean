/-
Normalised discounted gain with exact numbers.

The gains of the first `c` candidates of a ranking, each weighted by its position, are compared with those of the first
`c` candidates by relevance. However long a prefix is, no ranking has more gain in it than the relevances in falling
order have. The weights fall, so a weighted sum is a sum of prefixes with positive coefficients (summation by parts):
it is at most that of the falling order, and equal to it only if every prefix is.

- `sum_take_le_of_perm`: no arrangement has a greater prefix sum than the falling one.
- `sum_mul_nonneg`: falling weights keep the sign of prefix sums, and see where they are not zero.
- `ndcg_normalised`: normalised gain is between 0 and 1, 0 without relevance at the top, and 1 for the falling order.
-/
import Mathlib
import RankEval.Metric.Gain
import RankEval.Proofs.Metric.RankedOrder
import RankEval.Proofs.Metric.Validity

namespace RankEval.Metric

open Double (value value_zero lt_iff_value beq_iff_value)
open Finset (range mem_range sum_range_succ)

/-! ## Prefix sums -/

/-- taking an element out of a falling list costs a prefix of it no more than the element -/
theorem add_sum_take_erase_le {s : List ℝ} (hs : s.Pairwise (· ≥ ·)) {b : ℝ} (hb : b ∈ s) (m : ℕ) :
    b + ((s.erase b).take m).sum ≤ (s.take (m + 1)).sum := by
  induction s generalizing m with
  | nil => cases hb
  | cons a s ih =>
    obtain ⟨ha, hs⟩ := List.pairwise_cons.1 hs
    by_cases hab : a = b
    · subst hab
      rw [List.erase_cons_head, List.take_succ_cons, List.sum_cons]
    · have hb : b ∈ s := (List.mem_cons.1 hb).resolve_left (Ne.symm hab)
      rw [List.erase_cons_tail (by simpa using hab)]
      cases m with
      | zero => simpa using ha b hb
      | succ m =>
        have hrest := ih hs hb m
        rw [List.take_succ_cons, List.take_succ_cons, List.sum_cons, List.sum_cons]
        linarith

/-- **No arrangement has a greater prefix sum than the falling one.** -/
theorem sum_take_le_of_perm {l s : List ℝ} (h : l.Perm s) (hs : s.Pairwise (· ≥ ·)) (m : ℕ) :
    (l.take m).sum ≤ (s.take m).sum := by
  induction l generalizing s m with
  | nil => rw [← h.nil_eq]
  | cons b l ih =>
    cases m with
    | zero => exact le_rfl
    | succ m =>
      obtain ⟨hb, herase⟩ := List.cons_perm_iff_perm_erase.1 h
      calc ((b :: l).take (m + 1)).sum = b + (l.take m).sum := by rw [List.take_succ_cons, List.sum_cons]
        _ ≤ b + ((s.erase b).take m).sum := by
          gcongr
          exact ih herase (hs.sublist List.erase_sublist) m
        _ ≤ (s.take (m + 1)).sum := add_sum_take_erase_le hs hb m

/-! ## Falling weights -/

/-- Summation by parts: a weighted sum in terms of prefix sums. -/
theorem sum_mul_eq_prefixes (w d : ℕ → ℝ) (n : ℕ) :
    ∑ p ∈ range (n + 1), w p * d p =
      w n * ∑ q ∈ range (n + 1), d q + ∑ p ∈ range n, (w p - w (p + 1)) * ∑ q ∈ range (p + 1), d q := by
  have hparts := Finset.sum_range_by_parts w d (n + 1)
  simp only [smul_eq_mul, Nat.add_sub_cancel] at hparts
  rw [hparts, sub_eq_add_neg, ← Finset.sum_neg_distrib]
  congr 1
  exact Finset.sum_congr rfl fun p _ => by ring

/-- **Falling weights keep the sign of prefix sums**, and a weighted sum is zero only if there was nothing to weigh. -/
theorem sum_mul_nonneg {w d : ℕ → ℝ} {n : ℕ} (hpos : ∀ p, 0 < w p) (hfall : StrictAnti w)
    (hsums : ∀ m ≤ n, 0 ≤ ∑ q ∈ range m, d q) :
    0 ≤ ∑ p ∈ range n, w p * d p ∧ (∑ p ∈ range n, w p * d p = 0 → ∀ p < n, d p = 0) := by
  cases n with
  | zero => exact ⟨le_rfl, fun _ p hp => absurd hp (Nat.not_lt_zero p)⟩
  | succ n =>
    have hlast : 0 ≤ w n * ∑ q ∈ range (n + 1), d q := mul_nonneg (hpos n).le (hsums _ le_rfl)
    have hterm : ∀ p ∈ range n, 0 ≤ (w p - w (p + 1)) * ∑ q ∈ range (p + 1), d q := by
      intro p hp
      have hdrop : w (p + 1) < w p := hfall p.lt_succ_self
      exact mul_nonneg (sub_nonneg.2 hdrop.le) (hsums _ (by have := mem_range.1 hp; omega))
    rw [sum_mul_eq_prefixes]
    refine ⟨add_nonneg hlast (Finset.sum_nonneg hterm), fun hzero => ?_⟩
    obtain ⟨hlast, hterms⟩ := (add_eq_zero_iff_of_nonneg hlast (Finset.sum_nonneg hterm)).1 hzero
    -- every prefix sum is zero, so every summand is
    have hzeros : ∀ m ≤ n + 1, ∑ q ∈ range m, d q = 0 := by
      intro m hm
      rcases m with _ | m
      · exact Finset.sum_range_zero d
      · rcases (Nat.le_of_succ_le_succ hm).lt_or_eq with hlt | rfl
        · have hterm := (Finset.sum_eq_zero_iff_of_nonneg hterm).1 hterms m (mem_range.2 hlt)
          exact (mul_eq_zero.1 hterm).resolve_left (sub_pos.2 (hfall m.lt_succ_self)).ne'
        · exact (mul_eq_zero.1 hlast).resolve_left (hpos m).ne'
    intro p hp
    have hstep := sum_range_succ d p
    rw [hzeros (p + 1) hp, hzeros p hp.le, zero_add] at hstep
    exact hstep.symm

/-! ## Gains and discounts with exact numbers -/

/-- more relevance is worth more, and none is worth nothing -/
structure IsGain (gain : ℝ → ℝ) : Prop where
  rises : StrictMonoOn gain (Set.Ici 0)
  zero : gain 0 = 0

/-- what a gain is weighted with is positive, and less from position to position -/
structure IsDiscount (discount : ℕ → ℝ) : Prop where
  pos : ∀ p, 0 < 1 / discount p
  falls : StrictAnti fun p => 1 / discount p

/-- what a relevance is worth, with nothing rounded -/
noncomputable def Gain.exact : Gain → ℝ → ℝ
  | .linear, relevance => relevance
  | .exponential, relevance => 2 ^ relevance - 1

/-- what the gain at a position is divided by, with nothing rounded -/
noncomputable def exactDiscount (position : ℕ) : ℝ := Real.logb 2 (position + 2)

/-- normalised gain at cutoff `k`, as `ndcgAtK` but with nothing rounded -/
noncomputable def exactNdcgAtK (relevance scores : List Float) (k : ℕ) (gain : ℝ → ℝ) (discount : ℕ → ℝ) :
    Except Error ℝ :=
  (validate relevance scores k).map fun k => normalisedDcg (fun x => gain (value x)) discount relevance scores k

theorem isGain_exact (g : Gain) : IsGain g.exact := by
  cases g with
  | linear => exact ⟨strictMono_id.strictMonoOn _, rfl⟩
  | exponential =>
    refine ⟨fun x _ y _ hxy => ?_, by simp [Gain.exact]⟩
    have hpow : (2 : ℝ) ^ x < 2 ^ y := Real.rpow_lt_rpow_of_exponent_lt one_lt_two hxy
    simpa [Gain.exact] using hpow

theorem isDiscount_exact : IsDiscount exactDiscount := by
  have hpos : ∀ p, 0 < exactDiscount p := fun p => Real.logb_pos one_lt_two (by linarith [p.cast_nonneg (α := ℝ)])
  refine ⟨fun p => one_div_pos.2 (hpos p), fun p q hpq => one_div_lt_one_div_of_lt (hpos p) ?_⟩
  refine Real.logb_lt_logb one_lt_two (by positivity) ?_
  exact_mod_cast Nat.add_lt_add_right hpq 2

section
variable {gain : ℝ → ℝ} {relevance scores : List Float} {x y : Float}

theorem value_nonneg (hx : x.isFinite = true ∧ ¬ x < 0.0) : 0 ≤ value x := by
  rw [← value_zero]
  exact_mod_cast not_lt.1 fun h => hx.2 ((lt_iff_value hx.1 rfl).2 h)

theorem isRelevant_iff_value (hx : x.isFinite = true) : isRelevant x = true ↔ 0 < value x := by
  rw [isRelevant, decide_eq_true_iff, lt_iff_value rfl hx, value_zero]

theorem IsGain.eq_iff (h : IsGain gain) (hx : x.isFinite = true ∧ ¬ x < 0.0) (hy : y.isFinite = true ∧ ¬ y < 0.0) :
    gain (value x) = gain (value y) ↔ (x == y) = true := by
  have hx' : (0 : ℝ) ≤ value x := by exact_mod_cast value_nonneg hx
  have hy' : (0 : ℝ) ≤ value y := by exact_mod_cast value_nonneg hy
  rw [h.rises.injOn.eq_iff hx' hy', beq_iff_value hx.1 hy.1, Rat.cast_inj]

theorem IsGain.le_of_value_le (h : IsGain gain) (hx : x.isFinite = true ∧ ¬ x < 0.0) (hxy : value x ≤ value y) :
    gain (value x) ≤ gain (value y) := by
  have hx' : (0 : ℝ) ≤ value x := by exact_mod_cast value_nonneg hx
  have hxy' : (value x : ℝ) ≤ value y := by exact_mod_cast hxy
  exact h.rises.monotoneOn hx' (hx'.trans hxy') hxy'

theorem IsGain.nonneg (h : IsGain gain) (hx : x.isFinite = true ∧ ¬ x < 0.0) : 0 ≤ gain (value x) := by
  have hle := h.le_of_value_le (x := 0.0) ⟨rfl, by decide⟩ (value_zero ▸ value_nonneg hx)
  rwa [value_zero, Rat.cast_zero, h.zero] at hle

/-- what is not relevant is worth nothing, and nothing else is -/
theorem IsGain.eq_zero_iff (h : IsGain gain) (hx : x.isFinite = true ∧ ¬ x < 0.0) :
    gain (value x) = 0 ↔ isRelevant x = false := by
  have heq := h.eq_iff hx (y := 0.0) ⟨rfl, by decide⟩
  rw [value_zero, Rat.cast_zero, h.zero, beq_iff_value hx.1 rfl, value_zero] at heq
  rw [heq, ← Bool.not_eq_true, isRelevant_iff_value hx.1, not_lt, le_antisymm_iff, and_iff_left (value_nonneg hx)]

end

/-! ## The gain of a ranking -/

/-- the gain at a position of the ranking by `scores` -/
def gainAt (gain : ℝ → ℝ) (relevance scores : List Float) (p : ℕ) : ℝ := gain (value (relevanceAt relevance scores p))

/-- discounted gain is a weighted sum over positions -/
theorem dcg_map_range (gain : Float → ℝ) (discount : ℕ → ℝ) (relevance : ℕ → Float) (c : ℕ) :
    dcg gain discount ((List.range c).map relevance) = ∑ p ∈ range c, 1 / discount p * gain (relevance p) := by
  induction c with
  | zero => rfl
  | succ c ih =>
    have hlast : dcg gain discount ((List.range (c + 1)).map relevance) =
        dcg gain discount ((List.range c).map relevance) + gain (relevance c) / discount c := by
      rw [List.range_succ, List.map_append, dcg, List.zipIdx_append, List.map_append]
      simp [dcg, Arithmetic.total_append_singleton]
    rw [hlast, ih, sum_range_succ, one_div_mul_eq_div]

section
variable {gain : ℝ → ℝ} {discount : ℕ → ℝ} {relevance scores : List Float} {c : ℕ}

theorem sum_gainAt {m : ℕ} (hm : m ≤ relevance.length) :
    ∑ p ∈ range m, gainAt gain relevance scores p =
      (((List.range relevance.length).map (gainAt gain relevance scores)).take m).sum := by
  rw [← List.map_take, List.take_range, min_eq_left hm]
  rfl

theorem map_gainAt_perm (hlen : relevance.length = scores.length) :
    ((List.range relevance.length).map (gainAt gain relevance scores)).Perm
      (relevance.map fun x => gain (value x)) := by
  have hperm := (map_relevanceAt_perm hlen).map fun x => gain (value x)
  rwa [List.map_map] at hperm

/-- **However long a prefix is, no ranking has more gain in it than the one by relevance.** -/
theorem sum_gainAt_le (hgain : IsGain gain) (hlen : relevance.length = scores.length)
    (hrel : ∀ x ∈ relevance, x.isFinite = true ∧ ¬ x < 0.0) {m : ℕ} (hm : m ≤ relevance.length) :
    ∑ p ∈ range m, gainAt gain relevance scores p ≤ ∑ p ∈ range m, gainAt gain relevance relevance p := by
  rw [sum_gainAt hm, sum_gainAt hm]
  refine sum_take_le_of_perm ((map_gainAt_perm hlen).trans (map_gainAt_perm rfl).symm) ?_ m
  rw [List.pairwise_map]
  refine List.pairwise_lt_range.imp_of_mem fun {p q} _ hq hpq => ?_
  have hq : q < relevance.length := List.mem_range.1 hq
  exact hgain.le_of_value_le (hrel _ (relevanceAt_mem rfl hq))
    (value_relevanceAt_le (fun x hx => (hrel x hx).1) hpq hq)

/-- the first `c` of a ranking have at most the ideal gain, and all of it only with ideal gains -/
theorem sum_weighted_le (hgain : IsGain gain) (hdiscount : IsDiscount discount)
    (hlen : relevance.length = scores.length) (hrel : ∀ x ∈ relevance, x.isFinite = true ∧ ¬ x < 0.0)
    (hc : c ≤ relevance.length) :
    ∑ p ∈ range c, 1 / discount p * gainAt gain relevance scores p ≤
        ∑ p ∈ range c, 1 / discount p * gainAt gain relevance relevance p ∧
      (∑ p ∈ range c, 1 / discount p * gainAt gain relevance scores p =
          ∑ p ∈ range c, 1 / discount p * gainAt gain relevance relevance p ↔
        ∀ p < c, gainAt gain relevance scores p = gainAt gain relevance relevance p) := by
  have hsums : ∀ m ≤ c, 0 ≤ ∑ p ∈ range m, (gainAt gain relevance relevance p - gainAt gain relevance scores p) := by
    intro m hm
    rw [Finset.sum_sub_distrib, sub_nonneg]
    exact sum_gainAt_le hgain hlen hrel (hm.trans hc)
  obtain ⟨hnonneg, hzero⟩ := sum_mul_nonneg hdiscount.pos hdiscount.falls hsums
  simp only [mul_sub, Finset.sum_sub_distrib, sub_eq_zero] at hnonneg hzero
  refine ⟨sub_nonneg.1 hnonneg, fun heq p hp => (hzero heq.symm p hp).symm, fun h => ?_⟩
  exact Finset.sum_congr rfl fun p hp => by rw [h p (mem_range.1 hp)]

theorem sum_weighted_nonneg (hgain : IsGain gain) (hdiscount : IsDiscount discount)
    (hlen : relevance.length = scores.length) (hrel : ∀ x ∈ relevance, x.isFinite = true ∧ ¬ x < 0.0)
    (hc : c ≤ relevance.length) :
    0 ≤ ∑ p ∈ range c, 1 / discount p * gainAt gain relevance scores p ∧
      (∑ p ∈ range c, 1 / discount p * gainAt gain relevance scores p = 0 ↔
        ∀ p < c, isRelevant (relevanceAt relevance scores p) = false) := by
  have hat : ∀ p < c, (relevanceAt relevance scores p).isFinite = true ∧ ¬ relevanceAt relevance scores p < 0.0 :=
    fun p hp => hrel _ (relevanceAt_mem hlen (hp.trans_le hc))
  have hterm : ∀ p ∈ range c, 0 ≤ 1 / discount p * gainAt gain relevance scores p :=
    fun p hp => mul_nonneg (hdiscount.pos p).le (hgain.nonneg (hat p (mem_range.1 hp)))
  refine ⟨Finset.sum_nonneg hterm, ?_⟩
  rw [Finset.sum_eq_zero_iff_of_nonneg hterm]
  refine forall_congr' fun p => ?_
  rw [mem_range]
  refine imp_congr_right fun hp => ?_
  rw [mul_eq_zero, or_iff_right (hdiscount.pos p).ne', gainAt, hgain.eq_zero_iff (hat p hp)]

/-- some candidate is relevant iff the first one by relevance is -/
theorem exists_isRelevant_iff (hrel : ∀ x ∈ relevance, x.isFinite = true ∧ ¬ x < 0.0) (hne : relevance ≠ []) :
    (∃ x ∈ relevance, isRelevant x = true) ↔ isRelevant (relevanceAt relevance relevance 0) = true := by
  have hzero : 0 < relevance.length := List.length_pos_iff.2 hne
  have hfirst := relevanceAt_mem (rfl : relevance.length = relevance.length) hzero
  refine ⟨fun ⟨x, hx, hrelevant⟩ => ?_, fun h => ⟨_, hfirst, h⟩⟩
  rw [isRelevant_iff_value (hrel _ hx).1] at hrelevant
  rw [isRelevant_iff_value (hrel _ hfirst).1]
  exact hrelevant.trans_le (value_le_first (fun x hx => (hrel x hx).1) hx)

/-- there is some ideal gain iff some candidate is relevant -/
theorem sum_ideal_ne_zero_iff (hgain : IsGain gain) (hdiscount : IsDiscount discount)
    (hrel : ∀ x ∈ relevance, x.isFinite = true ∧ ¬ x < 0.0) (hpos : 0 < c) (hc : c ≤ relevance.length) :
    ∑ p ∈ range c, 1 / discount p * gainAt gain relevance relevance p ≠ 0 ↔ ∃ x ∈ relevance, isRelevant x = true := by
  have hzero := (sum_weighted_nonneg hgain hdiscount (rfl : relevance.length = _) hrel hc).2
  have hne : relevance ≠ [] := List.length_pos_iff.1 (hpos.trans_le hc)
  rw [Ne, hzero]
  constructor
  · intro h
    obtain ⟨p, hp, hrelevant⟩ : ∃ p < c, isRelevant (relevanceAt relevance relevance p) = true := by
      simpa using h
    exact ⟨_, relevanceAt_mem rfl (hp.trans_le hc), hrelevant⟩
  · intro h hnone
    rw [exists_isRelevant_iff hrel hne, hnone 0 hpos] at h
    exact Bool.false_ne_true h

/-- nothing over nothing is 0, as it is for the division of reals -/
theorem normalisedDcg_eq_div (hlen : relevance.length = scores.length) (hc : c ≤ relevance.length) :
    normalisedDcg (fun x => gain (value x)) discount relevance scores c =
      (∑ p ∈ range c, 1 / discount p * gainAt gain relevance scores p) /
        ∑ p ∈ range c, 1 / discount p * gainAt gain relevance relevance p := by
  unfold normalisedDcg
  rw [topRelevance_eq_map hc, topRelevance_eq_map (hlen ▸ hc), dcg_map_range, dcg_map_range]
  change (if (∑ p ∈ range c, 1 / discount p * gainAt gain relevance relevance p == ((0 : ℕ) : ℝ)) = true
    then ((0 : ℕ) : ℝ)
    else (∑ p ∈ range c, 1 / discount p * gainAt gain relevance scores p) /
      ∑ p ∈ range c, 1 / discount p * gainAt gain relevance relevance p) = _
  rw [Nat.cast_zero]
  split
  · next hideal => rw [beq_iff_eq.1 hideal, div_zero]
  · rfl

theorem exactNdcgAtK_eq_div {k : ℕ} (hv : validate relevance scores k = .ok c)
    (hlen : relevance.length = scores.length) (hc : c ≤ relevance.length) :
    exactNdcgAtK relevance scores k gain discount =
      .ok ((∑ p ∈ range c, 1 / discount p * gainAt gain relevance scores p) /
        ∑ p ∈ range c, 1 / discount p * gainAt gain relevance relevance p) := by
  rw [exactNdcgAtK, hv, ← normalisedDcg_eq_div hlen hc]
  rfl

end

/-- **Normalised gain is a normalised score with the right extremes.** With exact numbers it is between 0 and 1,
whatever relevance is worth and whatever positions count, as long as more relevance is worth more and later positions
count less; both gains and the discount of the metric are such. It is 0 iff no candidate among the first ones is
relevant. It is 1 iff some candidate is relevant and the relevances at the first positions are those of the order by
relevance. -/
theorem ndcg_normalised :
    (∀ g : Gain, IsGain g.exact) ∧ IsDiscount exactDiscount ∧
    ∀ (gain : ℝ → ℝ) (discount : ℕ → ℝ), IsGain gain → IsDiscount discount →
    ∀ (relevance scores : List Float) (k c : ℕ), validate relevance scores k = .ok c →
      ∃ a : ℝ, exactNdcgAtK relevance scores k gain discount = .ok a ∧ 0 ≤ a ∧ a ≤ 1 ∧
        (∀ order, StableOrder scores order ↔ order = ranking scores) ∧
        (∀ order, StableOrder relevance order ↔ order = ranking relevance) ∧
        (a = 0 ↔ ∀ p < min k relevance.length, isRelevant (relevanceAt relevance scores p) = false) ∧
        (a = 1 ↔ (∃ x ∈ relevance, isRelevant x = true) ∧ ∀ p < min k relevance.length,
          (relevanceAt relevance scores p == relevanceAt relevance relevance p) = true) := by
  refine ⟨isGain_exact, isDiscount_exact, fun gain discount hgain hdiscount relevance scores k c hv => ?_⟩
  obtain ⟨hlen, hk, hne, hrel, hfin, rfl⟩ := (validate_eq_ok_iff ..).1 hv
  have hc : min k relevance.length ≤ relevance.length := min_le_right ..
  have hpos : 0 < min k relevance.length := lt_min (Nat.pos_of_ne_zero hk) (List.length_pos_iff.2 hne)
  obtain ⟨hle, heq⟩ := sum_weighted_le hgain hdiscount hlen hrel hc
  obtain ⟨hnonneg, hzero⟩ := sum_weighted_nonneg hgain hdiscount hlen hrel hc
  have hideal := (sum_weighted_nonneg hgain hdiscount (rfl : relevance.length = _) hrel hc).1
  have hsome := sum_ideal_ne_zero_iff hgain hdiscount hrel hpos hc
  have hsame : (∀ p < min k relevance.length, gainAt gain relevance scores p = gainAt gain relevance relevance p) ↔
      ∀ p < min k relevance.length, (relevanceAt relevance scores p == relevanceAt relevance relevance p) = true :=
    forall₂_congr fun p hp =>
      hgain.eq_iff (hrel _ (relevanceAt_mem hlen (hp.trans_le hc))) (hrel _ (relevanceAt_mem rfl (hp.trans_le hc)))
  refine ⟨_, exactNdcgAtK_eq_div hv hlen hc, ?_⟩
  rw [← hsome, ← hzero, ← hsame, ← heq]
  generalize ∑ p ∈ range (min k relevance.length), 1 / discount p * gainAt gain relevance scores p = reached at *
  generalize ∑ p ∈ range (min k relevance.length), 1 / discount p * gainAt gain relevance relevance p = ideal at *
  refine ⟨div_nonneg hnonneg hideal, div_le_one_of_le₀ hle hideal, stableOrder_iff hfin,
    stableOrder_iff fun x hx => (hrel x hx).1, ?_, ?_⟩
  · rw [div_eq_zero_iff, or_iff_left_of_imp]
    intro hnone
    exact le_antisymm (hle.trans hnone.le) hnonneg
  · constructor
    · intro hone
      have hne : ideal ≠ 0 := by
        rintro rfl
        rw [div_zero] at hone
        exact zero_ne_one hone
      exact ⟨hne, (div_eq_one_iff_eq hne).1 hone⟩
    · rintro ⟨hne, hall⟩
      exact (div_eq_one_iff_eq hne).2 hall

/-- Three candidates, two of them with one score: the irrelevant one is second, so that the gain is neither 0 nor 1. -/
theorem ndcg_of_tied_three :
    validate [2.0, 0.0, 1.0] [0.5, 0.5, 0.1] 2 = .ok 2 ∧
      ∃ a : ℝ, exactNdcgAtK [2.0, 0.0, 1.0] [0.5, 0.5, 0.1] 2 Gain.linear.exact exactDiscount = .ok a ∧
        0 < a ∧ a < 1 := by
  have hv : validate [2.0, 0.0, 1.0] [0.5, 0.5, 0.1] 2 = .ok 2 :=
    (validate_eq_ok_iff ..).2 ⟨by simp, by decide, by simp, by decide, by decide, by simp⟩
  obtain ⟨a, ha, hnonneg, hle, horder, horder', hzero, hone⟩ := ndcg_normalised.2.2 Gain.linear.exact exactDiscount
    (ndcg_normalised.1 .linear) ndcg_normalised.2.1 [2.0, 0.0, 1.0] [0.5, 0.5, 0.1] 2 2 hv
  have hscores : [0, 1, 2] = ranking [0.5, 0.5, 0.1] := (horder _).1 ⟨by decide, by decide⟩
  have hrelevance : [0, 2, 1] = ranking [2.0, 0.0, 1.0] := (horder' _).1 ⟨by decide, by decide⟩
  have hfirst : isRelevant (relevanceAt [2.0, 0.0, 1.0] [0.5, 0.5, 0.1] 0) = true := by
    rw [relevanceAt, ← hscores]
    decide
  have hsecond : (relevanceAt [2.0, 0.0, 1.0] [0.5, 0.5, 0.1] 1 == relevanceAt [2.0, 0.0, 1.0] [2.0, 0.0, 1.0] 1) =
      false := by
    rw [relevanceAt, relevanceAt, ← hscores, ← hrelevance]
    decide
  refine ⟨hv, a, ha, lt_of_le_of_ne hnonneg fun h => ?_, lt_of_le_of_ne hle fun h => ?_⟩
  · have hnone := hzero.1 h.symm 0 (by decide)
    rw [hfirst] at hnone
    exact Bool.noConfusion hnone
  · have hall := (hone.1 h).2 1 (by decide)
    rw [hsecond] at hall
    exact Bool.noConfusion hall

end RankEval.Metric
