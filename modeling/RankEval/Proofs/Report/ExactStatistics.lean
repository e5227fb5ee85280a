/-
Mean and deviation as exact numbers: the statistics of a list of values, read in the reals, where nothing is rounded.
The mean lies between the least and the greatest value, the deviation is at most half of what lies between these two,
and it is nothing only if all values are equal. Sums do not depend on the order of values, so neither statistic depends
on the order in which results arrive, although the second one is taken around the first.

- `sum_products`: the sum that all of this is read off, of the products of distances from two points.
- `isSound_statistics`: what the statistics of a list say of it.
- `ofValues_perm`, `mean_append`: values in another order, and two lists put together.
- `statistics_sound`: all of it together, with the statistics of a log.
-/
import RankEval.Proofs.Double.Exact
import RankEval.Proofs.Report.Ledger

namespace RankEval.Report

open Arithmetic (total_eq_sum_real)

/-! ## Sums -/

section
variable (xs : List ℝ)

/-- the products of the distances from two points, all together -/
theorem sum_products (a b : ℝ) :
    (xs.map fun x => (x - a) * (x - b)).sum =
      (xs.map fun x => x ^ 2).sum - (a + b) * xs.sum + xs.length * (a * b) := by
  induction xs with
  | nil => simp
  | cons x xs ih =>
    simp only [List.map_cons, List.sum_cons, List.length_cons, ih]
    push_cast
    ring

theorem mean_eq : mean xs = xs.sum / xs.length := by
  rw [mean, total_eq_sum_real]
  rfl

/-- the mean squared distance from the mean -/
noncomputable def variance : ℝ := (xs.map fun x => (x - mean xs) * (x - mean xs)).sum / xs.length

theorem deviation_eq : deviation xs = √(variance xs) := by
  rw [deviation, total_eq_sum_real]
  rfl

theorem variance_nonneg : 0 ≤ variance xs := by
  refine div_nonneg (List.sum_nonneg ?_) (Nat.cast_nonneg _)
  exact List.forall_mem_map.2 fun x _ => mul_self_nonneg _

theorem deviation_nonneg : 0 ≤ deviation xs := by
  rw [deviation_eq]
  exact Real.sqrt_nonneg _

theorem deviation_sq : deviation xs ^ 2 = variance xs := by
  rw [deviation_eq, Real.sq_sqrt (variance_nonneg xs)]

end

section
variable {xs : List ℝ} (hne : xs ≠ [])

include hne

theorem length_cast_pos : (0 : ℝ) < xs.length := by exact_mod_cast List.length_pos_iff.2 hne

/-- Distances from two points, multiplied and then averaged: around the mean they are the variance, and elsewhere more
by what the mean is away from both points. -/
theorem mean_products (a b : ℝ) :
    (xs.map fun x => (x - a) * (x - b)).sum / xs.length = variance xs + (mean xs - a) * (mean xs - b) := by
  have hpos := length_cast_pos hne
  rw [variance, sum_products, sum_products, mean_eq]
  field_simp
  ring

theorem variance_eq : variance xs = (xs.map fun x => x ^ 2).sum / xs.length - mean xs ^ 2 := by
  have hsquares := mean_products hne 0 0
  simp only [sub_zero, ← sq] at hsquares
  linarith

/-! ## Bounds -/

theorem le_mean {lo : ℝ} (hlo : ∀ x ∈ xs, lo ≤ x) : lo ≤ mean xs := by
  have hsum := List.card_nsmul_le_sum xs lo hlo
  rw [nsmul_eq_mul] at hsum
  rwa [mean_eq, le_div_iff₀ (length_cast_pos hne), mul_comm]

theorem mean_le {hi : ℝ} (hhi : ∀ x ∈ xs, x ≤ hi) : mean xs ≤ hi := by
  have hsum := List.sum_le_card_nsmul xs hi hhi
  rw [nsmul_eq_mul] at hsum
  rwa [mean_eq, div_le_iff₀ (length_cast_pos hne), mul_comm]

/-- the variance is at most the product of the distances of the mean from the ends, for no value is beyond them -/
theorem variance_le {lo hi : ℝ} (hlo : ∀ x ∈ xs, lo ≤ x) (hhi : ∀ x ∈ xs, x ≤ hi) :
    variance xs ≤ (mean xs - lo) * (hi - mean xs) := by
  have hsum : (xs.map fun x => (x - lo) * (x - hi)).sum ≤ 0 := by
    refine (List.sum_le_card_nsmul _ 0 (List.forall_mem_map.2 fun x hx => ?_)).trans_eq (smul_zero _)
    exact mul_nonpos_of_nonneg_of_nonpos (sub_nonneg.2 (hlo x hx)) (sub_nonpos.2 (hhi x hx))
  have hproducts := mean_products hne lo hi
  have hle := div_nonpos_of_nonpos_of_nonneg hsum (length_cast_pos hne).le
  linarith

/-- **The deviation is at most half of what lies between the ends.** -/
theorem deviation_le {lo hi : ℝ} (hlo : ∀ x ∈ xs, lo ≤ x) (hhi : ∀ x ∈ xs, x ≤ hi) :
    deviation xs ≤ (hi - lo) / 2 := by
  have hends : lo ≤ hi := (le_mean hne hlo).trans (mean_le hne hhi)
  rw [deviation_eq, Real.sqrt_le_iff]
  refine ⟨by linarith, (variance_le hne hlo hhi).trans ?_⟩
  -- the product of two numbers is at most the square of half their sum
  linarith [sq_nonneg (mean xs - (lo + hi) / 2)]

/-- the deviation is nothing only if nothing is away from the mean -/
theorem deviation_eq_zero_iff : deviation xs = 0 ↔ ∀ x ∈ xs, ∀ y ∈ xs, x = y := by
  rw [deviation_eq, Real.sqrt_eq_zero (variance_nonneg xs)]
  constructor
  · intro hzero
    have hsum := (div_eq_zero_iff.1 hzero).resolve_right (length_cast_pos hne).ne'
    have hmean : ∀ x ∈ xs, x = mean xs := by
      intro x hx
      have hsquare := List.all_zero_of_le_zero_le_of_sum_eq_zero
        (List.forall_mem_map.2 fun x _ => mul_self_nonneg (x - mean xs)) hsum (List.mem_map_of_mem hx)
      exact sub_eq_zero.1 (mul_self_eq_zero.1 hsquare)
    exact fun x hx y hy => (hmean x hx).trans (hmean y hy).symm
  · intro hsame
    obtain ⟨x, hx⟩ := List.exists_mem_of_ne_nil xs hne
    have hle := variance_le hne (fun y hy => (hsame x hx y hy).le) (fun y hy => (hsame y hy x hx).le)
    have hmean : mean xs = x := le_antisymm (mean_le hne fun y hy => (hsame y hy x hx).le)
      (le_mean hne fun y hy => (hsame x hx y hy).le)
    rw [hmean, sub_self, zero_mul] at hle
    exact le_antisymm hle (variance_nonneg xs)

end

/-! ## Order and concatenation -/

theorem mean_perm {xs ys : List ℝ} (h : xs.Perm ys) : mean xs = mean ys := by
  rw [mean_eq, mean_eq, h.sum_eq, h.length_eq]

/-- the second sum is taken around the result of the first, which is the same -/
theorem deviation_perm {xs ys : List ℝ} (h : xs.Perm ys) : deviation xs = deviation ys := by
  rw [deviation_eq, deviation_eq, variance, variance, mean_perm h, (h.map _).sum_eq, h.length_eq]

/-! ## Summaries -/

/-- What mean and deviation say of some values, from the least to the greatest. -/
structure IsSound (xs : List ℝ) (lo hi centre spread : ℝ) : Prop where
  least : IsLeast {x | x ∈ xs} lo
  greatest : IsGreatest {x | x ∈ xs} hi
  least_le_mean : lo ≤ centre
  mean_le_greatest : centre ≤ hi
  deviation_nonneg : 0 ≤ spread
  deviation_le : spread ≤ (hi - lo) / 2
  deviation_eq_zero_iff : spread = 0 ↔ ∀ x ∈ xs, ∀ y ∈ xs, x = y
  deviation_sq : spread ^ 2 = (xs.map fun x => x ^ 2).sum / xs.length - centre ^ 2

/-- two summaries with the same statistics, whatever the order of their values -/
structure SameStatistics (a b : FieldSummary ℝ) : Prop where
  mean : a.mean = b.mean
  deviation : a.deviation = b.deviation
  count : a.count = b.count

theorem isSound_statistics {xs : List ℝ} (hne : xs ≠ []) : ∃ lo hi, IsSound xs lo hi (mean xs) (deviation xs) := by
  have hnonempty : {x | x ∈ xs}.Nonempty := List.exists_mem_of_ne_nil xs hne
  obtain ⟨lo, hlo, hleast⟩ := Set.exists_min_image {x | x ∈ xs} id xs.finite_toSet hnonempty
  obtain ⟨hi, hhi, hgreatest⟩ := Set.exists_max_image {x | x ∈ xs} id xs.finite_toSet hnonempty
  exact ⟨lo, hi, ⟨hlo, hleast⟩, ⟨hhi, hgreatest⟩, le_mean hne hleast, mean_le hne hgreatest, deviation_nonneg xs,
    deviation_le hne hleast hgreatest, deviation_eq_zero_iff hne, (deviation_sq xs).trans (variance_eq hne)⟩

namespace FieldSummary

theorem ofValues_of_ne_nil {xs : List ℝ} (hne : xs ≠ []) :
    ofValues xs = ⟨some (Report.mean xs), some (Report.deviation xs), xs.length, xs⟩ :=
  if_neg (mt List.isEmpty_iff.1 hne)

theorem ofValues_perm {xs ys : List ℝ} (h : xs.Perm ys) : SameStatistics (ofValues xs) (ofValues ys) := by
  rcases eq_or_ne xs [] with rfl | hne
  · obtain rfl := h.nil_eq
    exact ⟨rfl, rfl, rfl⟩
  · have hne' : ys ≠ [] := fun hnil => hne (h.trans (.of_eq hnil)).eq_nil
    rw [ofValues_of_ne_nil hne, ofValues_of_ne_nil hne']
    exact ⟨congrArg some (mean_perm h), congrArg some (deviation_perm h), h.length_eq⟩

/-- the mean times the number of values is their sum, also where there are none -/
theorem length_mul_mean (xs : List ℝ) : xs.length * (ofValues xs).mean.getD 0 = xs.sum := by
  rcases eq_or_ne xs [] with rfl | hne
  · simp
  · rw [ofValues_of_ne_nil hne, Option.getD_some, mean_eq, mul_div_cancel₀ _ (length_cast_pos hne).ne']

/-- **The mean of two lists put together** is the mean of their means, weighted by how many values each of them has. -/
theorem mean_append {xs ys : List ℝ} (hne : xs ++ ys ≠ []) :
    (ofValues (xs ++ ys)).mean =
      some ((xs.length * (ofValues xs).mean.getD 0 + ys.length * (ofValues ys).mean.getD 0) /
        (xs.length + ys.length)) := by
  rw [length_mul_mean, length_mul_mean, ofValues_of_ne_nil hne, mean_eq, List.sum_append, List.length_append,
    Nat.cast_add]

/-- the statistics of doubles, as exact numbers -/
noncomputable def exact (values : List Float) : FieldSummary ℝ := ofValues (values.map Arithmetic.ofFloat)

theorem exact_perm {values values' : List Float} (h : values.Perm values') :
    SameStatistics (exact values) (exact values') :=
  ofValues_perm (h.map _)

end FieldSummary

open FieldSummary (ofValues exact ofValues_perm exact_perm mean_append ofValues_of_ne_nil)

/-- the records of a key are the same in another order if the events are -/
theorem records_perm {events events' : List Ledger.Event} (h : events.Perm events') (key : EvaluationKey) :
    ((Ledger.ofEvents events).held key).records.Perm ((Ledger.ofEvents events').held key).records := by
  rw [Ledger.held_ofEvents, Ledger.held_ofEvents]
  exact ((h.filter _).map _).filterMap _

/-- **Statistics are sound, and they do not depend on the order of arrival.** No values have neither mean nor deviation.
Some values have both: the mean is neither below the least nor above the greatest of them, the deviation is at most half
of what lies between these and nothing iff all values are equal, and its square is the mean of the squares less the
square of the mean. Values in another order have the same statistics, and the mean of two lists put together is the mean
of their means, weighted by how many values each has. So a log holds the same statistics for every key and every metric,
in whatever order its events came. -/
theorem statistics_sound :
    ofValues ([] : List ℝ) = ⟨none, none, 0, []⟩ ∧
    (∀ xs : List ℝ, xs ≠ [] → ∃ lo hi centre spread,
      ofValues xs = ⟨some centre, some spread, xs.length, xs⟩ ∧ IsSound xs lo hi centre spread) ∧
    (∀ xs ys : List ℝ, xs.Perm ys → SameStatistics (ofValues xs) (ofValues ys)) ∧
    (∀ xs ys : List ℝ, xs ++ ys ≠ [] →
      (ofValues (xs ++ ys)).mean =
        some ((xs.length * (ofValues xs).mean.getD 0 + ys.length * (ofValues ys).mean.getD 0) /
          (xs.length + ys.length))) ∧
    ∀ events events' : List Ledger.Event, events.Perm events' → ∀ key,
      (∀ metric, SameStatistics (exact (((Ledger.ofEvents events).held key).values metric))
        (exact (((Ledger.ofEvents events').held key).values metric))) ∧
      SameStatistics (exact ((Ledger.ofEvents events).held key).aucValues)
        (exact ((Ledger.ofEvents events').held key).aucValues) := by
  refine ⟨rfl, fun xs hne => ?_, fun xs ys => ofValues_perm, fun xs ys => mean_append, fun events events' h key => ?_⟩
  · obtain ⟨lo, hi, hsound⟩ := isSound_statistics hne
    exact ⟨lo, hi, _, _, ofValues_of_ne_nil hne, hsound⟩
  · have hrecords := records_perm h key
    exact ⟨fun metric => exact_perm (hrecords.map _), exact_perm (hrecords.filterMap _)⟩

/-- Four values around 2, in two orders; a pair and a single value put together; two events that change places. -/
theorem statistics_sound_of_four :
    ([1, 3, 3, 1] : List ℝ) ≠ [] ∧ ([1, 3, 3, 1] : List ℝ).Perm [3, 1, 3, 1] ∧
    ofValues ([1, 3, 3, 1] : List ℝ) = ⟨some 2, some 1, 4, [1, 3, 3, 1]⟩ ∧
    (ofValues ([3, 1, 3, 1] : List ℝ)).deviation = some 1 ∧
    (ofValues ([1, 3] ++ [5] : List ℝ)).mean = some ((2 * 2 + 1 * 5) / (2 + 1)) ∧
    ∀ a b : Ledger.Event, ∀ key, SameStatistics (exact (((Ledger.ofEvents [a, b]).held key).values Metric.Record.ndcg))
      (exact (((Ledger.ofEvents [b, a]).held key).values Metric.Record.ndcg)) := by
  have hne : ([1, 3, 3, 1] : List ℝ) ≠ [] := List.cons_ne_nil _ _
  have hperm : ([1, 3, 3, 1] : List ℝ).Perm [3, 1, 3, 1] := .swap _ _ _
  have hmeans : mean ([1, 3, 3, 1] : List ℝ) = 2 ∧ mean ([1, 3] : List ℝ) = 2 ∧ mean ([5] : List ℝ) = 5 := by
    simp only [mean_eq]
    norm_num
  obtain ⟨-, hsound, hsame, happend, hevents⟩ := statistics_sound
  obtain ⟨lo, hi, centre, spread, hvalues, h⟩ := hsound _ hne
  have hcentre : centre = 2 := by
    have hmean := congrArg FieldSummary.mean hvalues
    rw [ofValues_of_ne_nil hne, hmeans.1] at hmean
    exact (Option.some.inj hmean).symm
  have hspread : spread = 1 := by
    have hsq := h.deviation_sq
    rw [hcentre] at hsq
    norm_num at hsq
    exact hsq.resolve_right fun hneg => by linarith [h.deviation_nonneg]
  rw [hcentre, hspread] at hvalues
  refine ⟨hne, hperm, hvalues, ?_, ?_, fun a b key => (hevents _ _ (.swap b a []) key).1 _⟩
  · rw [← (hsame _ _ hperm).deviation, hvalues]
  · rw [happend [1, 3] [5] (List.cons_ne_nil _ _), ofValues_of_ne_nil (List.cons_ne_nil _ _),
      ofValues_of_ne_nil (List.cons_ne_nil _ _), Option.getD_some, Option.getD_some, hmeans.2.1, hmeans.2.2]
    norm_num

end RankEval.Report
