/-
What the checks before every metric let through.

- `validate_eq_ok_iff`: two vectors of one length, finite, with a relevance of at least 0, and a positive cutoff; the
  result is the cutoff, at most the number of candidates.
- `validate_eq_error`, `evaluate_eq_error`: what can be wrong with two vectors of one length without a negative
  relevance.
-/
import Mathlib.Tactic
import RankEval.Metric.Record

namespace RankEval.Metric

theorem badRelevance_eq_none_iff (relevance : List Float) :
    badRelevance relevance = none ↔ ∀ x ∈ relevance, x.isFinite = true ∧ ¬ x < 0.0 := by
  rw [badRelevance, List.findSome?_eq_none_iff, List.forall_mem_zipIdx', List.forall_mem_iff_getElem]
  refine forall₂_congr fun i hi => ?_
  dsimp only
  split_ifs with h1 h2 <;> simp_all

theorem badScore_eq_none_iff (scores : List Float) : badScore scores = none ↔ ∀ x ∈ scores, x.isFinite = true := by
  rw [badScore, List.findSome?_eq_none_iff, List.forall_mem_zipIdx', List.forall_mem_iff_getElem]
  refine forall₂_congr fun i hi => ?_
  dsimp only
  split_ifs with h1 <;> simp_all

theorem validate_eq_ok_iff (relevance scores : List Float) (k c : Nat) :
    validate relevance scores k = .ok c ↔
      relevance.length = scores.length ∧ k ≠ 0 ∧ relevance ≠ [] ∧ (∀ x ∈ relevance, x.isFinite = true ∧ ¬ x < 0.0) ∧
        (∀ x ∈ scores, x.isFinite = true) ∧ c = min k relevance.length := by
  rw [← badRelevance_eq_none_iff, ← badScore_eq_none_iff]
  unfold validate
  split_ifs with h1 h2 h3
  · simp [h1]
  · simp [h2]
  · simp [List.isEmpty_iff.1 h3]
  · have h3 : relevance ≠ [] := fun h => h3 (List.isEmpty_iff.2 h)
    cases hr : badRelevance relevance with
    | some e => simp
    | none =>
      cases hs : badScore scores with
      | some e => simp
      | none => simp [not_not.1 h1, h2, h3, eq_comm]

/-! ## What can be wrong with an aligned pair -/

section
variable {relevance : List Float} {scores : List Float} {k : Nat} {e : Error}

theorem badRelevance_eq_some (hneg : ∀ x ∈ relevance, ¬ x < 0.0) (h : badRelevance relevance = some e) :
    ∃ i, e = .nonFinite .relevance i := by
  obtain ⟨⟨x, i⟩, hmem, he⟩ := List.exists_of_findSome?_eq_some h
  have hx : ¬ x < 0.0 := hneg x (List.fst_mem_of_mem_zipIdx hmem)
  dsimp only at he
  rw [if_neg hx] at he
  split at he
  · exact ⟨i, (Option.some.inj he).symm⟩
  · cases he

theorem badScore_eq_some (h : badScore scores = some e) : ∃ i, e = .nonFinite .score i := by
  obtain ⟨⟨x, i⟩, -, he⟩ := List.exists_of_findSome?_eq_some h
  dsimp only at he
  split at he
  · exact ⟨i, (Option.some.inj he).symm⟩
  · cases he

theorem validate_eq_error (hlength : relevance.length = scores.length) (hneg : ∀ x ∈ relevance, ¬ x < 0.0)
    (h : validate relevance scores k = .error e) :
    e = .zeroCutoff ∨ e = .emptyInput ∨ ∃ side i, e = .nonFinite side i := by
  unfold validate at h
  rw [if_neg (not_not.2 hlength)] at h
  split_ifs at h with hzero hempty
  · exact .inl (Except.error.inj h).symm
  · exact .inr (.inl (Except.error.inj h).symm)
  · cases hr : badRelevance relevance with
    | some e' =>
      rw [hr] at h
      cases h
      obtain ⟨i, he⟩ := badRelevance_eq_some hneg hr
      exact .inr (.inr ⟨.relevance, i, he⟩)
    | none =>
      cases hs : badScore scores with
      | some e' =>
        rw [hr, hs] at h
        cases h
        obtain ⟨i, he⟩ := badScore_eq_some hs
        exact .inr (.inr ⟨.score, i, he⟩)
      | none =>
        rw [hr, hs] at h
        cases h

variable {scores : AlignedScores}

theorem auc_eq_error {R : Type} [Arithmetic R] (hlength : relevance.length = scores.length)
    (hneg : ∀ x ∈ relevance, ¬ x < 0.0) (h : auc R relevance scores = .error e) :
    (e = .zeroCutoff ∨ e = .emptyInput ∨ ∃ side i, e = .nonFinite side i) ∨
      ∃ n, e = .noRelevantItems n ∨ e = .allRelevant n := by
  unfold auc at h
  cases hv : validate relevance scores.values 1 with
  | error e' =>
    rw [hv] at h
    cases h
    exact .inl (validate_eq_error hlength hneg hv)
  | ok c =>
    have hclasses : (if relevantCount relevance = 0 then .error (.noRelevantItems relevance.length)
        else if relevantCount relevance = relevance.length then .error (.allRelevant relevance.length)
        else .ok (areaOf R relevance.length (relevantCount relevance)
          (rankSum R relevance scores.values (scores.flags relevance.length)))) = Except.error (ε := Error) e := by
      rwa [hv] at h
    split_ifs at hclasses
    · exact .inr ⟨_, .inl (Except.error.inj hclasses).symm⟩
    · exact .inr ⟨_, .inr (Except.error.inj hclasses).symm⟩

theorem optionalAuc_eq_error {policy : UndefinedAuc} (h : optionalAuc policy relevance scores = .error e) :
    auc Float relevance scores = .error e := by
  unfold optionalAuc at h
  split at h <;> simp_all

/-- The metrics of an aligned pair fail only because nothing is asked for or given, because of a value that is infinite
or no number, or because the AUC is undefined. -/
theorem evaluate_eq_error {options : Options} (hlength : relevance.length = scores.length)
    (hneg : ∀ x ∈ relevance, ¬ x < 0.0) (h : evaluate options relevance scores k = .error e) :
    (e = .zeroCutoff ∨ e = .emptyInput ∨ ∃ side i, e = .nonFinite side i) ∨
      ∃ n, e = .noRelevantItems n ∨ e = .allRelevant n := by
  unfold evaluate at h
  cases hv : validate relevance scores.values k with
  | error e' =>
    rw [hv] at h
    cases h
    exact .inl (validate_eq_error hlength hneg hv)
  | ok c =>
    cases harea : optionalAuc options.auc relevance scores with
    | error e' =>
      rw [hv, harea] at h
      cases h
      exact auc_eq_error hlength hneg (optionalAuc_eq_error harea)
    | ok area =>
      rw [hv, harea] at h
      cases h

end

end RankEval.Metric
