/-
What every metric takes from the ranking. On doubles that are numbers, infinite ones and both zeros among them, the
comparison that candidates are sorted by is a total preorder; NaN would stand level with everything. So there is exactly
one way to put all positions in an order in which scores fall and equal ones stay as they are given, and the ranking is
that way. The first candidates at one cutoff are the first ones among those at every greater cutoff.

- `precedes_total`, `precedes_trans`: the comparison.
- `ranksStably_iff`: the ranking, position by position.
- `ranking_unique_stable`: all of it together, for lists without NaN and for the vectors that the checks let through.
-/
import RankEval.Proofs.Metric.RankedOrder
import RankEval.Proofs.Metric.Validity

namespace RankEval.Metric

open Double (isNaN_of_isFinite precedes_iff_place le_iff_place lt_iff_place beq_iff_place le_iff_lt_or_beq)

/-! ## The comparison -/

section
variable {x y z : Float}

theorem precedes_total (hx : x.isNaN = false) (hy : y.isNaN = false) : precedes x y = true ∨ precedes y x = true := by
  rw [precedes_iff_place hx hy, precedes_iff_place hy hx]
  exact le_total _ _

theorem precedes_trans (hx : x.isNaN = false) (hy : y.isNaN = false) (hz : z.isNaN = false)
    (hxy : precedes x y = true) (hyz : precedes y z = true) : precedes x z = true := by
  rw [precedes_iff_place hx hy] at hxy
  rw [precedes_iff_place hy hz] at hyz
  rw [precedes_iff_place hx hz]
  exact hyz.trans hxy

/-- with NaN in between it leads from a score to a greater one -/
example : precedes 1.0 (0.0 / 0.0) = true ∧ precedes (0.0 / 0.0) 2.0 = true ∧ precedes 1.0 2.0 = false := by
  decide +kernel

end

/-! ## The order, position by position -/

/-- the score at a position of an order -/
def scoreAt (scores : List Float) (order : List ℕ) (p : ℕ) : Float := scores.getD (order.getD p 0) 0.0

/-- An order of all candidates in which scores fall, and equal ones stay in the order in which they are given. -/
structure RanksStably (scores : List Float) (order : List ℕ) : Prop where
  perm : order.Perm (List.range scores.length)
  falls : ∀ p q, p < q → q < scores.length → scoreAt scores order q ≤ scoreAt scores order p
  keeps : ∀ p q, p < q → q < scores.length → (scoreAt scores order p == scoreAt scores order q) = true →
    order.getD p 0 < order.getD q 0

section
variable {scores : List Float}

theorem ranksStably_iff_stableOrder (h : ∀ x ∈ scores, x.isNaN = false) (order : List ℕ) :
    RanksStably scores order ↔ StableOrder scores order := by
  have hnum : ∀ i, (scores.getD i 0.0).isNaN = false := isNaN_getD h
  constructor
  · rintro ⟨hperm, hfalls, hkeeps⟩
    have hlen : order.length = scores.length := by simpa using hperm.length_eq
    refine ⟨hperm, List.pairwise_iff_getElem.2 fun p q hp hq hpq => ?_⟩
    have hle := hfalls p q hpq (hlen ▸ hq)
    have htie := hkeeps p q hpq (hlen ▸ hq)
    rw [scoreAt, scoreAt, List.getD_eq_getElem _ 0 hp, List.getD_eq_getElem _ 0 hq] at hle htie
    rw [le_iff_place (hnum _) (hnum _)] at hle
    rw [lt_iff_place (hnum _) (hnum _)]
    rcases hle.lt_or_eq with hlt | heq
    · exact .inl hlt
    · have hbeq := (beq_iff_place (hnum _) (hnum _)).2 heq.symm
      exact .inr ⟨hbeq, htie hbeq⟩
  · rintro ⟨hperm, hfalls⟩
    have hlen : order.length = scores.length := by simpa using hperm.length_eq
    have hpair : ∀ p q, p < q → q < scores.length →
        Double.place (scoreAt scores order q) < Double.place (scoreAt scores order p) ∨
          Double.place (scoreAt scores order p) = Double.place (scoreAt scores order q) ∧
            order.getD p 0 < order.getD q 0 := by
      intro p q hpq hq
      have hq : q < order.length := hlen ▸ hq
      have hp : p < order.length := hpq.trans hq
      have hpos := List.pairwise_iff_getElem.1 hfalls p q hp hq hpq
      rw [lt_iff_place (hnum _) (hnum _), beq_iff_place (hnum _) (hnum _)] at hpos
      rwa [scoreAt, scoreAt, List.getD_eq_getElem _ 0 hp, List.getD_eq_getElem _ 0 hq]
    have hscore : ∀ p, (scoreAt scores order p).isNaN = false := fun p => hnum _
    refine ⟨hperm, fun p q hpq hq => ?_, fun p q hpq hq htie => ?_⟩
    · rw [le_iff_place (hscore q) (hscore p)]
      rcases hpair p q hpq hq with hlt | ⟨heq, -⟩
      · exact hlt.le
      · exact heq.ge
    · rw [beq_iff_place (hscore p) (hscore q)] at htie
      rcases hpair p q hpq hq with hlt | ⟨-, hlt⟩
      · exact absurd htie hlt.ne'
      · exact hlt

/-- **The ranking is the one stable order by falling scores.** -/
theorem ranksStably_iff (h : ∀ x ∈ scores, x.isNaN = false) (order : List ℕ) :
    RanksStably scores order ↔ order = ranking scores := by
  rw [ranksStably_iff_stableOrder h, stableOrder_iff_of_numbers h]

/-! ## The first candidates -/

/-- up to the number of candidates there are as many first ones as the cutoff says, and each is a position -/
theorem take_ranking_inBounds {k : ℕ} (hk : k ≤ scores.length) :
    ((ranking scores).take k).length = k ∧ ∀ i ∈ (ranking scores).take k, i < scores.length := by
  refine ⟨by simp [hk], fun i hi => ?_⟩
  exact List.mem_range.1 ((ranking_perm scores).mem_iff.1 (List.mem_of_mem_take hi))

/-- the checks let through vectors of one length without NaN, and the cutoff that they give is within both -/
theorem inBounds_of_validate {relevance : List Float} {k c : ℕ} (hv : validate relevance scores k = .ok c) :
    (∀ x ∈ relevance ++ scores, x.isNaN = false) ∧ relevance.length = scores.length ∧ c ≤ scores.length := by
  obtain ⟨hlen, -, -, hrel, hfin, rfl⟩ := (validate_eq_ok_iff ..).1 hv
  refine ⟨?_, hlen, hlen ▸ min_le_right _ _⟩
  rw [List.forall_mem_append]
  exact ⟨fun x hx => isNaN_of_isFinite (hrel x hx).1, fun x hx => isNaN_of_isFinite (hfin x hx)⟩

end

/-- **The ranking is the unique stable descending order.** For scores without NaN, infinite ones and both zeros
included, an order of the positions has scores that fall and keeps equal ones as they are given iff it is the ranking.
The comparison of the sort is total and transitive on these scores. Up to the number of candidates every cutoff takes as
many positions as it says, all of them positions of candidates, and what one cutoff takes comes first in what a greater
one takes. Vectors that pass the checks have no NaN, and their cutoff is no greater than the number of candidates. -/
theorem ranking_unique_stable (scores : List Float) (h : ∀ x ∈ scores, x.isNaN = false) :
    (∀ order, RanksStably scores order ↔ order = ranking scores) ∧
    (∀ x ∈ scores, ∀ y ∈ scores, precedes x y = true ∨ precedes y x = true) ∧
    (∀ x ∈ scores, ∀ y ∈ scores, ∀ z ∈ scores, precedes x y = true → precedes y z = true → precedes x z = true) ∧
    (∀ k ≤ scores.length,
      ((ranking scores).take k).length = k ∧ ∀ i ∈ (ranking scores).take k, i < scores.length) ∧
    (∀ j k, j ≤ k → (ranking scores).take j <+: (ranking scores).take k) ∧
    ∀ relevance scores' k c, validate relevance scores' k = .ok c →
      (∀ x ∈ relevance ++ scores', x.isNaN = false) ∧ relevance.length = scores'.length ∧ c ≤ scores'.length := by
  refine ⟨ranksStably_iff h, fun x hx y hy => precedes_total (h x hx) (h y hy),
    fun x hx y hy z hz => precedes_trans (h x hx) (h y hy) (h z hz), fun k => take_ranking_inBounds,
    fun j k hjk => List.take_prefix_take_left hjk, fun relevance scores' k c => inBounds_of_validate⟩

/-- Both infinities, both zeros and two equal scores. -/
theorem ranking_unique_stable_of_seven :
    (∀ x ∈ [0.0, -1 / 0, 0.5, -0.0, 1 / 0, 0.5, -2.0], Float.isNaN x = false) ∧
    RanksStably [0.0, -1 / 0, 0.5, -0.0, 1 / 0, 0.5, -2.0] [4, 2, 5, 0, 3, 6, 1] ∧
    ranking [0.0, -1 / 0, 0.5, -0.0, 1 / 0, 0.5, -2.0] = [4, 2, 5, 0, 3, 6, 1] := by
  have h : ∀ x ∈ [0.0, -1 / 0, 0.5, -0.0, 1 / 0, 0.5, -2.0], Float.isNaN x = false := by decide +kernel
  have hstable : RanksStably [0.0, -1 / 0, 0.5, -0.0, 1 / 0, 0.5, -2.0] [4, 2, 5, 0, 3, 6, 1] :=
    (ranksStably_iff_stableOrder h _).2 ⟨by decide +kernel, by decide +kernel⟩
  obtain ⟨hunique, -⟩ := ranking_unique_stable _ h
  exact ⟨h, hstable, ((hunique _).1 hstable).symm⟩

end RankEval.Metric
