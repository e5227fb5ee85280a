/-
The search for the shortest decimal succeeds: it goes far enough down to find a grid that is finer than the interval.

- `nearestMultiple_isSome`: a grid with steps of at most a quarter of a place has a point in the interval.
- `gridRatio_last`: the last grid of the search is such a grid.
- `shortest_holds`: so what is found lies in the interval.
- `shortest_pos`: and its digits are those of a positive number.
-/
import Mathlib.Tactic
import RankEval.Decimal.Shortest

namespace RankEval.Decimal

/-! ## One grid -/

/-- a point of the interval is positive -/
theorem pos_of_holds {i : Interval} {a b d : Nat} (hlow : 0 < i.low) (hb : 0 < b) (h : i.holds a b d = true) :
    0 < d := by
  have hpos : 0 < i.low * b := Nat.mul_pos hlow hb
  refine Nat.pos_of_ne_zero ?_
  rintro rfl
  unfold Interval.holds at h
  split at h <;> simp only [Bool.and_eq_true, decide_eq_true_iff] at h <;> omega

theorem holds_of_nearestMultiple {i : Interval} {tie : Tie} {v a b d : Nat}
    (h : i.nearestMultiple tie v a b = some d) : i.holds a b d = true := by
  unfold Interval.nearestMultiple at h
  dsimp only at h
  split_ifs at h with h1 h2 h3 <;> cases h
  · exact h1
  · exact h2
  · exact h3

/-- the multiple just below the middle lies in the interval if the steps are small -/
theorem nearestMultiple_isSome (i : Interval) (tie : Tie) {v a b : Nat} (hlow : i.low + 1 ≤ v) (hhigh : v < i.high)
    (ha : 0 < a) (hab : a ≤ b) : (i.nearestMultiple tie v a b).isSome = true := by
  have hdown : i.holds a b (v * b / a) = true := by
    have hdiv := Nat.div_add_mod (v * b) a
    have hmod := Nat.mod_lt (v * b) ha
    rw [Nat.mul_comm a] at hdiv
    have hbelow : i.low * b < v * b / a * a := by
      have hstep : (i.low + 1) * b ≤ v * b := Nat.mul_le_mul_right b hlow
      rw [Nat.add_mul, Nat.one_mul] at hstep
      omega
    have habove : v * b / a * a < i.high * b := by
      have hstep : v * b < i.high * b := Nat.mul_lt_mul_of_pos_right hhigh (ha.trans_le hab)
      omega
    unfold Interval.holds
    split <;> simp only [Bool.and_eq_true, decide_eq_true_iff]
    · exact ⟨hbelow.le, habove.le⟩
    · exact ⟨hbelow, habove⟩
  unfold Interval.nearestMultiple
  dsimp only
  split_ifs <;> rfl

/-! ## All grids -/

theorem gridRatio_pos (e p : Int) : 0 < (gridRatio e p).1 ∧ 0 < (gridRatio e p).2 := by
  unfold gridRatio
  constructor <;> refine Nat.mul_pos ?_ ?_ <;> split_ifs <;>
    first | exact Nat.one_pos | exact Nat.pow_pos (by decide)

/-- a finer grid than a small one is small -/
theorem gridRatio_mono {e e' p : Int} (he : e ≤ e') (h : (gridRatio e' p).1 ≤ (gridRatio e' p).2) :
    (gridRatio e p).1 ≤ (gridRatio e p).2 := by
  have htop : (gridRatio e p).1 ≤ (gridRatio e' p).1 := by
    refine Nat.mul_le_mul_right _ ?_
    split_ifs with h1 h2
    · exact Nat.pow_le_pow_right (by decide) (by omega)
    · omega
    · exact Nat.one_le_pow _ _ (by decide)
    · exact le_rfl
  have hbottom : (gridRatio e' p).2 ≤ (gridRatio e p).2 := by
    refine Nat.mul_le_mul_right _ ?_
    split_ifs with h1 h2
    · exact le_rfl
    · exact Nat.one_le_pow _ _ (by decide)
    · omega
    · exact Nat.pow_le_pow_right (by decide) (by omega)
  exact htop.trans (h.trans hbottom)

theorem search_holds {i : Interval} (tie : Tie) {v : Nat} {p : Int} (hlow : i.low + 1 ≤ v) (hhigh : v < i.high)
    (fuel : Nat) : ∀ e : Int, (gridRatio (e - fuel) p).1 ≤ (gridRatio (e - fuel) p).2 →
      i.holds (gridRatio (i.search tie v p (fuel + 1) e).2 p).1 (gridRatio (i.search tie v p (fuel + 1) e).2 p).2
        (i.search tie v p (fuel + 1) e).1 = true := by
  induction fuel with
  | zero =>
    intro e hgrid
    obtain ⟨d, hd⟩ := Option.isSome_iff_exists.1
      (nearestMultiple_isSome i tie hlow hhigh (gridRatio_pos _ p).1 hgrid)
    rw [Int.natCast_zero, Int.sub_zero] at hd
    simp only [Interval.search, hd]
    exact holds_of_nearestMultiple hd
  | succ fuel ih =>
    intro e hgrid
    rw [Interval.search]
    split
    · next d hd => exact holds_of_nearestMultiple hd
    · refine ih (e - 1) ?_
      rwa [show e - 1 - (fuel : Int) = e - ((fuel + 1 : Nat) : Int) by omega]

/-- the last grid of the search, for the largest significands -/
theorem gridRatio_last : ∀ n < 2046, (gridRatio ((Int.ofNat n - 1021) * 30103 / 100000 - 18) (Int.ofNat n - 1076)).1 ≤
    (gridRatio ((Int.ofNat n - 1021) * 30103 / 100000 - 18) (Int.ofNat n - 1076)).2 := by
  decide +kernel

/-- the shortest decimal reads back: it lies in the interval -/
theorem shortest_holds (tie : Tie) {m : Nat} {q : Int} (hm : 0 < m) (hm' : m < Nat.pow 2 53) (hq : -1074 ≤ q)
    (hq' : q ≤ 971) : (interval m q).holds (gridRatio (shortest tie m q).2 (q - 2)).1
      (gridRatio (shortest tie m q).2 (q - 2)).2 (shortest tie m q).1 = true := by
  have hlog : m.log2 < 53 := (Nat.log2_lt hm.ne').2 hm'
  refine search_holds tie ?_ ?_ 19 _ ?_
  · unfold interval
    dsimp only
    split_ifs <;> omega
  · exact Nat.lt_add_of_pos_right (by decide)
  · have hlast := gridRatio_last (q + 1074).toNat (by omega)
    have hnat : Int.ofNat (q + 1074).toNat = q + 1074 := Int.toNat_of_nonneg (by omega)
    rw [hnat, show q + 1074 - 1076 = q - 2 by omega] at hlast
    refine gridRatio_mono ?_ hlast
    have hmul : (Int.ofNat m.log2 + q + 1) * 30103 ≤ (q + 1074 - 1021) * 30103 := by
      have : (Int.ofNat m.log2 : Int) ≤ 52 := by
        change ((m.log2 : Nat) : Int) ≤ 52
        omega
      omega
    have hdiv := Int.ediv_le_ediv (by decide : (0 : Int) < 100000) hmul
    change _ + 1 - (19 : Int) ≤ _
    omega

theorem shortest_pos (tie : Tie) {m : Nat} {q : Int} (hm : 0 < m) (hm' : m < Nat.pow 2 53) (hq : -1074 ≤ q)
    (hq' : q ≤ 971) : 0 < (shortest tie m q).1 := by
  refine pos_of_holds ?_ (gridRatio_pos _ (q - 2)).2 (shortest_holds tie hm hm' hq hq')
  unfold interval
  dsimp only
  split_ifs <;> omega

end RankEval.Decimal
