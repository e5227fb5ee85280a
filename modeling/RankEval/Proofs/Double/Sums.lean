/-
Sums of doubles that are not negative, added from left to right and rounded at each step. The sum of `n` doubles that
are at most `2 ^ e` is at most `n` times that: so many units are representable as long as `n` is at most `2 ^ 53`. At
`2 ^ 53` units the sum stands still, since one unit more is rounded back. And whatever the roundings do, no summand is
greater than the sum, and none is infinite if the sum is not.

- `isFinite_total`: a sum of bounded doubles does not overflow.
- `value_total_units`: a sum of multiples of one unit is exact.
- `value_le_total`: what the summands of a finite sum are.
-/
import RankEval.Proofs.Double.Operations

namespace RankEval.Double

open Arithmetic (total total_append_singleton)

theorem value_total_nil : (total ([] : List Float)).isFinite = true ∧ value (total ([] : List Float)) = 0 :=
  ⟨by decide, rfl⟩

/-- one more summand: as long as there are fewer than `2 ^ 53` there is room for it, and then it is rounded away -/
theorem nearest_units_succ {n : ℕ} {e : ℤ} {v r : ℚ} (he : -1074 ≤ e)
    (hv : v ≤ (min n (2 ^ 53) : ℕ) * 2 ^ e + 2 ^ e) (hr : IsNearest v r) : r ≤ (min (n + 1) (2 ^ 53) : ℕ) * 2 ^ e := by
  rcases Nat.lt_or_ge n (2 ^ 53) with hroom | hfull
  · rw [min_eq_left hroom.le] at hv
    rw [min_eq_left (Nat.succ_le_of_lt hroom)]
    refine hr.le_of_ge _ ⟨n + 1, e, hroom, he, rfl⟩ (hv.trans_eq ?_)
    push_cast
    ring
  · rw [min_eq_right hfull] at hv
    rw [min_eq_right (by omega)]
    have htie := hr.tie e he (hv.trans_eq (by push_cast; ring))
    exact_mod_cast htie

/-- **A sum of doubles that are at most `2 ^ e` does not overflow** if as many times `2 ^ e` is in the range of doubles;
at most `2 ^ 53` of them count. -/
theorem isFinite_total {xs : List Float} {e : ℤ} (he : -1074 ≤ e)
    (hxs : ∀ x ∈ xs, x.isFinite = true ∧ 0 ≤ value x ∧ value x ≤ 2 ^ e)
    (hrange : (min xs.length (2 ^ 53) : ℕ) * (2 : ℚ) ^ e < 2 ^ (1024 : ℤ)) :
    (total xs).isFinite = true ∧ 0 ≤ value (total xs) ∧ value (total xs) ≤ (min xs.length (2 ^ 53) : ℕ) * 2 ^ e := by
  induction xs using List.reverseRecOn with
  | nil => simp [value_total_nil]
  | append_singleton xs x ih =>
    rw [List.length_append, List.length_singleton] at hrange ⊢
    have hfewer : (min xs.length (2 ^ 53) : ℕ) ≤ ((min (xs.length + 1) (2 ^ 53) : ℕ) : ℚ) := by
      exact_mod_cast min_le_min_right _ xs.length.le_succ
    obtain ⟨hfinite, hnonneg, hle⟩ := ih (fun y hy => hxs y (List.mem_append_left _ hy))
      ((mul_le_mul_of_nonneg_right hfewer (two_zpow_pos e).le).trans_lt hrange)
    obtain ⟨hx, hx0, hxe⟩ := hxs x (List.mem_append_right _ (List.mem_singleton_self x))
    have hsum := isRounded_add hfinite hx hnonneg hx0
    obtain ⟨htotal, hbound⟩ := hsum.of_nearest_le hrange fun _ hr => nearest_units_succ he (add_le_add hle hxe) hr
    rw [total_append_singleton]
    exact ⟨htotal, hsum.nonneg htotal (add_nonneg hnonneg hx0), hbound⟩

/-- **A sum of multiples of `2 ^ e` is exact** as long as there are no more than `2 ^ 53` of them altogether. -/
theorem value_total_units {α : Type} {items : List α} {f : α → Float} {units : α → ℕ} {e : ℤ} (he : -1074 ≤ e)
    (he' : e < 971) (hf : ∀ a ∈ items, (f a).isFinite = true ∧ value (f a) = units a * 2 ^ e)
    (hsum : (items.map units).sum ≤ 2 ^ 53) : (total (items.map f)).isFinite = true ∧
      value (total (items.map f)) = ((items.map units).sum : ℕ) * 2 ^ e := by
  induction items using List.reverseRecOn with
  | nil => simp [value_total_nil]
  | append_singleton items a ih =>
    have hunits : ((items ++ [a]).map units).sum = (items.map units).sum + units a := by simp
    rw [hunits] at hsum ⊢
    obtain ⟨hfinite, hvalue⟩ := ih (fun b hb => hf b (List.mem_append_left _ hb)) (le_of_add_le_left hsum)
    obtain ⟨hafinite, havalue⟩ := hf a (List.mem_append_right _ (List.mem_singleton_self a))
    have hnonneg : ∀ n : ℕ, (0 : ℚ) ≤ n * 2 ^ e := fun n => mul_nonneg n.cast_nonneg (two_zpow_pos e).le
    have hrounded := isRounded_add hfinite hafinite (hvalue ▸ hnonneg _) (havalue ▸ hnonneg _)
    rw [hvalue, havalue, ← add_mul, ← Nat.cast_add] at hrounded
    rw [List.map_append, List.map_singleton, total_append_singleton]
    refine hrounded.value_eq ⟨_, e, hsum, he, rfl⟩ ?_
    calc (((items.map units).sum + units a : ℕ) : ℚ) * 2 ^ e ≤ 2 ^ 53 * 2 ^ e :=
          mul_le_mul_of_nonneg_right (by exact_mod_cast hsum) (two_zpow_pos e).le
      _ = 2 ^ (53 + e) := pow_mul_zpow 53 e
      _ < 2 ^ (1024 : ℤ) := zpow_lt_zpow_right₀ one_lt_two (by omega)

/-- **The summands of a finite sum are finite and at most the sum**, if those that are finite are not negative. -/
theorem value_le_total {xs : List Float} (hxs : ∀ x ∈ xs, x.isFinite = true → 0 ≤ value x)
    (hfinite : (total xs).isFinite = true) :
    0 ≤ value (total xs) ∧ ∀ x ∈ xs, x.isFinite = true ∧ value x ≤ value (total xs) := by
  induction xs using List.reverseRecOn with
  | nil => simp [value_total_nil]
  | append_singleton xs x ih =>
    rw [total_append_singleton] at hfinite ⊢
    obtain ⟨hinit, hx⟩ := isFinite_of_add hfinite
    obtain ⟨hnonneg, hle⟩ := ih (fun y hy => hxs y (List.mem_append_left _ hy)) hinit
    have hx0 := hxs x (List.mem_append_right _ (List.mem_singleton_self x)) hx
    have hsum := isRounded_add hinit hx hnonneg hx0
    refine ⟨hsum.nonneg hfinite (add_nonneg hnonneg hx0), fun y hy => ?_⟩
    rcases List.mem_append.1 hy with hy | hy
    · obtain ⟨hyfinite, hylt⟩ := hle y hy
      have hy0 := hxs y (List.mem_append_left _ hy) hyfinite
      exact ⟨hyfinite, hsum.le_value hfinite (representable_value hyfinite hy0) (by linarith)⟩
    · obtain rfl := List.mem_singleton.1 hy
      exact ⟨hx, hsum.le_value hfinite (representable_value hx hx0) (by linarith)⟩

/-- what was infinite before the last summands stays so -/
theorem isFinite_total_of_append {xs ys : List Float} (h : (total (xs ++ ys)).isFinite = true) :
    (total xs).isFinite = true := by
  induction ys using List.reverseRecOn with
  | nil => rwa [List.append_nil] at h
  | append_singleton ys y ih =>
    rw [← List.append_assoc, total_append_singleton] at h
    exact ih (isFinite_of_add h).1

/-- two summands at the start of a finite sum are in the range of doubles together -/
theorem value_add_lt_of_total {x y : Float} {zs : List Float} (hx : 0 ≤ value x) (hy : 0 ≤ value y)
    (h : (total (x :: y :: zs)).isFinite = true) : value x + value y < 2 ^ (1024 : ℤ) := by
  have hpair : (total [x, y]).isFinite = true := isFinite_total_of_append h
  change (total [] + x + y).isFinite = true at hpair
  obtain ⟨hfirst, hyfinite⟩ := isFinite_of_add hpair
  obtain ⟨-, hxfinite⟩ := isFinite_of_add hfirst
  obtain ⟨hnil, hzero⟩ := value_total_nil
  have hone := isRounded_add hnil hxfinite hzero.ge hx
  rw [hzero, zero_add] at hone
  have hsame := (hone.value_eq (representable_value hxfinite hx) (value_lt hxfinite hx)).2
  have htwo := isRounded_add hfirst hyfinite (hsame.symm ▸ hx) hy
  rw [hsame] at htwo
  by_contra hlarge
  have hge := htwo.le_value hpair (representable_two_zpow (by norm_num)) (not_lt.1 hlarge)
  exact absurd (value_lt hpair ((two_zpow_pos _).le.trans hge)) (not_lt.2 hge)

end RankEval.Double
