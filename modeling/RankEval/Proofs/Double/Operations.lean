/-
The operations on doubles that are not negative: each is the exact operation, rounded. What an operation makes of
infinities is only needed so far as that nothing finite comes out of them, other than a quotient by infinity.

- `isRounded_add`, `isRounded_sub`, `isRounded_mul`, `isRounded_div`: sum, difference, product and quotient.
- `rounds_mul`, `rounds_div`, `rounds_ofNat`: products, quotients and counts, by the number that they are rounded to.
- `isFinite_of_add`, `isFinite_of_sub`, `isFinite_of_div`: what a finite result was made from.
-/
import RankEval.Proofs.Double.Rounding

namespace RankEval.Double

open Float.Model (UnpackedFloat Format totalExponent)
open Float.Model.UnpackedFloat (Sign Accuracy decreaseExponent accuracyOfFraction)

/-! ## Doubles that are not negative -/

theorem valueOf_positive {m : ℕ} {e : ℤ} (hm : 0 < m) : valueOf (.finite .positive m e hm) = m * 2 ^ e := by
  simp [valueOf, Sign.apply]

theorem valueOf_negative {m : ℕ} {e : ℤ} (hm : 0 < m) : valueOf (.finite .negative m e hm) = -(m * 2 ^ e) := by
  simp [valueOf, Sign.apply]

section
variable {x y : Float}

/-- what a finite double that is not negative is unpacked to -/
theorem unpack_of_nonneg (hx : x.isFinite = true) (h : 0 ≤ value x) :
    (value x = 0 ∧ ∃ s, x.toModel.unpack = .zero s) ∨
      0 < value x ∧ ∃ m e hm, x.toModel.unpack = .finite .positive m e hm ∧ value x = m * 2 ^ e := by
  change x.toModel.unpack.isFinite = true at hx
  unfold value at h ⊢
  generalize x.toModel.unpack = u at hx h ⊢
  rcases u with s | _ | s | ⟨_ | _, m, e, hm⟩
  · cases hx
  · cases hx
  · exact .inl ⟨rfl, s, rfl⟩
  · rw [valueOf_negative] at h
    exact absurd h (not_le.2 (neg_lt_zero.2 (magnitude_pos hm e)))
  · rw [valueOf_positive]
    exact .inr ⟨magnitude_pos hm e, m, e, hm, rfl, rfl⟩

theorem eq_pack {u : UnpackedFloat} (h : x.toModel.unpack = u) : x = .ofModel (.pack u) := by
  rw [← h, pack_unpack]

theorem isFinite_infinity (h : x.toModel.unpack = .infinity .positive) : x.isFinite = false := by
  rw [Float.isFinite, Float.Model.isFinite, h]
  rfl

theorem isRounded_zero (s : Sign) : IsRounded 0 (.ofModel (.pack (.zero s))) := by
  refine ⟨0, .refl ⟨0, 0, by decide, by decide, by simp⟩, .inl ⟨two_zpow_pos _, ?_, ?_⟩⟩
  · cases s <;> decide
  · cases s <;> rfl

theorem rounds_zero (s : Sign) : Rounds 0 (.ofModel (.pack (.zero s))) := by
  refine ⟨0, ⟨0, -1074, ⟨⟨?_, ?_, fun _ => rfl⟩, le_rfl, .inl rfl, ?_⟩, by simp⟩, isRounded_zero s⟩
  · norm_num
  · norm_num
  · positivity

/-- a double is what its own value is rounded to -/
theorem isRounded_value (hx : x.isFinite = true) (h : 0 ≤ value x) : IsRounded (value x) x := by
  rcases unpack_of_nonneg hx h with ⟨hzero, s, hu⟩ | ⟨-, m, e, hm, hu, hvalue⟩
  · rw [hzero, eq_pack hu]
    exact isRounded_zero s
  · have hcanonical := canonical_unpack x
    rw [hu] at hcanonical
    rw [hvalue, eq_pack hu]
    exact isRounded_of_canonical hm hcanonical (.refl ⟨m, e, hcanonical.1.le, hcanonical.2.1, rfl⟩)

theorem representable_value (hx : x.isFinite = true) (h : 0 ≤ value x) : Representable (value x) := by
  obtain ⟨r, hr, ⟨-, -, heq⟩ | ⟨-, hinfinite⟩⟩ := isRounded_value hx h
  · rw [heq]
    exact hr.representable
  · exact absurd hx (Bool.eq_false_iff.1 (isFinite_infinity hinfinite))

/-! ## Sums and differences -/

/-- a significand at a smaller exponent -/
theorem decreaseExponent_eq (m : ℕ) {e j : ℤ} (h : j ≤ e) :
    ∃ n : ℕ, (decreaseExponent m e j).1 = n ∧ (n : ℚ) * 2 ^ j = m * 2 ^ e := by
  refine ⟨_, rfl, ?_⟩
  rw [decreaseExponent, Nat.shiftLeft_eq, zpow_eq_units h]
  push_cast
  ring

theorem isRounded_normalize (m : ℕ) (e : ℤ) (s : Sign) :
    IsRounded (m * 2 ^ e) (.ofModel (.pack (UnpackedFloat.normalize .binary64 m e s))) := by
  rcases Nat.eq_zero_or_pos m with rfl | hm
  · rw [Nat.cast_zero, zero_mul]
    exact isRounded_zero s
  · have hcompare : compare (m : ℤ) 0 = .gt := compare_gt_iff_gt.2 (by exact_mod_cast hm)
    unfold UnpackedFloat.normalize
    rw [hcompare]
    exact isRounded_round hm e

theorem add_eq_pack (x y : Float) :
    x + y = .ofModel (.pack (UnpackedFloat.add .binary64 x.toModel.unpack y.toModel.unpack)) := rfl

/-- **A sum is the exact sum, rounded.** -/
theorem isRounded_add (hx : x.isFinite = true) (hy : y.isFinite = true) (hx0 : 0 ≤ value x) (hy0 : 0 ≤ value y) :
    IsRounded (value x + value y) (x + y) := by
  rw [add_eq_pack]
  rcases unpack_of_nonneg hx hx0 with ⟨hvx, s₁, hux⟩ | ⟨-, m₁, e₁, hm₁, hux, hvx⟩ <;>
    rcases unpack_of_nonneg hy hy0 with ⟨hvy, s₂, huy⟩ | ⟨-, m₂, e₂, hm₂, huy, hvy⟩
  · rw [hux, huy, hvx, hvy, add_zero]
    cases s₁ <;> cases s₂ <;> exact isRounded_zero _
  · rw [hux, huy, hvx, zero_add]
    change IsRounded (value y) (.ofModel (.pack (.finite .positive m₂ e₂ hm₂)))
    rw [← eq_pack huy]
    exact isRounded_value hy hy0
  · rw [hux, huy, hvy, add_zero]
    change IsRounded (value x) (.ofModel (.pack (.finite .positive m₁ e₁ hm₁)))
    rw [← eq_pack hux]
    exact isRounded_value hx hx0
  · obtain ⟨n₁, hn₁, hv₁⟩ := decreaseExponent_eq m₁ (min_le_left e₁ e₂)
    obtain ⟨n₂, hn₂, hv₂⟩ := decreaseExponent_eq m₂ (min_le_right e₁ e₂)
    have hadd : UnpackedFloat.add .binary64 (.finite .positive m₁ e₁ hm₁) (.finite .positive m₂ e₂ hm₂) =
        .normalize .binary64 ((n₁ + n₂ : ℕ) : ℤ) (min e₁ e₂) .positive := by
      rw [Nat.cast_add, ← hn₁, ← hn₂]
      rfl
    have hsum : value x + value y = ((n₁ + n₂ : ℕ) : ℚ) * 2 ^ min e₁ e₂ := by
      rw [hvx, hvy, ← hv₁, ← hv₂]
      push_cast
      ring
    rw [hux, huy, hadd, hsum]
    exact isRounded_normalize _ _ _

theorem sub_eq_pack (x y : Float) :
    x - y = .ofModel (.pack (UnpackedFloat.sub .binary64 x.toModel.unpack y.toModel.unpack)) := rfl

/-- a difference that is not negative is the exact one, rounded -/
theorem isRounded_sub (hx : x.isFinite = true) (hy : y.isFinite = true) (hy0 : 0 ≤ value y)
    (hle : value y ≤ value x) : IsRounded (value x - value y) (x - y) := by
  rw [sub_eq_pack]
  rcases unpack_of_nonneg hx (hy0.trans hle) with ⟨hvx, s₁, hux⟩ | ⟨-, m₁, e₁, hm₁, hux, hvx⟩ <;>
    rcases unpack_of_nonneg hy hy0 with ⟨hvy, s₂, huy⟩ | ⟨hy', m₂, e₂, hm₂, huy, hvy⟩
  · rw [hux, huy, hvx, hvy, sub_zero]
    cases s₁ <;> cases s₂ <;> exact isRounded_zero _
  · rw [hvx] at hle
    exact absurd hle (not_le.2 hy')
  · rw [hux, huy, hvy, sub_zero]
    change IsRounded (value x) (.ofModel (.pack (.finite .positive m₁ e₁ hm₁)))
    rw [← eq_pack hux]
    exact isRounded_value hx (hy0.trans hle)
  · obtain ⟨n₁, hn₁, hv₁⟩ := decreaseExponent_eq m₁ (min_le_left e₁ e₂)
    obtain ⟨n₂, hn₂, hv₂⟩ := decreaseExponent_eq m₂ (min_le_right e₁ e₂)
    rw [hvx, hvy, ← hv₁, ← hv₂] at hle
    have hle : n₂ ≤ n₁ := by exact_mod_cast le_of_mul_le_mul_right hle (two_zpow_pos _)
    have hsub : UnpackedFloat.sub .binary64 (.finite .positive m₁ e₁ hm₁) (.finite .positive m₂ e₂ hm₂) =
        .normalize .binary64 ((n₁ - n₂ : ℕ) : ℤ) (min e₁ e₂) .positive := by
      rw [Nat.cast_sub hle, ← hn₁, ← hn₂]
      rfl
    have hdifference : value x - value y = ((n₁ - n₂ : ℕ) : ℚ) * 2 ^ min e₁ e₂ := by
      rw [hvx, hvy, ← hv₁, ← hv₂, Nat.cast_sub hle]
      ring
    rw [hux, huy, hsub, hdifference]
    exact isRounded_normalize _ _ _

/-! ## Products and quotients -/

theorem mul_eq_pack (x y : Float) :
    x * y = .ofModel (.pack (UnpackedFloat.mul .binary64 x.toModel.unpack y.toModel.unpack)) := rfl

theorem rounds_mul (hx : x.isFinite = true) (hy : y.isFinite = true) (hx0 : 0 ≤ value x) (hy0 : 0 ≤ value y) :
    Rounds (value x * value y) (x * y) := by
  rw [mul_eq_pack]
  rcases unpack_of_nonneg hx hx0 with ⟨hvx, s₁, hux⟩ | ⟨-, m₁, e₁, hm₁, hux, hvx⟩ <;>
    rcases unpack_of_nonneg hy hy0 with ⟨hvy, s₂, huy⟩ | ⟨-, m₂, e₂, hm₂, huy, hvy⟩
  · rw [hux, huy, hvx, zero_mul]
    exact rounds_zero _
  · rw [hux, huy, hvx, zero_mul]
    exact rounds_zero _
  · rw [hux, huy, hvy, mul_zero]
    exact rounds_zero _
  · have hcanonical₁ := canonical_unpack x
    have hcanonical₂ := canonical_unpack y
    rw [hux] at hcanonical₁
    rw [huy] at hcanonical₂
    have hproduct : value x * value y = ((m₁ * m₂ : ℕ) : ℚ) * 2 ^ (e₁ + e₂) := by
      rw [hvx, hvy, zpow_add₀ two_ne_zero]
      push_cast
      ring
    have henough : e₁ + e₂ ≤ -1074 ∨ 2 ^ 52 ≤ m₁ * m₂ := by
      rcases hcanonical₁.2.2 with rfl | hfull
      · rcases hcanonical₂.2.2 with rfl | hfull
        · exact .inl (by decide)
        · exact .inr (hfull.trans (Nat.le_mul_of_pos_left _ hm₁))
      · exact .inr (hfull.trans (Nat.le_mul_of_pos_right _ hm₂))
    have hstands : Stands (.ofMantissaAndAccuracy (m₁ * m₂) .exact) ((m₁ * m₂ : ℕ) : ℚ) := rfl
    rw [hux, huy, hproduct]
    exact rounds_roundWithAccuracy hstands henough

/-- a product is the exact product, rounded -/
theorem isRounded_mul (hx : x.isFinite = true) (hy : y.isFinite = true) (hx0 : 0 ≤ value x) (hy0 : 0 ≤ value y) :
    IsRounded (value x * value y) (x * y) :=
  (rounds_mul hx hy hx0 hy0).isRounded

theorem div_eq_pack (x y : Float) :
    x / y = .ofModel (.pack (UnpackedFloat.div .binary64 x.toModel.unpack y.toModel.unpack)) := rfl

/-- what a quotient of naturals is cut off to, and what is remembered of the rest -/
theorem stands_div (m : ℕ) {d : ℕ} (hd : 0 < d) :
    Stands (.ofMantissaAndAccuracy (m / d) (accuracyOfFraction (m % d) d)) (m / d) := by
  have hd' : (0 : ℚ) < d := by exact_mod_cast hd
  have hsplit : (m : ℚ) / d = (m / d : ℕ) + (m % d : ℕ) / d := by
    have hm : (m : ℚ) = d * (m / d : ℕ) + (m % d : ℕ) := by exact_mod_cast (Nat.div_add_mod m d).symm
    rw [div_eq_iff hd'.ne', add_mul, div_mul_cancel₀ _ hd'.ne', mul_comm _ (d : ℚ)]
    exact hm
  have hlt : ((m % d : ℕ) : ℚ) / d < 1 := by
    rw [div_lt_one hd']
    exact_mod_cast Nat.mod_lt m hd
  rw [hsplit, accuracyOfFraction]
  generalize m % d = r at hlt ⊢
  generalize m / d = q
  split_ifs with hzero
  · subst hzero
    change (q : ℚ) + (0 : ℕ) / d = q
    rw [Nat.cast_zero, zero_div, add_zero]
  · have hpos : (0 : ℚ) < r / d := div_pos (by exact_mod_cast Nat.pos_of_ne_zero hzero) hd'
    have hhalf : (r : ℚ) / d - 1 / 2 = (2 * r - d) / (2 * d) := by
      field_simp
    cases hcompare : compare (2 * r) d with
    | lt =>
      have hless : (2 * r : ℚ) < d := by exact_mod_cast compare_lt_iff_lt.1 hcompare
      have hbelow : (r : ℚ) / d - 1 / 2 < 0 := by
        rw [hhalf]
        exact div_neg_of_neg_of_pos (by linarith) (by linarith)
      exact ⟨by linarith, by linarith⟩
    | eq =>
      have hsame : (2 * r : ℚ) = d := by exact_mod_cast compare_eq_iff_eq.1 hcompare
      have hat : (r : ℚ) / d - 1 / 2 = 0 := by rw [hhalf, hsame, sub_self, zero_div]
      change (q : ℚ) + r / d = q + 1 / 2
      linarith
    | gt =>
      have hmore : (d : ℚ) < 2 * r := by exact_mod_cast compare_gt_iff_gt.1 hcompare
      have habove : 0 < (r : ℚ) / d - 1 / 2 := by
        rw [hhalf]
        exact div_pos (by linarith) (by linarith)
      exact ⟨by linarith, by linarith⟩

theorem rounds_div (hx : x.isFinite = true) (hy : y.isFinite = true) (hx0 : 0 ≤ value x) (hy0 : 0 < value y) :
    Rounds (value x / value y) (x / y) := by
  rw [div_eq_pack]
  rcases unpack_of_nonneg hy hy0.le with ⟨hvy, -⟩ | ⟨-, m₂, e₂, hm₂, huy, hvy⟩
  · exact absurd hvy hy0.ne'
  rcases unpack_of_nonneg hx hx0 with ⟨hvx, s₁, hux⟩ | ⟨-, m₁, e₁, hm₁, hux, hvx⟩
  · rw [hux, huy, hvx, zero_div]
    exact rounds_zero _
  -- the dividend is shifted until the quotient has all its bits, or those down to the least double
  obtain ⟨t, ht⟩ : ∃ t, t = min (e₁ - e₂) (max ((m₁.log2 : ℤ) - m₂.log2 + (e₁ - e₂) - 53) (-1074)) := ⟨_, rfl⟩
  obtain ⟨s, hs⟩ : ∃ s : ℕ, e₁ - e₂ = t + s := ⟨(e₁ - e₂ - t).toNat, by omega⟩
  have htarget : min (e₁ - e₂) (Format.binary64.targetExponent (totalExponent m₁ e₁ - totalExponent m₂ e₂)) = t := by
    simp only [Format.targetExponent, totalExponent, Format.mantissaBits, Format.minExponent]
    norm_num
    omega
  have hdiv : UnpackedFloat.div .binary64 (.finite .positive m₁ e₁ hm₁) (.finite .positive m₂ e₂ hm₂) =
      .roundWithAccuracy .binary64 .positive (m₁ <<< s / m₂) t (accuracyOfFraction (m₁ <<< s % m₂) m₂) := by
    have hshift : (e₁ - e₂ - t).toNat = s := by omega
    unfold UnpackedFloat.div UnpackedFloat.divCore
    dsimp only
    rw [htarget, hshift]
    rfl
  have hquotient : value x / value y = ((m₁ <<< s : ℕ) : ℚ) / m₂ * 2 ^ t := by
    have hne₁ := (two_zpow_pos e₁).ne'
    have hne₂ := (two_zpow_pos e₂).ne'
    have hm₂ : (m₂ : ℚ) ≠ 0 := by exact_mod_cast hm₂.ne'
    have hexponent : (2 : ℚ) ^ e₁ = 2 ^ s * 2 ^ t * 2 ^ e₂ := by
      rw [pow_mul_zpow, ← zpow_add₀ two_ne_zero]
      congr 1
      omega
    rw [hvx, hvy, Nat.shiftLeft_eq, hexponent]
    push_cast
    field_simp
  have henough : t ≤ -1074 ∨ 2 ^ 52 ≤ m₁ <<< s / m₂ := by
    by_cases hlow : t ≤ -1074
    · exact .inl hlow
    · right
      rw [Nat.le_div_iff_mul_le hm₂, Nat.shiftLeft_eq]
      calc 2 ^ 52 * m₂ ≤ 2 ^ 52 * 2 ^ (m₂.log2 + 1) := Nat.mul_le_mul_left _ Nat.lt_log2_self.le
        _ = 2 ^ (m₂.log2 + 53) := by rw [← pow_add]; congr 1; omega
        _ ≤ 2 ^ (m₁.log2 + s) := Nat.pow_le_pow_right two_pos (by omega)
        _ = 2 ^ m₁.log2 * 2 ^ s := pow_add _ _ _
        _ ≤ m₁ * 2 ^ s := Nat.mul_le_mul_right _ (Nat.log2_self_le hm₁.ne')
  rw [hux, huy, hdiv, hquotient]
  exact rounds_roundWithAccuracy (stands_div _ hm₂) henough

/-- **A quotient is the exact quotient, rounded.** -/
theorem isRounded_div (hx : x.isFinite = true) (hy : y.isFinite = true) (hx0 : 0 ≤ value x) (hy0 : 0 < value y) :
    IsRounded (value x / value y) (x / y) :=
  (rounds_div hx hy hx0 hy0).isRounded

/-! ## What is known of a rounded number -/

variable {v g : ℚ}

theorem IsRounded.isFinite_or_infinity (h : IsRounded v x) :
    x.isFinite = true ∨ x.toModel.unpack = .infinity .positive := by
  obtain ⟨r, -, ⟨-, hfinite, -⟩ | ⟨-, hinfinite⟩⟩ := h
  · exact .inl hfinite
  · exact .inr hinfinite

/-- what is representable below a number is not above what it is rounded to -/
theorem IsRounded.le_value (h : IsRounded v x) (hx : x.isFinite = true) (hg : Representable g) (hle : g ≤ v) :
    g ≤ value x := by
  obtain ⟨r, hr, ⟨-, -, heq⟩ | ⟨-, hinfinite⟩⟩ := h
  · rw [heq]
    exact hr.le_of_le g hg hle
  · exact absurd hx (Bool.eq_false_iff.1 (isFinite_infinity hinfinite))

theorem representable_zero : Representable 0 := ⟨0, 0, by decide, by decide, by simp⟩

theorem IsRounded.nonneg (h : IsRounded v x) (hx : x.isFinite = true) (hv : 0 ≤ v) : 0 ≤ value x :=
  h.le_value hx representable_zero hv

theorem IsRounded.of_nearest_le (h : IsRounded v x) (hg : g < 2 ^ (1024 : ℤ)) (hle : ∀ r, IsNearest v r → r ≤ g) :
    x.isFinite = true ∧ value x ≤ g := by
  obtain ⟨r, hr, ⟨-, hfinite, heq⟩ | ⟨hlarge, -⟩⟩ := h
  · exact ⟨hfinite, heq.trans_le (hle r hr)⟩
  · exact absurd (hle r hr) (not_le.2 (hg.trans_le hlarge))

/-- what is representable above a number bounds what it is rounded to -/
theorem IsRounded.value_le (h : IsRounded v x) (hg : Representable g) (hlt : g < 2 ^ (1024 : ℤ)) (hle : v ≤ g) :
    x.isFinite = true ∧ value x ≤ g :=
  h.of_nearest_le hlt fun _ hr => hr.le_of_ge g hg hle

/-- a number that is representable is not changed -/
theorem IsRounded.value_eq (h : IsRounded v x) (hv : Representable v) (hlt : v < 2 ^ (1024 : ℤ)) :
    x.isFinite = true ∧ value x = v := by
  obtain ⟨hfinite, hle⟩ := h.value_le hv hlt le_rfl
  exact ⟨hfinite, le_antisymm hle (h.le_value hfinite hv le_rfl)⟩

/-- finite doubles are below `2 ^ 1024` -/
theorem value_lt (hx : x.isFinite = true) (h : 0 ≤ value x) : value x < 2 ^ (1024 : ℤ) := by
  obtain ⟨r, -, ⟨hlt, -, heq⟩ | ⟨-, hinfinite⟩⟩ := isRounded_value hx h
  · rw [heq]
    exact hlt
  · exact absurd hx (Bool.eq_false_iff.1 (isFinite_infinity hinfinite))

/-! ## Counts -/

theorem isRounded_toFloat (n : UInt64) : IsRounded n.toNat n.toFloat := by
  have h := isRounded_normalize n.toNat 0 .positive
  rw [zpow_zero, mul_one] at h
  exact h

theorem representable_of_le {n : ℕ} (h : n ≤ 2 ^ 53) : Representable n := ⟨n, 0, h, by decide, by simp⟩

theorem representable_one : Representable 1 := by
  have h := representable_of_le (n := 1) (by norm_num)
  rwa [Nat.cast_one] at h

theorem representable_two : Representable 2 := by
  have h := representable_of_le (n := 2) (by norm_num)
  rwa [Nat.cast_ofNat] at h

theorem representable_two_zpow {e : ℤ} (he : -1074 ≤ e) : Representable (2 ^ e) := ⟨1, e, by norm_num, he, by simp⟩

/-- what is representable and positive is at least the least double -/
theorem Representable.least_le (h : Representable g) (hpos : 0 < g) : 2 ^ (-1074 : ℤ) ≤ g := by
  obtain ⟨n, j, -, hj, rfl⟩ := h
  have hn : (1 : ℚ) ≤ n := by
    rw [Nat.one_le_cast, Nat.one_le_iff_ne_zero]
    rintro rfl
    simp at hpos
  calc (2 : ℚ) ^ (-1074 : ℤ) ≤ 2 ^ j := zpow_le_zpow_right₀ one_le_two hj
    _ ≤ n * 2 ^ j := le_mul_of_one_le_left (two_zpow_pos j).le hn

theorem value_of_unpack {m : ℕ} {e : ℤ} {hm : 0 < m} (h : x.toModel.unpack = .finite .positive m e hm) :
    x.isFinite = true ∧ value x = m * 2 ^ e := by
  refine ⟨?_, ?_⟩
  · rw [Float.isFinite, Float.Model.isFinite, h]
    rfl
  · rw [value, h, valueOf_positive]

theorem value_one : (1.0 : Float).isFinite = true ∧ value 1.0 = 1 := by
  have hunpack : (1.0 : Float).toModel.unpack = .finite .positive (2 ^ 52) (-52) (by decide) := rfl
  obtain ⟨hfinite, hvalue⟩ := value_of_unpack hunpack
  exact ⟨hfinite, hvalue.trans (by norm_num)⟩

theorem value_two : (2.0 : Float).isFinite = true ∧ value 2.0 = 2 := by
  have hunpack : (2.0 : Float).toModel.unpack = .finite .positive (2 ^ 52) (-51) (by decide) := rfl
  obtain ⟨hfinite, hvalue⟩ := value_of_unpack hunpack
  exact ⟨hfinite, hvalue.trans (by norm_num)⟩

/-- a count that is not zero, before it is rounded: all its bits, and zeros behind them -/
theorem ofScientific_eq {n : ℕ} (hn : n ≠ 0) : UnpackedFloat.ofScientific .binary64 n 0 =
    .roundWithAccuracy .binary64 .positive (n <<< 53 * 1) (-53) .exact := by
  have hlow : ¬ (0 : ℤ) < -(2 ^ Format.binary64.exponentBits + n.log2) := by
    have hbits : (0 : ℤ) < 2 ^ Format.binary64.exponentBits := by positivity
    omega
  unfold UnpackedFloat.ofScientific
  rw [dif_neg hn, if_neg (by decide), if_neg hlow, if_pos le_rfl]
  rfl

theorem rounds_count {n : ℕ} (hn : n ≠ 0) :
    Rounds n (.ofModel (.pack (.roundWithAccuracy .binary64 .positive (n <<< 53 * 1) (-53) .exact))) := by
  have hstands : Stands (.ofMantissaAndAccuracy (n <<< 53 * 1) .exact) ((n <<< 53 * 1 : ℕ) : ℚ) := rfl
  have hbits : 2 ^ 52 ≤ n <<< 53 * 1 := by
    rw [mul_one, Nat.shiftLeft_eq]
    omega
  have hrounded := rounds_roundWithAccuracy (e := -53) hstands (.inr hbits)
  convert hrounded using 1
  rw [mul_one, Nat.shiftLeft_eq, Nat.cast_mul, mul_assoc]
  norm_num

/-- a count that fits is multiplied by one -/
theorem isRounded_ofNat_of_lt {n : ℕ} (hsmall : n < 2 ^ 53) : IsRounded n (Float.ofNat n) := by
  have hfast : Float.ofNat n = n.toUInt64.toFloat * 1.0 := by
    change Float.ofScientific n false 0 = _
    unfold Float.ofScientific
    rw [dif_pos ⟨hsmall, by decide⟩]
    rfl
  have hsize : n < UInt64.size := hsmall.trans (by decide)
  have hn : IsRounded n n.toUInt64.toFloat := by
    have h := isRounded_toFloat n.toUInt64
    rwa [show n.toUInt64.toNat = n from UInt64.toNat_ofNat_of_lt' hsize] at h
  have hlt : (n : ℚ) < 2 ^ (1024 : ℤ) := by
    calc (n : ℚ) < 2 ^ 53 := by exact_mod_cast hsmall
      _ = 2 ^ (53 : ℤ) := (zpow_natCast 2 53).symm
      _ ≤ 2 ^ (1024 : ℤ) := zpow_le_zpow_right₀ one_le_two (by norm_num)
  obtain ⟨hfinite, hvalue⟩ := hn.value_eq (representable_of_le hsmall.le) hlt
  have hone := value_one
  have hproduct := isRounded_mul hfinite hone.1 (n.cast_nonneg.trans_eq hvalue.symm)
    (zero_le_one.trans_eq hone.2.symm)
  rw [hvalue, hone.2, mul_one] at hproduct
  rw [hfast]
  exact hproduct

/-- a greater count has enough bits of its own -/
theorem ofNat_of_large {n : ℕ} (hlarge : ¬ n < 2 ^ 53) : Float.ofNat n =
    .ofModel (.pack (.roundWithAccuracy .binary64 .positive (n <<< 53 * 1) (-53) .exact)) := by
  change Float.ofScientific n false 0 = _
  unfold Float.ofScientific
  rw [dif_neg fun h => hlarge h.1]
  exact congrArg (fun u => Float.ofModel (.pack u)) (ofScientific_eq (by omega))

/-- what is representable is rounded to itself -/
theorem IsRounded.rounds {x : Float} {v : ℚ} (h : IsRounded v x) (hv : Representable v) (hr : ∃ r, RoundsTo v r) :
    Rounds v x := by
  obtain ⟨r, hr⟩ := hr
  have hsame : r = v := le_antisymm (hr.isNearest.le_of_ge v hv le_rfl) (hr.isNearest.le_of_le v hv le_rfl)
  exact ⟨v, hsame ▸ hr, h⟩

theorem rounds_ofNat (n : ℕ) : Rounds n (Float.ofNat n) := by
  by_cases hsmall : n < 2 ^ 53
  · refine (isRounded_ofNat_of_lt hsmall).rounds (representable_of_le hsmall.le) ?_
    by_cases hzero : n = 0
    · obtain ⟨r, hr, -⟩ := rounds_zero .positive
      exact ⟨r, by rwa [hzero, Nat.cast_zero]⟩
    · obtain ⟨r, hr, -⟩ := rounds_count hzero
      exact ⟨r, hr⟩
  · rw [ofNat_of_large hsmall]
    exact rounds_count (by omega)

/-- a count as a double is the count, rounded -/
theorem isRounded_ofNat (n : ℕ) : IsRounded n (Float.ofNat n) := (rounds_ofNat n).isRounded

/-! ## Infinities -/

theorem isFinite_of_add (h : (x + y).isFinite = true) : x.isFinite = true ∧ y.isFinite = true := by
  rw [add_eq_pack] at h
  change (Float.Model.pack _).unpack.isFinite = true at h
  change x.toModel.unpack.isFinite = true ∧ y.toModel.unpack.isFinite = true
  generalize x.toModel.unpack = u at h ⊢
  generalize y.toModel.unpack = w at h ⊢
  rcases u with ⟨_ | _⟩ | _ | _ | _ <;> rcases w with ⟨_ | _⟩ | _ | _ | _ <;>
    first | exact ⟨rfl, rfl⟩ | simp [UnpackedFloat.add, UnpackedFloat.isFinite] at h

theorem neg_positive : -Sign.positive = .negative := rfl

theorem neg_negative : -Sign.negative = .positive := rfl

theorem isFinite_of_sub (h : (x - y).isFinite = true) : x.isFinite = true ∧ y.isFinite = true := by
  rw [sub_eq_pack] at h
  change (Float.Model.pack _).unpack.isFinite = true at h
  change x.toModel.unpack.isFinite = true ∧ y.toModel.unpack.isFinite = true
  generalize x.toModel.unpack = u at h ⊢
  generalize y.toModel.unpack = w at h ⊢
  rcases u with ⟨_ | _⟩ | _ | _ | _ <;> rcases w with ⟨_ | _⟩ | _ | _ | _ <;>
    first | exact ⟨rfl, rfl⟩ | simp [UnpackedFloat.sub, UnpackedFloat.isFinite, neg_positive, neg_negative] at h

theorem isFinite_of_div (h : (x / y).isFinite = true) : x.isFinite = true := by
  rw [div_eq_pack] at h
  change (Float.Model.pack _).unpack.isFinite = true at h
  change x.toModel.unpack.isFinite = true
  generalize x.toModel.unpack = u at h ⊢
  generalize y.toModel.unpack = w at h ⊢
  rcases u with _ | _ | _ | _ <;> rcases w with _ | _ | _ | _ <;>
    first | rfl | simp [UnpackedFloat.div, UnpackedFloat.isFinite] at h

theorem add_infinity (hx : x.toModel.unpack = .infinity .positive) (hy : y.isFinite = true) :
    (x + y).toModel.unpack = .infinity .positive := by
  rw [add_eq_pack, hx]
  change (Float.Model.pack _).unpack = _
  change y.toModel.unpack.isFinite = true at hy
  generalize y.toModel.unpack = w at hy ⊢
  rcases w with _ | _ | _ | _
  · cases hy
  · cases hy
  · simp [UnpackedFloat.add]
  · simp [UnpackedFloat.add]

/-- what is not below some finite double is finite, or infinity -/
theorem isFinite_or_infinity_of_le (hx : x.isFinite = true) (h : x ≤ y) :
    y.isFinite = true ∧ value x ≤ value y ∨ y.toModel.unpack = .infinity .positive := by
  by_cases hy : y.isFinite = true
  · exact .inl ⟨hy, (le_iff_value hx hy).1 h⟩
  · right
    rw [le_iff_unpacked_le] at h
    change x.toModel.unpack.isFinite = true at hx
    change ¬ y.toModel.unpack.isFinite = true at hy
    generalize x.toModel.unpack = u at h hx
    generalize y.toModel.unpack = w at h hy ⊢
    rcases u with _ | _ | _ | ⟨_ | _, _, _, _⟩ <;> rcases w with ⟨_ | _⟩ | _ | _ | _ <;>
      simp_all [UnpackedFloat.isFinite, UnpackedFloat.compare]

theorem not_infinity_le (hx : x.toModel.unpack = .infinity .positive) (hy : y.isFinite = true) : ¬ x ≤ y := by
  rw [le_iff_unpacked_le, hx]
  change y.toModel.unpack.isFinite = true at hy
  generalize y.toModel.unpack = w at hy ⊢
  rcases w with _ | _ | _ | _
  · cases hy
  · cases hy
  · simp [UnpackedFloat.compare]
  · simp [UnpackedFloat.compare]

theorem le_infinity (hx : x.isFinite = true) (hy : y.toModel.unpack = .infinity .positive) : x ≤ y := by
  rw [le_iff_unpacked_le, hy]
  change x.toModel.unpack.isFinite = true at hx
  generalize x.toModel.unpack = u at hx ⊢
  rcases u with _ | _ | _ | ⟨_ | _, _, _, _⟩
  · cases hx
  · cases hx
  all_goals simp [UnpackedFloat.compare]

/-- only what is finite equals something finite -/
theorem isFinite_of_beq (hy : y.isFinite = true) (h : (x == y) = true) : x.isFinite = true := by
  change x.toModel.unpack.beq y.toModel.unpack = true at h
  change y.toModel.unpack.isFinite = true at hy
  change x.toModel.unpack.isFinite = true
  generalize x.toModel.unpack = u at h ⊢
  generalize y.toModel.unpack = w at h hy
  rcases u with ⟨_ | _⟩ | _ | _ | ⟨_ | _, _, _, _⟩ <;> rcases w with _ | _ | _ | ⟨_ | _, _, _, _⟩ <;>
    simp_all [UnpackedFloat.isFinite, UnpackedFloat.beq, UnpackedFloat.compare]

/-- a positive double over itself is exactly 1 -/
theorem div_self_of_pos (hx : x.isFinite = true) (hpos : 0 < value x) : x / x = 1.0 := by
  have hquotient := isRounded_div hx hx hpos.le hpos
  rw [div_self hpos.ne'] at hquotient
  obtain ⟨hone, hvalue⟩ := hquotient.value_eq representable_one (one_lt_zpow₀ one_lt_two (by norm_num))
  refine (eq_of_place (by decide) ?_).symm
  rw [← value_eq_iff_place value_one.1 hone, value_one.2, hvalue]

/-- what is not finite, divided by itself, is no number -/
theorem isNaN_div_self (h : x.isFinite = false) : (x / x).isNaN = true := by
  rw [div_eq_pack]
  change (Float.Model.pack _).unpack.isNaN = true
  change x.toModel.unpack.isFinite = false at h
  generalize x.toModel.unpack = u at h ⊢
  rcases u with _ | _ | _ | _
  · simp [UnpackedFloat.div, UnpackedFloat.isNaN]
  · rfl
  · cases h
  · cases h

/-- a quotient by infinity is zero -/
theorem div_infinity (hx : x.isFinite = true) (hy : y.toModel.unpack = .infinity .positive) :
    (x / y).isFinite = true ∧ value (x / y) = 0 := by
  rw [div_eq_pack, hy]
  change (Float.Model.pack _).unpack.isFinite = true ∧ valueOf (Float.Model.pack _).unpack = 0
  change x.toModel.unpack.isFinite = true at hx
  generalize x.toModel.unpack = u at hx ⊢
  rcases u with _ | _ | _ | _
  · cases hx
  · cases hx
  · simp [UnpackedFloat.div, UnpackedFloat.isFinite, valueOf]
  · simp [UnpackedFloat.div, UnpackedFloat.isFinite, valueOf]

end

end RankEval.Double
