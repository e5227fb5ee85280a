/-
Rounding to doubles. An exact result is cut off after the last bit that fits, and two more bits remember what was cut:
whether it is at least half a unit, and whether there is anything besides. They are enough to find the nearest double,
and of two that are equally near the one with the even significand.

Stated without bits: the result is the exact number if that is representable, no representable number lies strictly
between the two, and a number that is half a unit above a full significand goes back to it. What is too great becomes
infinite.

- `Stands.shiftRight`, `Stands.isHalfEven`: the meaning of the two bits.
- `IsUnits.nearest`: whole units of the right size are the nearest representable number.
- `RoundsTo.mono`: of two numbers, the greater is not rounded to less.
- `rounds_roundWithAccuracy`, `isRounded_round`: rounding as the operations use it.
-/
import RankEval.Proofs.Double.Packing

namespace RankEval.Double

open Float.Model (UnpackedFloat Format totalExponent)
open Float.Model.UnpackedFloat (Sign Accuracy ExtendedMantissa shiftToTargetExponent roundWithAccuracy)

/-! ## Nearest integers -/

/-- being the nearest integer and, of two that are equally near, the even one -/
structure IsHalfEven (w : ℚ) (k : ℕ) : Prop where
  low : (k : ℚ) - 1 / 2 ≤ w
  high : w ≤ k + 1 / 2
  tie : w = k - 1 / 2 ∨ w = k + 1 / 2 → k % 2 = 0

section
variable {w : ℚ} {k n : ℕ}

theorem IsHalfEven.le_of_le (h : IsHalfEven w k) (hn : (n : ℚ) ≤ w) : n ≤ k := by
  by_contra hlt
  have hlt : (k : ℚ) + 1 ≤ n := by exact_mod_cast Nat.lt_of_not_le hlt
  linarith [h.high]

theorem IsHalfEven.le_of_ge (h : IsHalfEven w k) (hn : w ≤ n) : k ≤ n := by
  by_contra hlt
  have hlt : (n : ℚ) + 1 ≤ k := by exact_mod_cast Nat.lt_of_not_le hlt
  linarith [h.low]

/-- a number that is half above an even one is not rounded up -/
theorem IsHalfEven.le_of_even (h : IsHalfEven w k) (heven : n % 2 = 0) (hn : w ≤ n + 1 / 2) : k ≤ n := by
  by_contra hlt
  have hle : (n : ℚ) + 1 ≤ k := by exact_mod_cast Nat.lt_of_not_le hlt
  have hk : (k : ℚ) = n + 1 := by linarith [h.low]
  have hodd := h.tie (.inl (by linarith [h.low]))
  have hk : k = n + 1 := by exact_mod_cast hk
  omega

/-- the greater of two numbers is not rounded to less -/
theorem IsHalfEven.mono {w' : ℚ} (h : IsHalfEven w k) (h' : IsHalfEven w' n) (hle : w ≤ w') : k ≤ n := by
  by_contra hlt
  have hlt : (n : ℚ) + 1 ≤ k := by exact_mod_cast Nat.lt_of_not_le hlt
  -- both would be half way between two neighbours, of which only one is even
  have hk : (k : ℚ) = n + 1 := by linarith [h.low, h'.high]
  have heven := h.tie (.inl (by linarith [h.low, h'.high]))
  have heven' := h'.tie (.inr (by linarith [h.low, h'.high]))
  have hk : k = n + 1 := by exact_mod_cast hk
  omega

end

/-! ## What the two bits mean -/

/-- the number that a significand with its two bits is cut off from -/
def Stands : ExtendedMantissa → ℚ → Prop
  | ⟨m, false, false⟩, w => w = m
  | ⟨m, false, true⟩, w => m < w ∧ w < m + 1 / 2
  | ⟨m, true, false⟩, w => w = m + 1 / 2
  | ⟨m, true, true⟩, w => m + 1 / 2 < w ∧ w < m + 1

namespace Stands

variable {em : ExtendedMantissa} {w : ℚ}

theorem bounds (h : Stands em w) : (em.mantissa : ℚ) ≤ w ∧ w < em.mantissa + 1 := by
  rcases em with ⟨m, _ | _, _ | _⟩ <;> simp only [Stands] at h ⊢ <;> constructor <;> linarith

theorem shiftRightOne (h : Stands em w) : Stands em.shiftRightOne (w / 2) := by
  obtain ⟨m, round, sticky⟩ := em
  have hm : (m : ℚ) = 2 * (m / 2 : ℕ) + (m % 2 : ℕ) := by exact_mod_cast (Nat.div_add_mod m 2).symm
  -- the bit that is dropped is remembered first, what was remembered is put together
  rcases Nat.mod_two_eq_zero_or_one m with hbit | hbit
  · have hshift : ExtendedMantissa.shiftRightOne ⟨m, round, sticky⟩ = ⟨m / 2, false, round || sticky⟩ := by
      simp [ExtendedMantissa.shiftRightOne, hbit]
    rw [hshift]
    rw [hbit] at hm
    cases round <;> cases sticky <;> simp only [Stands, Bool.or_self, Bool.or_true, Bool.true_or] at h ⊢ <;>
      push_cast at hm <;> first | linarith | constructor <;> linarith
  · have hshift : ExtendedMantissa.shiftRightOne ⟨m, round, sticky⟩ = ⟨m / 2, true, round || sticky⟩ := by
      simp [ExtendedMantissa.shiftRightOne, hbit]
    rw [hshift]
    rw [hbit] at hm
    cases round <;> cases sticky <;> simp only [Stands, Bool.or_self, Bool.or_true, Bool.true_or] at h ⊢ <;>
      push_cast at hm <;> first | linarith | constructor <;> linarith

/-- dropping more bits keeps what is remembered -/
theorem shiftRight (h : Stands em w) (n : ℕ) : Stands (em >>> n) (w / 2 ^ n) := by
  change Stands (n.repeat ExtendedMantissa.shiftRightOne em) _
  induction n with
  | zero =>
    rw [pow_zero, div_one]
    exact h
  | succ n ih =>
    rw [Nat.repeat, pow_succ, ← div_div]
    exact ih.shiftRightOne

/-- the rounded significand is the nearest integer -/
theorem isHalfEven (h : Stands em w) : IsHalfEven w em.roundedMantissa := by
  rcases em with ⟨m, _ | _, _ | _⟩
  · change IsHalfEven w m
    simp only [Stands] at h
    exact ⟨by linarith, by linarith, by rintro (heq | heq) <;> linarith⟩
  · change IsHalfEven w m
    simp only [Stands] at h
    exact ⟨by linarith, by linarith, by rintro (heq | heq) <;> linarith⟩
  · change IsHalfEven w (m + m % 2)
    simp only [Stands] at h
    rcases Nat.mod_two_eq_zero_or_one m with hbit | hbit <;> rw [hbit]
    · exact ⟨by push_cast; linarith, by push_cast; linarith, fun _ => by omega⟩
    · exact ⟨by push_cast; linarith, by push_cast; linarith, fun _ => by omega⟩
  · change IsHalfEven w (m + 1)
    simp only [Stands] at h
    exact ⟨by push_cast; linarith, by push_cast; linarith, by push_cast; rintro (heq | heq) <;> linarith⟩

end Stands

/-! ## The nearest representable number -/

/-- At most `2 ^ 53` times a power of two that is not below the least double. No bound above: what is too great for a
double is representable in this sense. -/
def Representable (g : ℚ) : Prop := ∃ (n : ℕ) (j : ℤ), n ≤ 2 ^ 53 ∧ -1074 ≤ j ∧ g = n * 2 ^ j

/-- What rounding does. Nothing representable lies strictly between a number and what it is rounded to, and half a unit
more than `2 ^ 53` of them is rounded down. -/
structure IsNearest (v r : ℚ) : Prop where
  representable : Representable r
  le_of_le : ∀ g, Representable g → g ≤ v → g ≤ r
  le_of_ge : ∀ g, Representable g → v ≤ g → r ≤ g
  tie : ∀ j : ℤ, -1074 ≤ j → v ≤ (2 ^ 53 + 1) * 2 ^ j → r ≤ 2 ^ 53 * 2 ^ j

/-- a number as whole units of a size at which all its bits that fit are kept -/
structure IsUnits (v : ℚ) (k : ℕ) (q : ℤ) : Prop where
  halfEven : IsHalfEven (v / 2 ^ q) k
  least : -1074 ≤ q
  full : q = -1074 ∨ 2 ^ 52 * 2 ^ q ≤ v
  small : v < 2 ^ 53 * 2 ^ q

theorem two_zpow_pos (q : ℤ) : (0 : ℚ) < 2 ^ q := zpow_pos two_pos q

theorem pow_mul_zpow (n : ℕ) (j : ℤ) : (2 : ℚ) ^ n * 2 ^ j = 2 ^ (n + j) := by
  rw [zpow_add₀ two_ne_zero, zpow_natCast]

/-- a greater unit is some smaller ones -/
theorem zpow_eq_units {i j : ℤ} (h : i ≤ j) : (2 : ℚ) ^ j = (2 ^ (j - i).toNat : ℕ) * 2 ^ i := by
  push_cast
  rw [← zpow_natCast, Int.toNat_of_nonneg (by omega), ← zpow_add₀ two_ne_zero]
  congr 1
  omega

/-- as many units as fit are at most a full significand of greater ones -/
theorem units_le_full {n : ℕ} {j q : ℤ} (hn : n ≤ 2 ^ 53) (hjq : j < q) : (n : ℚ) * 2 ^ j ≤ 2 ^ 52 * 2 ^ q := by
  have hn : (n : ℚ) ≤ 2 ^ 52 * 2 := by exact_mod_cast hn
  calc (n : ℚ) * 2 ^ j ≤ 2 ^ 52 * 2 * 2 ^ j := by gcongr
    _ = 2 ^ 52 * 2 ^ (j + 1) := by rw [zpow_add_one₀ two_ne_zero]; ring
    _ ≤ 2 ^ 52 * 2 ^ q := by
      gcongr
      · exact one_le_two
      · exact hjq

namespace IsUnits

variable {v : ℚ} {k : ℕ} {q : ℤ}

theorem le_full (h : IsUnits v k q) : k ≤ 2 ^ 53 := by
  refine h.halfEven.le_of_ge ?_
  rw [div_le_iff₀ (two_zpow_pos q)]
  exact_mod_cast h.small.le

theorem full_of_ne (h : IsUnits v k q) (hq : q ≠ -1074) : 2 ^ 52 ≤ k := by
  refine h.halfEven.le_of_le ?_
  rw [le_div_iff₀ (two_zpow_pos q)]
  exact_mod_cast h.full.resolve_left hq

/-- the greater of two numbers does not have fewer units -/
theorem mono {w : ℚ} {n : ℕ} {j : ℤ} (h : IsUnits v k q) (h' : IsUnits w n j) (hle : v ≤ w) :
    (k : ℚ) * 2 ^ q ≤ n * 2 ^ j := by
  rcases lt_trichotomy q j with hqj | rfl | hjq
  · have hn : (2 : ℚ) ^ 52 ≤ n := by exact_mod_cast h'.full_of_ne (by have := h.least; omega)
    calc (k : ℚ) * 2 ^ q ≤ 2 ^ 52 * 2 ^ j := units_le_full h.le_full hqj
      _ ≤ n * 2 ^ j := by gcongr
  · have hk : k ≤ n := h.halfEven.mono h'.halfEven (by gcongr)
    gcongr
  · -- the unit of the smaller number is not the greater one
    have hfull := h.full.resolve_left (by have := h'.least; omega)
    have hunit : (2 : ℚ) ^ (j + 1) ≤ 2 ^ q := zpow_le_zpow_right₀ one_le_two hjq
    have hsmall := h'.small
    rw [zpow_add_one₀ two_ne_zero] at hunit
    exfalso
    linarith

/-- Whole units of the right size are the nearest representable number. What is representable with a smaller unit lies
below all of them, unless the unit is the least one. -/
theorem nearest (h : IsUnits v k q) : IsNearest v (k * 2 ^ q) := by
  have hq := two_zpow_pos q
  refine ⟨⟨k, q, h.le_full, h.least, rfl⟩, ?below, ?above, ?tie⟩
  case below =>
    rintro _ ⟨n, j, hn, hj, rfl⟩ hle
    rcases le_or_gt q j with hqj | hjq
    · rw [zpow_eq_units hqj, ← mul_assoc] at hle ⊢
      rw [← Nat.cast_mul] at hle ⊢
      gcongr
      exact h.halfEven.le_of_le ((le_div_iff₀ hq).2 hle)
    · have hk : (2 : ℚ) ^ 52 ≤ k := by exact_mod_cast h.full_of_ne (by omega)
      calc (n : ℚ) * 2 ^ j ≤ 2 ^ 52 * 2 ^ q := units_le_full hn hjq
        _ ≤ k * 2 ^ q := by gcongr
  case above =>
    rintro _ ⟨n, j, hn, hj, rfl⟩ hge
    rcases le_or_gt q j with hqj | hjq
    · rw [zpow_eq_units hqj, ← mul_assoc] at hge ⊢
      rw [← Nat.cast_mul] at hge ⊢
      gcongr
      exact h.halfEven.le_of_ge ((div_le_iff₀ hq).2 hge)
    · -- only a full number of smaller units reaches the number, and then both are equal
      have hfull := h.full.resolve_left (by omega)
      have hv : v = 2 ^ 52 * 2 ^ q := le_antisymm (hge.trans (units_le_full hn hjq)) hfull
      have hk : k ≤ 2 ^ 52 := h.halfEven.le_of_ge (by rw [hv, div_le_iff₀ hq]; norm_num)
      have hk : (k : ℚ) ≤ 2 ^ 52 := by exact_mod_cast hk
      calc (k : ℚ) * 2 ^ q ≤ 2 ^ 52 * 2 ^ q := by gcongr
        _ ≤ n * 2 ^ j := hfull.trans hge
  case tie =>
    intro j hj hle
    rcases lt_trichotomy q (j + 1) with hlt | rfl | hgt
    · have hk : (k : ℚ) ≤ 2 ^ 53 := by exact_mod_cast h.le_full
      gcongr
      · exact one_le_two
      · omega
    · have hhalf : v / 2 ^ (j + 1) ≤ (2 ^ 52 : ℕ) + 1 / 2 := by
        rw [div_le_iff₀ hq, zpow_add_one₀ two_ne_zero]
        refine hle.trans_eq ?_
        push_cast
        ring
      have hk : (k : ℚ) ≤ 2 ^ 52 := by exact_mod_cast h.halfEven.le_of_even (by norm_num) hhalf
      calc (k : ℚ) * 2 ^ (j + 1) ≤ 2 ^ 52 * 2 ^ (j + 1) := by gcongr
        _ = 2 ^ 53 * 2 ^ j := by rw [zpow_add_one₀ two_ne_zero]; ring
    · have hfull := h.full.resolve_left (by omega)
      have htwo : (2 : ℚ) ^ (j + 2) ≤ 2 ^ q := zpow_le_zpow_right₀ one_le_two (by omega)
      have hfour : (2 : ℚ) ^ (j + 2) = 4 * 2 ^ j := by rw [zpow_add₀ two_ne_zero]; ring
      have hpos := two_zpow_pos j
      exfalso
      nlinarith

end IsUnits

/-- what is representable is not changed -/
theorem IsNearest.refl {v : ℚ} (h : Representable v) : IsNearest v v := by
  refine ⟨h, fun _ _ hle => hle, fun _ _ hge => hge, fun j _ hle => ?_⟩
  obtain ⟨n, i, hn, hi, rfl⟩ := h
  rcases le_or_gt i j with hij | hji
  · have hn : (n : ℚ) ≤ 2 ^ 53 := by exact_mod_cast hn
    gcongr
    exact one_le_two
  · -- an even number of units is not one more than `2 ^ 53`
    rw [zpow_eq_units hji.le, ← mul_assoc] at hle ⊢
    rw [← Nat.cast_mul] at hle ⊢
    have hle : n * 2 ^ (i - j).toNat ≤ 2 ^ 53 + 1 := by exact_mod_cast le_of_mul_le_mul_right hle (two_zpow_pos j)
    have heven : n * 2 ^ (i - j).toNat % 2 = 0 := by
      obtain ⟨s, hs⟩ : ∃ s, (i - j).toNat = s + 1 := ⟨(i - j).toNat - 1, by omega⟩
      rw [hs, pow_succ, ← mul_assoc, Nat.mul_mod_left]
    have hle : n * 2 ^ (i - j).toNat ≤ 2 ^ 53 := by omega
    gcongr
    exact_mod_cast hle

/-! ## Cutting off -/

theorem targetExponent_eq (m : ℕ) (e : ℤ) :
    Format.binary64.targetExponent (totalExponent m e) = max ((m.log2 : ℤ) + e - 52) (-1074) := by
  simp only [Format.targetExponent, totalExponent, Format.mantissaBits, Format.minExponent]
  norm_num
  omega

/-- a significand that fits is left as it is -/
theorem shift_of_fits {k : ℕ} {q : ℤ} (hk : k < 2 ^ 53) (hq : -1074 ≤ q) :
    shiftToTargetExponent .binary64 k q .exact = (⟨k, false, false⟩, q) := by
  have hlog : k.log2 ≤ 52 := by
    rcases Nat.eq_zero_or_pos k with rfl | hpos
    · decide
    · exact Nat.lt_succ_iff.1 ((Nat.log2_lt hpos.ne').2 hk)
  have hshift : (Format.binary64.targetExponent (totalExponent k q) - q).toNat = 0 := by
    rw [targetExponent_eq]
    omega
  simp only [shiftToTargetExponent, Float.Model.UnpackedFloat.shiftToExponent, hshift]
  rw [Nat.cast_zero, add_zero]
  rfl

/-- a significand that was rounded up to one more bit loses a zero -/
theorem shift_of_carry {q : ℤ} (hq : -1074 ≤ q) :
    shiftToTargetExponent .binary64 (2 ^ 53) q .exact = (⟨2 ^ 52, false, false⟩, q + 1) := by
  have hshift : (Format.binary64.targetExponent (totalExponent (2 ^ 53) q) - q).toNat = 1 := by
    rw [targetExponent_eq, Nat.log2_two_pow]
    omega
  simp only [shiftToTargetExponent, Float.Model.UnpackedFloat.shiftToExponent, hshift]
  rfl

/-- the canonical form of some units -/
def unitsForm (k : ℕ) (q : ℤ) : UnpackedFloat :=
  if h : k = 0 then .zero .positive
  else if k < 2 ^ 53 then .finite .positive k q (Nat.pos_of_ne_zero h)
  else .finite .positive (2 ^ 52) (q + 1) (by decide)

/-- Rounding cuts off at the right place: what it gives are the whole units nearest to the number. The number has all
the bits that fit, unless its unit is that of the least double. -/
theorem exists_units {m : ℕ} {e : ℤ} {acc : Accuracy} {w : ℚ}
    (hw : Stands (.ofMantissaAndAccuracy m acc) w) (henough : e ≤ -1074 ∨ 2 ^ 52 ≤ m) :
    ∃ k q, IsUnits (w * 2 ^ e) k q ∧ roundWithAccuracy .binary64 .positive m e acc = unitsForm k q := by
  have hm : (ExtendedMantissa.ofMantissaAndAccuracy m acc).mantissa = m := by
    rcases acc with _ | (_ | _ | _) <;> rfl
  obtain ⟨hmw, hwm⟩ := hw.bounds
  rw [hm] at hmw hwm
  -- the unit that is cut off at
  obtain ⟨t, ht⟩ : ∃ t, t = max ((m.log2 : ℤ) + e - 52) (-1074) := ⟨_, rfl⟩
  have hlog : 2 ^ 52 ≤ m → 52 ≤ m.log2 := fun h => (Nat.le_log2 (by omega)).2 h
  have het : e ≤ t := by
    rcases henough with hlow | hbig
    · omega
    · have := hlog hbig
      omega
  obtain ⟨s, hs⟩ : ∃ s : ℕ, t = e + s := ⟨(t - e).toNat, by omega⟩
  have hunit : (2 : ℚ) ^ t = 2 ^ s * 2 ^ e := by rw [hs, zpow_add₀ two_ne_zero, zpow_natCast, mul_comm]
  have hscaled : w * 2 ^ e / 2 ^ t = w / 2 ^ s := by
    rw [hunit, mul_div_mul_right _ _ (two_zpow_pos e).ne']
  have hfirst : shiftToTargetExponent .binary64 m e acc = (ExtendedMantissa.ofMantissaAndAccuracy m acc >>> s, t) := by
    simp only [shiftToTargetExponent, Float.Model.UnpackedFloat.shiftToExponent]
    rw [targetExponent_eq, ← ht, hs, add_sub_cancel_left, Int.toNat_natCast]
  have hunits : IsUnits (w * 2 ^ e) (ExtendedMantissa.ofMantissaAndAccuracy m acc >>> s).roundedMantissa t := by
    refine ⟨hscaled ▸ (hw.shiftRight s).isHalfEven, by omega, ?full, ?small⟩
    case full =>
      by_cases hleast : t = -1074
      · exact .inl hleast
      · -- above the least unit the leading bit is the first of 53
        have hpos : m ≠ 0 := by
          rintro rfl
          have hzero : (0 : ℕ).log2 = 0 := by decide
          omega
        have hlead : (2 : ℚ) ^ m.log2 ≤ w := by
          refine le_trans ?_ hmw
          exact_mod_cast Nat.log2_self_le hpos
        refine .inr ?_
        calc (2 : ℚ) ^ 52 * 2 ^ t = 2 ^ m.log2 * 2 ^ e := by
              rw [← zpow_natCast, ← zpow_natCast, ← zpow_add₀ two_ne_zero, ← zpow_add₀ two_ne_zero]
              congr 1
              push_cast
              omega
          _ ≤ w * 2 ^ e := by gcongr
    case small =>
      have hnext : w < 2 ^ (m.log2 + 1) := by
        refine hwm.trans_le ?_
        exact_mod_cast (Nat.lt_log2_self (n := m))
      calc w * 2 ^ e < 2 ^ (m.log2 + 1) * 2 ^ e := by gcongr
        _ = 2 ^ ((m.log2 : ℤ) + 1 + e) := by rw [← zpow_natCast, ← zpow_add₀ two_ne_zero]; push_cast; rfl
        _ ≤ 2 ^ (53 + t) := zpow_le_zpow_right₀ one_le_two (by omega)
        _ = 2 ^ 53 * 2 ^ t := by rw [zpow_add₀ two_ne_zero]; rfl
  refine ⟨_, t, hunits, ?_⟩
  have hk := hunits.le_full
  have hleast := hunits.least
  unfold roundWithAccuracy
  rw [hfirst]
  dsimp only
  generalize (ExtendedMantissa.ofMantissaAndAccuracy m acc >>> s).roundedMantissa = k at hk ⊢
  rcases hk.lt_or_eq with hlt | rfl
  · rw [shift_of_fits hlt hleast]
    simp only [unitsForm, if_pos hlt]
  · rw [shift_of_carry hleast]
    rfl

/-! ## Doubles that are rounded to -/

/-- Being what a number is rounded to: the nearest representable number or, if that is too great, infinity. -/
def IsRounded (v : ℚ) (x : Float) : Prop :=
  ∃ r, IsNearest v r ∧ (r < 2 ^ (1024 : ℤ) ∧ x.isFinite = true ∧ value x = r ∨
    2 ^ (1024 : ℤ) ≤ r ∧ x.toModel.unpack = .infinity .positive)

theorem isRounded_of_canonical {v : ℚ} {m : ℕ} {e : ℤ} (hm : 0 < m)
    (hcanonical : Canonical (.finite .positive m e hm)) (h : IsNearest v (m * 2 ^ e)) :
    IsRounded v (.ofModel (.pack (.finite .positive m e hm))) := by
  refine ⟨m * 2 ^ e, h, ?_⟩
  obtain ⟨hlt, -, hfull⟩ := id hcanonical
  rcases le_or_gt e 971 with hfits | hlarge
  · left
    have hunpack := unpack_pack .positive hm hcanonical hfits
    have hm : (m : ℚ) < 2 ^ 53 := by exact_mod_cast hlt
    refine ⟨?_, by rw [Float.isFinite, Float.Model.isFinite, hunpack]; rfl, by rw [value, hunpack]; rfl⟩
    calc (m : ℚ) * 2 ^ e < 2 ^ 53 * 2 ^ e := by gcongr
      _ ≤ 2 ^ 53 * 2 ^ (971 : ℤ) := by
        gcongr
        exact one_le_two
      _ = 2 ^ (1024 : ℤ) := pow_mul_zpow 53 971
  · right
    have hm' : (2 : ℚ) ^ 52 ≤ m := by exact_mod_cast hfull.resolve_left (by omega)
    refine ⟨?_, unpack_pack_of_large .positive hm hlarge⟩
    calc (2 : ℚ) ^ (1024 : ℤ) = 2 ^ 52 * 2 ^ (972 : ℤ) := (pow_mul_zpow 52 972).symm
      _ ≤ m * 2 ^ e := by
        gcongr
        · exact one_le_two
        · omega

/-- being the whole units that a number is rounded to, which may be too many for a double -/
def RoundsTo (v r : ℚ) : Prop := ∃ (k : ℕ) (q : ℤ), IsUnits v k q ∧ r = k * 2 ^ q

theorem RoundsTo.isNearest {v r : ℚ} (h : RoundsTo v r) : IsNearest v r := by
  obtain ⟨k, q, hunits, rfl⟩ := h
  exact hunits.nearest

/-- the greater of two numbers is not rounded to less -/
theorem RoundsTo.mono {v w r s : ℚ} (h : RoundsTo v r) (h' : RoundsTo w s) (hle : v ≤ w) : r ≤ s := by
  obtain ⟨k, q, hunits, rfl⟩ := h
  obtain ⟨n, j, hunits', rfl⟩ := h'
  exact hunits.mono hunits' hle

/-- Being the double of what a number is rounded to. `IsRounded` bounds that from both sides, this determines it. -/
def Rounds (v : ℚ) (x : Float) : Prop := ∃ r, RoundsTo v r ∧ IsRounded r x

theorem Rounds.isRounded {v : ℚ} {x : Float} (h : Rounds v x) : IsRounded v x := by
  obtain ⟨r, hr, s, hs, hcase⟩ := h
  have hrep := hr.isNearest.representable
  have hsame : s = r := le_antisymm (hs.le_of_ge r hrep le_rfl) (hs.le_of_le r hrep le_rfl)
  exact ⟨r, hr.isNearest, hsame ▸ hcase⟩

theorem rounds_of_units {v : ℚ} {k : ℕ} {q : ℤ} (h : IsUnits v k q) :
    Rounds v (.ofModel (.pack (unitsForm k q))) := by
  refine ⟨k * 2 ^ q, ⟨k, q, h, rfl⟩, ?_⟩
  have hself := IsNearest.refl h.nearest.representable
  unfold unitsForm
  split_ifs with hzero hfits
  · subst hzero
    rw [Nat.cast_zero, zero_mul] at hself ⊢
    exact ⟨0, hself, .inl ⟨by positivity, by decide, rfl⟩⟩
  · refine isRounded_of_canonical _ ⟨hfits, h.least, ?_⟩ hself
    by_cases hleast : q = -1074
    · exact .inl hleast
    · exact .inr (h.full_of_ne hleast)
  · have hk : k = 2 ^ 53 := le_antisymm h.le_full (not_lt.1 hfits)
    have hleast := h.least
    refine isRounded_of_canonical _ ⟨by norm_num, by omega, .inr le_rfl⟩ ?_
    convert hself using 1
    rw [hk, zpow_add_one₀ two_ne_zero]
    push_cast
    ring

theorem rounds_roundWithAccuracy {m : ℕ} {e : ℤ} {acc : Accuracy} {w : ℚ}
    (hw : Stands (.ofMantissaAndAccuracy m acc) w) (henough : e ≤ -1074 ∨ 2 ^ 52 ≤ m) :
    Rounds (w * 2 ^ e) (.ofModel (.pack (roundWithAccuracy .binary64 .positive m e acc))) := by
  obtain ⟨k, q, hunits, heq⟩ := exists_units hw henough
  rw [heq]
  exact rounds_of_units hunits

theorem isRounded_roundWithAccuracy {m : ℕ} {e : ℤ} {acc : Accuracy} {w : ℚ}
    (hw : Stands (.ofMantissaAndAccuracy m acc) w) (henough : e ≤ -1074 ∨ 2 ^ 52 ≤ m) :
    IsRounded (w * 2 ^ e) (.ofModel (.pack (roundWithAccuracy .binary64 .positive m e acc))) :=
  (rounds_roundWithAccuracy hw henough).isRounded

/-- rounding a number that is given whole; bits that it lacks are filled up with zeros -/
theorem isRounded_round {m : ℕ} (hm : 0 < m) (e : ℤ) :
    IsRounded (m * 2 ^ e) (.ofModel (.pack (UnpackedFloat.round .binary64 .positive m e))) := by
  obtain ⟨s, hs⟩ : ∃ s : ℕ, s = (e - max ((m.log2 : ℤ) + e - 52) (-1074)).toNat := ⟨_, rfl⟩
  have hround : UnpackedFloat.round .binary64 .positive m e =
      roundWithAccuracy .binary64 .positive (m <<< s) (e - s) .exact := by
    unfold UnpackedFloat.round UnpackedFloat.decreaseExponent
    dsimp only
    rw [targetExponent_eq, hs]
  have hstands : Stands (.ofMantissaAndAccuracy (m <<< s) .exact) ((m <<< s : ℕ) : ℚ) := rfl
  have hsame : ((m <<< s : ℕ) : ℚ) * 2 ^ (e - s) = m * 2 ^ e := by
    rw [Nat.shiftLeft_eq, zpow_sub₀ two_ne_zero, zpow_natCast]
    push_cast
    field_simp
  rw [hround, ← hsame]
  refine isRounded_roundWithAccuracy hstands ?_
  -- either the exponent is brought down to the least one, or the leading bit up to the first of 53
  have hlead : 2 ^ (m.log2 + s) ≤ m <<< s := by
    rw [Nat.shiftLeft_eq, pow_add]
    exact Nat.mul_le_mul_right _ (Nat.log2_self_le hm.ne')
  by_cases hlow : e - s ≤ -1074
  · exact .inl hlow
  · right
    have hlog : 52 ≤ m.log2 + s := by omega
    exact (Nat.pow_le_pow_right two_pos hlog).trans hlead

end RankEval.Double
