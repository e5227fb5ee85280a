/-
Doubles as numbers. A double is unpacked to a canonical form: its significand has all its bits, unless its exponent is
the least one. So of two positive doubles the one with the greater exponent is greater, whatever the significands, and
finite doubles are in the order of the numbers that they stand for.

- `canonical_unpack`: every double is unpacked to its canonical form.
- `lt_iff_value`, `beq_iff_value`, `le_iff_value`: finite doubles compare like the numbers that they stand for.
-/
import RankEval.Proofs.Double.Exact
import RankEval.Proofs.Double.Order

namespace RankEval.Double

open Float.Model (UnpackedFloat)

/-! ## Canonical forms -/

/-- the significand has 53 bits or, with the least exponent, fewer -/
def Canonical : UnpackedFloat → Prop
  | .finite _ m e _ => m < 2 ^ 53 ∧ -1074 ≤ e ∧ (e = -1074 ∨ 2 ^ 52 ≤ m)
  | _ => True

/-- a leading bit in front of 52 others -/
theorem toNat_leading (f : BitVec 52) : (1#1 ++ f).toNat = 2 ^ 52 + f.toNat := by
  rw [BitVec.toNat_append, ← Nat.shiftLeft_add_eq_or_of_lt f.isLt]
  rfl

theorem canonical_unpack (x : Float) : Canonical x.toModel.unpack := by
  cases hunpack : x.toModel.unpack with
  | finite s m e hm =>
    rw [Float.Model.unpack, UnpackedFloat.unpack] at hunpack
    set exponent := @UnpackedFloat.unpackExponent .binary64 x.toModel.toBits.toBitVec
    set mantissa := @UnpackedFloat.unpackMantissa .binary64 x.toModel.toBits.toBitVec
    have hmantissa : mantissa.toNat < 2 ^ 52 := mantissa.isLt
    dsimp only at hunpack
    split at hunpack
    · split at hunpack <;> cases hunpack
    · split at hunpack
      · next hzero =>
        split at hunpack
        · cases hunpack
        · have hexponent : exponent.toNat = 0 := congrArg BitVec.toNat hzero
          cases hunpack
          change mantissa.toNat < 2 ^ 53 ∧ -1074 ≤ (exponent.toNat : Int) - 1075 + 1 ∧
            ((exponent.toNat : Int) - 1075 + 1 = -1074 ∨ 2 ^ 52 ≤ mantissa.toNat)
          omega
      · next hne =>
        have hexponent : exponent.toNat ≠ 0 := fun h => hne (BitVec.eq_of_toNat_eq h)
        have hleading := toNat_leading mantissa
        cases hunpack
        change (1#1 ++ mantissa).toNat < 2 ^ 53 ∧ -1074 ≤ (exponent.toNat : Int) - 1075 ∧
          ((exponent.toNat : Int) - 1075 = -1074 ∨ 2 ^ 52 ≤ (1#1 ++ mantissa).toNat)
        omega
  | infinity s => trivial
  | notANumber => trivial
  | zero s => trivial

/-! ## The order of finite doubles -/

/-- Two magnitudes in canonical form are compared by their exponents first: the greater exponent has a full
significand. -/
theorem magnitude_lt {m₁ m₂ : ℕ} {e₁ e₂ : ℤ} (hm : m₁ < 2 ^ 53) (he : -1074 ≤ e₁) (hfull : e₂ = -1074 ∨ 2 ^ 52 ≤ m₂)
    (h : e₁ < e₂ ∨ e₁ = e₂ ∧ m₁ < m₂) : (m₁ : ℚ) * 2 ^ e₁ < m₂ * 2 ^ e₂ := by
  rcases h with hlt | ⟨rfl, hlt⟩
  · have hbelow : (m₁ : ℚ) < 2 ^ 52 * 2 := by exact_mod_cast hm
    have habove : (2 : ℚ) ^ 52 ≤ m₂ := by exact_mod_cast hfull.resolve_left (by omega)
    calc (m₁ : ℚ) * 2 ^ e₁ < 2 ^ 52 * 2 * 2 ^ e₁ := by gcongr
      _ = 2 ^ 52 * 2 ^ (e₁ + 1) := by rw [zpow_add_one₀ two_ne_zero, mul_assoc, mul_comm (2 : ℚ)]
      _ ≤ m₂ * 2 ^ e₂ := by
        gcongr
        · exact one_le_two
        · exact hlt
  · gcongr

theorem magnitude_pos {m : ℕ} (hm : 0 < m) (e : ℤ) : (0 : ℚ) < m * 2 ^ e := by positivity

/-- what stands further along the line of doubles stands for a greater number -/
theorem valueOf_lt_of_place {u v : UnpackedFloat} (hu : u.isFinite = true) (hv : v.isFinite = true)
    (hcu : Canonical u) (hcv : Canonical v) (h : placeOf u < placeOf v) : valueOf u < valueOf v := by
  rcases u with _ | _ | _ | ⟨_ | _, m₁, e₁, h₁⟩ <;> rcases v with _ | _ | _ | ⟨_ | _, m₂, e₂, h₂⟩ <;>
    simp only [UnpackedFloat.isFinite, Bool.false_eq_true] at hu hv <;>
    simp [placeOf, Prod.Lex.lt_iff, valueOf, UnpackedFloat.Sign.apply] at h ⊢
  case zero.finite.positive => exact magnitude_pos h₂ e₂
  case finite.negative.zero => exact magnitude_pos h₁ e₁
  case finite.negative.finite.negative =>
    exact magnitude_lt hcv.1 hcv.2.1 hcu.2.2 (h.imp_right fun hboth => ⟨hboth.1.symm, hboth.2⟩)
  case finite.negative.finite.positive => exact (neg_lt_zero.2 (magnitude_pos h₁ e₁)).trans (magnitude_pos h₂ e₂)
  case finite.positive.finite.positive => exact magnitude_lt hcu.1 hcu.2.1 hcv.2.2 h

theorem valueOf_eq_of_place {u v : UnpackedFloat} (hu : u.isFinite = true) (hv : v.isFinite = true)
    (h : placeOf u = placeOf v) : valueOf u = valueOf v := by
  rcases u with _ | _ | _ | ⟨_ | _, m₁, e₁, h₁⟩ <;> rcases v with _ | _ | _ | ⟨_ | _, m₂, e₂, h₂⟩ <;>
    simp only [UnpackedFloat.isFinite, Bool.false_eq_true] at hu hv <;>
    simp_all [placeOf, valueOf]

section
variable {x y : Float}

theorem value_lt_iff_place (hx : x.isFinite = true) (hy : y.isFinite = true) :
    value x < value y ↔ place x < place y := by
  have hlt := valueOf_lt_of_place hx hy (canonical_unpack x) (canonical_unpack y)
  have hgt := valueOf_lt_of_place hy hx (canonical_unpack y) (canonical_unpack x)
  refine ⟨fun h => ?_, hlt⟩
  rcases lt_trichotomy (place x) (place y) with hplace | hplace | hplace
  · exact hplace
  · exact absurd (valueOf_eq_of_place hx hy hplace) h.ne
  · exact absurd (hgt hplace) h.not_gt

theorem value_eq_iff_place (hx : x.isFinite = true) (hy : y.isFinite = true) :
    value x = value y ↔ place x = place y := by
  refine ⟨fun h => ?_, valueOf_eq_of_place hx hy⟩
  exact le_antisymm (not_lt.1 fun hlt => ((value_lt_iff_place hy hx).2 hlt).ne h.symm)
    (not_lt.1 fun hlt => ((value_lt_iff_place hx hy).2 hlt).ne h)

/-- **Finite doubles compare like the numbers that they stand for.** -/
theorem lt_iff_value (hx : x.isFinite = true) (hy : y.isFinite = true) : x < y ↔ value x < value y := by
  rw [lt_iff_place (isNaN_of_isFinite hx) (isNaN_of_isFinite hy), value_lt_iff_place hx hy]

theorem beq_iff_value (hx : x.isFinite = true) (hy : y.isFinite = true) : (x == y) = true ↔ value x = value y := by
  rw [beq_iff_place (isNaN_of_isFinite hx) (isNaN_of_isFinite hy), value_eq_iff_place hx hy]

theorem le_iff_value (hx : x.isFinite = true) (hy : y.isFinite = true) : x ≤ y ↔ value x ≤ value y := by
  rw [le_iff_lt_or_beq, lt_iff_value hx hy, beq_iff_value hx hy, le_iff_lt_or_eq]

end

theorem value_zero : value 0.0 = 0 := rfl

end RankEval.Double
