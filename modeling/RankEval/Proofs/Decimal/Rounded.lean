/-
Decimals that the operations on doubles round correctly. What a sum, a product or a quotient is rounded to and what a
decimal is read as are defined apart: the operations cut bits off a form, the reader divides naturals. Both go to the
nearest double and, of two that are equally near, to the one with the even significand; so whatever is rounded once from
the number of a decimal is what the decimal is read as.

- `ofFloat_eq_parts`: the parts of a double are those of the form that it is unpacked to.
- `Rounds.unique`: a number is rounded to one positive double.
- `Rounds.exists_around`: what is rounded to a double lies in the interval of that double.
- `toFloat_nearest_of_rounds`: a decimal is read as what its number is rounded to.
-/
import RankEval.Proofs.Decimal.Nearest
import RankEval.Proofs.Double.Bits
import RankEval.Proofs.Double.Quotients

namespace RankEval

open Decimal (Binary)
open Float.Model (UnpackedFloat)
open Float.Model.UnpackedFloat (Sign)

namespace Double

/-! ## The parts of a double -/

def isNegative : Sign → Bool
  | .positive => false
  | .negative => true

/-- a form, with the parts that the bits of a double have -/
def parts : UnpackedFloat → Binary
  | .notANumber => .nan
  | .infinity s => .infinite (isNegative s)
  | .zero s => .finite (isNegative s) 0 Binary.leastExponent
  | .finite s m e _ => .finite (isNegative s) m e

section
variable {x y : Float}

theorem toNat_unpackSign (x : Float) :
    (@UnpackedFloat.unpackSign .binary64 x.toModel.toBits.toBitVec).toNat = x.toBits.toNat / Nat.pow 2 63 := by
  change ((x.toModel.toBits.toBitVec.extractLsb 63 63).cast _).toNat = _
  rw [BitVec.toNat_cast, BitVec.extractLsb_toNat, Nat.shiftRight_eq_div_pow, Nat.mod_eq_of_lt]
  · rfl
  · have hlt : x.toBits.toNat < 2 ^ 64 := x.toBits.toNat_lt
    change x.toBits.toNat / 2 ^ 63 < 2 ^ (63 - 63 + 1)
    omega

theorem isNegative_unpackSign (x : Float) :
    isNegative (Sign.ofBitVec (@UnpackedFloat.unpackSign .binary64 x.toModel.toBits.toBitVec)) =
      decide (Nat.pow 2 63 ≤ x.toBits.toNat) := by
  have hsign := toNat_unpackSign x
  have hlt : x.toBits.toNat < 2 ^ 64 := x.toBits.toNat_lt
  have hpow : Nat.pow 2 63 = 2 ^ 63 := rfl
  rw [hpow] at hsign ⊢
  unfold Sign.ofBitVec
  split_ifs with hzero
  · rw [hzero] at hsign
    exact (decide_eq_false (by change 0 = _ at hsign; omega)).symm
  · have hne : x.toBits.toNat / 2 ^ 63 ≠ 0 := fun h => hzero (BitVec.eq_of_toNat_eq (hsign.trans h))
    exact (decide_eq_true (by omega)).symm

theorem ofFloat_eq_parts (x : Float) : Binary.ofFloat x = parts x.toModel.unpack := by
  have hfraction := toNat_unpackMantissa x
  have hexponent := toNat_unpackExponent x
  have hleading := toNat_leading (@UnpackedFloat.unpackMantissa .binary64 x.toModel.toBits.toBitVec)
  have hzero : @UnpackedFloat.unpackMantissa .binary64 x.toModel.toBits.toBitVec = 0#_ ↔
      x.toBits.toNat % Nat.pow 2 52 = 0 := by
    rw [← BitVec.toNat_inj, hfraction]
    rfl
  have hbottom : @UnpackedFloat.unpackExponent .binary64 x.toModel.toBits.toBitVec = 0#_ ↔ exponentBits x = 0 := by
    rw [← BitVec.toNat_inj, hexponent]
    rfl
  have htop := unpackExponent_eq_iff x
  have hsign := isNegative_unpackSign x
  rw [Float.Model.unpack, UnpackedFloat.unpack, Binary.ofFloat, Binary.ofBits]
  change (if exponentBits x = 2047 then _ else if exponentBits x = 0 then _ else _) = _
  dsimp only
  by_cases hinfinite : exponentBits x = 2047
  · rw [if_pos hinfinite, if_pos (htop.2 hinfinite)]
    by_cases hnone : x.toBits.toNat % Nat.pow 2 52 = 0
    · rw [if_pos hnone, if_pos (hzero.2 hnone), parts, hsign]
    · rw [if_neg hnone, if_neg (mt hzero.1 hnone), parts]
  rw [if_neg hinfinite, if_neg (mt htop.1 hinfinite)]
  by_cases hleast : exponentBits x = 0
  · rw [if_pos hleast, if_pos (hbottom.2 hleast)]
    by_cases hnone : x.toBits.toNat % Nat.pow 2 52 = 0
    · rw [dif_pos (hzero.2 hnone), parts, hsign, hnone]
    · rw [dif_neg (mt hzero.1 hnone), parts, hsign, hfraction, hexponent, hleast]
      rfl
  · rw [if_neg hleast, if_neg (mt hbottom.1 hleast), parts, hsign, hleading, hfraction, hexponent]
    rfl

/-- changing the sign of a double changes that of its form -/
theorem unpack_neg (x : Float) : (-x).toModel.unpack = x.toModel.unpack.neg := by
  have hcanonical := canonical_unpack x
  change (Float.Model.pack x.toModel.unpack.neg).unpack = _
  cases hunpack : x.toModel.unpack with
  | infinity s => exact unpack_pack_infinity (-s)
  | notANumber => exact unpack_pack_notANumber
  | zero s => exact unpack_pack_zero (-s)
  | finite s m e hm =>
    have hfits : e ≤ 971 := by
      by_contra hlarge
      have hinfinite := unpack_pack_of_large s hm (not_le.1 hlarge)
      rw [← hunpack, pack_unpack, hunpack] at hinfinite
      cases hinfinite
    rw [hunpack] at hcanonical
    exact unpack_pack (-s) hm hcanonical hfits

end

/-! ## What is rounded to a double -/

section
variable {x y : Float} {v : ℚ}

/-- A number is rounded to one positive double. -/
theorem Rounds.unique (hx : Rounds v x) (hy : Rounds v y) (hfinite : x.isFinite = true) (hpos : 0 < value x) :
    x = y := by
  have hnotinf : x.toModel.unpack ≠ .infinity .positive :=
    fun hinfinite => Bool.eq_false_iff.1 (isFinite_infinity hinfinite) hfinite
  obtain ⟨hyfinite, -, hge⟩ := (hy.mono hx le_rfl).resolve_left hnotinf
  have hle : value x ≤ value y := by
    rcases hx.mono hy le_rfl with hinfinite | ⟨-, -, hle⟩
    · exact absurd hyfinite (Bool.eq_false_iff.1 (isFinite_infinity hinfinite))
    · exact hle
  refine eq_of_place ?_ ((value_eq_iff_place hfinite hyfinite).1 (le_antisymm hle hge))
  rw [lt_iff_value rfl hfinite, value_zero]
  exact hpos

/-- units that are a significand lie in its interval -/
theorem IsUnits.around {k : ℕ} {q : ℤ} (h : IsUnits v k q) (hpos : 0 < k) : Decimal.Around k q v := by
  obtain ⟨⟨hlow, hhigh, htie⟩, -, hfull, -⟩ := h
  have hunit := Decimal.zpow_quarter q
  have hp := two_zpow_pos (q - 2)
  have hq := two_zpow_pos q
  rw [le_div_iff₀ hq, hunit] at hlow
  rw [div_le_iff₀ hq, hunit] at hhigh
  rw [div_eq_iff hq.ne', div_eq_iff hq.ne', hunit] at htie
  have hbelow : ((Decimal.interval k q).low : ℚ) * 2 ^ (q - 2) ≤ v ∧
      (v = (Decimal.interval k q).low * 2 ^ (q - 2) → k % 2 = 0) := by
    unfold Decimal.interval
    dsimp only
    split_ifs with hpower
    · -- all units of this size are above the power of two
      obtain ⟨rfl, hleast⟩ := hpower
      have hfull := hfull.resolve_left hleast.ne'
      rw [hunit] at hfull
      refine ⟨?_, fun _ => rfl⟩
      norm_num at hfull ⊢
      linarith
    · have hcast : ((4 * k - 2 : ℕ) : ℚ) = 4 * k - 2 := by
        rw [Nat.cast_sub (by omega)]
        push_cast
        rfl
      rw [hcast]
      exact ⟨by linarith, fun heq => htie (.inl (by linarith))⟩
  have habove : ((Decimal.interval k q).high : ℚ) = 4 * k + 2 := by
    rw [Decimal.interval]
    push_cast
    rfl
  rw [Decimal.Around, habove]
  split_ifs with heven
  · exact ⟨hbelow.1, by linarith⟩
  · refine ⟨lt_of_le_of_ne hbelow.1 fun heq => heven (hbelow.2 heq.symm), lt_of_le_of_ne (by linarith) fun heq => ?_⟩
    exact heven (htie (.inr (by linarith)))

/-- those that are rounded up to one more bit lie right below a power of two -/
theorem IsUnits.around_carry {q : ℤ} (h : IsUnits v (2 ^ 53) q) : Decimal.Around (2 ^ 52) (q + 1) v := by
  obtain ⟨⟨hlow, -, -⟩, hleast, -, hsmall⟩ := h
  have hunit : (2 : ℚ) ^ q = 2 * 2 ^ (q + 1 - 2) := by
    rw [← zpow_one_add₀ two_ne_zero]
    congr 1
    omega
  rw [le_div_iff₀ (two_zpow_pos q), hunit] at hlow
  rw [hunit] at hsmall
  have hp := two_zpow_pos (q + 1 - 2)
  have hpower : (Decimal.interval (2 ^ 52) (q + 1)).low = 4 * 2 ^ 52 - 1 :=
    if_pos ⟨rfl, by change (-1074 : ℤ) < q + 1; omega⟩
  have hhigh : (Decimal.interval (2 ^ 52) (q + 1)).high = 4 * 2 ^ 52 + 2 := rfl
  rw [Decimal.Around, if_pos (by norm_num), hpower, hhigh]
  norm_num at hlow hsmall ⊢
  constructor <;> linarith

/-- **What is rounded to a double lies in the interval of that double.** -/
theorem Rounds.exists_around (h : Rounds v x) (hfinite : x.isFinite = true) (hpos : 0 < value x) :
    ∃ m q hm, x.toModel.unpack = .finite .positive m q hm ∧ Decimal.Canonical m q ∧ Decimal.Around m q v := by
  obtain ⟨r, ⟨k, q, hunits, -⟩, -⟩ := id h
  obtain rfl := h.unique (rounds_of_units hunits) hfinite hpos
  have hfound : ∀ {m : ℕ} {e : ℤ} (hm : 0 < m), unitsForm k q = .finite .positive m e hm →
      Canonical (.finite .positive m e hm) → e ≤ 971 ∧
        (Float.ofModel (.pack (unitsForm k q))).toModel.unpack = .finite .positive m e hm := by
    intro m e hm hform hcanonical
    rw [hform] at hfinite ⊢
    have hfits : e ≤ 971 := by
      by_contra hlarge
      rw [Float.isFinite, Float.Model.isFinite, unpack_pack_of_large .positive hm (not_le.1 hlarge)] at hfinite
      cases hfinite
    exact ⟨hfits, unpack_pack .positive hm hcanonical hfits⟩
  have hk : k ≠ 0 := by
    rintro rfl
    rw [unitsForm, dif_pos rfl, value, unpack_pack_zero] at hpos
    exact hpos.ne' rfl
  have hleast := hunits.least
  rcases hunits.le_full.lt_or_eq with hlt | rfl
  · have hfull : q = -1074 ∨ 2 ^ 52 ≤ k := or_iff_not_imp_left.2 hunits.full_of_ne
    have hform : unitsForm k q = .finite .positive k q (Nat.pos_of_ne_zero hk) := by
      rw [unitsForm, dif_neg hk, if_pos hlt]
    obtain ⟨hfits, hunpack⟩ := hfound _ hform ⟨hlt, hleast, hfull⟩
    exact ⟨k, q, _, hunpack, ⟨Nat.pos_of_ne_zero hk, hlt, hleast, hfits, hfull⟩, hunits.around (Nat.pos_of_ne_zero hk)⟩
  · have hform : unitsForm (2 ^ 53) q = .finite .positive (2 ^ 52) (q + 1) (by decide) := by
      rw [unitsForm, dif_neg hk, if_neg (lt_irrefl _)]
    obtain ⟨hfits, hunpack⟩ := hfound _ hform ⟨by norm_num, by omega, .inr le_rfl⟩
    exact ⟨_, _, _, hunpack, ⟨by decide, by decide, by omega, hfits, .inr le_rfl⟩, hunits.around_carry⟩

end

end Double

namespace Decimal

open Double (Rounds value)

/-- **A decimal is read as what its number is rounded to.** -/
theorem toFloat_nearest_of_rounds {c : ℕ} {e : ℤ} {x : Float} (h : Rounds (c * 10 ^ e) x) (hfinite : x.isFinite = true)
    (hpos : 0 < value x) (negative : Bool) : (nearest negative c e).toFloat = if negative then -x else x := by
  obtain ⟨m, q, hm, hunpack, hcanonical, haround⟩ := h.exists_around hfinite hpos
  have hparts : Binary.ofFloat x = .finite false m q := by
    rw [Double.ofFloat_eq_parts, hunpack]
    rfl
  have hneg : (-x).toModel.unpack = .finite .negative m q hm := by
    rw [Double.unpack_neg, hunpack]
    rfl
  rw [nearest_of_around hcanonical haround negative]
  cases negative with
  | false => rw [← hparts, Double.toFloat_ofFloat (Double.isNaN_of_isFinite hfinite), if_neg Bool.false_ne_true]
  | true =>
    have hnumber : (-x).isNaN = false := by
      rw [Float.isNaN, Float.Model.isNaN, hneg]
      rfl
    rw [if_pos rfl, ← Double.toFloat_ofFloat hnumber, Double.ofFloat_eq_parts, hneg]
    rfl

end Decimal

end RankEval
