/-
The bits of a double. Taking them apart by division gives the sign, significand and exponent that the double is made of.

- `isFinite_iff_exponent`: a double is finite iff its exponent bits are not all set.
- `ofFloat_of_isFinite`, `ofFloat_of_not_isFinite`: what the parts of a double can be.
- `toFloat_ofFloat`: the parts of a number are the parts of that number only.
-/
import Mathlib
import RankEval.Decimal.Binary

namespace RankEval.Double

open Decimal (Binary)
open Float.Model (Format UnpackedFloat)

/-- the exponent bits of a double -/
def exponentBits (x : Float) : Nat := x.toBits.toNat / Nat.pow 2 52 % Nat.pow 2 11

theorem toNat_unpackExponent (x : Float) :
    (@UnpackedFloat.unpackExponent .binary64 x.toModel.toBits.toBitVec).toNat = exponentBits x := by
  change ((x.toModel.toBits.toBitVec.extractLsb 62 52).cast _).toNat = _
  rw [BitVec.toNat_cast, BitVec.extractLsb_toNat, Nat.shiftRight_eq_div_pow]
  rfl

theorem unpackExponent_eq_iff (x : Float) :
    @UnpackedFloat.unpackExponent .binary64 x.toModel.toBits.toBitVec = -1#_ ↔ exponentBits x = 2047 := by
  rw [← BitVec.toNat_inj, toNat_unpackExponent]
  rfl

theorem isFinite_iff_exponent (x : Float) : x.isFinite = true ↔ exponentBits x ≠ 2047 := by
  change x.toModel.unpack.isFinite = true ↔ _
  rw [Float.Model.unpack, UnpackedFloat.unpack, Ne, ← unpackExponent_eq_iff]
  dsimp only
  split_ifs <;> simp_all [UnpackedFloat.isFinite]

theorem toNat_unpackMantissa (x : Float) :
    (@UnpackedFloat.unpackMantissa .binary64 x.toModel.toBits.toBitVec).toNat = x.toBits.toNat % Nat.pow 2 52 := by
  change (x.toModel.toBits.toBitVec.extractLsb 51 0 |>.cast _).toNat = _
  rw [BitVec.toNat_cast, BitVec.extractLsb_toNat, Nat.shiftRight_eq_div_pow]
  simp
  rfl

theorem isNaN_iff_fraction (x : Float) :
    x.isNaN = true ↔ exponentBits x = 2047 ∧ x.toBits.toNat % Nat.pow 2 52 ≠ 0 := by
  have hzero : @UnpackedFloat.unpackMantissa .binary64 x.toModel.toBits.toBitVec = 0#_ ↔
      x.toBits.toNat % Nat.pow 2 52 = 0 := by
    rw [← BitVec.toNat_inj, toNat_unpackMantissa]
    rfl
  change x.toModel.unpack.isNaN = true ↔ _
  rw [Float.Model.unpack, UnpackedFloat.unpack, Ne, ← unpackExponent_eq_iff, ← hzero]
  dsimp only
  split_ifs <;> simp_all [UnpackedFloat.isNaN]

section
variable {x : Float}

/-- a finite double has a significand of 53 bits, or fewer with the least exponent -/
theorem ofFloat_of_isFinite (h : x.isFinite = true) :
    ∃ negative m q, Binary.ofFloat x = .finite negative m q ∧ m < Nat.pow 2 53 ∧ -1074 ≤ q ∧ q ≤ 971 ∧
      (q = -1074 ∨ Nat.pow 2 52 ≤ m) := by
  have hexponent := (isFinite_iff_exponent x).1 h
  unfold exponentBits at hexponent
  unfold Binary.ofFloat Binary.ofBits Binary.leastExponent
  dsimp only
  have hfraction : x.toBits.toNat % Nat.pow 2 52 < Nat.pow 2 52 := Nat.mod_lt _ (by decide)
  have hbound : x.toBits.toNat / Nat.pow 2 52 % Nat.pow 2 11 < Nat.pow 2 11 := Nat.mod_lt _ (by decide)
  have hdouble : Nat.pow 2 53 = Nat.pow 2 52 + Nat.pow 2 52 := by decide
  generalize x.toBits.toNat / Nat.pow 2 52 % Nat.pow 2 11 = e at hexponent hbound ⊢
  generalize x.toBits.toNat % Nat.pow 2 52 = f at hfraction ⊢
  rw [if_neg hexponent]
  rw [show Nat.pow 2 11 = 2048 from rfl] at hbound
  by_cases he : e = 0
  · rw [if_pos he]
    exact ⟨_, _, _, rfl, by omega, by omega, by omega, .inl rfl⟩
  · rw [if_neg he]
    refine ⟨_, _, _, rfl, by omega, ?_, ?_, .inr (Nat.le_add_right _ _)⟩
    · change (-1074 : Int) ≤ (e : Int) - 1075
      omega
    · change (e : Int) - 1075 ≤ 971
      omega

theorem ofFloat_of_not_isFinite (h : x.isFinite = false) :
    Binary.ofFloat x = .nan ∨ ∃ negative, Binary.ofFloat x = .infinite negative := by
  have hexponent : exponentBits x = 2047 := by
    by_contra hne
    rw [(isFinite_iff_exponent x).2 hne] at h
    exact Bool.noConfusion h
  unfold exponentBits at hexponent
  unfold Binary.ofFloat Binary.ofBits
  dsimp only
  rw [if_pos hexponent]
  split_ifs
  · exact .inr ⟨_, rfl⟩
  · exact .inl rfl

end

/-! ## Putting the parts together -/

/-- taking the bits of a double apart and putting them together again -/
theorem toBits_ofBits {bits : Nat} (hbits : bits < Nat.pow 2 64)
    (hnumber : bits / Nat.pow 2 52 % Nat.pow 2 11 = 2047 → bits % Nat.pow 2 52 = 0) :
    (Binary.ofBits bits).toBits = bits := by
  have hparts : (if decide (Nat.pow 2 63 ≤ bits) = true then Nat.pow 2 63 else 0) +
      (bits / Nat.pow 2 52 % Nat.pow 2 11 * Nat.pow 2 52 + bits % Nat.pow 2 52) = bits := by
    have h52 : Nat.pow 2 52 = 4503599627370496 := rfl
    have h63 : Nat.pow 2 63 = 9223372036854775808 := rfl
    have h64 : Nat.pow 2 64 = 18446744073709551616 := rfl
    have h11 : Nat.pow 2 11 = 2048 := rfl
    rw [h64] at hbits
    rw [h52, h63, h11]
    simp only [decide_eq_true_eq]
    split_ifs <;> omega
  have hfraction : bits % Nat.pow 2 52 < Nat.pow 2 52 := Nat.mod_lt _ (by decide)
  unfold Binary.ofBits
  dsimp only
  generalize decide (Nat.pow 2 63 ≤ bits) = negative at hparts ⊢
  generalize bits / Nat.pow 2 52 % Nat.pow 2 11 = e at hparts hnumber ⊢
  generalize bits % Nat.pow 2 52 = f at hparts hnumber hfraction ⊢
  split_ifs with hexponent hf hzero
  · rw [hexponent, hf] at hparts
    exact hparts
  · exact absurd (hnumber hexponent) hf
  · rw [hzero, Nat.zero_mul, Nat.zero_add] at hparts
    rw [Binary.toBits, if_pos hfraction, hparts]
  · have hfull : ¬ Nat.pow 2 52 + f < Nat.pow 2 52 := Nat.not_lt.2 (Nat.le_add_right _ _)
    have hbiased : (Int.ofNat e - 1075 + 1075).toNat = e := by
      rw [Int.sub_add_cancel]
      rfl
    rw [Binary.toBits, if_neg hfull, hbiased, Nat.add_sub_cancel_left, hparts]

theorem toFloat_ofFloat {x : Float} (h : x.isNaN = false) : (Binary.ofFloat x).toFloat = x := by
  have hnumber : exponentBits x = 2047 → x.toBits.toNat % Nat.pow 2 52 = 0 := by
    intro hexponent
    by_contra hfraction
    rw [(isNaN_iff_fraction x).2 ⟨hexponent, hfraction⟩] at h
    exact Bool.noConfusion h
  rw [Binary.toFloat, Binary.ofFloat, toBits_ofBits x.toBits.toNat_lt hnumber, UInt64.ofNat_toNat, Float.ofBits_toBits]

end RankEval.Double
