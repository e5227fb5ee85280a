/-
A double and its canonical form determine each other. The bits are put together from the parts that they are taken apart
into, and a canonical form that fits into the bits is found in them again; a form whose exponent is too great becomes an
infinity.

- `pack_unpack`, `unpack_pack`: the two ways round.
- `unpack_pack_of_large`: overflow.
- `eq_of_place`: doubles at one place are the same, other than the two zeros.
-/
import RankEval.Proofs.Double.Value

namespace RankEval.Double

open Float.Model (UnpackedFloat Format)
open Float.Model.UnpackedFloat (Sign packComponents packedInfinity packedZero unpackSign unpackExponent unpackMantissa)

/-! ## Bits -/

@[simp] theorem toBitVec_ofBitVec (b : BitVec 1) : (Sign.ofBitVec b).toBitVec = b := by
  revert b
  decide

@[simp] theorem ofBitVec_toBitVec (s : Sign) : Sign.ofBitVec s.toBitVec = s := by cases s <;> rfl

/-- sign, exponent and fraction next to each other are the bits they were taken from -/
theorem packComponents_parts (b : BitVec 64) :
    packComponents .binary64 (Sign.ofBitVec (@unpackSign .binary64 b)) (@unpackExponent .binary64 b)
      (@unpackMantissa .binary64 b) = b := by
  have happend : b.extractLsb 63 63 ++ b.extractLsb 62 52 ++ b.extractLsb 51 0 = b := by
    refine BitVec.eq_of_getLsbD_eq fun i hi => ?_
    rw [BitVec.getLsbD_append]
    split_ifs with hlow
    · have hfits : i ≤ 51 - 0 := by omega
      simp [hfits]
    · rw [BitVec.getLsbD_append]
      split_ifs with hmiddle
      · have hback : 52 + (i - 52) = i := by omega
        have hfits : i - 52 ≤ 62 - 52 := by omega
        simp [hback, hfits]
      · obtain rfl : i = 63 := by omega
        simp
  rw [packComponents, toBitVec_ofBitVec]
  exact happend

@[simp] theorem unpackSign_packComponents (s : Sign) (e : BitVec 11) (f : BitVec 52) :
    @unpackSign .binary64 (packComponents .binary64 s e f) = s.toBitVec := by
  change (s.toBitVec ++ e ++ f).extractLsb 63 63 = s.toBitVec
  refine BitVec.eq_of_getLsbD_eq fun i hi => ?_
  obtain rfl : i = 0 := by omega
  rw [BitVec.getLsbD_extractLsb, BitVec.getLsbD_append, BitVec.getLsbD_append]
  rfl

/-! ## From a double to its form and back -/

/-- how a finite form is packed -/
theorem pack_finite (s : Sign) (m : ℕ) (e : ℤ) (hm : 0 < m) :
    UnpackedFloat.pack .binary64 (.finite s m e hm) =
      if 2048 ≤ (e + 1075).toNat + 1 then packedInfinity .binary64 s
      else if m.log2 = 52 then packComponents .binary64 s (BitVec.ofNat 11 (e + 1075).toNat) (BitVec.ofNat 52 m)
      else packComponents .binary64 s 0#11 (BitVec.ofNat 52 m) := by
  have hbiased : e + (1023 : ℕ) + (52 : ℕ) = e + 1075 := by omega
  have hbits : m.log2 + 1 = Format.binary64.mantissaBits ↔ m.log2 = 52 := Nat.succ_inj (b := 52)
  unfold UnpackedFloat.pack
  simp only [hbits]
  change (if 2048 ≤ (e + (1023 : ℕ) + (52 : ℕ)).toNat + 1 then packedInfinity .binary64 s
    else if m.log2 = 52 then
      packComponents .binary64 s (BitVec.ofNat 11 (e + (1023 : ℕ) + (52 : ℕ)).toNat) (BitVec.ofNat 52 m)
    else packComponents .binary64 s 0#11 (BitVec.ofNat 52 m)) = _
  rw [hbiased]

theorem log2_eq_iff_full {m : ℕ} (hm : m < 2 ^ 53) : m.log2 = 52 ↔ 2 ^ 52 ≤ m := by
  constructor
  · intro h
    have hne : m ≠ 0 := by
      rintro rfl
      cases h
    exact (Nat.log2_eq_iff hne).1 h |>.1
  · intro h
    exact (Nat.log2_eq_iff (by omega)).2 ⟨h, hm⟩

theorem pack_unpack_bits {b : BitVec 64} (hvalid : Format.binary64.Valid b) :
    UnpackedFloat.pack .binary64 (UnpackedFloat.unpack .binary64 b) = b := by
  have hparts := packComponents_parts b
  unfold UnpackedFloat.unpack
  dsimp only
  have hlt : (@unpackMantissa .binary64 b).toNat < 2 ^ 52 := BitVec.isLt _
  have hlt' : (@unpackExponent .binary64 b).toNat < 2 ^ 11 := BitVec.isLt _
  have hbias : Format.binary64.exponentBias = 1023 := rfl
  split_ifs with htop hzero hbottom hzero
  · rw [htop, hzero] at hparts
    exact hparts
  · exact (hvalid.eq_packedNaN (htop) hzero).symm
  · rw [hbottom, hzero] at hparts
    exact hparts
  · have hexp : (@unpackExponent .binary64 b).toNat = 0 := by rw [hbottom]; rfl
    have hbiased : (((@unpackExponent .binary64 b).toNat : ℤ) - (Format.binary64.exponentBias + (52 : ℕ)) + 1 +
        1075).toNat = 1 := by omega
    have hlog : ¬ (@unpackMantissa .binary64 b).toNat.log2 = 52 := by rw [log2_eq_iff_full (by omega)]; omega
    rw [pack_finite, hbiased, if_neg (by decide), if_neg hlog, BitVec.ofNat_toNat, BitVec.setWidth_eq]
    rw [hbottom] at hparts
    exact hparts
  · have hexp : (@unpackExponent .binary64 b).toNat ≠ 2047 := fun h => htop (BitVec.eq_of_toNat_eq h)
    have hbiased : (((@unpackExponent .binary64 b).toNat : ℤ) - (Format.binary64.exponentBias + (52 : ℕ)) +
        1075).toNat = (@unpackExponent .binary64 b).toNat := by omega
    have hleading := toNat_leading (@unpackMantissa .binary64 b)
    have hlog : (1#1 ++ @unpackMantissa .binary64 b).toNat.log2 = 52 := by rw [log2_eq_iff_full (by omega)]; omega
    have hdrop : BitVec.ofNat 52 (1#1 ++ @unpackMantissa .binary64 b).toNat = @unpackMantissa .binary64 b := by
      refine BitVec.eq_of_toNat_eq ?_
      rw [BitVec.toNat_ofNat, hleading]
      omega
    rw [pack_finite, hbiased, if_neg (by omega), if_pos hlog, BitVec.ofNat_toNat, BitVec.setWidth_eq, hdrop]
    exact hparts

/-- a double is put together from its form -/
theorem pack_unpack (x : Float.Model) : Float.Model.pack x.unpack = x := by
  obtain ⟨bits, hvalid⟩ := x
  have hbits : UnpackedFloat.pack .binary64 (UnpackedFloat.unpack .binary64 bits.toBitVec) = bits.toBitVec :=
    pack_unpack_bits hvalid
  simp only [Float.Model.pack, Float.Model.unpack, hbits]

/-! ## From a form to its double and back -/

/-- a canonical form with an exponent that fits is found again -/
theorem unpack_pack (s : Sign) {m : ℕ} {e : ℤ} (hm : 0 < m) (hcanonical : Canonical (.finite s m e hm)) (he : e ≤ 971) :
    (Float.Model.pack (.finite s m e hm)).unpack = .finite s m e hm := by
  obtain ⟨hlt, hlow, hfull⟩ := hcanonical
  change UnpackedFloat.unpack .binary64 (UnpackedFloat.pack .binary64 (.finite s m e hm)) = _
  rw [pack_finite, if_neg (by omega)]
  have hfraction : (BitVec.ofNat 52 m).toNat = m % 2 ^ 52 := BitVec.toNat_ofNat m 52
  have hbiased : (BitVec.ofNat 11 (e + 1075).toNat).toNat = (e + 1075).toNat := by
    rw [BitVec.toNat_ofNat, Nat.mod_eq_of_lt (by omega)]
  split_ifs with hlog
  · have hnormal := (log2_eq_iff_full hlt).1 hlog
    have htop : BitVec.ofNat 11 (e + 1075).toNat ≠ -1#11 := by
      intro h
      have htop : (e + 1075).toNat = 2047 := by rw [← hbiased, h]; rfl
      omega
    have hbottom : BitVec.ofNat 11 (e + 1075).toNat ≠ 0#11 := by
      intro h
      have hbottom : (e + 1075).toNat = 0 := by rw [← hbiased, h]; rfl
      omega
    have hsignificand : (1#1 ++ BitVec.ofNat 52 m).toNat = m := by
      rw [toNat_leading, hfraction]
      omega
    have hexponent : ((e + 1075).toNat : ℤ) - ((1023 : ℕ) + (52 : ℕ)) = e := by omega
    unfold UnpackedFloat.unpack
    simp only [Float.Model.UnpackedFloat.unpackExponent_packComponents,
      Float.Model.UnpackedFloat.unpackMantissa_packComponents, unpackSign_packComponents, ofBitVec_toBitVec]
    rw [if_neg htop, if_neg hbottom]
    congr 1
    rw [hbiased]
    exact hexponent
  · have hsubnormal : ¬ 2 ^ 52 ≤ m := fun h => hlog ((log2_eq_iff_full hlt).2 h)
    obtain rfl : e = -1074 := hfull.resolve_right hsubnormal
    have hsmall : (BitVec.ofNat 52 m).toNat = m := by
      rw [hfraction]
      omega
    have hzero : BitVec.ofNat 52 m ≠ 0#52 := by
      intro h
      have hzero : m = 0 := by rw [← hsmall, h]; rfl
      omega
    unfold UnpackedFloat.unpack
    simp only [Float.Model.UnpackedFloat.unpackExponent_packComponents,
      Float.Model.UnpackedFloat.unpackMantissa_packComponents, unpackSign_packComponents, ofBitVec_toBitVec]
    rw [if_neg (by decide), if_pos trivial, dif_neg hzero]
    congr 1

/-- what is too great becomes infinite -/
theorem unpack_pack_of_large (s : Sign) {m : ℕ} {e : ℤ} (hm : 0 < m) (he : 971 < e) :
    (Float.Model.pack (.finite s m e hm)).unpack = .infinity s := by
  change UnpackedFloat.unpack .binary64 (UnpackedFloat.pack .binary64 (.finite s m e hm)) = _
  rw [pack_finite, if_pos (by omega)]
  cases s <;> rfl

@[simp] theorem unpack_pack_zero (s : Sign) : (Float.Model.pack (.zero s)).unpack = .zero s := by cases s <;> rfl

@[simp] theorem unpack_pack_infinity (s : Sign) : (Float.Model.pack (.infinity s)).unpack = .infinity s := by
  cases s <;> rfl

@[simp] theorem unpack_pack_notANumber : (Float.Model.pack .notANumber).unpack = .notANumber := rfl

/-! ## Doubles at one place -/

theorem eq_of_unpack {x y : Float} (h : x.toModel.unpack = y.toModel.unpack) : x = y := by
  have hmodel : x.toModel = y.toModel := by rw [← pack_unpack x.toModel, h, pack_unpack]
  cases x
  cases y
  cases hmodel
  rfl

/-- positive doubles at one place are the same -/
theorem eq_of_place {x y : Float} (hx : 0.0 < x) (h : place x = place y) : x = y := by
  refine eq_of_unpack ?_
  have hpos : placeOf (.zero .positive) < place x := (lt_iff_place (isNaN_of_lt hx).1 (isNaN_of_lt hx).2).1 hx
  unfold place at h hpos
  generalize x.toModel.unpack = u at h hpos ⊢
  generalize y.toModel.unpack = v at h ⊢
  rcases u with ⟨_ | _⟩ | _ | ⟨_ | _⟩ | ⟨_ | _, m₁, e₁, h₁⟩ <;>
    rcases v with ⟨_ | _⟩ | _ | ⟨_ | _⟩ | ⟨_ | _, m₂, e₂, h₂⟩ <;>
    simp_all [placeOf, Prod.Lex.lt_iff]

end RankEval.Double
