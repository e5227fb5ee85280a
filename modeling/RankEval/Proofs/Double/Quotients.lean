/-
Quotients of counts. Rounding keeps the order of numbers, so of two counts over a third the greater one is not the
smaller double: it may round to the same double, and counts beyond the greatest double may leave no number at all.

- `Rounds.mono`: the greater of two numbers is not rounded to the smaller double.
- `not_div_lt_div`, `div_le_div`: counts over a count.
- `value_ofNat_div_two`: half of a count is exact.
- `ratio_self`, `not_ratio_lt_ratio`, `ratio_le_ratio`: shares of a whole that may be empty.
-/
import RankEval.Proofs.Double.Operations

namespace RankEval.Double

open Float.Model (UnpackedFloat)

/-! ## The order of rounded numbers -/

section
variable {x y : Float} {v w : ℚ}

theorem not_infinity_lt (h : y.toModel.unpack = .infinity .positive) : ¬ y < x := by
  rw [lt_iff_unpacked_lt, h]
  generalize x.toModel.unpack = u
  rcases u with ⟨_ | _⟩ | _ | _ | _ <;> simp [UnpackedFloat.lt, UnpackedFloat.compare]

/-- **Rounding keeps the order.** The greater of two numbers that are not negative is not rounded to the smaller double,
and it is not finite unless both are. -/
theorem Rounds.mono (hx : Rounds v x) (hy : Rounds w y) (hle : v ≤ w) :
    y.toModel.unpack = .infinity .positive ∨ x.isFinite = true ∧ y.isFinite = true ∧ value x ≤ value y := by
  obtain ⟨r, hr, hxr⟩ := hx
  obtain ⟨s, hs, hys⟩ := hy
  have hrs : r ≤ s := hr.mono hs hle
  rcases hys.isFinite_or_infinity with hfinite | hinfinite
  · right
    obtain ⟨s', hs', ⟨hlt, -, heq⟩ | ⟨-, hinfinite⟩⟩ := hys
    · have hss : s ≤ s' := hs'.le_of_le s hs.isNearest.representable le_rfl
      have hss' : s' ≤ s := hs'.le_of_ge s hs.isNearest.representable le_rfl
      obtain ⟨hxfinite, hxr⟩ := hxr.value_eq hr.isNearest.representable ((hrs.trans hss).trans_lt hlt)
      exact ⟨hxfinite, hfinite, by rw [hxr, heq]; exact hrs.trans hss⟩
    · exact absurd hfinite (Bool.eq_false_iff.1 (isFinite_infinity hinfinite))
  · exact .inl hinfinite

theorem Rounds.not_lt (hx : Rounds v x) (hy : Rounds w y) (hle : v ≤ w) : ¬ y < x := by
  rcases hx.mono hy hle with hinfinite | ⟨hxfinite, hyfinite, hvalue⟩
  · exact not_infinity_lt hinfinite
  · rw [lt_iff_value hyfinite hxfinite]
    exact hvalue.not_gt

theorem infinity_div (hx : x.toModel.unpack = .infinity .positive) (hy : y.isFinite = true) (hpos : 0 < value y) :
    (x / y).toModel.unpack = .infinity .positive := by
  rcases unpack_of_nonneg hy hpos.le with ⟨hzero, -⟩ | ⟨-, m, e, hm, hu, -⟩
  · exact absurd hzero hpos.ne'
  · rw [div_eq_pack, hx, hu]
    have hsign : UnpackedFloat.Sign.positive / .positive = .positive := rfl
    change (Float.Model.pack _).unpack = _
    simp [UnpackedFloat.div, hsign]

/-- what is divided by infinity is zero, or no number -/
theorem div_infinity_or (hx : x.isFinite = true ∨ x.toModel.unpack = .infinity .positive)
    (hy : y.toModel.unpack = .infinity .positive) :
    (x / y).isNaN = true ∨ (x / y).isFinite = true ∧ value (x / y) = 0 := by
  rcases hx with hfinite | hinfinite
  · exact .inr (div_infinity hfinite hy)
  · have hsame : x = y := (eq_pack hinfinite).trans (eq_pack hy).symm
    rw [hsame]
    exact .inl (isNaN_div_self (isFinite_infinity hy))

end

/-! ## Counts -/

section
variable {a b c : ℕ}

theorem value_ofNat_pos (hc : 0 < c) (hfinite : (Float.ofNat c).isFinite = true) : 0 < value (Float.ofNat c) := by
  have hone : (1 : ℚ) ≤ c := by exact_mod_cast hc
  exact zero_lt_one.trans_le ((isRounded_ofNat c).le_value hfinite representable_one hone)

/-- a count that is a 64-bit word is a finite double -/
theorem isFinite_ofNat (hc : c < 2 ^ 64) : (Float.ofNat c).isFinite = true := by
  have hbound : (c : ℚ) ≤ 2 ^ (64 : ℤ) := by exact_mod_cast hc.le
  have hsize : (2 : ℚ) ^ (64 : ℤ) < 2 ^ (1024 : ℤ) := zpow_lt_zpow_right₀ one_lt_two (by norm_num)
  exact ((isRounded_ofNat c).value_le (representable_two_zpow (by norm_num)) hsize hbound).1

/-- of two counts over a third, the greater is not the smaller double -/
theorem not_div_lt_div (hab : a ≤ b) (hc : 0 < c) :
    ¬ Float.ofNat b / Float.ofNat c < Float.ofNat a / Float.ofNat c := by
  have hab' : (a : ℚ) ≤ b := by exact_mod_cast hab
  rcases (isRounded_ofNat c).isFinite_or_infinity with hfinite | hinfinite
  · have hpos := value_ofNat_pos hc hfinite
    rcases (rounds_ofNat a).mono (rounds_ofNat b) hab' with hinfinite | ⟨hafinite, hbfinite, hvalue⟩
    · exact not_infinity_lt (infinity_div hinfinite hfinite hpos)
    · have ha := (isRounded_ofNat a).nonneg hafinite a.cast_nonneg
      exact (rounds_div hafinite hfinite ha hpos).not_lt (rounds_div hbfinite hfinite (ha.trans hvalue) hpos)
        (by gcongr)
  · intro hlt
    obtain ⟨hb, ha⟩ := isNaN_of_lt hlt
    rcases div_infinity_or (isRounded_ofNat a).isFinite_or_infinity hinfinite with hnan | ⟨hafinite, hazero⟩
    · rw [hnan] at ha
      cases ha
    rcases div_infinity_or (isRounded_ofNat b).isFinite_or_infinity hinfinite with hnan | ⟨hbfinite, hbzero⟩
    · rw [hnan] at hb
      cases hb
    rw [lt_iff_value hbfinite hafinite, hazero, hbzero] at hlt
    exact hlt.false

/-- parts of a count that is not too great for a double are numbers in their order -/
theorem div_le_div (hab : a ≤ b) (hbc : b ≤ c) (hc : 0 < c) (hlt : c < 2 ^ 64) :
    Float.ofNat a / Float.ofNat c ≤ Float.ofNat b / Float.ofNat c := by
  have hab' : (a : ℚ) ≤ b := by exact_mod_cast hab
  have hbc' : (b : ℚ) ≤ c := by exact_mod_cast hbc
  have hfinite := isFinite_ofNat hlt
  have hpos := value_ofNat_pos hc hfinite
  have hnotinf : ∀ {x : Float}, x.isFinite = true → x.toModel.unpack ≠ .infinity .positive :=
    fun hx hinfinite => Bool.eq_false_iff.1 (isFinite_infinity hinfinite) hx
  obtain ⟨hbfinite, -, hbvalue⟩ := ((rounds_ofNat b).mono (rounds_ofNat c) hbc').resolve_left (hnotinf hfinite)
  obtain ⟨hafinite, -, hvalue⟩ := ((rounds_ofNat a).mono (rounds_ofNat b) hab').resolve_left (hnotinf hbfinite)
  have ha := (isRounded_ofNat a).nonneg hafinite a.cast_nonneg
  have hquotient := rounds_div hbfinite hfinite (ha.trans hvalue) hpos
  -- a part of the whole is at most one, so it is finite
  have hone : value (Float.ofNat b) / value (Float.ofNat c) ≤ 1 := div_le_one_of_le₀ hbvalue hpos.le
  obtain ⟨hqfinite, -⟩ := hquotient.isRounded.value_le representable_one
    (one_lt_zpow₀ one_lt_two (by norm_num)) hone
  obtain ⟨hpfinite, -, hle⟩ := ((rounds_div hafinite hfinite ha hpos).mono hquotient (by gcongr)).resolve_left
    (hnotinf hqfinite)
  exact (le_iff_value hpfinite hqfinite).2 hle

/-- half of a count that is not too great is exact -/
theorem value_ofNat_div_two {n : ℕ} (hn : n ≤ 2 ^ 53) : (Float.ofNat n / Float.ofNat 2).isFinite = true ∧
    value (Float.ofNat n / Float.ofNat 2) = n / 2 := by
  have hexact : ∀ m : ℕ, m ≤ 2 ^ 53 → (Float.ofNat m).isFinite = true ∧ value (Float.ofNat m) = m := fun m hm =>
    (isRounded_ofNat m).value_eq (representable_of_le hm)
      (lt_of_le_of_lt (by exact_mod_cast hm) (zpow_lt_zpow_right₀ one_lt_two (by norm_num : (53 : ℤ) < 1024)))
  obtain ⟨hfinite, hvalue⟩ := hexact n hn
  obtain ⟨htwo, hvalueTwo⟩ := hexact 2 (by norm_num)
  have hrounded := isRounded_div hfinite htwo (hvalue ▸ n.cast_nonneg) (hvalueTwo ▸ two_pos)
  rw [hvalue, hvalueTwo, Nat.cast_ofNat] at hrounded
  have hrepresentable : Representable (n / 2 : ℚ) := ⟨n, -1, hn, by decide, by rw [zpow_neg_one, div_eq_mul_inv]⟩
  refine hrounded.value_eq hrepresentable ?_
  calc (n / 2 : ℚ) ≤ n := half_le_self n.cast_nonneg
    _ ≤ 2 ^ (53 : ℤ) := by exact_mod_cast hn
    _ < 2 ^ (1024 : ℤ) := zpow_lt_zpow_right₀ one_lt_two (by norm_num)

/-- all of a whole that is not too great for a double -/
theorem ratio_self (hlt : c < 2 ^ 64) : Arithmetic.ratio Float c c = if 0 < c then 1.0 else 0.0 := by
  unfold Arithmetic.ratio
  rcases Nat.eq_zero_or_pos c with rfl | hc
  · rfl
  · rw [if_neg hc.ne', if_pos hc]
    exact div_self_of_pos (isFinite_ofNat hlt) (value_ofNat_pos hc (isFinite_ofNat hlt))

theorem not_ratio_lt_ratio (hab : a ≤ b) (c : ℕ) : ¬ Arithmetic.ratio Float b c < Arithmetic.ratio Float a c := by
  unfold Arithmetic.ratio
  split_ifs with hc
  · decide
  · exact not_div_lt_div hab (Nat.pos_of_ne_zero hc)

theorem ratio_le_ratio (hab : a ≤ b) (hbc : b ≤ c) (hlt : c < 2 ^ 64) :
    Arithmetic.ratio Float a c ≤ Arithmetic.ratio Float b c := by
  unfold Arithmetic.ratio
  split_ifs with hc
  · decide
  · exact div_le_div hab hbc (Nat.pos_of_ne_zero hc) hlt

end

end RankEval.Double
