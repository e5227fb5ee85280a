/-
Two readings of one number. As a text by itself it is read as the nearest double. The quick reading rounds twice, once
when the digits become a double and once when that is scaled. It gives the nearest double wherever the first of the two
has nothing to round: the digits make a double, and so does the power of ten, so that a single product or quotient is
rounded.

- `float?_of_ofChars?`: a number as a text by itself.
- `scan_of_lt`: digits that fit in 64 bits are taken in as they are.
- `powerOfTen_eq`: the powers of ten that are doubles.
- `applyExponent_of_pos`: scaling, where nothing was rounded before.
- `toFloat?_of_isShort`: the quick reading of a short number is the nearest double.
-/
import RankEval.Json.Number
import RankEval.Proofs.Decimal.Layouts
import RankEval.Proofs.Decimal.Rounded
import RankEval.Proofs.Json.Numbers

namespace RankEval.Json.Number

open Decimal (Numeral ofDigits ofDigits_append)
open Double (IsRounded Representable Rounds representable_of_le representable_two_zpow value)

/-! ## A text by itself -/

section
variable {negative : Bool} {cs more rest : List Char} {whole : List ℕ}

theorem numeral?_of_point (hspan : Decimal.spanDigits cs = (whole, '.' :: more)) (hne : whole ≠ []) :
    Decimal.numeral? negative cs = (Decimal.exponent? (Decimal.spanDigits more).2).map fun e =>
      ⟨negative, whole, (Decimal.spanDigits more).1, e⟩ := by
  have hwhole : whole.isEmpty = false := List.isEmpty_eq_false_iff.2 hne
  simp only [Decimal.numeral?, hspan, hwhole, Bool.false_and, Bool.false_eq_true, if_false]

theorem numeral?_of_head_ne (hspan : Decimal.spanDigits cs = (whole, rest)) (hne : whole ≠ [])
    (hpoint : rest.head? ≠ some '.') :
    Decimal.numeral? negative cs = (Decimal.exponent? rest).map fun e => ⟨negative, whole, [], e⟩ := by
  have hwhole : whole.isEmpty = false := List.isEmpty_eq_false_iff.2 hne
  unfold Decimal.numeral?
  rw [hspan]
  dsimp only
  split
  · exact absurd rfl hpoint
  · rw [hwhole, Bool.false_and, if_neg Bool.false_ne_true]

theorem tail?_of_head_ne (hpoint : rest.head? ≠ some '.') :
    tail? negative whole rest =
      (Decimal.exponent? rest).map fun e => ⟨⟨negative, whole, [], e⟩, rest.isEmpty⟩ := by
  unfold tail?
  split
  · exact absurd rfl hpoint
  · rfl

/-- behind its sign, a number is a numeral -/
theorem numeral?_of_unsigned? {n : Number} (h : unsigned? negative cs = some n) :
    Decimal.numeral? negative cs = some n.numeral := by
  obtain ⟨whole, rest, hspan, hne, htail⟩ : ∃ whole rest, Decimal.spanDigits cs = (whole, rest) ∧ whole ≠ [] ∧
      tail? negative whole rest = some n := by
    unfold unsigned? at h
    split at h
    · cases h
    · cases h
    · next whole rest hempty _ hspan => exact ⟨whole, rest, hspan, hempty, h⟩
  by_cases hpoint : rest.head? = some '.'
  · obtain ⟨more, rfl⟩ := List.head?_eq_some_iff.1 hpoint
    rw [numeral?_of_point hspan hne]
    rw [tail?] at htail
    split at htail
    · cases htail
    · next fraction tail _ hfraction =>
      obtain ⟨e, he, rfl⟩ := Option.map_eq_some_iff.1 htail
      rw [hfraction, he]
      rfl
  · rw [tail?_of_head_ne hpoint] at htail
    obtain ⟨e, he, rfl⟩ := Option.map_eq_some_iff.1 htail
    rw [numeral?_of_head_ne hspan hne hpoint, he]
    rfl

end

/-- **A number is read as the nearest double where it is a text by itself.** -/
theorem float?_of_ofChars? {cs : List Char} {n : Number} (h : ofChars? cs = some n) :
    Decimal.float? cs = some n.numeral.toFloat := by
  by_cases hminus : cs.head? = some '-'
  · obtain ⟨cs, rfl⟩ := List.head?_eq_some_iff.1 hminus
    rw [ofChars?_minus] at h
    rw [Decimal.float?, Decimal.unsigned?, numeral?_of_unsigned? h]
  · rw [ofChars?_of_head_ne hminus] at h
    obtain ⟨c, rest, rfl, hdigit, -⟩ := chars_of_unsigned? h
    have hnumeral := numeral?_of_unsigned? h
    unfold Decimal.float?
    split
    · next heq => cases heq; cases hdigit
    · next heq => cases heq; cases hdigit
    · rw [Decimal.unsigned?, hnumeral]

/-! ## Digits -/

theorem ofDigits_cons (d : ℕ) (ds : List ℕ) : ofDigits (d :: ds) = d * 10 ^ ds.length + ofDigits ds := by
  have hsingle : ofDigits [d] = d := by simp [ofDigits]
  rw [← List.singleton_append, ofDigits_append, hsingle]

/-- a significand with the digits behind it -/
def withDigits (significand : ℕ) (ds : List ℕ) : ℕ := significand * 10 ^ ds.length + ofDigits ds

theorem withDigits_cons (significand d : ℕ) (ds : List ℕ) :
    withDigits significand (d :: ds) = withDigits (significand * 10 + d) ds := by
  rw [withDigits, withDigits, ofDigits_cons, List.length_cons, pow_succ]
  ring

theorem le_withDigits (significand : ℕ) (ds : List ℕ) : significand ≤ withDigits significand ds :=
  (Nat.le_mul_of_pos_right _ (Nat.pow_pos (by decide))).trans (Nat.le_add_right _ _)

section
variable {significand : ℕ} {exponent : ℤ} {ds : List ℕ}

/-- the next digit is taken in as long as all of them fit -/
theorem fits_of_withDigits_cons {d : ℕ} (h : withDigits significand (d :: ds) < 2 ^ 64) :
    ¬ (false || decide (Nat.pow 2 64 ≤ significand * 10 + d)) = true := by
  rw [withDigits_cons] at h
  have hlt : significand * 10 + d < Nat.pow 2 64 := (le_withDigits _ ds).trans_lt h
  simpa using hlt

theorem foldl_whole (h : withDigits significand ds < 2 ^ 64) :
    ds.foldl Scan.whole ⟨significand, exponent, false⟩ = ⟨withDigits significand ds, exponent, false⟩ := by
  induction ds generalizing significand with
  | nil => simp [withDigits, ofDigits]
  | cons d ds ih =>
    have hstep : Scan.whole ⟨significand, exponent, false⟩ d = ⟨significand * 10 + d, exponent, false⟩ :=
      if_neg (fits_of_withDigits_cons h)
    rw [withDigits_cons] at h ⊢
    rw [List.foldl_cons, hstep, ih h]

theorem foldl_fraction (h : withDigits significand ds < 2 ^ 64) :
    ds.foldl Scan.fraction ⟨significand, exponent, false⟩ =
      ⟨withDigits significand ds, exponent - ds.length, false⟩ := by
  induction ds generalizing significand exponent with
  | nil => simp [withDigits, ofDigits]
  | cons d ds ih =>
    have hstep : Scan.fraction ⟨significand, exponent, false⟩ d = ⟨significand * 10 + d, exponent - 1, false⟩ :=
      if_neg (fits_of_withDigits_cons h)
    have hcount : exponent - 1 - ds.length = exponent - (d :: ds).length := by
      rw [List.length_cons]
      push_cast
      ring
    rw [withDigits_cons] at h ⊢
    rw [List.foldl_cons, hstep, ih h, hcount]

end

/-- digits that fit in 64 bits are taken in as they are -/
theorem scan_of_lt {n : Numeral} (h : n.coefficient < 2 ^ 64) :
    scan n = ⟨n.coefficient, -n.fraction.length, false⟩ := by
  have hsplit : n.coefficient = withDigits (withDigits 0 n.whole) n.fraction := by
    rw [Numeral.coefficient, ofDigits_append, withDigits, withDigits, Nat.zero_mul, Nat.zero_add]
  rw [hsplit] at h ⊢
  rw [scan, foldl_whole ((le_withDigits _ _).trans_lt h)]
  dsimp only
  rw [foldl_fraction h, zero_sub]

/-! ## Powers of ten -/

/-- powers of ten up to the 22nd have few enough odd bits -/
theorem representable_ten_pow {k : ℕ} (hk : k ≤ 22) : Representable ((10 : ℚ) ^ k) := by
  refine ⟨5 ^ k, k, ?_, by omega, ?_⟩
  · calc 5 ^ k ≤ 5 ^ 22 := Nat.pow_le_pow_right (by decide) hk
      _ ≤ 2 ^ 53 := by norm_num
  · rw [zpow_natCast]
    push_cast
    rw [← mul_pow]
    norm_num

theorem ten_pow_lt {k : ℕ} (hk : k ≤ 22) : (10 : ℚ) ^ k < 2 ^ (74 : ℤ) := by
  calc (10 : ℚ) ^ k ≤ 10 ^ 22 := pow_le_pow_right₀ (by norm_num) hk
    _ < 2 ^ (74 : ℤ) := by norm_num

/-- numbers in the middle of the range are far from infinity -/
theorem two_zpow_lt_top {e : ℤ} (he : e < 1024) : (2 : ℚ) ^ e < 2 ^ (1024 : ℤ) := zpow_lt_zpow_right₀ one_lt_two he

/-- a whole number that is a double -/
theorem value_ofNat {c : ℕ} (hc : Representable c) (hlt : (c : ℚ) < 2 ^ (1024 : ℤ)) :
    (Float.ofNat c).isFinite = true ∧ value (Float.ofNat c) = c := (Double.isRounded_ofNat c).value_eq hc hlt

theorem value_ten_pow {k : ℕ} (hk : k ≤ 22) :
    (Float.ofNat (10 ^ k)).isFinite = true ∧ value (Float.ofNat (10 ^ k)) = 10 ^ k := by
  have hcast : ((10 ^ k : ℕ) : ℚ) = 10 ^ k := by
    push_cast
    rfl
  rw [← hcast]
  refine value_ofNat ?_ ?_ <;> rw [hcast]
  · exact representable_ten_pow hk
  · exact (ten_pow_lt hk).trans (two_zpow_lt_top (by norm_num))

theorem value_ten_pow_pos {k : ℕ} (hk : k ≤ 22) : 0 < value (Float.ofNat (10 ^ k)) := by
  obtain ⟨-, hvalue⟩ := value_ten_pow hk
  rw [hvalue]
  positivity

theorem powerOfTen_eq {k : ℕ} (hk : k ≤ 22) : powerOfTen k = Float.ofNat (10 ^ k) := by
  obtain ⟨hfinite, -⟩ := value_ten_pow hk
  have hrounds : Rounds ((1 : ℕ) * 10 ^ Int.ofNat k) (Float.ofNat (10 ^ k)) := by
    have h := Double.rounds_ofNat (10 ^ k)
    rw [Int.ofNat_eq_natCast, zpow_natCast, Nat.cast_one, one_mul]
    push_cast at h
    exact h
  have hpositive := Decimal.toFloat_nearest_of_rounds hrounds hfinite (value_ten_pow_pos hk) false
  exact hpositive.trans (if_neg Bool.false_ne_true)

theorem isInf_of_isFinite {x : Float} (h : x.isFinite = true) : x.isInf = false := by
  change x.toModel.unpack.isFinite = true at h
  change x.toModel.unpack.isInf = false
  generalize x.toModel.unpack = u at h ⊢
  cases u <;> first | rfl | cases h

/-! ## Scaling -/

section
variable {c : ℕ} {e : ℤ}

/-- scaled numbers are in the middle of the range of doubles -/
theorem scaled_bounds (hpos : 0 < c) (hc : c ≤ 2 ^ 53) (he : e.natAbs ≤ 22) :
    (2 : ℚ) ^ (-74 : ℤ) ≤ c * 10 ^ e ∧ (c : ℚ) * 10 ^ e ≤ 2 ^ (127 : ℤ) := by
  have hone : (1 : ℚ) ≤ c := by exact_mod_cast hpos
  have htop : (c : ℚ) ≤ 2 ^ 53 := by exact_mod_cast hc
  have hten : (1 : ℚ) ≤ 10 := by norm_num
  constructor
  · calc (2 : ℚ) ^ (-74 : ℤ) ≤ 10 ^ (-22 : ℤ) := by norm_num
      _ ≤ 10 ^ e := zpow_le_zpow_right₀ hten (by omega)
      _ ≤ c * 10 ^ e := le_mul_of_one_le_left (by positivity) hone
  · calc (c : ℚ) * 10 ^ e ≤ 2 ^ 53 * 10 ^ (22 : ℤ) :=
          mul_le_mul htop (zpow_le_zpow_right₀ hten (by omega)) (by positivity) (by positivity)
      _ ≤ 2 ^ (127 : ℤ) := by norm_num

/-- what a scaled number is rounded to is finite and positive -/
theorem isFinite_of_rounds_scaled {x : Float} (h : Rounds (c * 10 ^ e) x) (hpos : 0 < c) (hc : c ≤ 2 ^ 53)
    (he : e.natAbs ≤ 22) : x.isFinite = true ∧ 0 < value x := by
  obtain ⟨hlow, hhigh⟩ := scaled_bounds hpos hc he
  have hleast : Representable (2 ^ (-74 : ℤ)) := representable_two_zpow (by norm_num)
  have hgreatest : Representable (2 ^ (127 : ℤ)) := representable_two_zpow (by norm_num)
  obtain ⟨hfinite, -⟩ := h.isRounded.value_le hgreatest (two_zpow_lt_top (by norm_num)) hhigh
  exact ⟨hfinite, (Double.two_zpow_pos _).trans_le (h.isRounded.le_value hfinite hleast hlow)⟩

/-- Where neither the digits nor the power of ten had to be rounded, scaling rounds once. -/
theorem applyExponent_of_pos (hpos : 0 < c) (hc : c ≤ 2 ^ 53) (he : e.natAbs ≤ 22) (fuel : ℕ) :
    ∃ x, applyExponent (fuel + 1) (Float.ofNat c) e = some x ∧ Rounds (c * 10 ^ e) x ∧ x.isFinite = true ∧
      0 < value x := by
  have hlt : (c : ℚ) < 2 ^ (1024 : ℤ) :=
    lt_of_le_of_lt (by exact_mod_cast hc) (two_zpow_lt_top (by norm_num : (53 : ℤ) < 1024))
  obtain ⟨hdigits, hcvalue⟩ := value_ofNat (representable_of_le hc) hlt
  obtain ⟨hpower, hpvalue⟩ := value_ten_pow he
  have hc0 : 0 ≤ value (Float.ofNat c) := hcvalue ▸ c.cast_nonneg
  have hp0 := value_ten_pow_pos he
  rw [applyExponent, if_pos (he.trans (by decide)), powerOfTen_eq he]
  by_cases hsign : 0 ≤ e
  · have hten : (10 : ℚ) ^ e = 10 ^ e.natAbs := by rw [← zpow_natCast, Int.natAbs_of_nonneg hsign]
    have hrounds := Double.rounds_mul hdigits hpower hc0 hp0.le
    rw [hcvalue, hpvalue, ← hten] at hrounds
    have hfinite := isFinite_of_rounds_scaled hrounds hpos hc he
    rw [if_pos hsign]
    dsimp only
    rw [isInf_of_isFinite hfinite.1, if_neg Bool.false_ne_true]
    exact ⟨_, rfl, hrounds, hfinite⟩
  · have hten : (10 : ℚ) ^ e = (10 ^ e.natAbs)⁻¹ := by
      rw [← zpow_natCast, ← zpow_neg]
      congr 1
      omega
    have hrounds := Double.rounds_div hdigits hpower hc0 hp0
    rw [hcvalue, hpvalue, div_eq_mul_inv, ← hten] at hrounds
    rw [if_neg hsign]
    exact ⟨_, rfl, hrounds, isFinite_of_rounds_scaled hrounds hpos hc he⟩

/-- zero stays zero -/
theorem applyExponent_zero (he : e.natAbs ≤ 22) (fuel : ℕ) :
    applyExponent (fuel + 1) (Float.ofNat 0) e = some 0.0 := by
  obtain ⟨hpower, -⟩ := value_ten_pow he
  have hp0 := value_ten_pow_pos he
  obtain ⟨hzero, -⟩ | ⟨-, m, q, hm, hunpack, -⟩ := Double.unpack_of_nonneg hpower hp0.le
  · exact absurd hzero hp0.ne'
  have hproduct : Float.ofNat 0 * Float.ofNat (10 ^ e.natAbs) = 0.0 := by
    rw [Double.mul_eq_pack, hunpack]
    rfl
  have hquotient : Float.ofNat 0 / Float.ofNat (10 ^ e.natAbs) = 0.0 := by
    rw [Double.div_eq_pack, hunpack]
    rfl
  rw [applyExponent, if_pos (he.trans (by decide)), powerOfTen_eq he]
  dsimp only
  rw [hproduct, hquotient]
  split_ifs <;> first | rfl | contradiction

end

/-! ## Short numbers -/

/-- a number whose digits make a double and that is scaled by a power of ten that is a double -/
structure IsShort (n : Number) : Prop where
  coefficient : n.numeral.coefficient ≤ 2 ^ 53
  scale : n.numeral.scale.natAbs ≤ 22
  exponent : n.numeral.exponent.natAbs < 2 ^ 31

instance (n : Number) : Decidable n.IsShort :=
  decidable_of_iff (n.numeral.coefficient ≤ 2 ^ 53 ∧ n.numeral.scale.natAbs ≤ 22 ∧ n.numeral.exponent.natAbs < 2 ^ 31)
    ⟨fun ⟨hc, hscale, he⟩ => ⟨hc, hscale, he⟩, fun ⟨hc, hscale, he⟩ => ⟨hc, hscale, he⟩⟩

/-- **The quick reading of a short number is the nearest double.** -/
theorem toFloat?_of_isShort {n : Number} (h : n.IsShort) : n.toFloat? = some n.numeral.toFloat := by
  obtain ⟨hc, he, hexponent⟩ := h
  have hscan := scan_of_lt (hc.trans_lt (by norm_num))
  have hscale : -(n.numeral.fraction.length : ℤ) + n.numeral.exponent = n.numeral.scale := by
    rw [Numeral.scale, Int.ofNat_eq_natCast]
    ring
  have hlimit : ¬ exponentLimit ≤ n.numeral.exponent.natAbs := by
    change ¬ (2147483648 : ℤ) ≤ _
    omega
  unfold toFloat?
  rw [hscan]
  dsimp only
  rw [if_neg hlimit, hscale, Numeral.toFloat]
  generalize n.numeral.coefficient = c at hc ⊢
  rcases Nat.eq_zero_or_pos c with rfl | hpos
  · rw [applyExponent_zero he, Decimal.nearest, if_pos rfl]
    cases n.numeral.negative <;> rfl
  · obtain ⟨x, hx, hrounds, hfinite, hvalue⟩ := applyExponent_of_pos hpos hc he 7
    rw [hx, Option.map_some, Decimal.toFloat_nearest_of_rounds hrounds hfinite hvalue]

end RankEval.Json.Number
