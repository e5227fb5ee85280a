/-
Functions that are computed to the nearest double or the one next to it. No more is assumed of powers and logarithms,
which a platform takes from its own library: what they return is never on the wrong side of a double. So they are exact
where the exact result is a double, and keep to any bound that is a double; but they need not be monotone, and at the
end of the range they may be infinite.

- `IsFaithful.ge`, `IsFaithful.le`: bounds carry over from the exact result.
- `Faithful`: what is assumed of `exp2` and `log2`.
- `faithful_nearest`: rounding to the nearest double is faithful.
-/
import RankEval.Proofs.Double.Operations

namespace RankEval.Double

/-- no double is between a number and what it is computed as -/
def IsFaithful (y : ℝ) (x : Float) : Prop :=
  ∀ b : Float, b.isFinite = true → ((value b : ℝ) ≤ y → b ≤ x) ∧ (y ≤ value b → x ≤ b)

/-- what is representable and in range is a double -/
theorem exists_double {g : ℚ} (hg : Representable g) (hlt : g < 2 ^ (1024 : ℤ)) :
    ∃ b : Float, b.isFinite = true ∧ value b = g := by
  obtain ⟨n, j, hn, hj, rfl⟩ := id hg
  exact ⟨_, (isRounded_normalize n j .positive).value_eq hg hlt⟩

section
variable {x : Float} {y : ℝ} {g : ℚ}

theorem IsFaithful.ge (h : IsFaithful y x) (hg : Representable g) (hlt : g < 2 ^ (1024 : ℤ)) (hle : g ≤ y) :
    x.isFinite = true ∧ g ≤ value x ∨ x.toModel.unpack = .infinity .positive := by
  obtain ⟨b, hb, rfl⟩ := exists_double hg hlt
  exact isFinite_or_infinity_of_le hb ((h b hb).1 hle)

theorem IsFaithful.le_value (h : IsFaithful y x) (hx : x.isFinite = true) (hg : Representable g)
    (hlt : g < 2 ^ (1024 : ℤ)) (hle : g ≤ y) : g ≤ value x := by
  rcases h.ge hg hlt hle with ⟨-, hle⟩ | hinfinite
  · exact hle
  · exact absurd hx (Bool.eq_false_iff.1 (isFinite_infinity hinfinite))

theorem IsFaithful.le (h : IsFaithful y x) (hy : 0 ≤ y) (hg : Representable g) (hlt : g < 2 ^ (1024 : ℤ))
    (hle : y ≤ g) : x.isFinite = true ∧ value x ≤ g := by
  obtain ⟨b, hb, rfl⟩ := exists_double hg hlt
  have hxb := (h b hb).2 hle
  rcases h.ge representable_zero (by positivity) (by exact_mod_cast hy) with ⟨hx, -⟩ | hinfinite
  · exact ⟨hx, (le_iff_value hx hb).1 hxb⟩
  · exact absurd hxb (not_infinity_le hinfinite hb)

end

theorem cast_two_zpow (e : ℤ) : ((2 ^ e : ℚ) : ℝ) = 2 ^ (e : ℝ) := by
  rw [Rat.cast_zpow, Rat.cast_ofNat, Real.rpow_intCast]

/-- What is assumed of a platform's `exp2` and `log2`. -/
structure Faithful (exp2 log2 : Float → Float) : Prop where
  power : ∀ x, x.isFinite = true → IsFaithful (2 ^ (value x : ℝ)) (exp2 x)
  /-- too great a power is infinite, and not the greatest double -/
  power_infinity : ∀ x, x.isFinite = true → 1024 ≤ value x → (exp2 x).toModel.unpack = .infinity .positive
  logarithm : ∀ x, x.isFinite = true → 0 < value x → IsFaithful (Real.logb 2 (value x)) (log2 x)
  logarithm_infinity : ∀ x, x.toModel.unpack = .infinity .positive → log2 x = x

/-! ## The nearest double -/

theorem toBits_injective : Function.Injective fun x : Float => x.toModel.toBits := by
  rintro ⟨⟨b, hb⟩⟩ ⟨⟨c, hc⟩⟩ h
  cases h
  rfl

instance finite_float : Finite Float := .of_injective _ toBits_injective

theorem isFaithful_infinity {x : Float} {y : ℝ} (hy : ((2 ^ (1024 : ℤ) : ℚ) : ℝ) ≤ y)
    (hx : x.toModel.unpack = .infinity .positive) : IsFaithful y x := by
  refine fun b hb => ⟨fun _ => le_infinity hb hx, fun hle => ?_⟩
  have hlarge : 2 ^ (1024 : ℤ) ≤ value b := by exact_mod_cast hy.trans hle
  exact absurd (value_lt hb ((two_zpow_pos _).le.trans hlarge)) (not_lt.2 hlarge)

/-- no double is between a number and the one nearest to it -/
theorem exists_isFaithful (y : ℝ) : ∃ x, IsFaithful y x := by
  obtain ⟨x, hx, hnearest⟩ := Set.exists_min_image {b : Float | b.isFinite = true} (fun b => |(value b : ℝ) - y|)
    (Set.toFinite _) ⟨0.0, rfl⟩
  refine ⟨x, fun b hb => ⟨fun hle => ?_, fun hge => ?_⟩⟩
  · rw [le_iff_value hb hx]
    by_contra hlt
    have hlt : (value x : ℝ) < value b := by exact_mod_cast not_le.1 hlt
    have hdistance := hnearest b hb
    rw [abs_of_nonpos (by linarith), abs_of_nonpos (by linarith)] at hdistance
    linarith
  · rw [le_iff_value hx hb]
    by_contra hlt
    have hlt : (value b : ℝ) < value x := by exact_mod_cast not_le.1 hlt
    have hdistance := hnearest b hb
    rw [abs_of_nonneg (by linarith), abs_of_nonneg (by linarith)] at hdistance
    linarith

def infinity : Float := .ofModel (.pack (.infinity .positive))

theorem unpack_infinity : infinity.toModel.unpack = .infinity .positive := unpack_pack_infinity .positive

/-- a real function, computed to the nearest double or, from `2 ^ 1024` on, to infinity -/
noncomputable def nearest (f : ℝ → ℝ) (x : Float) : Float :=
  open Classical in
  if x.isFinite = false then x
  else if ((2 ^ (1024 : ℤ) : ℚ) : ℝ) ≤ f (value x) then infinity
  else Classical.choose (exists_isFaithful (f (value x)))

section
variable {f : ℝ → ℝ} {x : Float}

theorem isFaithful_nearest (hx : x.isFinite = true) : IsFaithful (f (value x)) (nearest f x) := by
  unfold nearest
  rw [if_neg (by rw [hx]; decide)]
  split_ifs with hlarge
  · exact isFaithful_infinity hlarge unpack_infinity
  · exact Classical.choose_spec (exists_isFaithful _)

theorem nearest_of_large (hx : x.isFinite = true) (h : ((2 ^ (1024 : ℤ) : ℚ) : ℝ) ≤ f (value x)) :
    (nearest f x).toModel.unpack = .infinity .positive := by
  unfold nearest
  rw [if_neg (by rw [hx]; decide), if_pos h, unpack_infinity]

end

/-- powers and logarithms to the nearest double are faithful -/
theorem faithful_nearest : Faithful (nearest fun y => 2 ^ y) (nearest (Real.logb 2)) := by
  refine ⟨fun x hx => isFaithful_nearest hx, fun x hx hlarge => ?_, fun x hx _ => isFaithful_nearest hx, fun x hx => ?_⟩
  · refine nearest_of_large hx ?_
    rw [cast_two_zpow]
    exact Real.rpow_le_rpow_of_exponent_le one_le_two (by exact_mod_cast hlarge)
  · rw [nearest, if_pos (isFinite_infinity hx)]

end RankEval.Double
