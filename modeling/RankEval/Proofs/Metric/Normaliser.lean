/-
The normaliser of normalised gain as it is computed, in doubles. Inputs are checked one by one, and only for being
finite and not negative; what gains and sums make of them is not checked. So the gain of the ideal ranking can overflow
although every relevance is in range, and with the exponential gain it can vanish although some relevance is positive.

The first of the ideal ranking keeps its whole gain, since the discount there is 1. From it the normaliser has a lower
bound that no rounding takes away. From above it is at most as many times the greatest gain as there are positions.

- `Gain.Visible`, `Gain.Within`: which relevances have a gain that is not rounded away, and one that is at most `2 ^ e`.
- `gain_visible`, `gain_within`: the gain of a relevance in doubles.
- `value_le_ideal`, `isFinite_dcg`: the bounds of the normaliser.
- `ndcg_normaliser`: what the normaliser can be, and when it is finite and positive.
-/
import RankEval.Proofs.Double.Faithful
import RankEval.Proofs.Double.Sums
import RankEval.Proofs.Metric.NormalisedGain
import RankEval.Metric.Record

namespace RankEval.Metric

open Double
open Arithmetic (total)

/-! ## Gains and discounts with given powers and logarithms -/

/-- what a relevance is worth, with `exp2` for powers of two -/
def Gain.applyWith (exp2 : Float → Float) : Gain → Float → Float
  | .linear, relevance => relevance
  | .exponential, relevance => exp2 relevance - 1.0

/-- what the gain at a position is divided by, with `log2` for logarithms -/
def discountWith (log2 : Float → Float) (position : ℕ) : Float := log2 (Float.ofNat position + 2.0)

/-- the gain of the first `c` of the ideal ranking -/
def idealWith (exp2 log2 : Float → Float) (g : Gain) (relevance : List Float) (c : ℕ) : Float :=
  dcg (g.applyWith exp2) (discountWith log2) (topRelevance relevance relevance c)

/-- the gain of the first `c` of the ranking by `scores` over that of the ideal ranking -/
def ndcgWith (exp2 log2 : Float → Float) (g : Gain) (relevance scores : List Float) (c : ℕ) : Float :=
  normalisedDcg (g.applyWith exp2) (discountWith log2) relevance scores c

theorem Gain.applyWith_exp2 (g : Gain) : g.applyWith Float.exp2 = g.apply := by
  cases g <;> rfl

theorem normalisedDcg_eq_ndcgWith (g : Gain) (relevance scores : List Float) (c : ℕ) :
    normalisedDcg g.apply discount relevance scores c = ndcgWith Float.exp2 Float.log2 g relevance scores c := by
  rw [ndcgWith, g.applyWith_exp2]
  rfl

/-- relevances that are surely worth something: to the exponential gain, those near zero are not -/
def Gain.Visible : Gain → ℚ → Prop
  | .linear, relevance => 0 < relevance
  | .exponential, relevance => 2 ^ (-51 : ℤ) ≤ relevance

/-- relevances that are worth at most `2 ^ e` -/
def Gain.Within (e : ℤ) : Gain → ℚ → Prop
  | .linear, relevance => relevance ≤ 2 ^ e
  | .exponential, relevance => relevance ≤ e

section
variable {g : Gain} {r s : ℚ} {e : ℤ}

theorem Gain.Visible.pos (h : g.Visible r) : 0 < r := by
  cases g with
  | linear => exact h
  | exponential => exact (two_zpow_pos _).trans_le h

theorem Gain.Visible.mono (h : g.Visible r) (hrs : r ≤ s) : g.Visible s := by
  cases g with
  | linear => exact lt_of_lt_of_le h hrs
  | exponential => exact le_trans h hrs

theorem Gain.Within.mono (h : g.Within e s) (hrs : r ≤ s) : g.Within e r := by
  cases g with
  | linear => exact hrs.trans h
  | exponential => exact hrs.trans h

end

section
variable {exp2 log2 : Float → Float} {g : Gain} {r : Float} {e : ℤ}

/-! ## The gain of a relevance -/

theorem small_lt_range {v : ℚ} (h : v ≤ 4) : v < 2 ^ (1024 : ℤ) := by
  calc v ≤ 2 ^ (2 : ℤ) := h.trans_eq (by norm_num)
    _ < 2 ^ (1024 : ℤ) := zpow_lt_zpow_right₀ one_lt_two (by norm_num)

theorem two_zpow_lt_range {c : ℕ} (hc : 0 < c) (h : (min c (2 ^ 53) : ℕ) * (2 : ℚ) ^ e < 2 ^ (1024 : ℤ)) :
    (2 : ℚ) ^ e < 2 ^ (1024 : ℤ) := by
  have hone : (1 : ℚ) ≤ (min c (2 ^ 53) : ℕ) := by exact_mod_cast le_min hc (by norm_num)
  exact (le_mul_of_one_le_left (two_zpow_pos e).le hone).trans_lt h

/-- the exponential gain is that of a power that is at least 1, less 1, rounded -/
theorem isRounded_exponential (hf : Faithful exp2 log2) (hr : r.isFinite = true) (h0 : 0 ≤ value r)
    (hpower : (exp2 r).isFinite = true) :
    1 ≤ value (exp2 r) ∧ IsRounded (value (exp2 r) - 1) (Gain.exponential.applyWith exp2 r) := by
  have hexact : ((1 : ℚ) : ℝ) ≤ 2 ^ (value r : ℝ) := by
    rw [Rat.cast_one]
    exact Real.one_le_rpow one_le_two (by exact_mod_cast h0)
  have hone := (hf.power r hr).le_value hpower representable_one (small_lt_range (by norm_num)) hexact
  have hsub := isRounded_sub hpower value_one.1 (by rw [value_one.2]; norm_num) (value_one.2.trans_le hone)
  rw [value_one.2] at hsub
  exact ⟨hone, hsub⟩

/-- a finite gain is not negative -/
theorem gain_nonneg (hf : Faithful exp2 log2) (hr : r.isFinite = true) (h0 : 0 ≤ value r)
    (hfinite : (g.applyWith exp2 r).isFinite = true) : 0 ≤ value (g.applyWith exp2 r) := by
  cases g with
  | linear => exact h0
  | exponential =>
    obtain ⟨hone, hsub⟩ := isRounded_exponential hf hr h0 (isFinite_of_sub hfinite).1
    exact hsub.nonneg hfinite (sub_nonneg.2 hone)

/-- a relevance that is worth at most `2 ^ e` gets a gain that is -/
theorem gain_within (hf : Faithful exp2 log2) (hr : r.isFinite = true) (h0 : 0 ≤ value r) (he : -1074 ≤ e)
    (hrange : (2 : ℚ) ^ e < 2 ^ (1024 : ℤ)) (hwithin : g.Within e (value r)) :
    (g.applyWith exp2 r).isFinite = true ∧ value (g.applyWith exp2 r) ≤ 2 ^ e := by
  cases g with
  | linear => exact ⟨hr, hwithin⟩
  | exponential =>
    have hexact : (2 : ℝ) ^ (value r : ℝ) ≤ ((2 ^ e : ℚ) : ℝ) := by
      rw [cast_two_zpow]
      exact Real.rpow_le_rpow_of_exponent_le one_le_two (by exact_mod_cast hwithin)
    obtain ⟨hpower, hle⟩ := (hf.power r hr).le (by positivity) (representable_two_zpow he) hrange hexact
    obtain ⟨-, hsub⟩ := isRounded_exponential hf hr h0 hpower
    exact hsub.value_le (representable_two_zpow he) hrange (by linarith)

/-- what is representable below the exact power, less 1, is not above the exponential gain -/
theorem le_exponential (hf : Faithful exp2 log2) (hr : r.isFinite = true) (h0 : 0 ≤ value r) {b c : ℚ}
    (hb : Representable b) (hrange : b < 2 ^ (1024 : ℤ)) (hle : b ≤ (2 : ℝ) ^ (value r : ℝ)) (hc : Representable c)
    (hcb : c ≤ b - 1) (hfinite : (Gain.exponential.applyWith exp2 r).isFinite = true) :
    c ≤ value (Gain.exponential.applyWith exp2 r) := by
  have hpower := (isFinite_of_sub hfinite).1
  obtain ⟨-, hsub⟩ := isRounded_exponential hf hr h0 hpower
  have hge := (hf.power r hr).le_value hpower hb hrange hle
  exact hsub.le_value hfinite hc (by linarith)

/-- a power of two is further from 1 than half the exponent is from 0 -/
theorem one_add_half_le_rpow {y : ℝ} (hy : 0 ≤ y) : 1 + y / 2 ≤ 2 ^ y := by
  have hlog : (1 : ℝ) / 2 ≤ Real.log 2 := by linarith [Real.log_two_gt_d9]
  calc 1 + y / 2 = 1 / 2 * y + 1 := by ring
    _ ≤ Real.log 2 * y + 1 := by gcongr
    _ ≤ Real.exp (Real.log 2 * y) := Real.add_one_le_exp _
    _ = 2 ^ y := (Real.rpow_def_of_pos two_pos y).symm

/-- to the exponential gain a visible relevance is worth at least the last bit of 1 -/
theorem le_exponential_of_visible (hf : Faithful exp2 log2) (hr : r.isFinite = true)
    (hvisible : Gain.exponential.Visible (value r)) (hfinite : (Gain.exponential.applyWith exp2 r).isFinite = true) :
    2 ^ (-52 : ℤ) ≤ value (Gain.exponential.applyWith exp2 r) := by
  have h0 := hvisible.pos.le
  have hb : Representable (1 + 2 ^ (-52 : ℤ)) := ⟨2 ^ 52 + 1, -52, by norm_num, by norm_num, by norm_num⟩
  have hrange : (1 : ℚ) + 2 ^ (-52 : ℤ) < 2 ^ (1024 : ℤ) := small_lt_range (by norm_num)
  have hexact : ((1 + 2 ^ (-52 : ℤ) : ℚ) : ℝ) ≤ 2 ^ (value r : ℝ) := by
    have hy : ((2 ^ (-51 : ℤ) : ℚ) : ℝ) ≤ value r := by exact_mod_cast hvisible
    calc ((1 + 2 ^ (-52 : ℤ) : ℚ) : ℝ) = 1 + ((2 ^ (-51 : ℤ) : ℚ) : ℝ) / 2 := by norm_num
      _ ≤ 1 + (value r : ℝ) / 2 := by gcongr
      _ ≤ 2 ^ (value r : ℝ) := one_add_half_le_rpow (by exact_mod_cast h0)
  exact le_exponential hf hr h0 hb hrange hexact (representable_two_zpow (by norm_num)) (by linarith) hfinite

/-- **A visible relevance is worth something.** -/
theorem gain_visible (hf : Faithful exp2 log2) (hr : r.isFinite = true) (hvisible : g.Visible (value r))
    (hfinite : (g.applyWith exp2 r).isFinite = true) : 0 < value (g.applyWith exp2 r) := by
  cases g with
  | linear => exact hvisible
  | exponential => exact (two_zpow_pos _).trans_le (le_exponential_of_visible hf hr hvisible hfinite)

/-- a bound of something visible is not below the least double -/
theorem Gain.Visible.least_le (hvisible : g.Visible (value r)) (hwithin : g.Within e (value r))
    (hr : r.isFinite = true) : -1074 ≤ e := by
  have hpos := hvisible.pos
  cases g with
  | linear =>
    have hleast := ((representable_value hr hpos.le).least_le hpos).trans hwithin
    exact (zpow_le_zpow_iff_right₀ one_lt_two).1 hleast
  | exponential =>
    have he : (0 : ℚ) < e := hpos.trans_le hwithin
    have he : 0 < e := by exact_mod_cast he
    omega

/-- a bound that is not far above the gain -/
theorem exists_level (hf : Faithful exp2 log2) (hr : r.isFinite = true) (hvisible : g.Visible (value r))
    (hrange : (2 : ℚ) ^ e < 2 ^ (1024 : ℤ)) (hwithin : g.Within e (value r))
    (hfinite : (g.applyWith exp2 r).isFinite = true) :
    ∃ j ≤ e, g.Within j (value r) ∧ 2 ^ (j - 53) ≤ value (g.applyWith exp2 r) := by
  have hpos := hvisible.pos
  cases g with
  | linear =>
    have hle : Int.clog 2 (value r) ≤ e := (Int.le_zpow_iff_clog_le one_lt_two hpos).1 hwithin
    refine ⟨Int.clog 2 (value r), hle, Int.self_le_zpow_clog one_lt_two _, ?_⟩
    refine le_trans ?_ (Int.zpow_pred_clog_lt_self one_lt_two hpos).le
    exact zpow_le_zpow_right₀ one_le_two (by omega)
  | exponential =>
    have hceil : 0 < ⌈value r⌉ := Int.ceil_pos.2 hpos
    have hle : ⌈value r⌉ ≤ e := Int.ceil_le.2 hwithin
    have hbelow : ((⌈value r⌉ - 1 : ℤ) : ℚ) ≤ value r := by
      push_cast
      linarith [Int.ceil_lt_add_one (value r)]
    refine ⟨⌈value r⌉, hle, Int.le_ceil _, ?_⟩
    generalize ⌈value r⌉ = j at hceil hle hbelow ⊢
    rcases (show 1 ≤ j from hceil).lt_or_eq with hlt | rfl
    · -- from 2 on, taking 1 away does no more than halving
      have hexact : ((2 ^ (j - 1) : ℚ) : ℝ) ≤ 2 ^ (value r : ℝ) := by
        rw [cast_two_zpow]
        exact Real.rpow_le_rpow_of_exponent_le one_le_two (by exact_mod_cast hbelow)
      have htop : (2 : ℚ) ^ (j - 1) < 2 ^ (1024 : ℤ) := (zpow_le_zpow_right₀ one_le_two (by omega)).trans_lt hrange
      have hhalf : (2 : ℚ) ^ (j - 2) ≤ 2 ^ (j - 1) - 1 := by
        have hdouble : (2 : ℚ) ^ (j - 1) = 2 ^ (j - 2) * 2 := by
          rw [← zpow_add_one₀ two_ne_zero]
          congr 1
          omega
        have hone : (1 : ℚ) ≤ 2 ^ (j - 2) := one_le_zpow₀ one_le_two (by omega)
        linarith
      have hgain := le_exponential hf hr hpos.le (representable_two_zpow (by omega)) htop hexact
        (representable_two_zpow (by omega)) hhalf hfinite
      exact (zpow_le_zpow_right₀ one_le_two (by omega)).trans hgain
    · exact le_exponential_of_visible hf hr hvisible hfinite

/-! ## Discounts -/

/-- positions are discounted by at least 1 -/
theorem discountWith_ge (hf : Faithful exp2 log2) (p : ℕ) :
    (discountWith log2 p).isFinite = true ∧ 1 ≤ value (discountWith log2 p) ∨
      (discountWith log2 p).toModel.unpack = .infinity .positive := by
  have hp := isRounded_ofNat p
  have hposition : (Float.ofNat p + 2.0).isFinite = true ∧ 2 ≤ value (Float.ofNat p + 2.0) ∨
      (Float.ofNat p + 2.0).toModel.unpack = .infinity .positive := by
    rcases hp.isFinite_or_infinity with hfinite | hinfinite
    · have h0 := hp.nonneg hfinite p.cast_nonneg
      have hsum := isRounded_add hfinite value_two.1 h0 (by rw [value_two.2]; norm_num)
      rw [value_two.2] at hsum
      refine hsum.isFinite_or_infinity.imp_left fun hposition => ⟨hposition, ?_⟩
      exact hsum.le_value hposition representable_two (by linarith)
    · exact .inr (add_infinity hinfinite value_two.1)
  unfold discountWith
  generalize Float.ofNat p + 2.0 = position at hposition ⊢
  rcases hposition with ⟨hfinite, htwo⟩ | hinfinite
  · have htwo' : (2 : ℝ) ≤ value position := by exact_mod_cast htwo
    refine (hf.logarithm position hfinite (by linarith)).ge representable_one (small_lt_range (by norm_num)) ?_
    rw [Rat.cast_one, Real.le_logb_iff_rpow_le one_lt_two (by linarith), Real.rpow_one]
    exact htwo'
  · rw [hf.logarithm_infinity position hinfinite]
    exact .inr hinfinite

/-- the first position is not discounted -/
theorem discountWith_zero (hf : Faithful exp2 log2) :
    (discountWith log2 0).isFinite = true ∧ value (discountWith log2 0) = 1 := by
  have hzero : (Float.ofNat 0).isFinite = true ∧ value (Float.ofNat 0) = 0 := ⟨by decide, rfl⟩
  have hsum := isRounded_add hzero.1 value_two.1 hzero.2.ge (by rw [value_two.2]; norm_num)
  rw [hzero.2, value_two.2, zero_add] at hsum
  obtain ⟨hfinite, hvalue⟩ := hsum.value_eq representable_two (small_lt_range (by norm_num))
  have hlog := hf.logarithm _ hfinite (by rw [hvalue]; norm_num)
  rw [hvalue, Rat.cast_ofNat, Real.logb_self_eq_one one_lt_two] at hlog
  have hrange : (1 : ℚ) < 2 ^ (1024 : ℤ) := small_lt_range (by norm_num)
  have hexact : ((1 : ℚ) : ℝ) = 1 := Rat.cast_one
  obtain ⟨hdiscount, hle⟩ := hlog.le zero_le_one representable_one hrange hexact.ge
  exact ⟨hdiscount, le_antisymm hle (hlog.le_value hdiscount representable_one hrange hexact.le)⟩

/-- the second position is discounted by less than 13 / 8 -/
theorem discountWith_one (hf : Faithful exp2 log2) : (discountWith log2 1).isFinite = true ∧
    1 ≤ value (discountWith log2 1) ∧ value (discountWith log2 1) ≤ 13 / 8 := by
  have hone : (Float.ofNat 1).isFinite = true ∧ value (Float.ofNat 1) = 1 := value_one
  have hsum := isRounded_add hone.1 value_two.1 (by rw [hone.2]; norm_num) (by rw [value_two.2]; norm_num)
  rw [hone.2, value_two.2] at hsum
  have hthree : Representable (1 + 2) := ⟨3, 0, by norm_num, by norm_num, by norm_num⟩
  obtain ⟨hfinite, hvalue⟩ := hsum.value_eq hthree (small_lt_range (by norm_num))
  have hlog := hf.logarithm _ hfinite (by rw [hvalue]; norm_num)
  rw [hvalue] at hlog
  have hpos : (0 : ℝ) ≤ Real.logb 2 ((1 + 2 : ℚ) : ℝ) := Real.logb_nonneg one_lt_two (by norm_num)
  have hbound : Real.logb 2 ((1 + 2 : ℚ) : ℝ) ≤ ((13 / 8 : ℚ) : ℝ) := by
    rw [Real.logb_le_iff_le_rpow one_lt_two (by norm_num)]
    -- three to the eighth is less than two to the thirteenth
    refine le_of_pow_le_pow_left₀ (n := 8) (by norm_num) (by positivity) ?_
    rw [← Real.rpow_natCast (2 ^ _), ← Real.rpow_mul two_pos.le]
    norm_num
  obtain ⟨hdiscount, hle⟩ :=
    hlog.le hpos ⟨13, -3, by norm_num, by norm_num, by norm_num⟩ (small_lt_range (by norm_num)) hbound
  rcases discountWith_ge hf 1 with ⟨-, hge⟩ | hinfinite
  · exact ⟨hdiscount, hge, hle⟩
  · exact absurd hdiscount (Bool.eq_false_iff.1 (isFinite_infinity hinfinite))

/-- a gain that is discounted by at least 1 is not increased -/
theorem value_div_le {x d : Float} (hx : x.isFinite = true) (h0 : 0 ≤ value x)
    (hd : d.isFinite = true ∧ 1 ≤ value d ∨ d.toModel.unpack = .infinity .positive) :
    (x / d).isFinite = true ∧ 0 ≤ value (x / d) ∧ value (x / d) ≤ value x := by
  rcases hd with ⟨hd, hone⟩ | hinfinite
  · have hquotient := isRounded_div hx hd h0 (by linarith)
    obtain ⟨hfinite, hle⟩ := hquotient.value_le (representable_value hx h0) (value_lt hx h0) (div_le_self h0 hone)
    exact ⟨hfinite, hquotient.nonneg hfinite (by positivity), hle⟩
  · obtain ⟨hfinite, hzero⟩ := div_infinity hx hinfinite
    exact ⟨hfinite, hzero.ge, hzero.trans_le h0⟩

end

/-! ## The gain of a ranking -/

/-- the discounted gain at a position of the ranking by `scores` -/
def termAt (exp2 log2 : Float → Float) (g : Gain) (relevance scores : List Float) (p : ℕ) : Float :=
  g.applyWith exp2 (relevanceAt relevance scores p) / discountWith log2 p

/-- what a cutoff is after the checks, and what they were -/
structure Checked (relevance scores : List Float) (c : ℕ) : Prop where
  length : relevance.length = scores.length
  fits : c ≤ relevance.length
  pos : 0 < c
  relevance : ∀ x ∈ relevance, x.isFinite = true ∧ 0 ≤ value x

section
variable {exp2 log2 : Float → Float} {g : Gain} {relevance scores : List Float} {k c : ℕ} {e : ℤ}

theorem checked_of_validate (hv : validate relevance scores k = .ok c) : Checked relevance scores c := by
  obtain ⟨hlen, hk, hne, hrel, -, rfl⟩ := (validate_eq_ok_iff ..).1 hv
  exact ⟨hlen, min_le_right .., lt_min (Nat.pos_of_ne_zero hk) (List.length_pos_iff.2 hne),
    fun x hx => ⟨(hrel x hx).1, value_nonneg (hrel x hx)⟩⟩

namespace Checked

/-- the same with the relevances as scores -/
theorem ideal (h : Checked relevance scores c) : Checked relevance relevance c :=
  ⟨rfl, h.fits, h.pos, h.relevance⟩

theorem at_position (h : Checked relevance scores c) {p : ℕ} (hp : p < c) :
    (relevanceAt relevance scores p).isFinite = true ∧ 0 ≤ value (relevanceAt relevance scores p) :=
  h.relevance _ (relevanceAt_mem h.length (hp.trans_le h.fits))

theorem dcg_eq_total (h : Checked relevance scores c) :
    dcg (g.applyWith exp2) (discountWith log2) (topRelevance relevance scores c) =
      total ((List.range c).map (termAt exp2 log2 g relevance scores)) := by
  rw [topRelevance_eq_map (h.length ▸ h.fits), dcg]
  congr 1
  exact List.ext_getElem (by simp) fun p _ _ => by simp [termAt]

/-- a finite term is not negative -/
theorem term_nonneg (h : Checked relevance scores c) (hf : Faithful exp2 log2) :
    ∀ x ∈ (List.range c).map (termAt exp2 log2 g relevance scores), x.isFinite = true → 0 ≤ value x := by
  intro x hx hfinite
  obtain ⟨p, hp, rfl⟩ := List.mem_map.1 hx
  obtain ⟨hrel, h0⟩ := h.at_position (List.mem_range.1 hp)
  have hgain := isFinite_of_div hfinite
  exact (value_div_le hgain (gain_nonneg hf hrel h0 hgain) (discountWith_ge hf p)).2.1

/-- **The gain of a ranking does not overflow** if there are not too many positions for the greatest gain. -/
theorem isFinite_dcg (h : Checked relevance scores c) (hf : Faithful exp2 log2) (he : -1074 ≤ e)
    (hwithin : ∀ x ∈ relevance, g.Within e (value x)) (hrange : (min c (2 ^ 53) : ℕ) * (2 : ℚ) ^ e < 2 ^ (1024 : ℤ)) :
    (dcg (g.applyWith exp2) (discountWith log2) (topRelevance relevance scores c)).isFinite = true ∧
      0 ≤ value (dcg (g.applyWith exp2) (discountWith log2) (topRelevance relevance scores c)) ∧
      value (dcg (g.applyWith exp2) (discountWith log2) (topRelevance relevance scores c)) ≤
        (min c (2 ^ 53) : ℕ) * 2 ^ e := by
  have hterms : ∀ x ∈ (List.range c).map (termAt exp2 log2 g relevance scores),
      x.isFinite = true ∧ 0 ≤ value x ∧ value x ≤ 2 ^ e := by
    intro x hx
    obtain ⟨p, hp, rfl⟩ := List.mem_map.1 hx
    have hp := List.mem_range.1 hp
    obtain ⟨hrel, h0⟩ := h.at_position hp
    obtain ⟨hgain, hle⟩ := gain_within hf hrel h0 he (two_zpow_lt_range h.pos hrange)
      (hwithin _ (relevanceAt_mem h.length (hp.trans_le h.fits)))
    obtain ⟨hterm, hterm0, htermle⟩ := value_div_le hgain (gain_nonneg hf hrel h0 hgain) (discountWith_ge hf p)
    exact ⟨hterm, hterm0, htermle.trans hle⟩
  have hsum := isFinite_total he hterms
  rw [List.length_map, List.length_range] at hsum
  rw [h.dcg_eq_total]
  exact hsum hrange

/-- the first gain is divided by 1 -/
theorem value_term_zero (h : Checked relevance scores c) (hf : Faithful exp2 log2)
    (hgain : (g.applyWith exp2 (relevanceAt relevance scores 0)).isFinite = true) :
    value (termAt exp2 log2 g relevance scores 0) = value (g.applyWith exp2 (relevanceAt relevance scores 0)) := by
  obtain ⟨hrel, h0⟩ := h.at_position h.pos
  have hgain0 := gain_nonneg hf hrel h0 hgain
  obtain ⟨hdiscount, hone⟩ := discountWith_zero hf
  have hquotient := isRounded_div hgain hdiscount hgain0 (by rw [hone]; norm_num)
  rw [hone, div_one] at hquotient
  exact (hquotient.value_eq (representable_value hgain hgain0) (value_lt hgain hgain0)).2

/-- **The ideal gain is not less than the gain of the most relevant candidate**, and the one is finite if the other
is. -/
theorem value_le_ideal (h : Checked relevance scores c) (hf : Faithful exp2 log2)
    (hfinite : (idealWith exp2 log2 g relevance c).isFinite = true) :
    (g.applyWith exp2 (relevanceAt relevance relevance 0)).isFinite = true ∧
      value (g.applyWith exp2 (relevanceAt relevance relevance 0)) ≤ value (idealWith exp2 log2 g relevance c) := by
  rw [idealWith, h.ideal.dcg_eq_total] at hfinite ⊢
  obtain ⟨hterm, hle⟩ := (value_le_total (h.ideal.term_nonneg hf) hfinite).2 _
    (List.mem_map_of_mem (List.mem_range.2 h.pos))
  have hgain := isFinite_of_div hterm
  exact ⟨hgain, (h.ideal.value_term_zero hf hgain).symm.trans_le hle⟩

theorem ideal_nonneg (h : Checked relevance scores c) (hf : Faithful exp2 log2)
    (hfinite : (idealWith exp2 log2 g relevance c).isFinite = true) :
    0 ≤ value (idealWith exp2 log2 g relevance c) := by
  rw [idealWith, h.ideal.dcg_eq_total] at hfinite ⊢
  exact (value_le_total (h.ideal.term_nonneg hf) hfinite).1

theorem le_first (h : Checked relevance scores c) {x : Float} (hx : x ∈ relevance) :
    value x ≤ value (relevanceAt relevance relevance 0) :=
  value_le_first (fun x hx => (h.relevance x hx).1) hx

theorem ideal_pos (h : Checked relevance scores c) (hf : Faithful exp2 log2)
    (hvisible : ∃ x ∈ relevance, g.Visible (value x)) (hfinite : (idealWith exp2 log2 g relevance c).isFinite = true) :
    0 < value (idealWith exp2 log2 g relevance c) := by
  obtain ⟨x, hx, hvisible⟩ := hvisible
  obtain ⟨hgain, hle⟩ := h.value_le_ideal hf hfinite
  exact (gain_visible hf (h.ideal.at_position h.pos).1 (hvisible.mono (h.le_first hx)) hgain).trans_le hle

end Checked

/-! ## The normaliser -/

theorem ndcgWith_of_zero (hfinite : (idealWith exp2 log2 g relevance c).isFinite = true)
    (hzero : value (idealWith exp2 log2 g relevance c) = 0) : ndcgWith exp2 log2 g relevance scores c = 0.0 := by
  have hbeq : (idealWith exp2 log2 g relevance c == Arithmetic.ofNat 0) = true :=
    (beq_iff_value hfinite (y := 0.0) rfl).2 (hzero.trans value_zero.symm)
  exact if_pos hbeq

theorem ndcgWith_of_ne_zero (hne : (idealWith exp2 log2 g relevance c == 0.0) = false) :
    ndcgWith exp2 log2 g relevance scores c =
      dcg (g.applyWith exp2) (discountWith log2) (topRelevance relevance scores c) /
        idealWith exp2 log2 g relevance c :=
  if_neg (Bool.eq_false_iff.1 hne)

theorem ideal_ne_zero (hfinite : (idealWith exp2 log2 g relevance c).isFinite = true)
    (hpos : 0 < value (idealWith exp2 log2 g relevance c)) : (idealWith exp2 log2 g relevance c == 0.0) = false := by
  rw [← Bool.not_eq_true, beq_iff_value hfinite rfl, value_zero]
  exact hpos.ne'

/-- a positive ideal over itself is 1 -/
theorem ndcgWith_of_pos (hfinite : (idealWith exp2 log2 g relevance c).isFinite = true)
    (hpos : 0 < value (idealWith exp2 log2 g relevance c)) : ndcgWith exp2 log2 g relevance relevance c = 1.0 := by
  rw [ndcgWith_of_ne_zero (ideal_ne_zero hfinite hpos)]
  exact div_self_of_pos hfinite hpos

/-- no ranking's gain is too great to be divided by the ideal one, if both are in range -/
theorem Checked.isFinite_ndcgWith (h : Checked relevance scores c) (hf : Faithful exp2 log2) (he : -1074 ≤ e)
    (hvisible : ∃ x ∈ relevance, g.Visible (value x)) (hwithin : ∀ x ∈ relevance, g.Within e (value x))
    (hrange : (min c (2 ^ 53) : ℕ) * (2 : ℚ) ^ e < 2 ^ (1024 : ℤ)) :
    (ndcgWith exp2 log2 g relevance scores c).isFinite = true ∧
      0 ≤ value (ndcgWith exp2 log2 g relevance scores c) := by
  obtain ⟨hideal, -, -⟩ := h.ideal.isFinite_dcg hf he hwithin hrange
  obtain ⟨hgain, hfirst⟩ := h.value_le_ideal hf hideal
  have hpos := h.ideal_pos hf hvisible hideal
  obtain ⟨x, hx, hvisible⟩ := hvisible
  have hmem := relevanceAt_mem (rfl : relevance.length = relevance.length) (h.pos.trans_le h.fits)
  have htop := two_zpow_lt_range h.pos hrange
  have hseen := hvisible.mono (h.le_first hx)
  obtain ⟨j, hje, hlevel, hbelow⟩ := exists_level hf (h.relevance _ hmem).1 hseen htop (hwithin _ hmem) hgain
  have hj := hseen.least_le hlevel (h.relevance _ hmem).1
  -- all gains are at most `2 ^ j`, and the ideal is at least a part of that which is not too small
  have hlevels : ∀ x ∈ relevance, g.Within j (value x) := fun x hx => hlevel.mono (h.le_first hx)
  have hrange' : (min c (2 ^ 53) : ℕ) * (2 : ℚ) ^ j < 2 ^ (1024 : ℤ) :=
    (mul_le_mul_of_nonneg_left (zpow_le_zpow_right₀ one_le_two hje) (Nat.cast_nonneg _)).trans_lt hrange
  obtain ⟨hreached, hreached0, hle⟩ := h.isFinite_dcg hf hj hlevels hrange'
  have hcount : ((min c (2 ^ 53) : ℕ) : ℚ) ≤ 2 ^ 53 := by exact_mod_cast min_le_right _ _
  have hquotient := isRounded_div hreached hideal hreached0 hpos
  have hbound : value (dcg (g.applyWith exp2) (discountWith log2) (topRelevance relevance scores c)) /
      value (idealWith exp2 log2 g relevance c) ≤ 2 ^ (106 : ℤ) := by
    rw [div_le_iff₀ hpos]
    calc value (dcg (g.applyWith exp2) (discountWith log2) (topRelevance relevance scores c))
        ≤ 2 ^ 53 * 2 ^ j := hle.trans (mul_le_mul_of_nonneg_right hcount (two_zpow_pos j).le)
      _ = 2 ^ (106 : ℤ) * 2 ^ (j - 53) := by rw [pow_mul_zpow, ← zpow_add₀ two_ne_zero]; congr 1; omega
      _ ≤ 2 ^ (106 : ℤ) * value (idealWith exp2 log2 g relevance c) := by
        gcongr
        exact hbelow.trans hfirst
  rw [ndcgWith_of_ne_zero (ideal_ne_zero hideal hpos)]
  obtain ⟨hfinite, -⟩ := hquotient.value_le (representable_two_zpow (by norm_num))
    (zpow_lt_zpow_right₀ one_lt_two (by norm_num)) hbound
  exact ⟨hfinite, hquotient.nonneg hfinite (div_nonneg hreached0 hpos.le)⟩

/-- what makes the ideal gain overflow: to the exponential gain one great relevance is enough, to the linear one two
that are in range by themselves -/
def Gain.Overflows (relevance : List Float) (c : ℕ) : Gain → Prop
  | .linear => 2 ≤ c ∧ 5 * 2 ^ (1021 : ℤ) ≤ value (relevanceAt relevance relevance 1)
  | .exponential => ∃ x ∈ relevance, 1024 ≤ value x

theorem Checked.isFinite_ideal_of_overflows (h : Checked relevance scores c) (hf : Faithful exp2 log2)
    (hlarge : g.Overflows relevance c) : (idealWith exp2 log2 g relevance c).isFinite = false := by
  rw [← Bool.not_eq_true]
  intro hfinite
  cases g with
  | exponential =>
    obtain ⟨x, hx, hlarge⟩ := hlarge
    have hpower := (isFinite_of_sub (h.value_le_ideal hf hfinite).1).1
    have hinfinite := hf.power_infinity _ (h.ideal.at_position h.pos).1 (hlarge.trans (h.le_first hx))
    rw [isFinite_infinity hinfinite] at hpower
    cases hpower
  | linear =>
    obtain ⟨hc, hlarge⟩ := hlarge
    obtain ⟨n, rfl⟩ : ∃ n, c = n + 2 := ⟨c - 2, by omega⟩
    rw [idealWith, h.ideal.dcg_eq_total, List.range_succ_eq_map, List.range_succ_eq_map] at hfinite
    obtain ⟨hfirst, hfirst0⟩ := h.ideal.at_position h.pos
    obtain ⟨hsecond, hsecond0⟩ := h.ideal.at_position (p := 1) (by omega)
    have hfall := h.le_first (relevanceAt_mem rfl ((show 1 < n + 2 by omega).trans_le h.fits))
    -- the second gain is divided by less than 13 / 8
    obtain ⟨hdiscount, hone, hless⟩ := discountWith_one hf
    have hfraction : 3 * 2 ^ (1021 : ℤ) ≤ value (relevanceAt relevance relevance 1) / value (discountWith log2 1) := by
      rw [le_div_iff₀ (by linarith)]
      have hunit := two_zpow_pos 1021
      generalize (2 : ℚ) ^ (1021 : ℤ) = unit at hlarge hunit ⊢
      calc 3 * unit * value (discountWith log2 1) ≤ 3 * unit * (13 / 8) := by gcongr
        _ ≤ 5 * unit := by linarith
        _ ≤ value (relevanceAt relevance relevance 1) := hlarge
    have hterm := (value_div_le hsecond hsecond0 (.inl ⟨hdiscount, hone⟩)).1
    have hpart := (isRounded_div hsecond hdiscount hsecond0 (by linarith)).le_value hterm
      ⟨3, 1021, by norm_num, by norm_num, by norm_num⟩ hfraction
    have hwhole := h.ideal.value_term_zero (g := .linear) hf hfirst
    have hsum := value_add_lt_of_total (hwhole.ge.trans' hfirst0) ((by positivity : (0 : ℚ) ≤ _).trans hpart) hfinite
    have height : (2 : ℚ) ^ (1024 : ℤ) = 8 * 2 ^ (1021 : ℤ) := by
      rw [show (8 : ℚ) = 2 ^ 3 by norm_num, pow_mul_zpow]
      norm_num
    rw [hwhole, height] at hsum
    have hmost : 5 * 2 ^ (1021 : ℤ) ≤ value (Gain.linear.applyWith exp2 (relevanceAt relevance relevance 0)) :=
      hlarge.trans hfall
    linarith

/-- an ideal that is not finite, over itself, is no number -/
theorem isNaN_ndcgWith (hfinite : (idealWith exp2 log2 g relevance c).isFinite = false) :
    (ndcgWith exp2 log2 g relevance relevance c).isNaN = true := by
  have hne : (idealWith exp2 log2 g relevance c == 0.0) = false := by
    rw [← Bool.not_eq_true]
    intro h
    rw [isFinite_of_beq rfl h] at hfinite
    cases hfinite
  rw [ndcgWith_of_ne_zero hne]
  exact isNaN_div_self hfinite

/-- the program's results are the ones with its own powers and logarithms -/
theorem ndcgAtK_eq_ndcgWith (hv : validate relevance scores k = .ok c) :
    ndcgAtK relevance scores k g = .ok (ndcgWith Float.exp2 Float.log2 g relevance scores c) := by
  rw [ndcgAtK, hv, ← normalisedDcg_eq_ndcgWith]
  rfl

theorem evaluate_ndcg_eq_ndcgWith {options : Options} {aligned : AlignedScores} {record : Record}
    (hv : validate relevance aligned.values k = .ok c) (h : evaluate options relevance aligned k = .ok record) :
    record.ndcg = ndcgWith Float.exp2 Float.log2 options.gain relevance aligned.values c := by
  unfold evaluate at h
  rw [hv] at h
  cases harea : optionalAuc options.auc relevance aligned with
  | error e =>
    rw [harea] at h
    cases h
  | ok area =>
    rw [harea] at h
    cases h
    exact normalisedDcg_eq_ndcgWith ..

end

/-- **What the normaliser can be, and when it is good.** The results of the metric are those for the program's powers
and logarithms. For any that are faithful, and inputs that pass the checks, the ideal gain is

- 0, and then every ranking gets 0; or
- finite and positive, and then the ranking by relevance gets exactly 1; or
- not finite, and then the ranking by relevance gets NaN.

Great relevances make it infinite: one from 1024 on with the exponential gain; with the linear gain two that together
are out of range. A visible relevance keeps it from being 0: with the linear gain any that is positive, with the
exponential gain one that is at least `2 ^ -51`. If besides no gain is greater than `2 ^ e`, and as many times that as
there are positions is in range, then the ideal gain is finite, the ranking by relevance gets 1, and what any scores get
is finite and not negative. -/
theorem ndcg_normaliser {exp2 log2 : Float → Float} (hf : Faithful exp2 log2) {relevance scores : List Float} {k c : ℕ}
    (hv : validate relevance scores k = .ok c) (g : Gain) :
    (ndcgAtK relevance scores k g = .ok (ndcgWith Float.exp2 Float.log2 g relevance scores c) ∧
      ∀ (options : Options) (aligned : AlignedScores) (record : Record), options.gain = g → aligned.values = scores →
        evaluate options relevance aligned k = .ok record →
          record.ndcg = ndcgWith Float.exp2 Float.log2 g relevance scores c) ∧
    ((idealWith exp2 log2 g relevance c).isFinite = true ∧ value (idealWith exp2 log2 g relevance c) = 0 ∧
        (∀ others, ndcgWith exp2 log2 g relevance others c = 0.0) ∨
      (idealWith exp2 log2 g relevance c).isFinite = true ∧ 0 < value (idealWith exp2 log2 g relevance c) ∧
        ndcgWith exp2 log2 g relevance relevance c = 1.0 ∨
      (idealWith exp2 log2 g relevance c).isFinite = false ∧
        (ndcgWith exp2 log2 g relevance relevance c).isNaN = true) ∧
    (g.Overflows relevance c → (idealWith exp2 log2 g relevance c).isFinite = false) ∧
    ((∃ x ∈ relevance, g.Visible (value x)) →
      ((idealWith exp2 log2 g relevance c).isFinite = true → 0 < value (idealWith exp2 log2 g relevance c)) ∧
      ∀ e : ℤ, (∀ x ∈ relevance, g.Within e (value x)) → (min c (2 ^ 53) : ℕ) * (2 : ℚ) ^ e < 2 ^ (1024 : ℤ) →
        (idealWith exp2 log2 g relevance c).isFinite = true ∧ ndcgWith exp2 log2 g relevance relevance c = 1.0 ∧
          (ndcgWith exp2 log2 g relevance scores c).isFinite = true ∧
          0 ≤ value (ndcgWith exp2 log2 g relevance scores c)) := by
  have h := checked_of_validate hv
  refine ⟨⟨ndcgAtK_eq_ndcgWith hv, ?program⟩, ?kinds, h.isFinite_ideal_of_overflows hf,
    fun hvisible => ⟨?positive, ?range⟩⟩
  case program =>
    rintro options aligned record rfl rfl hrecord
    exact evaluate_ndcg_eq_ndcgWith hv hrecord
  case kinds =>
    cases hfinite : (idealWith exp2 log2 g relevance c).isFinite with
    | false => exact .inr (.inr ⟨rfl, isNaN_ndcgWith hfinite⟩)
    | true =>
      rcases (h.ideal_nonneg hf hfinite).eq_or_lt with hzero | hpos
      · exact .inl ⟨rfl, hzero.symm, fun _ => ndcgWith_of_zero hfinite hzero.symm⟩
      · exact .inr (.inl ⟨rfl, hpos, ndcgWith_of_pos hfinite hpos⟩)
  case positive => exact h.ideal_pos hf hvisible
  case range =>
    intro e hwithin hrange
    obtain ⟨x, hx, hseen⟩ := id hvisible
    have he := hseen.least_le (hwithin x hx) (h.relevance x hx).1
    have hideal := (h.ideal.isFinite_dcg hf he hwithin hrange).1
    exact ⟨hideal, ndcgWith_of_pos hideal (h.ideal_pos hf hvisible hideal),
      h.isFinite_ndcgWith hf he hvisible hwithin hrange⟩

/-- Two graded candidates, ranked the wrong way round, have a normaliser; one whose exponential gain is out of range has
none, although its relevance passes the checks. -/
theorem ndcg_normaliser_of_two_and_one :
    (validate [3.0, 1.0] [0.5, 0.7] 2 = .ok 2 ∧
      (ndcgWith (nearest fun y => 2 ^ y) (nearest (Real.logb 2)) .linear [3.0, 1.0] [0.5, 0.7] 2).isFinite = true) ∧
    validate [1024.0] [0.5] 1 = .ok 1 ∧
      (ndcgWith (nearest fun y => 2 ^ y) (nearest (Real.logb 2)) .exponential [1024.0] [1024.0] 1).isNaN = true := by
  have hv : validate [3.0, 1.0] [0.5, 0.7] 2 = .ok 2 :=
    (validate_eq_ok_iff ..).2 ⟨by simp, by decide, by simp, by decide, by decide, by simp⟩
  have hv' : validate [1024.0] [0.5] 1 = .ok 1 :=
    (validate_eq_ok_iff ..).2 ⟨by simp, by decide, by simp, by decide, by decide, by simp⟩
  have hthree : value 3.0 = 3 := by
    have hunpack : (3.0 : Float).toModel.unpack = .finite .positive (3 * 2 ^ 51) (-51) (by decide) := rfl
    exact (value_of_unpack hunpack).2.trans (by norm_num)
  have hlarge : value 1024.0 = 1024 := by
    have hunpack : (1024.0 : Float).toModel.unpack = .finite .positive (2 ^ 52) (-42) (by decide) := rfl
    exact (value_of_unpack hunpack).2.trans (by norm_num)
  obtain ⟨-, -, -, hgood⟩ := ndcg_normaliser faithful_nearest hv .linear
  obtain ⟨-, hkinds, hoverflow, -⟩ := ndcg_normaliser faithful_nearest hv' .exponential
  have hwithin : ∀ x ∈ [3.0, 1.0], Gain.linear.Within 2 (value x) := by
    simp [Gain.Within, hthree, value_one.2]
    norm_num
  have hvisible : ∃ x ∈ [3.0, 1.0], Gain.linear.Visible (value x) :=
    ⟨3.0, by simp, by rw [hthree]; norm_num [Gain.Visible]⟩
  have hinfinite := hoverflow ⟨1024.0, by simp, hlarge.ge⟩
  refine ⟨⟨hv, ((hgood hvisible).2 2 hwithin ?_).2.2.1⟩, hv', ?_⟩
  · rw [min_eq_left (by norm_num)]
    calc ((2 : ℕ) : ℚ) * 2 ^ (2 : ℤ) = 2 ^ (3 : ℤ) := by norm_num
      _ < 2 ^ (1024 : ℤ) := zpow_lt_zpow_right₀ one_lt_two (by norm_num)
  · rw [hinfinite] at hkinds
    simpa using hkinds

end RankEval.Metric
