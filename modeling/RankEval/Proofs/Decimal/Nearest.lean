/-
Reading is the inverse of writing: the double nearest to a number in a double's interval is that double. The interval of
`m · 2^q` reaches half a place to both sides, and half as far below a power of two, where the next lower double is
nearer; a number there is rounded up to the power of two by carrying.

- `roundQuotient_eq`: the whole number nearest to a quotient is the one it is within one half of.
- `magnitude_spec`: the power of two below a quotient.
- `holds_iff_around`: the search for the shortest decimal compares with the interval as a set of numbers.
- `nearest_of_around`: what lies in the interval of a double is read as that double.
-/
import RankEval.Decimal.Numeral
import RankEval.Proofs.Decimal.Shortest

namespace RankEval.Decimal

/-! ## Whole numbers -/

/-- a quotient within one half of a whole number is rounded to it; where it lies halfway, that number must be even -/
theorem roundQuotient_eq {n d k : ℕ} (hd : 0 < d) (hlow : (k : ℚ) - 1 / 2 ≤ n / d) (hhigh : (n : ℚ) / d ≤ k + 1 / 2)
    (htie : k % 2 = 1 → (k : ℚ) - 1 / 2 < n / d ∧ (n : ℚ) / d < k + 1 / 2) : roundQuotient .toEven n d = k := by
  have hd' : (0 : ℚ) < d := by exact_mod_cast hd
  have hlow' : 2 * (k * d) ≤ 2 * n + d := by
    rw [le_div_iff₀ hd'] at hlow
    have : (2 * (k * d) : ℚ) ≤ 2 * n + d := by linarith
    exact_mod_cast this
  have hhigh' : 2 * n ≤ 2 * (k * d) + d := by
    rw [div_le_iff₀ hd'] at hhigh
    have : (2 * n : ℚ) ≤ 2 * (k * d) + d := by linarith
    exact_mod_cast this
  have htie' : k % 2 = 1 → 2 * (k * d) < 2 * n + d ∧ 2 * n < 2 * (k * d) + d := by
    intro hodd
    obtain ⟨hlow, hhigh⟩ := htie hodd
    rw [lt_div_iff₀ hd'] at hlow
    rw [div_lt_iff₀ hd'] at hhigh
    have hl : (2 * (k * d) : ℚ) < 2 * n + d := by linarith
    have hh : (2 * n : ℚ) < 2 * (k * d) + d := by linarith
    exact ⟨by exact_mod_cast hl, by exact_mod_cast hh⟩
  have hdiv := Nat.div_add_mod n d
  have hmod := Nat.mod_lt n hd
  rw [Nat.mul_comm] at hdiv
  unfold roundQuotient
  dsimp only
  generalize n / d = floor at hdiv ⊢
  generalize n % d = r at hdiv hmod ⊢
  -- the quotient is rounded to its floor or to the next number, and both can only be `k`
  obtain hk | hk : k = floor ∨ k = floor + 1 := by
    have h1 : k < floor + 2 := by
      by_contra h
      have := Nat.mul_le_mul_right d (Nat.not_lt.1 h)
      rw [Nat.add_mul] at this
      omega
    have h2 : floor < k + 1 := by
      by_contra h
      have := Nat.mul_le_mul_right d (Nat.not_lt.1 h)
      rw [Nat.add_mul] at this
      omega
    omega
  · subst hk
    split_ifs with h1 h2
    · rfl
    · omega
    · rcases Nat.mod_two_eq_zero_or_one k with heven | hodd
      · rw [heven, Nat.add_zero]
      · exact absurd (htie' hodd).2 (by omega)
  · subst hk
    rw [Nat.add_mul, Nat.one_mul] at hlow' hhigh' htie'
    split_ifs with h1 h2
    · omega
    · rfl
    · rcases Nat.mod_two_eq_zero_or_one floor with heven | hodd
      · exact absurd (htie' (by omega)).1 (by omega)
      · rw [hodd]

/-! ## Powers of two -/

namespace Binary

theorem scale_spec (n : ℕ) {d : ℕ} (hd : 0 < d) (q : ℤ) :
    0 < (scale n d q).2 ∧ ((scale n d q).1 : ℚ) / (scale n d q).2 = n / d / 2 ^ q := by
  unfold scale
  split_ifs with hq
  · obtain ⟨e, rfl⟩ := Int.eq_ofNat_of_zero_le hq
    refine ⟨Nat.mul_pos hd (Nat.pow_pos (by decide)), ?_⟩
    rw [div_div]
    simp
  · obtain ⟨e, he⟩ := Int.eq_ofNat_of_zero_le (show 0 ≤ -q by omega)
    obtain rfl : q = -(e : ℤ) := by omega
    refine ⟨hd, ?_⟩
    simp
    ring

/-- the power of two below a quotient -/
theorem magnitude_spec {n d : ℕ} (hn : 0 < n) (hd : 0 < d) :
    (2 : ℚ) ^ magnitude n d ≤ n / d ∧ (n : ℚ) / d < 2 ^ (magnitude n d + 1) := by
  have hd' : (0 : ℚ) < d := by exact_mod_cast hd
  have hnlow : (2 : ℚ) ^ n.log2 ≤ n := by exact_mod_cast Nat.log2_self_le hn.ne'
  have hnhigh : (n : ℚ) < 2 ^ (n.log2 + 1) := by exact_mod_cast Nat.lt_log2_self
  have hdlow : (2 : ℚ) ^ d.log2 ≤ d := by exact_mod_cast Nat.log2_self_le hd.ne'
  have hdhigh : (d : ℚ) < 2 ^ (d.log2 + 1) := by exact_mod_cast Nat.lt_log2_self
  set e : ℤ := Int.ofNat n.log2 - Int.ofNat d.log2 with he
  have hupper : (n : ℚ) / d < 2 ^ (e + 1) := by
    have hpow : (2 : ℚ) ^ (e + 1) * 2 ^ d.log2 = 2 ^ (n.log2 + 1) := by
      rw [← zpow_natCast, ← zpow_natCast, ← zpow_add₀ two_ne_zero, he]
      congr 1
      rw [Int.ofNat_eq_natCast, Int.ofNat_eq_natCast]
      omega
    rw [div_lt_iff₀ hd']
    calc (n : ℚ) < 2 ^ (n.log2 + 1) := hnhigh
      _ = 2 ^ (e + 1) * 2 ^ d.log2 := hpow.symm
      _ ≤ 2 ^ (e + 1) * d := by gcongr
  have hlower : (2 : ℚ) ^ (e - 1) < n / d := by
    have hpow : (2 : ℚ) ^ (e - 1) * 2 ^ (d.log2 + 1) = 2 ^ n.log2 := by
      rw [← zpow_natCast, ← zpow_natCast, ← zpow_add₀ two_ne_zero, he]
      congr 1
      rw [Int.ofNat_eq_natCast, Int.ofNat_eq_natCast]
      omega
    rw [lt_div_iff₀ hd']
    calc (2 : ℚ) ^ (e - 1) * d < 2 ^ (e - 1) * 2 ^ (d.log2 + 1) := by gcongr
      _ = 2 ^ n.log2 := hpow
      _ ≤ n := hnlow
  obtain ⟨hpos, hscale⟩ := scale_spec n hd e
  have hpos' : (0 : ℚ) < (scale n d e).2 := by exact_mod_cast hpos
  have hbelow : (scale n d e).1 < (scale n d e).2 ↔ (n : ℚ) / d < 2 ^ e := by
    rw [← div_lt_one (by positivity : (0 : ℚ) < 2 ^ e), ← hscale, div_lt_one hpos', Nat.cast_lt]
  unfold magnitude
  dsimp only
  rw [← he]
  split_ifs with h
  · refine ⟨hlower.le, ?_⟩
    rw [sub_add_cancel]
    exact hbelow.1 h
  · exact ⟨not_lt.1 (mt hbelow.2 h), hupper⟩

theorem magnitude_lt_iff {n d : ℕ} (hn : 0 < n) (hd : 0 < d) (e : ℤ) : magnitude n d < e ↔ (n : ℚ) / d < 2 ^ e := by
  obtain ⟨hlow, hhigh⟩ := magnitude_spec hn hd
  constructor
  · intro h
    exact hhigh.trans_le (zpow_le_zpow_right₀ one_le_two h)
  · intro h
    exact (zpow_lt_zpow_iff_right₀ one_lt_two).1 (hlow.trans_lt h)

end Binary

/-! ## The interval of a double -/

/-- the significand and the exponent of a positive double: all 53 bits, or fewer with the least exponent -/
structure Canonical (m : ℕ) (q : ℤ) : Prop where
  pos : 0 < m
  lt : m < 2 ^ 53
  least : -1074 ≤ q
  greatest : q ≤ 971
  full : q = -1074 ∨ 2 ^ 52 ≤ m

/-- a number lies in the interval of `m · 2^q`, the ends of which belong to it iff `m` is even -/
def Around (m : ℕ) (q : ℤ) (v : ℚ) : Prop :=
  if m % 2 = 0 then (interval m q).low * 2 ^ (q - 2) ≤ v ∧ v ≤ (interval m q).high * 2 ^ (q - 2)
  else (interval m q).low * 2 ^ (q - 2) < v ∧ v < (interval m q).high * 2 ^ (q - 2)

theorem gridRatio_spec (e p : ℤ) : ((gridRatio e p).1 : ℚ) / (gridRatio e p).2 = 10 ^ e / 2 ^ p := by
  have hpower : ∀ (b : ℕ) (e : ℤ), 0 < b → (b : ℚ) ^ e =
      ((if 0 ≤ e then Nat.pow b e.toNat else 1 : ℕ) : ℚ) / (if 0 ≤ e then 1 else Nat.pow b (-e).toNat : ℕ) := by
    intro b e hb
    split_ifs with he
    · obtain ⟨n, rfl⟩ := Int.eq_ofNat_of_zero_le he
      simp
    · obtain ⟨n, hn⟩ := Int.eq_ofNat_of_zero_le (show 0 ≤ -e by omega)
      obtain rfl : e = -(n : ℤ) := by omega
      simp
  have hten := hpower 10 e (by decide)
  have htwo := hpower 2 p (by decide)
  push_cast at hten htwo
  rw [hten, htwo, div_div_div_eq, gridRatio]
  push_cast
  rfl

/-- the search for the shortest decimal compares with the interval -/
theorem holds_iff_around {m : ℕ} {q : ℤ} (d : ℕ) (e : ℤ) :
    (interval m q).holds (gridRatio e (q - 2)).1 (gridRatio e (q - 2)).2 d = true ↔ Around m q (d * 10 ^ e) := by
  obtain ⟨-, hpos⟩ := gridRatio_pos e (q - 2)
  have hratio := gridRatio_spec e (q - 2)
  generalize (gridRatio e (q - 2)).1 = a at hratio ⊢
  generalize (gridRatio e (q - 2)).2 = b at hratio hpos ⊢
  have hb : (0 : ℚ) < b := by exact_mod_cast hpos
  have hp : (0 : ℚ) < 2 ^ (q - 2) := by positivity
  have hvalue : (d : ℚ) * 10 ^ e = (d * a : ℕ) / b * 2 ^ (q - 2) := by
    rw [eq_div_iff hp.ne'] at hratio
    rw [← hratio]
    push_cast
    ring
  rw [Around, hvalue]
  simp only [mul_le_mul_iff_of_pos_right hp, mul_lt_mul_iff_of_pos_right hp, le_div_iff₀ hb, div_le_iff₀ hb,
    lt_div_iff₀ hb, div_lt_iff₀ hb]
  unfold Interval.holds interval
  dsimp only
  norm_cast
  split_ifs <;> simp_all

theorem zpow_quarter (q : ℤ) : (2 : ℚ) ^ q = 4 * 2 ^ (q - 2) := by
  rw [zpow_sub₀ two_ne_zero]
  norm_num
  ring

/-- a number in the interval is at most half a place away, and less if the significand is odd -/
theorem Around.near {m : ℕ} {q : ℤ} {v : ℚ} (hm : 0 < m) (h : Around m q v) :
    ((m : ℚ) - 1 / 2) * 2 ^ q ≤ v ∧ v ≤ (m + 1 / 2) * 2 ^ q ∧
      (m % 2 = 1 → ((m : ℚ) - 1 / 2) * 2 ^ q < v ∧ v < (m + 1 / 2) * 2 ^ q) := by
  have hp : (0 : ℚ) < 2 ^ (q - 2) := by positivity
  have hlow : ((m : ℚ) - 1 / 2) * 2 ^ q ≤ (interval m q).low * 2 ^ (q - 2) := by
    have hends : (4 : ℚ) * m - 2 ≤ (interval m q).low := by
      have hnat : 4 * m ≤ (interval m q).low + 2 := by
        unfold interval
        dsimp only
        split_ifs <;> omega
      have : (4 * m : ℚ) ≤ (interval m q).low + 2 := by exact_mod_cast hnat
      linarith
    calc ((m : ℚ) - 1 / 2) * 2 ^ q = (4 * m - 2) * 2 ^ (q - 2) := by rw [zpow_quarter q]; ring
      _ ≤ (interval m q).low * 2 ^ (q - 2) := by gcongr
  have hhigh : ((interval m q).high : ℚ) * 2 ^ (q - 2) = (m + 1 / 2) * 2 ^ q := by
    rw [zpow_quarter q, interval]
    push_cast
    ring
  unfold Around at h
  rw [hhigh] at h
  split_ifs at h with heven
  · exact ⟨hlow.trans h.1, h.2, fun hodd => absurd hodd (by omega)⟩
  · exact ⟨hlow.trans h.1.le, h.2.le, fun _ => ⟨hlow.trans_lt h.1, h.2⟩⟩

/-- below a power of two it is at most a quarter of a place away -/
theorem Around.near_power {q : ℤ} {v : ℚ} (hq : -1074 < q) (h : Around (2 ^ 52) q v) :
    ((2 : ℚ) ^ 52 - 1 / 4) * 2 ^ q ≤ v := by
  have hlow : (interval (2 ^ 52) q).low = 4 * 2 ^ 52 - 1 := if_pos ⟨rfl, hq⟩
  rw [Around, if_pos (by norm_num), hlow] at h
  calc ((2 : ℚ) ^ 52 - 1 / 4) * 2 ^ q = (4 * 2 ^ 52 - 1 : ℕ) * 2 ^ (q - 2) := by
        rw [zpow_quarter q]
        norm_num
        ring
    _ ≤ v := h.1

/-! ## The nearest double -/

namespace Binary

/-- the significand is rounded to itself at its own exponent -/
theorem roundQuotient_scale {m n d : ℕ} {q : ℤ} (hm : 0 < m) (hd : 0 < d) (h : Around m q (n / d)) :
    roundQuotient .toEven (scale n d q).1 (scale n d q).2 = m := by
  obtain ⟨hlow, hhigh, hodd⟩ := h.near hm
  obtain ⟨hpos, hscale⟩ := scale_spec n hd q
  have hp : (0 : ℚ) < 2 ^ q := by positivity
  refine roundQuotient_eq hpos ?_ ?_ fun hm => ?_ <;> rw [hscale]
  · exact (le_div_iff₀ hp).2 hlow
  · exact (div_le_iff₀ hp).2 hhigh
  · exact ⟨(lt_div_iff₀ hp).2 (hodd hm).1, (div_lt_iff₀ hp).2 (hodd hm).2⟩

/-- right below a power of two it is rounded up at the exponent below, and carries -/
theorem roundQuotient_carry {n d : ℕ} {q : ℤ} (hd : 0 < d) (hlow : ((2 : ℚ) ^ 52 - 1 / 4) * 2 ^ q ≤ n / d)
    (hhigh : (n : ℚ) / d < 2 ^ (q + 52)) :
    roundQuotient .toEven (scale n d (q - 1)).1 (scale n d (q - 1)).2 = 2 ^ 53 := by
  obtain ⟨hpos, hscale⟩ := scale_spec n hd (q - 1)
  have hp : (0 : ℚ) < 2 ^ (q - 1) := by positivity
  have hdouble : (2 : ℚ) ^ q = 2 * 2 ^ (q - 1) := by rw [← zpow_one_add₀ two_ne_zero, add_sub_cancel]
  refine roundQuotient_eq hpos ?_ ?_ fun hodd => absurd hodd (by norm_num)
  · rw [hscale, le_div_iff₀ hp]
    calc (((2 ^ 53 : ℕ) : ℚ) - 1 / 2) * 2 ^ (q - 1) = (2 ^ 52 - 1 / 4) * 2 ^ q := by
          rw [hdouble]
          norm_num
          ring
      _ ≤ n / d := hlow
  · rw [hscale, div_le_iff₀ hp]
    calc (n : ℚ) / d ≤ 2 ^ (q + 52) := hhigh.le
      _ = ((2 ^ 53 : ℕ) : ℚ) * 2 ^ (q - 1) := by
          rw [show q + 52 = 53 + (q - 1) by ring, zpow_add₀ two_ne_zero]
          norm_num
      _ ≤ (((2 ^ 53 : ℕ) : ℚ) + 1 / 2) * 2 ^ (q - 1) := by
          gcongr
          norm_num

/-- **What lies in the interval of a double is nearest to that double.** -/
theorem nearest_of_around {m n d : ℕ} {q : ℤ} (hc : Canonical m q) (hd : 0 < d) (h : Around m q (n / d))
    (negative : Bool) : nearest negative n d = .finite negative m q := by
  obtain ⟨hlow, hhigh, -⟩ := h.near hc.pos
  have hp : (0 : ℚ) < 2 ^ q := by positivity
  have hm : (1 : ℚ) ≤ m := by exact_mod_cast hc.pos
  have hn : 0 < n := by
    refine Nat.pos_of_ne_zero ?_
    rintro rfl
    rw [Nat.cast_zero, zero_div] at hlow
    nlinarith
  have hbelow : (n : ℚ) / d < 2 ^ (q + 53) := by
    have hlt : (m : ℚ) + 1 / 2 < 2 ^ 53 := by
      have : (m : ℚ) + 1 ≤ 2 ^ 53 := by exact_mod_cast hc.lt
      linarith
    calc (n : ℚ) / d ≤ (m + 1 / 2) * 2 ^ q := hhigh
      _ < 2 ^ 53 * 2 ^ q := by gcongr
      _ = 2 ^ (q + 53) := by rw [zpow_add₀ two_ne_zero, mul_comm]; norm_num
  have hexponent : max leastExponent (magnitude n d - 52) ≤ q := by
    have hmagnitude := (magnitude_lt_iff hn hd (q + 53)).2 hbelow
    exact max_le hc.least (by omega)
  unfold nearest
  rw [if_neg hn.ne']
  dsimp only
  rcases hexponent.eq_or_lt with heq | hlt
  · rw [heq, roundQuotient_scale hc.pos hd h, if_neg (show ¬ m = Nat.pow 2 53 from hc.lt.ne)]
    dsimp only
    rw [if_neg (show ¬ greatestExponent < q from not_lt.2 hc.greatest)]
  · -- the number has a smaller exponent than the double, which must be a power of two
    obtain ⟨hleast, hmagnitude⟩ := max_lt_iff.1 hlt
    have hsmall : (n : ℚ) / d < 2 ^ (q + 52) := (magnitude_lt_iff hn hd (q + 52)).1 (by omega)
    have hfull : 2 ^ 52 ≤ m := hc.full.resolve_left hleast.ne'
    obtain rfl : m = 2 ^ 52 := by
      by_contra hne
      have hmore : (2 : ℚ) ^ 52 + 1 ≤ m := by exact_mod_cast Nat.lt_of_le_of_ne hfull (Ne.symm hne)
      have hlarge : (2 : ℚ) ^ (q + 52) ≤ (m - 1 / 2) * 2 ^ q := by
        calc (2 : ℚ) ^ (q + 52) = 2 ^ 52 * 2 ^ q := by rw [zpow_add₀ two_ne_zero, mul_comm]; norm_num
          _ ≤ (m - 1 / 2) * 2 ^ q := by
            gcongr
            linarith
      exact absurd (hlow.trans_lt hsmall) (not_lt.2 hlarge)
    have hquarter := h.near_power hleast
    have hpred : max leastExponent (magnitude n d - 52) = q - 1 := by
      have hnot : ¬ magnitude n d < q + 51 := by
        rw [magnitude_lt_iff hn hd, not_lt]
        calc (2 : ℚ) ^ (q + 51) = 2 ^ 51 * 2 ^ q := by rw [zpow_add₀ two_ne_zero, mul_comm]; norm_num
          _ ≤ (2 ^ 52 - 1 / 4) * 2 ^ q := by
            gcongr
            norm_num
          _ ≤ n / d := hquarter
      have hle : leastExponent ≤ q - 1 := by omega
      omega
    rw [hpred, roundQuotient_carry hd hquarter hsmall, if_pos (show 2 ^ 53 = Nat.pow 2 53 from rfl)]
    dsimp only
    rw [sub_add_cancel, if_neg (show ¬ greatestExponent < q from not_lt.2 hc.greatest)]
    rfl

end Binary

theorem zpow_lt_zpow_of_nat {a b k l : ℕ} (h : a ^ k < b ^ l) : (a : ℚ) ^ (k : ℤ) < b ^ (l : ℤ) := by
  rw [zpow_natCast, zpow_natCast, ← Nat.cast_pow, ← Nat.cast_pow]
  exact Nat.cast_lt.2 h

/-- every positive double lies far within `10^-400` and `10^400` -/
theorem Around.bounds {m : ℕ} {q : ℤ} {v : ℚ} (hc : Canonical m q) (h : Around m q v) :
    (10 : ℚ) ^ (-(400 : ℕ) : ℤ) < v ∧ v < 10 ^ ((400 : ℕ) : ℤ) := by
  obtain ⟨hlow, hhigh, -⟩ := h.near hc.pos
  have htop : ((2 : ℕ) : ℚ) ^ ((1024 : ℕ) : ℤ) < ((10 : ℕ) : ℚ) ^ ((400 : ℕ) : ℤ) :=
    zpow_lt_zpow_of_nat (by decide +kernel)
  have hbottom : ((2 : ℕ) : ℚ) ^ ((1075 : ℕ) : ℤ) < ((10 : ℕ) : ℚ) ^ ((400 : ℕ) : ℤ) :=
    zpow_lt_zpow_of_nat (by decide +kernel)
  rw [Nat.cast_ofNat, Nat.cast_ofNat] at htop hbottom
  have hpred : q - 1 < ((1024 : ℕ) : ℤ) - 53 := by
    have := hc.greatest
    omega
  constructor
  · have hm : (1 : ℚ) ≤ m := by exact_mod_cast hc.pos
    have hleast : -((1075 : ℕ) : ℤ) ≤ q - 1 := by
      have := hc.least
      omega
    calc (10 : ℚ) ^ (-(400 : ℕ) : ℤ) < 2 ^ (-((1075 : ℕ) : ℤ)) := by
          rw [zpow_neg, zpow_neg]
          exact inv_strictAnti₀ (by positivity) hbottom
      _ ≤ 2 ^ (q - 1) := zpow_le_zpow_right₀ one_le_two hleast
      _ = 1 / 2 * 2 ^ q := by
          rw [zpow_sub_one₀ two_ne_zero]
          ring
      _ ≤ (m - 1 / 2) * 2 ^ q := by
          gcongr
          linarith
      _ ≤ v := hlow
  · have hm : (m : ℚ) + 1 ≤ 2 ^ 53 := by exact_mod_cast hc.lt
    have hgreatest : 53 + q ≤ ((1024 : ℕ) : ℤ) := by
      have := hc.greatest
      omega
    calc v ≤ (m + 1 / 2) * 2 ^ q := hhigh
      _ ≤ 2 ^ 53 * 2 ^ q := by
          gcongr
          linarith
      _ = 2 ^ (53 + q) := by rw [zpow_add₀ two_ne_zero, zpow_ofNat]
      _ ≤ 2 ^ ((1024 : ℕ) : ℤ) := zpow_le_zpow_right₀ one_le_two hgreatest
      _ < 10 ^ ((400 : ℕ) : ℤ) := htop

/-- The nearest double to a decimal in the interval of a double; none of the shortcuts for very large and very small
decimals is taken there. -/
theorem nearest_of_around {m c : ℕ} {q e : ℤ} (hc : Canonical m q) (h : Around m q (c * 10 ^ e)) (negative : Bool) :
    nearest negative c e = .finite negative m q := by
  obtain ⟨hleast, hgreatest⟩ := h.bounds hc
  have hten : (0 : ℚ) < 10 ^ e := by positivity
  have hone : (1 : ℚ) ≤ 10 := by norm_num
  have hpos : 0 < c := by
    refine Nat.pos_of_ne_zero ?_
    rintro rfl
    rw [Nat.cast_zero, zero_mul] at hleast
    exact absurd hleast (not_lt.2 (by positivity))
  have hlarge : ¬ 400 < e := by
    intro he
    have hc1 : (1 : ℚ) ≤ c := by exact_mod_cast hpos
    have hpow : (10 : ℚ) ^ ((400 : ℕ) : ℤ) ≤ c * 10 ^ e := by
      calc (10 : ℚ) ^ ((400 : ℕ) : ℤ) ≤ 10 ^ e := zpow_le_zpow_right₀ hone he.le
        _ = 1 * 10 ^ e := (one_mul _).symm
        _ ≤ c * 10 ^ e := by gcongr
    exact absurd hgreatest (not_lt.2 hpow)
  have hsmall : ¬ e + Int.ofNat c.log2 < -400 := by
    intro he
    rw [Int.ofNat_eq_natCast] at he
    have hlog : (c : ℚ) ≤ 10 ^ (c.log2 + 1) := by
      calc (c : ℚ) ≤ 2 ^ (c.log2 + 1) := by exact_mod_cast Nat.lt_log2_self.le
        _ ≤ 10 ^ (c.log2 + 1) := by
            gcongr
            norm_num
    have hpow : (c : ℚ) * 10 ^ e ≤ 10 ^ (-(400 : ℕ) : ℤ) := by
      calc (c : ℚ) * 10 ^ e ≤ 10 ^ (c.log2 + 1) * 10 ^ e := by gcongr
        _ = 10 ^ ((c.log2 : ℤ) + 1 + e) := by
            rw [zpow_add₀ (by norm_num)]
            norm_cast
        _ ≤ 10 ^ (-(400 : ℕ) : ℤ) := zpow_le_zpow_right₀ hone (by omega)
    exact absurd hleast (not_lt.2 hpow)
  unfold nearest
  rw [if_neg hpos.ne', if_neg hlarge, if_neg hsmall]
  split_ifs with he
  · refine Binary.nearest_of_around hc Nat.one_pos ?_ negative
    obtain ⟨k, rfl⟩ := Int.eq_ofNat_of_zero_le he
    simpa using h
  · refine Binary.nearest_of_around hc (Nat.pow_pos (by decide)) ?_ negative
    obtain ⟨k, hk⟩ := Int.eq_ofNat_of_zero_le (show 0 ≤ -e by omega)
    obtain rfl : e = -(k : ℤ) := by omega
    simpa [div_eq_mul_inv] using h

end RankEval.Decimal
