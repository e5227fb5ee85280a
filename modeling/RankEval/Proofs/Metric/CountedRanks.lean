/-
Shared ranks are counts. A score's rank, taken twice so that it is whole, is twice the number of greater scores, and the
number of scores equal to it, and one. The scores may be infinite and zeros of either sign; only what is no number has
no rank. For all lists that fit into a memory these numbers are doubles, so that nothing is rounded.

- `isGroupEnd_groupEnd`: where a group of tied scores ends.
- `RanksWritten.step`, `ranksWritten_writeRanks`: what one group, and then every group, leaves in the table.
- `rankTable_eq_averageRanks`: the loops write the shared ranks.
- `sum_twice_rank`: all ranks together.
- `averageRanks_counted`: the ranks by counting, what ties and greater scores mean for them, and their sum.
-/
import RankEval.Metric.RankTable
import RankEval.Proofs.Double.Quotients
import RankEval.Proofs.Metric.MannWhitney
import RankEval.Proofs.Metric.RankedOrder

namespace RankEval.Metric

open Double (place value lt_iff_place beq_iff_place tied_iff_place)

/-! ## The order by places -/

section
variable {scores : List Float} {order : List ℕ} {start stop : ℕ}

/-- the members of a slice, by their places -/
theorem mem_slice_iff {i : ℕ} :
    i ∈ (order.take stop).drop start ↔ ∃ p, start ≤ p ∧ p < stop ∧ order[p]? = some i := by
  rw [List.mem_iff_getElem?]
  constructor
  · rintro ⟨q, hq⟩
    rw [List.getElem?_drop, List.getElem?_take] at hq
    split_ifs at hq with hlt
    exact ⟨start + q, Nat.le_add_right _ _, hlt, hq⟩
  · rintro ⟨p, hp, hlt, hi⟩
    exact ⟨p - start, by rw [List.getElem?_drop, Nat.add_sub_cancel' hp, List.getElem?_take_of_lt hlt, hi]⟩

/-- an order in three parts -/
theorem append_slice_append (order : List ℕ) (h : start ≤ stop) :
    order.take start ++ ((order.take stop).drop start ++ order.drop stop) = order := by
  have htake : order.take start = (order.take stop).take start := by rw [List.take_take, min_eq_left h]
  rw [← List.append_assoc, htake, List.take_append_drop, List.take_append_drop]

/-- no score is above one that stands before it -/
theorem place_le_of_ranking (h : ∀ x ∈ scores, x.isNaN = false) {p q i j : ℕ} (hpq : p ≤ q)
    (hi : (ranking scores)[p]? = some i) (hj : (ranking scores)[q]? = some j) :
    place (scores.getD j 0.0) ≤ place (scores.getD i 0.0) := by
  obtain rfl | hlt := hpq.eq_or_lt
  · rw [hi] at hj
    rw [Option.some.inj hj]
  · obtain ⟨hp, rfl⟩ := List.getElem?_eq_some_iff.1 hi
    obtain ⟨hq, rfl⟩ := List.getElem?_eq_some_iff.1 hj
    exact List.pairwise_iff_getElem.1 (falling_ranking h) p q hp hq hlt

end

/-! ## The inner loop -/

/-- `stop` is the first place from `start` on that is not tied with a score. -/
structure IsGroupEnd (scores : List Float) (order : List ℕ) (first start stop : ℕ) : Prop where
  start_le : start ≤ stop
  le_length : stop ≤ order.length
  tied : ∀ p j, start ≤ p → p < stop → order[p]? = some j →
    tied (scores.getD first 0.0) (scores.getD j 0.0) = true
  ends : ∀ j, order[stop]? = some j → Metric.tied (scores.getD first 0.0) (scores.getD j 0.0) = false

theorem isGroupEnd_groupEnd (scores : List Float) (order : List ℕ) (first start : ℕ) (h : start ≤ order.length) :
    IsGroupEnd scores order first start (groupEnd scores order first start) := by
  fun_induction groupEnd with
  | case1 start hlt htied ih =>
    obtain ⟨hle, hlength, htieds, hends⟩ := ih hlt
    refine ⟨Nat.le_of_succ_le hle, hlength, fun p j hp hstop hj => ?_, hends⟩
    obtain rfl | hp := hp.eq_or_lt
    · rw [List.getElem?_eq_getElem hlt] at hj
      rwa [← Option.some.inj hj]
    · exact htieds p j hp hstop hj
  | case2 start hlt htied =>
    refine ⟨le_rfl, h, fun p j hp hstop => absurd hstop hp.not_gt, fun j hj => ?_⟩
    rw [List.getElem?_eq_getElem hlt] at hj
    rwa [← Option.some.inj hj, ← Bool.not_eq_true]
  | case3 start hlt =>
    refine ⟨le_rfl, h, fun p j hp hstop => absurd hstop hp.not_gt, fun j hj => ?_⟩
    rw [List.getElem?_eq_none (not_lt.1 hlt)] at hj
    cases hj

section
variable {scores : List Float} {first start stop : ℕ}

/-- all of a group are level with its first candidate -/
theorem IsGroupEnd.level (h : IsGroupEnd scores (ranking scores) first (start + 1) stop)
    (hnum : ∀ x ∈ scores, x.isNaN = false) (hfirst : (ranking scores)[start]? = some first) {p i : ℕ} (hp : start ≤ p)
    (hstop : p < stop) (hi : (ranking scores)[p]? = some i) :
    place (scores.getD first 0.0) = place (scores.getD i 0.0) := by
  obtain rfl | hlt := hp.eq_or_lt
  · rw [hfirst] at hi
    rw [Option.some.inj hi]
  · exact (tied_iff_place (isNaN_getD hnum _) (isNaN_getD hnum _)).1 (h.tied p i hlt hstop hi)

/-- What follows a group is below it: the next candidate is not tied with the first one, and no other is above the next
one. -/
theorem IsGroupEnd.below (h : IsGroupEnd scores (ranking scores) first (start + 1) stop)
    (hnum : ∀ x ∈ scores, x.isNaN = false) (hfirst : (ranking scores)[start]? = some first) {q j : ℕ} (hq : stop ≤ q)
    (hj : (ranking scores)[q]? = some j) : place (scores.getD j 0.0) < place (scores.getD first 0.0) := by
  obtain ⟨hqlength, -⟩ := List.getElem?_eq_some_iff.1 hj
  have hnext : (ranking scores)[stop]? = some (ranking scores)[stop] := List.getElem?_eq_getElem (hq.trans_lt hqlength)
  refine (place_le_of_ranking hnum hq hnext hj).trans_lt (lt_of_le_of_ne ?_ fun heq => ?_)
  · exact place_le_of_ranking hnum (Nat.le_of_succ_le h.start_le) hfirst hnext
  · have htied := (tied_iff_place (isNaN_getD hnum _) (isNaN_getD hnum _)).2 heq.symm
    exact Bool.false_ne_true ((h.ends _ hnext).symm.trans htied)

/-- the mean of the ranks of a group is the rank by counting of each of its scores -/
theorem IsGroupEnd.meanRank_eq (R : Type) [Arithmetic R]
    (h : IsGroupEnd scores (ranking scores) first (start + 1) stop) (hnum : ∀ x ∈ scores, x.isNaN = false)
    (hfirst : (ranking scores)[start]? = some first)
    (habove : ∀ p i, p < start → (ranking scores)[p]? = some i →
      place (scores.getD first 0.0) < place (scores.getD i 0.0))
    {p i : ℕ} (hp : start ≤ p) (hstop : p < stop) (hi : (ranking scores)[p]? = some i) :
    sharedRank R scores (scores.getD i 0.0) = meanRank R (start + 1) stop := by
  have hle : start ≤ stop := Nat.le_of_succ_le h.start_le
  have hperm : ((ranking scores).map fun i => scores.getD i 0.0).Perm scores := by
    rw [map_getD_ranking]
    exact map_fst_ranked_perm
  have hmem : scores.getD i 0.0 ∈ scores := hperm.mem_iff.1 (List.mem_map.2 ⟨i, List.mem_of_getElem? hi, rfl⟩)
  have hx := h.level hnum hfirst hp hstop hi
  rw [← append_slice_append (ranking scores) hle, List.map_append, List.map_append] at hperm
  have hshared := sharedRank_eq_meanRank R hperm hnum hmem ?pre ?group ?post
  case pre =>
    refine List.forall_mem_map.2 fun k hk => ?_
    obtain ⟨q, hq, rfl⟩ := List.mem_take_iff_getElem.1 hk
    rw [← hx]
    exact habove q _ (lt_min_iff.1 hq).1 (List.getElem?_eq_getElem _)
  case group =>
    refine List.forall_mem_map.2 fun k hk => ?_
    obtain ⟨q, hq, hlt, hk⟩ := mem_slice_iff.1 hk
    rw [← hx]
    exact h.level hnum hfirst hq hlt hk
  case post =>
    refine List.forall_mem_map.2 fun k hk => ?_
    obtain ⟨q, hq, rfl⟩ := List.mem_drop_iff_getElem.1 hk
    rw [← hx]
    exact h.below hnum hfirst (Nat.le_add_right _ _) (List.getElem?_eq_getElem _)
  have hlength := h.le_length
  rw [hshared, List.length_map, List.length_map, List.length_drop, List.length_take, List.length_take,
    min_eq_left (hle.trans hlength), min_eq_left hlength, Nat.add_sub_cancel' hle]

end

/-! ## The outer loop -/

section
variable {R : Type}

@[simp] theorem size_writeGroup (ranks : Array R) (group : List ℕ) (rank : R) :
    (writeGroup ranks group rank).size = ranks.size := by
  unfold writeGroup
  induction group generalizing ranks with
  | nil => rfl
  | cons i group ih => rw [List.foldl_cons, ih, Array.size_setIfInBounds]

/-- the members of a group get the rank, all others keep what they have -/
theorem getElem?_writeGroup (ranks : Array R) (group : List ℕ) (rank : R) (i : ℕ) (hi : i < ranks.size) :
    (writeGroup ranks group rank)[i]? = if i ∈ group then some rank else ranks[i]? := by
  unfold writeGroup
  induction group generalizing ranks with
  | nil => simp
  | cons j group ih =>
    rw [List.foldl_cons, ih _ (by rwa [Array.size_setIfInBounds]), Array.getElem?_setIfInBounds]
    by_cases hmem : i ∈ group
    · simp [hmem]
    · by_cases hij : j = i
      · simp [hij, hi]
      · simp [hmem, hij, Ne.symm hij]

variable [Arithmetic R] {scores : List Float} {start : ℕ} {ranks : Array R}

/-- What the table holds before the group at `start`: the ranks of all candidates before, whose scores are above those
that are left. -/
structure RanksWritten (scores : List Float) (start : ℕ) (ranks : Array R) : Prop where
  size : ranks.size = scores.length
  written : ∀ p i, p < start → (ranking scores)[p]? = some i →
    ranks[i]? = some (sharedRank R scores (scores.getD i 0.0))
  above : ∀ p q i j, p < start → start ≤ q → (ranking scores)[p]? = some i → (ranking scores)[q]? = some j →
    place (scores.getD j 0.0) < place (scores.getD i 0.0)

/-- **One group.** Its members get their rank, and the next group is below it. -/
theorem RanksWritten.step (h : RanksWritten scores start ranks) (hnum : ∀ x ∈ scores, x.isNaN = false) {first stop : ℕ}
    (hfirst : (ranking scores)[start]? = some first)
    (hstop : IsGroupEnd scores (ranking scores) first (start + 1) stop) :
    RanksWritten scores stop (writeGroup ranks (((ranking scores).take stop).drop start)
      (meanRank R (start + 1) stop)) := by
  have hlt : start < (ranking scores).length := (List.getElem?_eq_some_iff.1 hfirst).1
  have habove : ∀ p i, p < start → (ranking scores)[p]? = some i →
      place (scores.getD first 0.0) < place (scores.getD i 0.0) :=
    fun p i hp hi => h.above p start i first hp le_rfl hi hfirst
  refine ⟨(size_writeGroup ..).trans h.size, fun p i hp hi => ?_, fun p q i j hp hq hi hj => ?_⟩
  · have hin : i < ranks.size := by
      rw [h.size]
      exact List.mem_range.1 ((ranking_perm scores).mem_iff.1 (List.mem_of_getElem? hi))
    rw [getElem?_writeGroup _ _ _ _ hin]
    rcases lt_or_ge p start with hbefore | hin
    · -- what stands before is above the group
      have hgroup : i ∉ ((ranking scores).take stop).drop start := by
        intro hmem
        obtain ⟨q, hq, -, hqi⟩ := mem_slice_iff.1 hmem
        exact (h.above p q i i hbefore hq hi hqi).false
      rw [if_neg hgroup]
      exact h.written p i hbefore hi
    · rw [if_pos (mem_slice_iff.2 ⟨p, hin, hp, hi⟩), hstop.meanRank_eq R hnum hfirst habove hin hp hi]
  · rcases lt_or_ge p start with hbefore | hin
    · exact h.above p q i j hbefore ((Nat.le_of_succ_le hstop.start_le).trans hq) hi hj
    · rw [← hstop.level hnum hfirst hin hp hi]
      exact hstop.below hnum hfirst hq hj

/-- **All groups.** At the end of the order every candidate has its rank. -/
theorem ranksWritten_writeRanks (hnum : ∀ x ∈ scores, x.isNaN = false) (hle : start ≤ scores.length)
    (h : RanksWritten scores start ranks) :
    RanksWritten scores scores.length (writeRanks scores (ranking scores) start ranks) := by
  fun_induction writeRanks scores (ranking scores) start ranks with
  | case1 start ranks hlt stop ih =>
    have hstop : IsGroupEnd scores (ranking scores) (ranking scores)[start] (start + 1) stop :=
      isGroupEnd_groupEnd scores (ranking scores) _ _ hlt
    exact ih (length_ranking scores ▸ hstop.le_length) (h.step hnum (List.getElem?_eq_getElem hlt) hstop)
  | case2 start ranks hlt =>
    rw [length_ranking] at hlt
    rwa [← le_antisymm hle (not_lt.1 hlt)]

variable (R)

/-- **The loops write the shared ranks**, each at its own position. -/
theorem rankTable_eq_averageRanks (hnum : ∀ x ∈ scores, x.isNaN = false) :
    rankTable R scores = averageRanks R scores := by
  have hstart : RanksWritten scores 0 (Array.replicate scores.length (Arithmetic.ofNat (R := R) 0)) :=
    ⟨Array.size_replicate, fun _ _ hp => absurd hp (Nat.not_lt_zero _), fun _ _ _ _ hp => absurd hp (Nat.not_lt_zero _)⟩
  obtain ⟨hsize, hwritten, -⟩ := ranksWritten_writeRanks hnum (Nat.zero_le _) hstart
  rw [averageRanks_eq_map R scores hnum]
  refine List.ext_getElem (by simp [rankTable, hsize]) fun i hi hi' => ?_
  have hlt : i < scores.length := by simpa using hi'
  -- every position is somewhere in the order
  obtain ⟨p, hp, hpi⟩ := List.mem_iff_getElem.1 ((ranking_perm scores).mem_iff.2 (List.mem_range.2 hlt))
  have hrank : (rankTable R scores)[i]? = some (sharedRank R scores (scores.getD i 0.0)) := by
    rw [rankTable, Array.getElem?_toList]
    exact hwritten p i (length_ranking scores ▸ hp) (hpi ▸ List.getElem?_eq_getElem hp)
  rw [List.getElem_map, ← List.getD_eq_getElem scores 0.0 hlt]
  exact Option.some.inj ((List.getElem?_eq_getElem hi).symm.trans hrank)

end

/-! ## Counting -/

section
variable {scores : List Float}

/-- for numbers, level and equal are one -/
theorem level_eq_countP (hnum : ∀ x ∈ scores, x.isNaN = false) {x : Float} (hx : x.isNaN = false) :
    level scores x = scores.countP fun y => y == x := by
  refine List.countP_congr fun y hy => ?_
  rw [tied_iff_place hx (hnum y hy), beq_iff_place (hnum y hy) hx, eq_comm]

/-- of two numbers one is greater or both are equal -/
theorem lt_or_lt_or_tied {x y : Float} (hx : x.isNaN = false) (hy : y.isNaN = false) :
    (decide (x < y)).toNat + (decide (y < x)).toNat + (tied x y).toNat = 1 := by
  have htied : tied x y = decide (place x = place y) := by
    rw [Bool.eq_iff_iff, tied_iff_place hx hy, decide_eq_true_iff]
  simp only [htied, lt_iff_place hx hy, lt_iff_place hy hx]
  rcases lt_trichotomy (place x) (place y) with h | h | h
  · simp [h, h.not_gt, h.ne]
  · simp [h]
  · simp [h, h.not_gt, h.ne']

/-- all ranks together, twice over so that they are whole -/
theorem sum_twice_rank (hnum : ∀ x ∈ scores, x.isNaN = false) :
    (scores.map fun x => 2 * above scores x + level scores x + 1).sum = scores.length * (scores.length + 1) := by
  have htwice := twice_countP_add_countP scores (fun x y => decide (x < y)) tied fun x hx y hy =>
    lt_or_lt_or_tied (hnum x hx) (hnum y hy)
  rw [countP_product, countP_product] at htwice
  have hones : (scores.map fun _ => 1).sum = scores.length := by simp
  rw [List.sum_map_add, List.sum_map_add, List.sum_map_mul_left, hones, mul_add_one, ← htwice]
  rfl

theorem above_add_level_le (hnum : ∀ x ∈ scores, x.isNaN = false) {x : Float} (hx : x.isNaN = false) :
    above scores x + level scores x ≤ scores.length := by
  have hthree := countP_add_countP_add_countP (fun y => decide (x < y)) (fun y => decide (y < x)) (fun y => tied x y)
    scores fun y hy => lt_or_lt_or_tied hx (hnum y hy)
  exact (Nat.add_right_comm _ _ _ ▸ Nat.le_add_right _ _).trans_eq hthree

/-- what is not below the greater of two scores is above the other one -/
theorem above_add_level_le_above (hnum : ∀ x ∈ scores, x.isNaN = false) {x y : Float} (hlt : x < y) :
    above scores y + level scores y ≤ above scores x := by
  obtain ⟨hx, hy⟩ := Double.isNaN_of_lt hlt
  have hthree := countP_add_countP_add_countP (fun z => decide (y < z)) (fun z => decide (z < y)) (fun z => tied y z)
    scores fun z hz => lt_or_lt_or_tied hy (hnum z hz)
  have hrest := List.length_eq_countP_add_countP (fun z => decide (z < y)) (l := scores)
  simp only [decide_eq_true_eq] at hrest
  have hmono : (scores.countP fun z => decide ¬ z < y) ≤ above scores x := by
    refine List.countP_mono_left fun z hz hle => ?_
    rw [lt_iff_place hx hy] at hlt
    rw [decide_eq_true_iff, lt_iff_place (hnum z hz) hy, not_lt] at hle
    exact decide_eq_true ((lt_iff_place hx (hnum z hz)).2 (hlt.trans_le hle))
  unfold above level at *
  omega

/-- a score is level with itself -/
theorem level_pos {x : Float} (hx : x.isNaN = false) (hmem : x ∈ scores) : 0 < level scores x :=
  List.countP_pos_iff.2 ⟨x, hmem, (tied_iff_place hx hx).2 rfl⟩

/-- equal scores are counted alike -/
theorem sharedRank_congr (R : Type) [Arithmetic R] (hnum : ∀ x ∈ scores, x.isNaN = false) {x y : Float}
    (hx : x.isNaN = false) (hy : y.isNaN = false) (heq : place x = place y) :
    sharedRank R scores x = sharedRank R scores y := by
  have habove : above scores x = above scores y := List.countP_congr fun z hz => by
    rw [decide_eq_true_iff, decide_eq_true_iff, lt_iff_place hx (hnum z hz), lt_iff_place hy (hnum z hz), heq]
  have hlevel : level scores x = level scores y := List.countP_congr fun z hz => by
    rw [tied_iff_place hx (hnum z hz), tied_iff_place hy (hnum z hz), heq]
  rw [sharedRank, sharedRank, habove, hlevel]

/-- as a double, a mean of ranks is exact -/
theorem value_meanRank {a l : ℕ} (h : 2 * a + l + 1 ≤ 2 ^ 53) : (meanRank Float (a + 1) (a + l)).isFinite = true ∧
    value (meanRank Float (a + 1) (a + l)) = (2 * a + l + 1 : ℕ) / 2 := by
  have hcount : a + 1 + (a + l) = 2 * a + l + 1 := by omega
  rw [meanRank, hcount]
  exact Double.value_ofNat_div_two h

theorem value_sharedRank (hnum : ∀ x ∈ scores, x.isNaN = false) (hlen : scores.length < 2 ^ 51) {x : Float}
    (hx : x.isNaN = false) : (sharedRank Float scores x).isFinite = true ∧
      value (sharedRank Float scores x) = (2 * above scores x + level scores x + 1 : ℕ) / 2 := by
  have hle := above_add_level_le hnum hx
  exact value_meanRank (by omega)

end

/-- The rank of every score as a double: `rank` of it, by counting, and what follows for two scores and for all. -/
structure CountedRanks (scores ranks : List Float) : Prop where
  length : ranks.length = scores.length
  counted : ∀ (i : ℕ) x, scores[i]? = some x → ∃ rank, ranks[i]? = some rank ∧ rank.isFinite = true ∧
    2 * value rank = (2 * (scores.countP fun y => decide (x < y)) + (scores.countP fun y => y == x) + 1 : ℕ)
  tie : ∀ (i j : ℕ) x y, scores[i]? = some x → scores[j]? = some y → (x == y) = true → ranks[i]? = ranks[j]?
  higher : ∀ (i j : ℕ) x y rank rank', scores[i]? = some x → scores[j]? = some y → x < y →
    ranks[i]? = some rank → ranks[j]? = some rank' → rank' < rank
  sum : (ranks.map value).sum = (scores.length * (scores.length + 1) : ℕ) / 2

/-- **Shared ranks are counts**, exactly. A list of scores without NaN that is shorter than `2 ^ 51` has a rank for each
position: twice the rank is twice the number of greater scores, and the number of equal ones, and one. So equal scores
have one rank, a higher score has a smaller rank, and the ranks sum up as those without ties. Two loops that go along
the order and write each rank to its position give the same list. -/
theorem averageRanks_counted (scores : List Float) (hnum : ∀ x ∈ scores, x.isNaN = false)
    (hlen : scores.length < 2 ^ 51) :
    CountedRanks scores (averageRanks Float scores) ∧ rankTable Float scores = averageRanks Float scores := by
  have hranks := averageRanks_eq_map Float scores hnum
  have hget : ∀ (i : ℕ) x, scores[i]? = some x →
      (averageRanks Float scores)[i]? = some (sharedRank Float scores x) := fun i x hx => by
    rw [hranks, List.getElem?_map, hx]
    rfl
  have hnumber : ∀ {i : ℕ} {x}, scores[i]? = some x → x.isNaN = false := fun h => hnum _ (List.mem_of_getElem? h)
  refine ⟨⟨?length, fun i x hx => ?counted, fun i j x y hx hy htie => ?tie,
    fun i j x y rank rank' hx hy hlt hrank hrank' => ?higher, ?sum⟩, rankTable_eq_averageRanks Float hnum⟩
  case length => rw [hranks, List.length_map]
  case counted =>
    obtain ⟨hfinite, hvalue⟩ := value_sharedRank hnum hlen (hnumber hx)
    refine ⟨_, hget i x hx, hfinite, ?_⟩
    rw [hvalue, level_eq_countP hnum (hnumber hx), mul_div_cancel₀ _ two_ne_zero]
    rfl
  case tie =>
    rw [hget i x hx, hget j y hy]
    exact congrArg some (sharedRank_congr Float hnum (hnumber hx) (hnumber hy)
      ((beq_iff_place (hnumber hx) (hnumber hy)).1 htie))
  case higher =>
    obtain rfl := Option.some.inj ((hget i x hx).symm.trans hrank)
    obtain rfl := Option.some.inj ((hget j y hy).symm.trans hrank')
    obtain ⟨hfinite, hvalue⟩ := value_sharedRank hnum hlen (hnumber hx)
    obtain ⟨hfinite', hvalue'⟩ := value_sharedRank hnum hlen (hnumber hy)
    have hpos := level_pos (hnumber hx) (List.mem_of_getElem? hx)
    have hpos' := level_pos (hnumber hy) (List.mem_of_getElem? hy)
    have hle := above_add_level_le_above hnum hlt
    rw [Double.lt_iff_value hfinite' hfinite, hvalue, hvalue']
    refine div_lt_div_of_pos_right ?_ two_pos
    exact_mod_cast (by omega : 2 * above scores y + level scores y + 1 < 2 * above scores x + level scores x + 1)
  case sum =>
    have hvalues : (scores.map (sharedRank Float scores)).map value =
        scores.map fun x => ((2 * above scores x + level scores x + 1 : ℕ) * 2⁻¹ : ℚ) := by
      rw [List.map_map]
      exact List.map_congr_left fun x hx => (value_sharedRank hnum hlen (hnum x hx)).2
    rw [hranks, hvalues, List.sum_map_mul_right, ← sum_twice_rank hnum, Nat.cast_list_sum, List.map_map, div_eq_mul_inv]
    rfl

/-- Both infinities, both zeros, and ties: the infinite scores share the ranks 1 and 2, the zeros 3 and 4. -/
theorem averageRanks_counted_of_six :
    let scores : List Float := [0.0, 1.0 / 0.0, -0.0, -2.0, 1.0 / 0.0, -1.0 / 0.0]
    (∀ x ∈ scores, x.isNaN = false) ∧ CountedRanks scores (averageRanks Float scores) ∧
      rankTable Float scores = [3.5, 1.5, 3.5, 5.0, 1.5, 6.0] ∧
      (∃ rank, (averageRanks Float scores)[2]? = some rank ∧ 2 * value rank = 7) ∧
      ((averageRanks Float scores).map value).sum = 21 := by
  intro scores
  have hnum : ∀ x ∈ scores, x.isNaN = false := by decide +kernel
  obtain ⟨hranks, htable⟩ := averageRanks_counted scores hnum (by decide)
  refine ⟨hnum, hranks, ?_, ?_, ?_⟩
  · rw [htable, averageRanks_eq_map Float scores hnum]
    decide +kernel
  · obtain ⟨rank, hrank, -, hvalue⟩ := hranks.counted 2 (-0.0) rfl
    have habove : (scores.countP fun y => decide (-0.0 < y)) = 2 := by decide +kernel
    have hlevel : (scores.countP fun y => y == -0.0) = 2 := by decide +kernel
    refine ⟨rank, hrank, ?_⟩
    rw [hvalue, habove, hlevel]
    norm_num
  · rw [hranks.sum]
    norm_num [scores]

end RankEval.Metric
