/-
Sampling without repeats. Positions are drawn in one of three ways, and none of them can draw a position twice, whatever
the stream: a shuffle only rearranges, a range that grows by one position has a position that was never drawn, and what
is drawn until it is new is new.

- `shuffleFrom_perm`, `shuffleDown_perm`: swapping rearranges.
- `DistinctBelow.grow`: one draw from a range that has just grown.
- `leastFree_spec`, `drawFree_spec`: one draw until a position is new.
- `isSample_sample`: a sample has distinct positions, as many as are asked for or all.
-/
import Mathlib.Data.List.Perm.Subperm
import RankEval.Random.Sample

namespace RankEval.Random

/-- distinct positions below a bound -/
structure DistinctBelow (bound : Nat) (positions : List Nat) : Prop where
  once : positions.Nodup
  below : ∀ i ∈ positions, i < bound

/-- Distinct positions of a list with `length` places: as many as are asked for, or all if there are fewer. -/
structure IsSample (length amount : Nat) (positions : List Nat) : Prop extends DistinctBelow length positions where
  count : positions.length = min amount length

namespace DistinctBelow

variable {bound : Nat} {positions positions' : List Nat}

theorem nil (bound : Nat) : DistinctBelow bound [] := ⟨.nil, nofun⟩

theorem of_perm (h : DistinctBelow bound positions) (hperm : positions'.Perm positions) :
    DistinctBelow bound positions' :=
  ⟨hperm.nodup_iff.2 h.once, fun i hi => h.below i (hperm.mem_iff.1 hi)⟩

theorem cons {i : Nat} (h : DistinctBelow bound positions) (hi : i < bound) (hnew : i ∉ positions) :
    DistinctBelow bound (i :: positions) :=
  ⟨List.nodup_cons.2 ⟨hnew, h.once⟩, List.forall_mem_cons.2 ⟨hi, h.below⟩⟩

/-- **Pigeonhole.** Fewer positions than there are below the bound leave one of them out. -/
theorem exists_free (hcount : positions.length < bound) : ∃ i < bound, i ∉ positions := by
  by_contra hnone
  have hall : List.range bound ⊆ positions := by
    intro i hi
    by_contra hfree
    exact hnone ⟨i, List.mem_range.1 hi, hfree⟩
  have hle := (List.subperm_of_subset List.nodup_range hall).length_le
  rw [List.length_range] at hle
  omega

/-- **One draw from a range that has just grown.** Where the number that is drawn is taken, the last position of the
range stands in for it: the range did not have it before. -/
theorem grow {t : Nat} (h : DistinctBelow bound positions) (ht : t < bound + 1) :
    DistinctBelow (bound + 1) ((if positions.contains t then bound else t) :: positions) := by
  have hgrown : DistinctBelow (bound + 1) positions := ⟨h.once, fun i hi => Nat.lt_succ_of_lt (h.below i hi)⟩
  split
  · exact hgrown.cons (Nat.lt_succ_self bound) fun hmem => Nat.lt_irrefl bound (h.below bound hmem)
  · next hnew => exact hgrown.cons ht (mt List.contains_iff_mem.2 hnew)

end DistinctBelow

/-! ## Shuffles -/

theorem swapIfInBounds_perm (positions : Array Nat) (i j : Nat) : (positions.swapIfInBounds i j).Perm positions := by
  unfold Array.swapIfInBounds
  split_ifs
  · exact Array.swap_perm ..
  · exact .refl _
  · exact .refl _

theorem shuffleFrom_perm (positions : Array Nat) (s : Stream) (i count : Nat) :
    (shuffleFrom positions s i count).Perm positions := by
  induction count generalizing positions s i with
  | zero => exact .refl _
  | succ count ih =>
    rw [shuffleFrom]
    generalize below (positions.size - i) s = draw
    exact (ih ..).trans (swapIfInBounds_perm ..)

theorem shuffleDown_perm (positions : Array Nat) (s : Stream) (i : Nat) : (shuffleDown positions s i).Perm positions := by
  induction i generalizing positions s with
  | zero => exact .refl _
  | succ i ih =>
    rw [shuffleDown]
    generalize below (i + 2) s = draw
    exact (ih ..).trans (swapIfInBounds_perm ..)

/-- the first places of all positions, rearranged -/
theorem isSample_sampleShuffled (length amount : Nat) (s : Stream) :
    IsSample length amount (sampleShuffled length amount s) := by
  have hperm : (shuffleFrom (Array.range length) s 0 amount).toList.Perm (List.range length) := by
    simpa using (shuffleFrom_perm (Array.range length) s 0 amount).toList
  have hall : DistinctBelow length (shuffleFrom (Array.range length) s 0 amount).toList :=
    DistinctBelow.of_perm ⟨List.nodup_range, fun i => List.mem_range.1⟩ hperm
  refine ⟨⟨hall.once.sublist (List.take_sublist ..), fun i hi => hall.below i (List.mem_of_mem_take hi)⟩, ?_⟩
  rw [sampleShuffled, List.length_take, hperm.length_eq, List.length_range]

/-! ## Growing ranges -/

/-- a position that is put before another one, or at the end, is one position more -/
theorem perm_insertBefore (drawn : List Nat) (t j : Nat) :
    (if drawn.contains t then drawn.takeWhile (· != t) ++ j :: drawn.dropWhile (· != t) else drawn ++ [t]).Perm
      ((if drawn.contains t then j else t) :: drawn) := by
  split
  · refine List.perm_middle.trans ?_
    rw [List.takeWhile_append_dropWhile]
  · exact List.perm_append_singleton t drawn

theorem growInserting_spec (s : Stream) (j : Nat) (drawn : List Nat) (count : Nat) (h : DistinctBelow j drawn) :
    DistinctBelow (j + count) (growInserting s j drawn count) ∧
      (growInserting s j drawn count).length = drawn.length + count := by
  induction count generalizing s j drawn with
  | zero => exact ⟨h, rfl⟩
  | succ count ih =>
    have hbelow := below_lt (j + 1) (Nat.succ_pos j) s
    rw [growInserting]
    generalize below (j + 1) s = draw at hbelow ⊢
    have hstep := perm_insertBefore drawn draw.1 j
    obtain ⟨hdistinct, hlength⟩ := ih draw.2 (j + 1) _ ((h.grow hbelow).of_perm hstep)
    rw [hstep.length_eq, List.length_cons] at hlength
    rw [Nat.add_right_comm] at hdistinct
    exact ⟨hdistinct, hlength.trans (Nat.add_right_comm ..)⟩

theorem growAppending_spec (s : Stream) (j : Nat) (drawn : Array Nat) (count : Nat) (h : DistinctBelow j drawn.toList) :
    DistinctBelow (j + count) (growAppending s j drawn count).1.toList ∧
      (growAppending s j drawn count).1.size = drawn.size + count := by
  induction count generalizing s j drawn with
  | zero => exact ⟨h, rfl⟩
  | succ count ih =>
    have hbelow := below_lt (j + 1) (Nat.succ_pos j) s
    rw [growAppending]
    generalize below (j + 1) s = draw at hbelow ⊢
    have hstep : (drawn.push (if drawn.contains draw.1 then j else draw.1)).toList.Perm
        ((if drawn.toList.contains draw.1 then j else draw.1) :: drawn.toList) := by
      rw [Array.toList_push, Array.contains_toList]
      exact List.perm_append_singleton ..
    obtain ⟨hdistinct, hsize⟩ := ih draw.2 (j + 1) _ ((h.grow hbelow).of_perm hstep)
    rw [Array.size_push] at hsize
    rw [Nat.add_right_comm] at hdistinct
    exact ⟨hdistinct, hsize.trans (Nat.add_right_comm ..)⟩

theorem isSample_sampleGrowing {length amount : Nat} (h : amount ≤ length) (s : Stream) :
    IsSample length amount (sampleGrowing length amount s) := by
  have hend : length - amount + amount = length := Nat.sub_add_cancel h
  unfold sampleGrowing
  split
  · obtain ⟨hdistinct, hlength⟩ := growInserting_spec s (length - amount) [] amount (.nil _)
    rw [hend] at hdistinct
    exact ⟨hdistinct, by rw [hlength, List.length_nil]; omega⟩
  · obtain ⟨hdistinct, hsize⟩ := growAppending_spec s (length - amount) #[] amount (.nil _)
    rw [hend] at hdistinct
    have hperm := (shuffleDown_perm (growAppending s (length - amount) #[] amount).1
      (growAppending s (length - amount) #[] amount).2 (amount - 1)).toList
    exact ⟨hdistinct.of_perm hperm, by rw [hperm.length_eq, Array.length_toList, hsize]; simp; omega⟩

/-! ## Drawing until a position is new -/

theorem leastFree_spec {taken : Std.TreeSet Nat} {fuel n : Nat} (h : ∃ i, n ≤ i ∧ i < n + fuel ∧ i ∉ taken) :
    leastFree taken fuel n < n + fuel ∧ leastFree taken fuel n ∉ taken := by
  induction fuel generalizing n with
  | zero =>
    obtain ⟨i, hle, hlt, -⟩ := h
    omega
  | succ fuel ih =>
    obtain ⟨i, hle, hlt, hfree⟩ := h
    unfold leastFree
    split
    · next htaken =>
      have hne : i ≠ n := by
        rintro rfl
        exact hfree (Std.TreeSet.mem_iff_contains.2 htaken)
      obtain ⟨hbound, hspec⟩ := ih (n := n + 1) ⟨i, by omega, by omega, hfree⟩
      exact ⟨by omega, hspec⟩
    · next hfree => exact ⟨by omega, mt Std.TreeSet.mem_iff_contains.1 hfree⟩

/-- **One draw until a position is new.** However many draws are rejected, the position is free in the end. -/
theorem drawFree_spec {length : Nat} {taken : Std.TreeSet Nat} (hfree : ∃ i < length, i ∉ taken) (fuel : Nat)
    (s : Stream) : (drawFree length taken fuel s).1 < length ∧ (drawFree length taken fuel s).1 ∉ taken := by
  obtain ⟨i, hi, hnew⟩ := hfree
  induction fuel generalizing s with
  | zero =>
    have hsome : ∃ i, 0 ≤ i ∧ i < 0 + length ∧ i ∉ taken := ⟨i, Nat.zero_le i, by omega, hnew⟩
    have hleast := leastFree_spec hsome
    rwa [Nat.zero_add] at hleast
  | succ fuel ih =>
    unfold drawFree
    dsimp only
    split
    · exact ih _
    · next hfree => exact ⟨belowExact_lt length (Nat.zero_lt_of_lt hi) s, mt Std.TreeSet.mem_iff_contains.1 hfree⟩

theorem sampleFresh_spec {length : Nat} (s : Stream) (taken : Std.TreeSet Nat) (drawn : List Nat) (count : Nat)
    (htaken : ∀ i, i ∈ taken ↔ i ∈ drawn) (h : DistinctBelow length drawn) (hcount : drawn.length + count ≤ length) :
    DistinctBelow length (sampleFresh length s taken drawn count) ∧
      (sampleFresh length s taken drawn count).length = drawn.length + count := by
  induction count generalizing s taken drawn with
  | zero => exact ⟨h.of_perm (List.reverse_perm drawn), List.length_reverse⟩
  | succ count ih =>
    have hcount' : drawn.length < length := by omega
    obtain ⟨i, hi, hfree⟩ := DistinctBelow.exists_free hcount'
    have hdraw := drawFree_spec ⟨i, hi, mt (htaken i).1 hfree⟩ drawFuel s
    rw [sampleFresh]
    generalize drawFree length taken drawFuel s = draw at hdraw ⊢
    obtain ⟨hbelow, hnew⟩ := hdraw
    have htaken' : ∀ i, i ∈ taken.insert draw.1 ↔ i ∈ draw.1 :: drawn := by
      intro i
      rw [Std.TreeSet.mem_insert, htaken, Std.LawfulEqOrd.compare_eq_iff_eq, List.mem_cons, eq_comm]
    obtain ⟨hdistinct, hlength⟩ := ih draw.2 _ _ htaken' (h.cons hbelow (mt (htaken _).2 hnew))
      (by rw [List.length_cons]; omega)
    rw [List.length_cons] at hlength
    exact ⟨hdistinct, hlength.trans (Nat.add_right_comm ..)⟩

theorem isSample_sampleFresh {length amount : Nat} (h : amount ≤ length) (s : Stream) :
    IsSample length amount (sampleFresh length s ∅ [] amount) := by
  obtain ⟨hdistinct, hlength⟩ := sampleFresh_spec s ∅ [] amount (by simp) (.nil length) (by simpa using h)
  exact ⟨hdistinct, by rw [hlength, List.length_nil]; omega⟩

/-! ## All three ways -/

/-- **A sample has distinct positions**, as many as are asked for or all of them, whichever way the sizes choose. -/
theorem isSample_sample (length amount : Nat) (s : Stream) : IsSample length amount (sample length amount s) := by
  have hle : min amount length ≤ length := Nat.min_le_right ..
  have hsample : IsSample length (min amount length) (sample length amount s) := by
    unfold sample
    dsimp only
    split_ifs
    · exact isSample_sampleShuffled length _ s
    · exact isSample_sampleGrowing hle s
    · exact isSample_sampleShuffled length _ s
    · exact isSample_sampleFresh hle s
  exact ⟨hsample.toDistinctBelow, hsample.count.trans (by omega)⟩

end RankEval.Random
