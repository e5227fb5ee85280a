/-
Better scores for relevant candidates never hurt. One candidate is given a score that is not smaller than the one it
had, or the first one it has. No other candidate's place gets better by that, so none of the others is new among the
first `k`; and of all pairs, those with the candidate are decided no less in its favour, and the others as before.

- `mem_take_ranking_iff`: a candidate is among the first if few enough are ranked before it.
- `mem_take_of_raised`, `hits_of_raised`: no other candidate gets among the first, so that of one kind there are no more
  than before.
- `points_of_raised`, `pairPoints_of_raised`: the pairs, and with them the area.
- `metrics_of_raised`: no metric falls for a relevant candidate, and none rises for an irrelevant one, as for the four
  candidates of `metrics_of_raised_four`.
-/
import RankEval.Proofs.Double.Quotients
import RankEval.Proofs.Metric.Cutoffs
import RankEval.Proofs.Metric.Evaluation
import RankEval.Proofs.Metric.MannWhitney

namespace RankEval

namespace AlignedScores

/-- the scores with `v` for candidate `i`, which counts as scored -/
def withScore (a : AlignedScores) (i : ℕ) (v : Float) : AlignedScores :=
  ⟨a.values.set i v, (a.flags a.values.length).set i true⟩

/-- for the answers of an engine, it is one answer that changes -/
theorem withScore_ofOptions (answers : List (Option Float)) (i : ℕ) (v : Float) :
    (ofOptions answers).withScore i v = ofOptions (answers.set i (some v)) := by
  have htake : (answers.map Option.isSome).take answers.length = answers.map Option.isSome :=
    List.take_of_length_le (by simp)
  simp [withScore, ofOptions, flags, List.map_set, htake]

/-- a candidate without an answer is aligned with 0 -/
theorem getD_ofOptions (answers : List (Option Float)) (i : ℕ) :
    (ofOptions answers).values.getD i 0.0 = (answers.getD i none).getD 0.0 := by
  rw [ofOptions, List.getD_eq_getElem?_getD, List.getD_eq_getElem?_getD, List.getElem?_map]
  cases answers[i]? <;> rfl

end AlignedScores

namespace Metric

open Double (value lt_iff_value beq_iff_value le_iff_value)

/-- The scores `b` are those of `a` other than for candidate `i`: it is scored in `b`, and not lower than in `a`. -/
structure Raised (a b : AlignedScores) (i : ℕ) : Prop where
  length : a.values.length = b.values.length
  finite : ∀ x ∈ a.values, x.isFinite = true
  finite' : ∀ x ∈ b.values, x.isFinite = true
  scored : b.isScored i = true
  le : value (a.values.getD i 0.0) ≤ value (b.values.getD i 0.0)
  others : ∀ j < a.values.length, j ≠ i →
    b.values.getD j 0.0 = a.values.getD j 0.0 ∧ b.isScored j = a.isScored j

theorem raised_withScore {a : AlignedScores} {i : ℕ} {v : Float} (hfin : ∀ x ∈ a.values, x.isFinite = true)
    (hi : i < a.values.length) (hv : v.isFinite = true) (hle : a.values.getD i 0.0 ≤ v) :
    Raised a (a.withScore i v) i where
  length := by simp [AlignedScores.withScore]
  finite := hfin
  finite' x hx := by
    rcases List.mem_or_eq_of_mem_set hx with hold | rfl
    · exact hfin x hold
    · exact hv
  scored := by simp [AlignedScores.withScore, AlignedScores.isScored, hi]
  le := by
    have hnew : (a.withScore i v).values.getD i 0.0 = v := by simp [AlignedScores.withScore, hi]
    rw [hnew]
    exact (le_iff_value (isFinite_getD hfin i) hv).1 hle
  others j hj hne := by
    have hflag := a.getElem?_flags a.values.length j hj
    refine ⟨?_, ?_⟩
    · simp [AlignedScores.withScore, List.getElem?_set_ne hne.symm]
    · simp only [AlignedScores.withScore, AlignedScores.isScored, List.getElem?_set_ne hne.symm, hflag]
      rfl

/-! ## The first candidates -/

/-- position `i` is ranked before position `j` -/
def Before (scores : List Float) (i j : ℕ) : Prop :=
  value (scores.getD j 0.0) < value (scores.getD i 0.0) ∨
    value (scores.getD i 0.0) = value (scores.getD j 0.0) ∧ i < j

instance (scores : List Float) : DecidableRel (Before scores) := fun _ _ => inferInstanceAs (Decidable (_ ∨ _))

theorem Before.asymm {scores : List Float} {i j : ℕ} (h : Before scores i j) : ¬ Before scores j i := by
  rintro (hlt | ⟨heq, hlt⟩)
  · rcases h with hgt | ⟨heq, -⟩
    · exact hlt.not_gt hgt
    · exact hlt.ne heq
  · rcases h with hgt | ⟨-, hgt⟩
    · exact hgt.ne heq
    · exact hlt.not_gt hgt

/-- what is among the first of an ordered list is what few enough stand before -/
theorem mem_take_iff_countP {α : Type} {r : α → α → Prop} [DecidableRel r] (hasymm : ∀ x y, r x y → ¬ r y x)
    {xs : List α} (h : xs.Pairwise r) {x : α} (hx : x ∈ xs) (c : ℕ) :
    x ∈ xs.take c ↔ xs.countP (fun y => r y x) < c := by
  induction xs generalizing c with
  | nil => cases hx
  | cons first xs ih =>
    obtain ⟨hfirst, hxs⟩ := List.pairwise_cons.1 h
    by_cases heq : x = first
    · subst heq
      have hnone : (x :: xs).countP (fun y => r y x) = 0 := by
        refine List.countP_eq_zero.2 fun y hy => ?_
        rw [decide_eq_true_eq]
        rcases List.mem_cons.1 hy with rfl | hy
        · exact fun hself => hasymm _ _ hself hself
        · exact hasymm _ _ (hfirst y hy)
      rw [hnone]
      cases c <;> simp
    · have hx : x ∈ xs := (List.mem_cons.1 hx).resolve_left heq
      have hcount : (first :: xs).countP (fun y => r y x) = xs.countP (fun y => r y x) + 1 :=
        List.countP_cons_of_pos (decide_eq_true (hfirst x hx))
      rw [hcount]
      cases c with
      | zero => simp
      | succ c => rw [List.take_succ_cons, List.mem_cons, ih hxs hx, or_iff_right heq, Nat.succ_lt_succ_iff]

section
variable {scores : List Float}

theorem pairwise_before (h : ∀ x ∈ scores, x.isFinite = true) : (ranking scores).Pairwise (Before scores) := by
  refine (stableOrder_ranking h).falls.imp fun {i j} hij => ?_
  have hi := isFinite_getD h i
  have hj := isFinite_getD h j
  rwa [lt_iff_value hj hi, beq_iff_value hi hj] at hij

theorem mem_take_ranking_iff (h : ∀ x ∈ scores, x.isFinite = true) {j : ℕ} (hj : j < scores.length) (c : ℕ) :
    j ∈ (ranking scores).take c ↔ (List.range scores.length).countP (fun i => Before scores i j) < c := by
  have hmem : j ∈ ranking scores := (ranking_perm scores).mem_iff.2 (List.mem_range.2 hj)
  rw [mem_take_iff_countP (fun _ _ => Before.asymm) (pairwise_before h) hmem, (ranking_perm scores).countP_eq]

end

section
variable {a b : AlignedScores} {i j c : ℕ}

/-- what stands before another candidate still does when a third one is raised, or when it is raised itself -/
theorem before_of_raised (h : Raised a b i) (hj : j < a.values.length) (hne : j ≠ i) {l : ℕ} (hl : l < a.values.length)
    (hbefore : Before a.values l j) : Before b.values l j := by
  unfold Before at hbefore ⊢
  rw [(h.others j hj hne).1]
  by_cases hli : l = i
  · subst hli
    have hle := h.le
    rcases hbefore with hlt | ⟨heq, hlt⟩
    · exact .inl (hlt.trans_le hle)
    · rcases hle.lt_or_eq with hmore | hsame
      · exact .inl (heq ▸ hmore)
      · exact .inr ⟨hsame ▸ heq, hlt⟩
  · rwa [(h.others l hl hli).1]

/-- **No other candidate gets among the first.** -/
theorem mem_take_of_raised (h : Raised a b i) (hne : j ≠ i) (hmem : j ∈ (ranking b.values).take c) :
    j ∈ (ranking a.values).take c := by
  have hj' : j < b.values.length := List.mem_range.1 ((ranking_perm _).mem_iff.1 (List.mem_of_mem_take hmem))
  have hj : j < a.values.length := h.length ▸ hj'
  rw [mem_take_ranking_iff h.finite' hj'] at hmem
  rw [mem_take_ranking_iff h.finite hj]
  refine lt_of_le_of_lt ?_ hmem
  rw [← h.length]
  refine List.countP_mono_left fun l hl hbefore => ?_
  rw [decide_eq_true_eq] at hbefore ⊢
  exact before_of_raised h hj hne (List.mem_range.1 hl) hbefore

/-- if no element that counts is new, no more of them count -/
theorem countP_le_of_forall_mem {α : Type} {xs ys : List α} (hxs : xs.Nodup) {p : α → Bool}
    (h : ∀ x ∈ xs, p x = true → x ∈ ys) : xs.countP p ≤ ys.countP p := by
  rw [List.countP_eq_length_filter, List.countP_eq_length_filter]
  refine (List.subperm_of_subset (hxs.filter p) fun x hx => ?_).length_le
  obtain ⟨hx, hp⟩ := List.mem_filter.1 hx
  exact List.mem_filter.2 ⟨h x hx hp, hp⟩

theorem ne_of_isRelevant {relevance : List Float} {i j : ℕ} (hi : isRelevant (relevance.getD i 0.0) = true)
    (hj : isRelevant (relevance.getD j 0.0) = false) : i ≠ j := by
  rintro rfl
  rw [hi] at hj
  cases hj

/-- **No relevant candidate is lost for a relevant one, and none is won for an irrelevant one.** -/
theorem hits_of_raised (relevance : List Float) (h : Raised a b i) (c : ℕ) :
    (isRelevant (relevance.getD i 0.0) = true → hits relevance a.values c ≤ hits relevance b.values c) ∧
      (isRelevant (relevance.getD i 0.0) = false → hits relevance b.values c ≤ hits relevance a.values c) := by
  have hnodup : ((ranking b.values).take c).Nodup :=
    ((ranking_perm b.values).nodup_iff.2 List.nodup_range).sublist (List.take_sublist _ _)
  have hlength : ((ranking b.values).take c).length = ((ranking a.values).take c).length := by
    rw [List.length_take, List.length_take, length_ranking, length_ranking, h.length]
  rw [hits_eq_countP, hits_eq_countP]
  constructor
  · intro hrelevant
    -- the irrelevant ones among the first are counted: none of them is new
    have hfewer : ((ranking b.values).take c).countP (fun j => !isRelevant (relevance.getD j 0.0)) ≤
        ((ranking a.values).take c).countP fun j => !isRelevant (relevance.getD j 0.0) := by
      refine countP_le_of_forall_mem hnodup fun j hj hirrelevant => mem_take_of_raised h ?_ hj
      exact (ne_of_isRelevant hrelevant (Bool.not_eq_true' _ ▸ hirrelevant)).symm
    have hall := List.length_eq_countP_add_countP (fun j => isRelevant (relevance.getD j 0.0))
      (l := (ranking a.values).take c)
    have hall' := List.length_eq_countP_add_countP (fun j => isRelevant (relevance.getD j 0.0))
      (l := (ranking b.values).take c)
    simp only [Bool.not_eq_true, Bool.decide_eq_false] at hall hall'
    omega
  · intro hirrelevant
    refine countP_le_of_forall_mem hnodup fun j hj hrelevant => mem_take_of_raised h ?_ hj
    exact ne_of_isRelevant hrelevant hirrelevant

end

/-! ## The area -/

namespace Candidate

/-- two points for a candidate that beats the other, one for a level one -/
def points (c d : Candidate) : ℕ := 2 * (c.beats d).toNat + (c.level d).toNat

theorem level_comm {c d : Candidate} (hc : c.score.isFinite = true) (hd : d.score.isFinite = true) :
    c.level d = d.level c := by
  have hbeq : (c.score == d.score) = (d.score == c.score) := by
    rw [Bool.eq_iff_iff, beq_iff_value hc hd, beq_iff_value hd hc, eq_comm]
  unfold level
  rw [hbeq, Bool.and_comm c.scored, Bool.and_comm (!c.scored)]

/-- what one of two candidates does not get is what the other one gets -/
theorem points_add_points {c d : Candidate} (hc : c.score.isFinite = true) (hd : d.score.isFinite = true) :
    c.points d + d.points c = 2 := by
  have hone := beats_or_level hc hd
  rw [points, points, level_comm hd hc]
  omega

/-- two scored candidates are compared by their scores -/
theorem points_of_scored {c d : Candidate} (hc : c.score.isFinite = true) (hd : d.score.isFinite = true)
    (hcs : c.scored = true) (hds : d.scored = true) :
    c.points d = if value d.score < value c.score then 2 else if value c.score = value d.score then 1 else 0 := by
  have hlt := lt_iff_value hd hc
  have hbeq : (c.score == d.score) = decide (value c.score = value d.score) := by
    rw [Bool.eq_iff_iff, beq_iff_value hc hd, decide_eq_true_iff]
  unfold points beats level
  rw [hcs, hds, hbeq]
  rcases lt_trichotomy (value d.score) (value c.score) with h | h | h
  · simp [hlt, h, h.ne']
  · simp [hlt, h]
  · simp [hlt, h.not_gt, h.ne]

/-- against any other one, a candidate gets no fewer points with a score that is not smaller, or with its first one -/
theorem points_le {c c' d : Candidate} (hc : c.score.isFinite = true) (hc' : c'.score.isFinite = true)
    (hd : d.score.isFinite = true) (hscored : c'.scored = true) (hle : value c.score ≤ value c'.score) :
    c.points d ≤ c'.points d := by
  cases hds : d.scored with
  | false => cases hcs : c.scored <;> simp [points, beats, level, hscored, hds, hcs]
  | true =>
    cases hcs : c.scored with
    | false => simp [points, beats, level, hds, hcs]
    | true =>
      rw [points_of_scored hc hd hcs hds, points_of_scored hc' hd hscored hds]
      rcases lt_trichotomy (value d.score) (value c.score) with h | h | h
      · rw [if_pos h, if_pos (h.trans_le hle)]
      · rw [if_neg h.not_lt, if_pos h.symm]
        rcases hle.lt_or_eq with hmore | hsame
        · rw [if_pos (h ▸ hmore)]
          exact one_le_two
        · rw [if_neg (by rw [h, hsame]; exact lt_irrefl _), if_pos (by rw [← hsame, h])]
      · rw [if_neg h.not_gt, if_neg h.ne]
        exact Nat.zero_le _

end Candidate

/-- what the relevant candidates get against the irrelevant ones, in points -/
def pairPoints (cs : List Candidate) : ℕ := 2 * wins cs + ties cs

theorem pairPoints_eq_sum (cs : List Candidate) : pairPoints cs =
    ((cs.filter Candidate.relevant).map fun c =>
      ((cs.filter fun d => !d.relevant).map fun d => c.points d).sum).sum := by
  have hcount : ∀ (c : Candidate) (ds : List Candidate),
      (ds.map fun d => c.points d).sum = 2 * ds.countP (fun d => c.beats d) + ds.countP fun d => c.level d := by
    intro c ds
    induction ds with
    | nil => rfl
    | cons d ds ih =>
      rw [List.map_cons, List.sum_cons, ih, List.countP_cons, List.countP_cons, Candidate.points]
      cases c.beats d <;> cases c.level d <;> simp <;> omega
  rw [pairPoints, wins, ties, opposed, countP_product, countP_product, ← List.sum_map_mul_left, ← List.sum_map_add]
  exact congrArg List.sum (List.map_congr_left fun c _ => (hcount c _).symm)

section
variable {relevance : List Float} {a b : AlignedScores} {i j : ℕ}

/-- the same by the positions of the candidates -/
theorem pairPoints_candidates (hlen : relevance.length = a.values.length) : pairPoints (candidates relevance a) =
    (((List.range relevance.length).filter fun i => isRelevant (relevance.getD i 0.0)).map fun i =>
      (((List.range relevance.length).filter fun j => !isRelevant (relevance.getD j 0.0)).map fun j =>
        (candidateAt relevance a i).points (candidateAt relevance a j)).sum).sum := by
  rw [pairPoints_eq_sum, candidates_eq_map_range hlen, List.filter_map, List.filter_map, List.map_map]
  simp only [List.map_map]
  rfl

theorem candidateAt_of_raised (h : Raised a b i) (hj : j < a.values.length) (hne : j ≠ i) :
    candidateAt relevance b j = candidateAt relevance a j := by
  obtain ⟨hscore, hflag⟩ := h.others j hj hne
  rw [candidateAt, candidateAt, hscore, hflag]

/-- the candidate that is raised gets no fewer points against any other one, and leaves it no more -/
theorem points_of_raised (h : Raised a b i) (hj : j < a.values.length) (hne : j ≠ i) :
    (candidateAt relevance a i).points (candidateAt relevance a j) ≤
        (candidateAt relevance b i).points (candidateAt relevance b j) ∧
      (candidateAt relevance b j).points (candidateAt relevance b i) ≤
        (candidateAt relevance a j).points (candidateAt relevance a i) := by
  have ha : (candidateAt relevance a i).score.isFinite = true := isFinite_getD h.finite i
  have hb : (candidateAt relevance b i).score.isFinite = true := isFinite_getD h.finite' i
  have hd : (candidateAt relevance a j).score.isFinite = true := isFinite_getD h.finite j
  have hle := Candidate.points_le ha hb hd h.scored h.le
  have hsum := Candidate.points_add_points ha hd
  have hsum' := Candidate.points_add_points hb hd
  rw [candidateAt_of_raised h hj hne]
  exact ⟨hle, by omega⟩

/-- **The pairs of a relevant and an irrelevant candidate** are worth no less when a relevant one is raised, and no more
when an irrelevant one is. -/
theorem pairPoints_of_raised (h : Raised a b i) (hlen : relevance.length = a.values.length) :
    (isRelevant (relevance.getD i 0.0) = true →
      pairPoints (candidates relevance a) ≤ pairPoints (candidates relevance b)) ∧
    (isRelevant (relevance.getD i 0.0) = false →
      pairPoints (candidates relevance b) ≤ pairPoints (candidates relevance a)) := by
  have hposition : ∀ {p : ℕ → Bool} {j : ℕ}, j ∈ (List.range relevance.length).filter p →
      j < a.values.length ∧ p j = true := by
    intro p j hj
    rwa [List.mem_filter, List.mem_range, hlen] at hj
  rw [pairPoints_candidates hlen, pairPoints_candidates (hlen.trans h.length)]
  constructor
  · intro hrelevant
    refine List.sum_le_sum fun x hx => List.sum_le_sum fun y hy => ?_
    obtain ⟨hx, -⟩ := hposition hx
    obtain ⟨hy, hirrelevant⟩ := hposition hy
    have hyi : y ≠ i := (ne_of_isRelevant hrelevant (Bool.not_eq_true' _ ▸ hirrelevant)).symm
    by_cases hxi : x = i
    · subst hxi
      exact (points_of_raised h hy hyi).1
    · rw [candidateAt_of_raised h hx hxi, candidateAt_of_raised h hy hyi]
  · intro hirrelevant
    refine List.sum_le_sum fun x hx => List.sum_le_sum fun y hy => ?_
    obtain ⟨hx, hrelevant⟩ := hposition hx
    obtain ⟨hy, -⟩ := hposition hy
    have hxi : x ≠ i := ne_of_isRelevant hrelevant hirrelevant
    by_cases hyi : y = i
    · subst hyi
      exact (points_of_raised h hx hxi).2
    · rw [candidateAt_of_raised h hx hxi, candidateAt_of_raised h hy hyi]

/-- among as many candidates of each kind, pairs that are worth no less make the area no smaller -/
theorem pairShare_le (hlen : relevance.length = a.values.length) (hlen' : relevance.length = b.values.length)
    (hpairs : pairPoints (candidates relevance a) ≤ pairPoints (candidates relevance b)) :
    pairShare (candidates relevance a) ≤ pairShare (candidates relevance b) := by
  have hpairs : (2 : ℚ) * wins (candidates relevance a) + ties (candidates relevance a) ≤
      2 * wins (candidates relevance b) + ties (candidates relevance b) := by
    unfold pairPoints at hpairs
    exact_mod_cast hpairs
  have hle : (relevantCount relevance : ℚ) ≤ relevance.length := by exact_mod_cast List.countP_le_length
  rw [pairShare, pairShare, ← relevantCount_eq_countP hlen, ← relevantCount_eq_countP hlen',
    length_candidates hlen, length_candidates hlen']
  refine div_le_div_of_nonneg_right (by linarith) (mul_nonneg (Nat.cast_nonneg _) (sub_nonneg.2 hle))

end

/-! ## All metrics -/

section
variable {relevance : List Float} {a b : AlignedScores} {k c i : ℕ}

/-- No metric is smaller for the second scores than for the first. Shares are compared as doubles: the second is never
the smaller one, and with as many candidates as can be counted both are numbers. The area is exact; it is undefined for
both or for neither. -/
structure NotWorse (relevance : List Float) (k : ℕ) (a b : AlignedScores) : Prop where
  found : ∃ m n, relevantAtK relevance a.values k = .ok m ∧ relevantAtK relevance b.values k = .ok n ∧ m ≤ n
  precision : ∃ p q, precisionAtK Float relevance a.values k = .ok p ∧ precisionAtK Float relevance b.values k = .ok q ∧
    ¬ q < p ∧ (relevance.length < 2 ^ 64 → p ≤ q)
  recalled : ∃ p q, recallAtK Float relevance a.values k = .ok p ∧ recallAtK Float relevance b.values k = .ok q ∧
    ¬ q < p ∧ (relevance.length < 2 ^ 64 → p ≤ q)
  area : (∃ p q, auc ℚ relevance a = .ok p ∧ auc ℚ relevance b = .ok q ∧ p ≤ q) ∨
    ∃ e, auc ℚ relevance a = .error e ∧ auc ℚ relevance b = .error e

/-- if pairs are worth no less, the area is no smaller, or there is none for either -/
theorem auc_of_pairs (hva : validate relevance a.values k = .ok c) (hvb : validate relevance b.values k = .ok c)
    (hpairs : pairPoints (candidates relevance a) ≤ pairPoints (candidates relevance b)) :
    (∃ p q, auc ℚ relevance a = .ok p ∧ auc ℚ relevance b = .ok q ∧ p ≤ q) ∨
      ∃ e, auc ℚ relevance a = .error e ∧ auc ℚ relevance b = .error e := by
  obtain ⟨hlen, -⟩ := (validate_eq_ok_iff ..).1 hva
  obtain ⟨hlen', -⟩ := (validate_eq_ok_iff ..).1 hvb
  by_cases hnone : relevantCount relevance = 0
  · right
    rw [auc_of_validate hva, auc_of_validate hvb, if_pos hnone, if_pos hnone]
    exact ⟨_, rfl, rfl⟩
  by_cases hall : relevantCount relevance = relevance.length
  · right
    rw [auc_of_validate hva, auc_of_validate hvb, if_neg hnone, if_neg hnone, if_pos hall, if_pos hall]
    exact ⟨_, rfl, rfl⟩
  · left
    have h0 : 0 < relevantCount relevance := Nat.pos_of_ne_zero hnone
    have hn : relevantCount relevance < relevance.length := lt_of_le_of_ne List.countP_le_length hall
    exact ⟨_, _, auc_eq_pairShare hva h0 hn, auc_eq_pairShare hvb h0 hn, pairShare_le hlen hlen' hpairs⟩

/-- the metrics follow the number of relevant candidates among the first, and the pairs -/
theorem notWorse_of_le (hva : validate relevance a.values k = .ok c) (hvb : validate relevance b.values k = .ok c)
    (hhits : hits relevance a.values c ≤ hits relevance b.values c)
    (hpairs : pairPoints (candidates relevance a) ≤ pairPoints (candidates relevance b)) :
    NotWorse relevance k a b := by
  obtain ⟨hlen, hk, hne, -, -, hc⟩ := (validate_eq_ok_iff ..).1 hvb
  have hcle : c ≤ relevance.length := hc.trans_le (min_le_right _ _)
  have hcpos : 0 < c := hc ▸ lt_min (Nat.pos_of_ne_zero hk) (List.length_pos_iff.2 hne)
  refine ⟨⟨_, _, relevantAtK_of_validate hva, relevantAtK_of_validate hvb, hhits⟩,
    ⟨_, _, precisionAtK_of_validate Float hva, precisionAtK_of_validate Float hvb, ?_, fun hlt => ?_⟩,
    ⟨_, _, recallAtK_of_validate Float hva, recallAtK_of_validate Float hvb, ?_, fun hlt => ?_⟩,
    auc_of_pairs hva hvb hpairs⟩
  · exact Double.not_div_lt_div hhits hcpos
  · exact Double.div_le_div hhits (hits_le _ _ c) hcpos (hcle.trans_lt hlt)
  · exact Double.not_ratio_lt_ratio hhits _
  · exact Double.ratio_le_ratio hhits (hits_le_relevantCount hlen c) (List.countP_le_length.trans_lt hlt)

/-- no metric falls from `a` to `b` if candidate `i` is relevant, and none rises if it is not -/
structure Favours (relevance : List Float) (k i : ℕ) (a b : AlignedScores) : Prop where
  relevant : isRelevant (relevance.getD i 0.0) = true → NotWorse relevance k a b
  irrelevant : isRelevant (relevance.getD i 0.0) = false → NotWorse relevance k b a

theorem favours_of_raised (h : Raised a b i) (hv : validate relevance a.values k = .ok c) :
    Favours relevance k i a b := by
  obtain ⟨hlen, hk, hne, hrel, -, hc⟩ := (validate_eq_ok_iff ..).1 hv
  have hv' : validate relevance b.values k = .ok c :=
    (validate_eq_ok_iff ..).2 ⟨hlen.trans h.length, hk, hne, hrel, h.finite', hc⟩
  obtain ⟨hkept, hnew⟩ := hits_of_raised relevance h c
  obtain ⟨hwon, hlost⟩ := pairPoints_of_raised h hlen
  exact ⟨fun hi => notWorse_of_le hv hv' (hkept hi) (hwon hi), fun hi => notWorse_of_le hv' hv (hnew hi) (hlost hi)⟩

end

/-- **Better scores for relevant candidates never hurt**, and for irrelevant ones they never help. One candidate gets a
finite score that is not below the one it is aligned with, which is 0 if the engine gave it none; all else stays. Then
the relevant candidates among the first `k`, precision, recall and the area, where there is one, do not fall if the
candidate is relevant, and do not rise if it is not. -/
theorem metrics_of_raised (relevance : List Float) (k c i : ℕ) (v : Float) (hi : i < relevance.length)
    (hfin : v.isFinite = true) :
    (∀ scores : AlignedScores, validate relevance scores.values k = .ok c → scores.values.getD i 0.0 ≤ v →
      Favours relevance k i scores (scores.withScore i v)) ∧
    ∀ answers : List (Option Float), validate relevance (AlignedScores.ofOptions answers).values k = .ok c →
      (answers.getD i none).getD 0.0 ≤ v →
      Favours relevance k i (.ofOptions answers) (.ofOptions (answers.set i (some v))) := by
  have hraise : ∀ scores : AlignedScores, validate relevance scores.values k = .ok c → scores.values.getD i 0.0 ≤ v →
      Favours relevance k i scores (scores.withScore i v) := by
    intro scores hv hle
    obtain ⟨hlen, -, -, -, hfinite, -⟩ := (validate_eq_ok_iff ..).1 hv
    exact favours_of_raised (raised_withScore hfinite (hlen ▸ hi) hfin hle) hv
  refine ⟨hraise, fun answers hv hle => ?_⟩
  rw [← AlignedScores.withScore_ofOptions]
  exact hraise _ hv (by rwa [AlignedScores.getD_ofOptions])

/-- four candidates, two with equal scores and two without one -/
def fourAnswers : List (Option Float) := [some 0.5, some 0.5, none, none]

/-- The third candidate, which is relevant, gets past both scored ones with its first score; the second one, which is
not, gets past the first. -/
theorem metrics_of_raised_four :
    validate [1.0, 0.0, 2.0, 0.0] (AlignedScores.ofOptions fourAnswers).values 2 = .ok 2 ∧
      NotWorse [1.0, 0.0, 2.0, 0.0] 2 (.ofOptions fourAnswers) (.ofOptions [some 0.5, some 0.5, some 0.75, none]) ∧
      NotWorse [1.0, 0.0, 2.0, 0.0] 2 ((AlignedScores.ofOptions fourAnswers).withScore 1 0.625)
        (.ofOptions fourAnswers) := by
  have hv : validate [1.0, 0.0, 2.0, 0.0] (AlignedScores.ofOptions fourAnswers).values 2 = .ok 2 := by
    decide +kernel
  obtain ⟨-, hanswers⟩ := metrics_of_raised [1.0, 0.0, 2.0, 0.0] 2 2 2 0.75 (by decide) (by decide)
  obtain ⟨hscores, -⟩ := metrics_of_raised [1.0, 0.0, 2.0, 0.0] 2 2 1 0.625 (by decide) (by decide)
  exact ⟨hv, (hanswers fourAnswers hv (by decide)).relevant (by decide),
    (hscores _ hv (by decide)).irrelevant (by decide)⟩

end Metric

end RankEval
