/-
The area under the ROC curve as a count of pairs.

A candidate that the engine scored beats every candidate that it did not score, and of two scored candidates the one
with the greater score beats the other. Two candidates are level if they have equal scores, or if neither is scored.
Over all pairs of a relevant and an irrelevant candidate let `wins` be the number of those in which the relevant one
beats the other, and `ties` the number of those that are level.

- `candidateRanks_eq_map`: the rank of a candidate, scored or not, is the mean of the ranks that it and the candidates
  level with it take up below those that beat it.
- `two_mul_rankSum`: what the ranks of the relevant candidates add up to, in pairs.
- `auc_eq_mannWhitney`: with `r` relevant ones among `n` candidates, `r · (n - r)` times the area is `wins + ties / 2`;
  the area is between 0 and 1, and the order of the candidates does not matter.
-/
import RankEval.Metric.RankSum
import RankEval.Proofs.Double.Exact
import RankEval.Proofs.Metric.SharedRanks
import RankEval.Proofs.Metric.Validity

namespace RankEval.Metric

open Double (place isNaN_of_isFinite lt_iff_place beq_iff_place tied_iff_place)

/-! ## Counting pairs -/

section
variable {α β : Type}

theorem countP_product (p : α × β → Bool) (xs : List α) (ys : List β) :
    (xs ×ˢ ys).countP p = (xs.map fun x => ys.countP fun y => p (x, y)).sum := by
  induction xs with
  | nil => rfl
  | cons x xs ih =>
    rw [List.product_cons, List.countP_append, List.countP_map, ih, List.map_cons, List.sum_cons]
    rfl

theorem countP_product_swap (p : α × β → Bool) (xs : List α) (ys : List β) :
    (ys ×ˢ xs).countP (fun e => p e.swap) = (xs ×ˢ ys).countP p := by
  rw [countP_product, countP_product]
  induction xs with
  | nil => simp
  | cons x xs ih =>
    rw [List.map_cons, List.sum_cons, ← ih]
    clear ih
    induction ys with
    | nil => rfl
    | cons y ys ih =>
      simp only [List.map_cons, List.sum_cons, List.countP_cons, Prod.swap_prod_mk] at ih ⊢
      omega

/-- if exactly one of three things holds of every element, the counts of the three add up to the length -/
theorem countP_add_countP_add_countP (p q s : α → Bool) (xs : List α)
    (h : ∀ x ∈ xs, (p x).toNat + (q x).toNat + (s x).toNat = 1) :
    xs.countP p + xs.countP q + xs.countP s = xs.length := by
  induction xs with
  | nil => rfl
  | cons x xs ih =>
    have hx := h x List.mem_cons_self
    have hxs := ih fun y hy => h y (List.mem_cons_of_mem _ hy)
    simp only [List.countP_cons, List.length_cons]
    cases hp : p x <;> cases hq : q x <;> cases hs : s x <;> simp_all <;> omega

/-- If of any two elements one is below the other or they are level, every pair that is not level is counted twice, once
from each side. -/
theorem twice_countP_add_countP (l : List α) (below level : α → α → Bool)
    (h : ∀ x ∈ l, ∀ y ∈ l, (below x y).toNat + (below y x).toNat + (level x y).toNat = 1) :
    2 * (l ×ˢ l).countP (fun e => below e.1 e.2) + (l ×ˢ l).countP (fun e => level e.1 e.2) = l.length * l.length := by
  have hthree := countP_add_countP_add_countP (fun e : α × α => below e.1 e.2) (fun e => below e.2 e.1)
    (fun e => level e.1 e.2) (l ×ˢ l) fun e he => by
      obtain ⟨i, j⟩ := e
      obtain ⟨hi, hj⟩ := List.pair_mem_product.1 he
      exact h i hi j hj
  have hswap := countP_product_swap (fun e : α × α => below e.1 e.2) l l
  simp only [Prod.fst_swap, Prod.snd_swap] at hswap
  rw [List.length_product] at hthree
  omega

end

/-! ## Candidates and their pairs -/

/-- a candidate as the area sees it -/
structure Candidate where
  relevance : Float
  score : Float
  scored : Bool
  deriving DecidableEq

/-- the candidates that two index-aligned vectors describe -/
def candidates (relevance : List Float) (scores : AlignedScores) : List Candidate :=
  (relevance.zip scores.values).zipIdx.map fun ((relevance, score), i) => ⟨relevance, score, scores.isScored i⟩

namespace Candidate

def relevant (c : Candidate) : Bool := isRelevant c.relevance

/-- scored where the other one is not, or with the greater score -/
def beats (c d : Candidate) : Bool := c.scored && (!d.scored || decide (d.score < c.score))

/-- with equal scores, or both without -/
def level (c d : Candidate) : Bool := if c.scored && d.scored then c.score == d.score else !c.scored && !d.scored

end Candidate

/-- every relevant candidate with every irrelevant one -/
def opposed (cs : List Candidate) : List (Candidate × Candidate) :=
  (cs.filter fun c => c.relevant) ×ˢ (cs.filter fun c => !c.relevant)

/-- the pairs in which the relevant candidate beats the irrelevant one -/
def wins (cs : List Candidate) : Nat := (opposed cs).countP fun (i, j) => i.beats j

/-- the pairs in which the two are level -/
def ties (cs : List Candidate) : Nat := (opposed cs).countP fun (i, j) => i.level j

/-- Of two candidates with finite scores one beats the other, or they are level. -/
theorem beats_or_level {c d : Candidate} (hc : c.score.isFinite = true) (hd : d.score.isFinite = true) :
    (c.beats d).toNat + (d.beats c).toNat + (c.level d).toNat = 1 := by
  have hlt := lt_iff_place (isNaN_of_isFinite hc) (isNaN_of_isFinite hd)
  have hgt := lt_iff_place (isNaN_of_isFinite hd) (isNaN_of_isFinite hc)
  have hbeq : (c.score == d.score) = decide (place c.score = place d.score) := by
    rw [Bool.eq_iff_iff, beq_iff_place (isNaN_of_isFinite hc) (isNaN_of_isFinite hd), decide_eq_true_iff]
  unfold Candidate.beats Candidate.level
  cases c.scored <;> cases d.scored
  · rfl
  · rfl
  · rfl
  · rcases lt_trichotomy (place c.score) (place d.score) with h | h | h
    · simp [hlt, hgt, hbeq, h, h.asymm, h.ne]
    · simp [hlt, hgt, hbeq, h]
    · simp [hlt, hgt, hbeq, h, h.asymm, h.ne']

/-! ## Ranks by counting candidates -/

/-- how many candidates beat a candidate -/
def ahead (cs : List Candidate) (c : Candidate) : Nat := cs.countP fun d => d.beats c

/-- how many candidates are level with a candidate, itself included -/
def abreast (cs : List Candidate) (c : Candidate) : Nat := cs.countP fun d => c.level d

section
variable {relevance : List Float} {scores : AlignedScores}

theorem length_candidates (hlen : relevance.length = scores.values.length) :
    (candidates relevance scores).length = relevance.length := by
  simp [candidates, hlen]

/-- the vectors side by side, one flag for each candidate -/
theorem candidates_eq_map_zip (hlen : relevance.length = scores.values.length) :
    candidates relevance scores = (relevance.zip (scores.values.zip (scores.flags relevance.length))).map
      fun e => ⟨e.1, e.2.1, e.2.2⟩ := by
  refine List.ext_getElem (by simp [candidates, hlen]) fun i hi _ => ?_
  rw [length_candidates hlen] at hi
  have hflag := scores.getElem?_flags relevance.length i hi
  rw [List.getElem?_eq_getElem (by simpa using hi), Option.some.injEq] at hflag
  simp [candidates, hflag]

/-- the candidate at a position -/
def candidateAt (relevance : List Float) (scores : AlignedScores) (i : ℕ) : Candidate :=
  ⟨relevance.getD i 0.0, scores.values.getD i 0.0, scores.isScored i⟩

theorem candidates_eq_map_range (hlen : relevance.length = scores.values.length) :
    candidates relevance scores = (List.range relevance.length).map (candidateAt relevance scores) := by
  refine List.ext_getElem (by simp [length_candidates hlen]) fun i hi _ => ?_
  have hi : i < relevance.length := (length_candidates hlen) ▸ hi
  simp [candidates, candidateAt, hi, hlen ▸ hi]

/-- a count over candidates, position by position -/
theorem countP_candidates_congr {a b : AlignedScores} {p q : Candidate → Bool}
    (ha : relevance.length = a.values.length) (hb : relevance.length = b.values.length)
    (h : ∀ i < relevance.length, p (candidateAt relevance a i) = q (candidateAt relevance b i)) :
    (candidates relevance a).countP p = (candidates relevance b).countP q := by
  rw [candidates_eq_map_range ha, candidates_eq_map_range hb, List.countP_map, List.countP_map]
  refine List.countP_congr fun i hi => ?_
  rw [Function.comp_apply, Function.comp_apply, h i (List.mem_range.1 hi)]

/-- handing out the values of a function at the scored candidates, in their order -/
theorem spread_map {R : Type} (tail : R) (rank : Float → R) (values : List Float) (flags : List Bool)
    (hlen : values.length = flags.length) :
    spread tail flags (((values.zip flags).filterMap fun (value, flag) => if flag then some value else none).map rank) =
      (values.zip flags).map fun e => if e.2 then rank e.1 else tail := by
  induction flags generalizing values with
  | nil => cases values <;> simp_all [spread]
  | cons flag flags ih =>
    cases values with
    | nil => simp at hlen
    | cons value values =>
      cases flag <;> simpa [spread] using ih values (by simpa using hlen)

variable (R : Type) [Arithmetic R]

/-- the rank of a candidate, by counting -/
def placement (cs : List Candidate) (c : Candidate) : R := meanRank R (ahead cs c + 1) (ahead cs c + abreast cs c)

/-- the scores of the candidates that are scored -/
def scoredValues (rows : List (Float × Bool)) : List Float :=
  rows.filterMap fun (value, flag) => if flag then some value else none

theorem countP_scoredValues (p : Float → Bool) (rows : List (Float × Bool)) :
    (scoredValues rows).countP p = rows.countP fun e => e.2 && p e.1 := by
  unfold scoredValues
  rw [List.countP_filterMap]
  refine List.countP_congr fun e _ => ?_
  obtain ⟨value, flag⟩ := e
  cases flag <;> simp

theorem length_scoredValues (rows : List (Float × Bool)) : (scoredValues rows).length = rows.countP fun e => e.2 := by
  simpa [List.countP_true] using countP_scoredValues (fun _ => true) rows

/-- a count over candidates that does not look at their relevance -/
theorem countP_candidates (hlen : relevance.length = scores.values.length) (p : Float × Bool → Bool) :
    (candidates relevance scores).countP (fun c => p (c.score, c.scored)) =
      (scores.values.zip (scores.flags relevance.length)).countP p := by
  have hsnd : (relevance.zip (scores.values.zip (scores.flags relevance.length))).map Prod.snd =
      scores.values.zip (scores.flags relevance.length) := List.map_snd_zip (by simp [hlen])
  rw [candidates_eq_map_zip hlen, List.countP_map]
  conv_rhs => rw [← hsnd, List.countP_map]
  rfl

/-- The rank of one candidate. A scored one shares its rank with the scored ones that are level with it; the others are
level with each other, and every scored candidate is ahead of them. -/
theorem placement_eq (hlen : relevance.length = scores.values.length) (hfin : ∀ x ∈ scores.values, x.isFinite = true)
    (c : Candidate) (hc : c.score.isFinite = true) :
    placement R (candidates relevance scores) c =
      if c.scored then sharedRank R (scoredValues (scores.values.zip (scores.flags relevance.length))) c.score
      else meanRank R ((scoredValues (scores.values.zip (scores.flags relevance.length))).length + 1)
        scores.values.length := by
  set rows := scores.values.zip (scores.flags relevance.length) with hrows
  have hnum : ∀ e ∈ rows, e.1.isNaN = false := fun e he => isNaN_of_isFinite (hfin e.1 (List.of_mem_zip he).1)
  have hcount := @countP_candidates relevance scores hlen
  unfold placement ahead abreast Candidate.beats Candidate.level
  cases c.scored with
  | true =>
    have habove : above (scoredValues rows) c.score = rows.countP fun e => e.2 && decide (c.score < e.1) :=
      countP_scoredValues _ rows
    have hlevel : level (scoredValues rows) c.score = rows.countP fun e => if e.2 then c.score == e.1 else false := by
      rw [level, countP_scoredValues]
      refine List.countP_congr fun e he => ?_
      cases e.2
      · simp
      · simp [tied_iff_place (isNaN_of_isFinite hc) (hnum e he), beq_iff_place (isNaN_of_isFinite hc) (hnum e he)]
    rw [if_pos rfl, sharedRank, habove, hlevel, ← hcount, ← hcount]
    simp
  | false =>
    have hrest : (rows.countP fun e => e.2) + (rows.countP fun e => !e.2) = scores.values.length := by
      have hsplit := List.length_eq_countP_add_countP (fun e => e.2) (l := rows)
      simpa [hrows, hlen] using hsplit.symm
    rw [if_neg Bool.false_ne_true, length_scoredValues, ← hrest, ← hcount, ← hcount]
    simp

/-- the ranks of all candidates -/
theorem candidateRanks_eq_map (hlen : relevance.length = scores.values.length)
    (hfin : ∀ x ∈ scores.values, x.isFinite = true) :
    candidateRanks R scores.values (scores.flags relevance.length) =
      (candidates relevance scores).map (placement R (candidates relevance scores)) := by
  set rows := scores.values.zip (scores.flags relevance.length) with hrows
  have hnum : ∀ x ∈ scoredValues rows, x.isNaN = false := by
    intro x hx
    obtain ⟨⟨v, f⟩, hmem, heq⟩ := List.mem_filterMap.1 hx
    have hv := isNaN_of_isFinite (hfin v (List.of_mem_zip hmem).1)
    cases f <;> simp_all
  have hranks : candidateRanks R scores.values (scores.flags relevance.length) = rows.map fun e =>
      if e.2 then sharedRank R (scoredValues rows) e.1
      else meanRank R ((scoredValues rows).length + 1) scores.values.length := by
    rw [← spread_map _ (sharedRank R (scoredValues rows)) scores.values (scores.flags relevance.length)
      (by simp [hlen])]
    exact congrArg _ (averageRanks_eq_map R _ hnum)
  have hsnd : (relevance.zip rows).map Prod.snd = rows := List.map_snd_zip (by simp [hrows, hlen])
  rw [hranks, ← hsnd]
  conv_rhs => rw [candidates_eq_map_zip hlen, List.map_map, ← candidates_eq_map_zip hlen]
  rw [List.map_map, hsnd]
  refine List.map_congr_left fun e he => ?_
  have hfinite := hfin e.2.1 (List.of_mem_zip (List.of_mem_zip he).2).1
  exact (placement_eq R hlen hfin ⟨e.1, e.2.1, e.2.2⟩ hfinite).symm

end

/-! ## The rank sum in pairs -/

section
variable {cs : List Candidate}

/-- the pairs in which the irrelevant candidate beats the relevant one -/
def losses (cs : List Candidate) : Nat := (opposed cs).countP fun (i, j) => j.beats i

theorem length_filter_add_length_filter (cs : List Candidate) (p : Candidate → Bool) :
    (cs.filter p).length + (cs.filter fun c => !p c).length = cs.length := by
  simpa [List.countP_eq_length_filter] using (List.length_eq_countP_add_countP p (l := cs)).symm

theorem wins_add_losses_add_ties (hfin : ∀ c ∈ cs, c.score.isFinite = true) :
    wins cs + losses cs + ties cs = (cs.countP Candidate.relevant) * (cs.length - cs.countP Candidate.relevant) := by
  have hlen : (opposed cs).length = cs.countP Candidate.relevant * (cs.length - cs.countP Candidate.relevant) := by
    have h := length_filter_add_length_filter cs Candidate.relevant
    rw [opposed, List.length_product, List.countP_eq_length_filter, ← h, Nat.add_sub_cancel_left]
  rw [← hlen]
  refine countP_add_countP_add_countP _ _ _ _ fun e he => ?_
  obtain ⟨i, j⟩ := e
  obtain ⟨hi, hj⟩ := List.pair_mem_product.1 he
  exact beats_or_level (hfin i (List.mem_of_mem_filter hi)) (hfin j (List.mem_of_mem_filter hj))

/-- among the relevant candidates every pair is counted twice -/
theorem twice_beaten_add_level (l : List Candidate) (hfin : ∀ c ∈ l, c.score.isFinite = true) :
    2 * (l ×ˢ l).countP (fun e => e.2.beats e.1) + (l ×ˢ l).countP (fun e => e.1.level e.2) = l.length * l.length :=
  twice_countP_add_countP l (fun i j => j.beats i) Candidate.level fun i hi j hj => by
    rw [Nat.add_comm (j.beats i).toNat]
    exact beats_or_level (hfin i hi) (hfin j hj)

theorem sum_ahead_abreast (hfin : ∀ c ∈ cs, c.score.isFinite = true) :
    ((cs.filter Candidate.relevant).map fun c => 2 * ahead cs c + abreast cs c + 1).sum + 2 * wins cs + ties cs =
      cs.countP Candidate.relevant * cs.countP Candidate.relevant + cs.countP Candidate.relevant +
        2 * (cs.countP Candidate.relevant * (cs.length - cs.countP Candidate.relevant)) := by
  set rel := cs.filter Candidate.relevant with hrel
  set irr := cs.filter fun c => !c.relevant with hirr
  have hsplit : ∀ p : Candidate → Bool, cs.countP p = rel.countP p + irr.countP p := by
    intro p
    rw [hrel, hirr, List.countP_eq_countP_filter_add cs p Candidate.relevant]
  have hahead : (rel.map fun c => ahead cs c).sum = (rel ×ˢ rel).countP (fun e => e.2.beats e.1) + losses cs := by
    rw [losses, opposed, ← hrel, ← hirr, countP_product, countP_product, ← List.sum_map_add]
    exact congrArg List.sum (List.map_congr_left fun c _ => hsplit _)
  have habreast : (rel.map fun c => abreast cs c).sum = (rel ×ˢ rel).countP (fun e => e.1.level e.2) + ties cs := by
    rw [ties, opposed, ← hrel, ← hirr, countP_product, countP_product, ← List.sum_map_add]
    exact congrArg List.sum (List.map_congr_left fun c _ => hsplit _)
  have htwice := twice_beaten_add_level rel fun c hc => hfin c (List.mem_of_mem_filter hc)
  have hall := wins_add_losses_add_ties hfin
  have hcount : rel.length = cs.countP Candidate.relevant := (List.countP_eq_length_filter ..).symm
  have hsum : (rel.map fun c => 2 * ahead cs c + abreast cs c + 1).sum =
      2 * (rel.map fun c => ahead cs c).sum + (rel.map fun c => abreast cs c).sum + rel.length := by
    rw [List.sum_map_add, List.sum_map_add, List.sum_map_mul_left]
    simp
  rw [hsum, hahead, habreast]
  rw [hcount] at htwice ⊢
  omega

end

/-! ## The area -/

section
variable {relevance : List Float} {scores : AlignedScores}

theorem map_relevance_candidates (hlen : relevance.length = scores.values.length) :
    (candidates relevance scores).map Candidate.relevance = relevance := by
  rw [candidates_eq_map_zip hlen, List.map_map]
  exact List.map_fst_zip (by simp [hlen])

theorem relevantCount_eq_countP (hlen : relevance.length = scores.values.length) :
    relevantCount relevance = (candidates relevance scores).countP Candidate.relevant := by
  conv_lhs => rw [← map_relevance_candidates hlen, relevantCount, List.countP_map]
  rfl

theorem map_score_candidates (hlen : relevance.length = scores.values.length) :
    (candidates relevance scores).map Candidate.score = scores.values := by
  rw [candidates_eq_map_zip hlen, List.map_map]
  calc _ = ((relevance.zip (scores.values.zip (scores.flags relevance.length))).map Prod.snd).map Prod.fst :=
        List.map_map.symm
    _ = (scores.values.zip (scores.flags relevance.length)).map Prod.fst := by
        rw [List.map_snd_zip (by simp [hlen])]
    _ = scores.values := List.map_fst_zip (by simp [hlen])

theorem score_mem_of_mem_candidates {c : Candidate} (hlen : relevance.length = scores.values.length)
    (hc : c ∈ candidates relevance scores) : c.score ∈ scores.values := by
  rw [← map_score_candidates hlen]
  exact List.mem_map_of_mem hc

/-- the rank sum is the sum of the relevant candidates' ranks -/
theorem rankSum_eq_total (R : Type) [Arithmetic R] (hlen : relevance.length = scores.values.length)
    (hfin : ∀ x ∈ scores.values, x.isFinite = true) :
    rankSum R relevance scores.values (scores.flags relevance.length) =
      Arithmetic.total (((candidates relevance scores).filter Candidate.relevant).map
        (placement R (candidates relevance scores))) := by
  rw [rankSum, candidateRanks_eq_map R hlen hfin]
  have hrelevance := map_relevance_candidates hlen
  generalize placement R (candidates relevance scores) = rank
  generalize candidates relevance scores = cs at hrelevance ⊢
  clear hfin hlen
  subst hrelevance
  congr 1
  induction cs with
  | nil => rfl
  | cons c cs ih =>
    rw [List.map_cons, List.map_cons, List.zip_cons_cons, List.filter_cons, List.filterMap_cons, ih]
    cases h : isRelevant c.relevance <;> simp [Candidate.relevant, h]

theorem two_mul_placement (cs : List Candidate) (c : Candidate) :
    2 * placement ℚ cs c = ((2 * ahead cs c + abreast cs c + 1 : ℕ) : ℚ) := by
  have hhalf : placement ℚ cs c = ((ahead cs c + 1 + (ahead cs c + abreast cs c) : ℕ) : ℚ) / (2 : ℕ) := rfl
  rw [hhalf]
  push_cast
  ring

/-- **The rank sum in pairs**, twice over so that it is whole. -/
theorem two_mul_rankSum (hlen : relevance.length = scores.values.length)
    (hfin : ∀ x ∈ scores.values, x.isFinite = true) {n r : ℕ} (hn : relevance.length = n)
    (hr : relevantCount relevance = r) (hrn : r ≤ n) :
    2 * rankSum ℚ relevance scores.values (scores.flags relevance.length) + 2 * (wins (candidates relevance scores) : ℚ)
      + (ties (candidates relevance scores) : ℚ) = r * r + r + 2 * (r * (n - r)) := by
  have hfinite : ∀ c ∈ candidates relevance scores, c.score.isFinite = true :=
    fun c hc => hfin _ (score_mem_of_mem_candidates hlen hc)
  have hsum := sum_ahead_abreast hfinite
  rw [← relevantCount_eq_countP hlen, length_candidates hlen, hr, hn] at hsum
  have hcast := congrArg (Nat.cast (R := ℚ)) hsum
  push_cast [Nat.cast_sub hrn] at hcast
  rw [← hcast, rankSum_eq_total ℚ hlen hfin, Arithmetic.total_eq_sum, ← List.sum_map_mul_left]
  congr 2
  rw [List.map_map]
  exact congrArg List.sum (List.map_congr_left fun c _ => two_mul_placement _ c)

/-- Wins and half the ties, out of all pairs of a relevant and an irrelevant candidate. -/
def pairShare (cs : List Candidate) : ℚ :=
  (wins cs + ties cs / 2) / (cs.countP Candidate.relevant * (cs.length - cs.countP Candidate.relevant))

theorem opposed_perm {cs ds : List Candidate} (h : cs.Perm ds) : (opposed cs).Perm (opposed ds) :=
  (h.filter _).product (h.filter _)

theorem pairShare_perm {cs ds : List Candidate} (h : cs.Perm ds) : pairShare cs = pairShare ds := by
  have hopposed := opposed_perm h
  rw [pairShare, pairShare, wins, wins, ties, ties, hopposed.countP_eq, hopposed.countP_eq, h.countP_eq, h.length_eq]

theorem pairShare_nonneg (cs : List Candidate) : 0 ≤ pairShare cs := by
  have hle : (cs.countP Candidate.relevant : ℚ) ≤ cs.length := by exact_mod_cast List.countP_le_length
  refine div_nonneg (by positivity) (mul_nonneg (Nat.cast_nonneg _) (sub_nonneg.2 hle))

theorem pairShare_le_one {cs : List Candidate} (hfin : ∀ c ∈ cs, c.score.isFinite = true) : pairShare cs ≤ 1 := by
  have hle : cs.countP Candidate.relevant ≤ cs.length := List.countP_le_length
  have hpairs := congrArg (Nat.cast (R := ℚ)) (wins_add_losses_add_ties hfin)
  push_cast [Nat.cast_sub hle] at hpairs
  refine div_le_one_of_le₀ ?_ (mul_nonneg (Nat.cast_nonneg _) (sub_nonneg.2 (by exact_mod_cast hle)))
  have hlosses : (0 : ℚ) ≤ losses cs := Nat.cast_nonneg _
  have hties : (0 : ℚ) ≤ ties cs := Nat.cast_nonneg _
  linarith

/-- the area that belongs to a rank sum, once the rank sum is known in pairs -/
theorem areaOf_eq {n r : ℕ} {sum w t : ℚ} (h0 : 0 < r) (hn : r < n)
    (hsum : 2 * sum + 2 * w + t = r * r + r + 2 * (r * (n - r))) :
    areaOf ℚ n r sum = (w + t / 2) / (r * (n - r)) := by
  have hr : (r : ℚ) ≠ 0 := by exact_mod_cast h0.ne'
  have hnr : (n : ℚ) - r ≠ 0 := sub_ne_zero.2 (by exact_mod_cast hn.ne')
  have harea : areaOf ℚ n r sum = ((n : ℚ) - (r - (1 : ℕ)) / (2 : ℕ) - sum / r) / (n - r) := rfl
  rw [harea]
  field_simp
  push_cast
  linarith

/-- a successful computation of the area, by its rank sum -/
theorem auc_eq_areaOf {k c : ℕ} (hv : validate relevance scores.values k = .ok c) (h0 : 0 < relevantCount relevance)
    (hn : relevantCount relevance < relevance.length) :
    auc ℚ relevance scores = .ok (areaOf ℚ relevance.length (relevantCount relevance)
      (rankSum ℚ relevance scores.values (scores.flags relevance.length))) := by
  obtain ⟨hlen, -, hne, hrel, hfin, -⟩ := (validate_eq_ok_iff ..).1 hv
  have hone := (validate_eq_ok_iff relevance scores.values 1 _).2 ⟨hlen, one_ne_zero, hne, hrel, hfin, rfl⟩
  simp only [auc, hone, bind, Except.bind]
  rw [if_neg h0.ne', if_neg hn.ne]

theorem auc_eq_pairShare {k c : ℕ} (hv : validate relevance scores.values k = .ok c)
    (h0 : 0 < relevantCount relevance) (hn : relevantCount relevance < relevance.length) :
    auc ℚ relevance scores = .ok (pairShare (candidates relevance scores)) := by
  obtain ⟨hlen, -, -, -, hfin, -⟩ := (validate_eq_ok_iff ..).1 hv
  have hsum := two_mul_rankSum hlen hfin rfl rfl hn.le
  rw [auc_eq_areaOf hv h0 hn, areaOf_eq h0 hn hsum, pairShare, ← relevantCount_eq_countP hlen, length_candidates hlen]

/-- the same candidates in another order pass the checks too -/
theorem validate_perm {relevance' : List Float} {scores' : AlignedScores} {k c : ℕ}
    (hv : validate relevance scores.values k = .ok c) (hlen' : relevance'.length = scores'.values.length)
    (hperm : (candidates relevance' scores').Perm (candidates relevance scores)) :
    validate relevance' scores'.values k = .ok c := by
  obtain ⟨hlen, hk, hne, hrel, hfin, hc⟩ := (validate_eq_ok_iff ..).1 hv
  have hrelevance : relevance'.Perm relevance := by
    rw [← map_relevance_candidates hlen, ← map_relevance_candidates hlen']
    exact hperm.map _
  have hvalues : scores'.values.Perm scores.values := by
    rw [← map_score_candidates hlen, ← map_score_candidates hlen']
    exact hperm.map _
  refine (validate_eq_ok_iff ..).2 ⟨hlen', hk, ?_, ?_, ?_, hrelevance.length_eq ▸ hc⟩
  · rintro rfl
    exact hne hrelevance.nil_eq.symm
  · exact fun x hx => hrel x (hrelevance.mem_iff.1 hx)
  · exact fun x hx => hfin x (hvalues.mem_iff.1 hx)

end

/-- **The area is the Mann-Whitney statistic of the partial ranking.** With exact numbers it is the share of the pairs
of a relevant and an irrelevant candidate that are won, a tie being half a win; so it is between 0 and 1, and the same
for the candidates in any order. -/
theorem auc_eq_mannWhitney (relevance : List Float) (scores : AlignedScores) (k c : ℕ)
    (hv : validate relevance scores.values k = .ok c) (h0 : 0 < relevantCount relevance)
    (hn : relevantCount relevance < relevance.length) :
    ∃ a : ℚ, auc ℚ relevance scores = .ok a ∧
      (relevantCount relevance : ℚ) * (relevance.length - relevantCount relevance) * a =
        wins (candidates relevance scores) + ties (candidates relevance scores) / 2 ∧
      0 ≤ a ∧ a ≤ 1 ∧
      ∀ (relevance' : List Float) (scores' : AlignedScores), relevance'.length = scores'.values.length →
        (candidates relevance' scores').Perm (candidates relevance scores) → auc ℚ relevance' scores' = .ok a := by
  obtain ⟨hlen, -, -, -, hfin, -⟩ := (validate_eq_ok_iff ..).1 hv
  refine ⟨pairShare (candidates relevance scores), auc_eq_pairShare hv h0 hn, ?_, pairShare_nonneg _, ?_, ?_⟩
  · have hr : (relevantCount relevance : ℚ) ≠ 0 := by exact_mod_cast h0.ne'
    have hnr : (relevance.length : ℚ) - relevantCount relevance ≠ 0 := sub_ne_zero.2 (by exact_mod_cast hn.ne')
    rw [pairShare, ← relevantCount_eq_countP hlen, length_candidates hlen]
    exact mul_div_cancel₀ _ (mul_ne_zero hr hnr)
  · exact pairShare_le_one fun c hc => hfin _ (score_mem_of_mem_candidates hlen hc)
  · intro relevance' scores' hlen' hperm
    have hcount : relevantCount relevance' = relevantCount relevance := by
      rw [relevantCount_eq_countP hlen, relevantCount_eq_countP hlen', hperm.countP_eq]
    have hlength : relevance'.length = relevance.length := by
      rw [← length_candidates hlen, ← length_candidates hlen', hperm.length_eq]
    rw [auc_eq_pairShare (validate_perm hv hlen' hperm) (hcount ▸ h0) (by rw [hcount, hlength]; exact hn),
      pairShare_perm hperm]

/-- four candidates, the last two without a flag: one win and two ties among four pairs -/
theorem auc_of_two_scored_of_four :
    validate [1.0, 0.0, 2.0, 0.0] [0.5, 0.5, 0.0, 0.0] 2 = .ok 2 ∧
      ∃ a : ℚ, auc ℚ [1.0, 0.0, 2.0, 0.0] ⟨[0.5, 0.5, 0.0, 0.0], [true, true]⟩ = .ok a ∧ a = 1 / 2 := by
  have hv : validate [1.0, 0.0, 2.0, 0.0] [0.5, 0.5, 0.0, 0.0] 2 = .ok 2 :=
    (validate_eq_ok_iff ..).2 ⟨by simp, by decide, by simp, by decide, by decide, by simp⟩
  have hr : relevantCount [1.0, 0.0, 2.0, 0.0] = 2 := by decide
  obtain ⟨a, ha, harea, -⟩ := auc_eq_mannWhitney [1.0, 0.0, 2.0, 0.0] ⟨[0.5, 0.5, 0.0, 0.0], [true, true]⟩ 2 2 hv
    (by rw [hr]; decide) (by rw [hr]; decide)
  refine ⟨hv, a, ha, ?_⟩
  have hwins : wins (candidates [1.0, 0.0, 2.0, 0.0] ⟨[0.5, 0.5, 0.0, 0.0], [true, true]⟩) = 1 := by decide
  have hties : ties (candidates [1.0, 0.0, 2.0, 0.0] ⟨[0.5, 0.5, 0.0, 0.0], [true, true]⟩) = 2 := by decide
  rw [hr, hwins, hties] at harea
  norm_num at harea
  linarith

end RankEval.Metric
