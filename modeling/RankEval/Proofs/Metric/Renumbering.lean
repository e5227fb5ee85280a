/-
Candidates in another order. Equal scores are ranked as they are given, so that the order of candidates decides which of
them is among the first. If candidates with equal scores have equal relevance, it does not matter which: two runs may
rank different candidates at a place, but not different relevances. The same holds of the ideal order, where what is
compared is the relevance itself.

- `Renumbered.rankedPairs_eq`: sorted by score, the relevances are the same at every place.
- `Renumbered.sameNumber_normalisedDcg`: the same gains at the same places; only a zero may have another sign.
- `SameCandidates.auc_eq`: the area does not depend on the order at all.
- `evaluate_renumbered`: an evaluation of renumbered candidates.
-/
import RankEval.Proofs.Double.Zeros
import RankEval.Proofs.Metric.Cutoffs
import RankEval.Proofs.Metric.Evaluation
import RankEval.Proofs.Metric.ExactRankSum

namespace RankEval.Metric

open Double (SameNumber place isNaN_of_isFinite beq_iff_place)

/-! ## Sorted relevances -/

/-- relevance and score of every candidate, in ranked order -/
def rankedPairs (relevance scores : List Float) : List (Float × Float) :=
  (ranking scores).map fun i => (relevance.getD i 0.0, scores.getD i 0.0)

/-- candidates with equal scores have equal relevance -/
def HarmlessTies (relevance scores : List Float) : Prop :=
  ∀ a ∈ relevance.zip scores, ∀ b ∈ relevance.zip scores, (a.2 == b.2) = true → (a.1 == b.1) = true

instance (relevance scores : List Float) : Decidable (HarmlessTies relevance scores) :=
  inferInstanceAs (Decidable (∀ a ∈ _, ∀ b ∈ _, _ → _))

/-- Second vectors that list the candidates of the first ones in another order. -/
structure Renumbered (relevance scores relevance' scores' : List Float) : Prop where
  length : relevance.length = scores.length
  length' : relevance'.length = scores'.length
  accepted : ∀ x ∈ relevance, x.isFinite = true ∧ ¬ x < 0.0
  finite : ∀ x ∈ scores, x.isFinite = true
  perm : (relevance'.zip scores').Perm (relevance.zip scores)
  ties : HarmlessTies relevance scores

section
variable {relevance scores relevance' scores' : List Float}

theorem topRelevance_eq_map_rankedPairs (relevance scores : List Float) (c : ℕ) :
    topRelevance relevance scores c = ((rankedPairs relevance scores).map Prod.fst).take c := by
  rw [topRelevance, rankedPairs, List.map_map, ← List.map_take, pick]
  simp [Function.comp_def]

theorem rankedPairs_perm (hlen : relevance.length = scores.length) :
    (rankedPairs relevance scores).Perm (relevance.zip scores) := by
  have hall : (List.range scores.length).map (fun i => (relevance.getD i 0.0, scores.getD i 0.0)) =
      relevance.zip scores := by
    refine List.ext_getElem (by simp [hlen]) fun i _ hi => ?_
    rw [List.length_zip, lt_min_iff] at hi
    simp [hi]
  exact hall ▸ (ranking_perm scores).map _

theorem falling_rankedPairs (h : ∀ x ∈ scores, x.isNaN = false) (relevance : List Float) :
    Falling (fun e => place e.2) (rankedPairs relevance scores) := List.pairwise_map.2 (falling_ranking h)

theorem zip_self_eq_map (values : List Float) : values.zip values = values.map fun x => (x, x) :=
  List.ext_getElem (by simp) fun i _ _ => by simp

namespace Renumbered

theorem relevance_perm (h : Renumbered relevance scores relevance' scores') : relevance'.Perm relevance := by
  rw [← List.map_fst_zip h.length.le, ← List.map_fst_zip h.length'.le]
  exact h.perm.map _

theorem scores_perm (h : Renumbered relevance scores relevance' scores') : scores'.Perm scores := by
  rw [← List.map_snd_zip h.length.ge, ← List.map_snd_zip h.length'.ge]
  exact h.perm.map _

theorem mem_of_mem_rankedPairs (h : Renumbered relevance scores relevance' scores') {a : Float × Float}
    (ha : a ∈ rankedPairs relevance' scores') : a ∈ relevance.zip scores :=
  h.perm.mem_iff.1 ((rankedPairs_perm h.length').mem_iff.1 ha)

/-- **Only one list of relevances is sorted by score.** Where scores are equal relevances are as well, so that the
places of both are ordered by the scores alone. -/
theorem rankedPairs_eq (h : Renumbered relevance scores relevance' scores') :
    (rankedPairs relevance' scores').map (fun e => (place e.1, place e.2)) =
      (rankedPairs relevance scores).map fun e => (place e.1, place e.2) := by
  have hnum : ∀ x ∈ scores, x.isNaN = false := fun x hx => isNaN_of_isFinite (h.finite x hx)
  have hnum' : ∀ x ∈ scores', x.isNaN = false := fun x hx => hnum x (h.scores_perm.mem_iff.1 hx)
  have hfalls : ((rankedPairs relevance scores).map fun e => (place e.1, place e.2)).Pairwise fun u v => v.2 ≤ u.2 :=
    List.pairwise_map.2 (falling_rankedPairs hnum relevance)
  have hfalls' : ((rankedPairs relevance' scores').map fun e => (place e.1, place e.2)).Pairwise fun u v => v.2 ≤ u.2 :=
    List.pairwise_map.2 (falling_rankedPairs hnum' relevance')
  have hperm := (rankedPairs_perm h.length').trans (h.perm.trans (rankedPairs_perm h.length).symm)
  refine List.Perm.eq_of_pairwise ?_ hfalls' hfalls (hperm.map _)
  -- neither of two pairs is above the other: their scores are equal, and so their relevances are
  intro u v hu hv huv hvu
  obtain ⟨a, ha, rfl⟩ := List.mem_map.1 hu
  obtain ⟨b, hb, rfl⟩ := List.mem_map.1 hv
  have ha := h.mem_of_mem_rankedPairs ha
  have hb := (rankedPairs_perm h.length).mem_iff.1 hb
  have hscore : place a.2 = place b.2 := le_antisymm hvu huv
  have htie := h.ties a ha b hb
    ((beq_iff_place (hnum _ (List.of_mem_zip ha).2) (hnum _ (List.of_mem_zip hb).2)).2 hscore)
  rw [beq_iff_place (isNaN_of_isFinite (h.accepted _ (List.of_mem_zip ha).1).1)
    (isNaN_of_isFinite (h.accepted _ (List.of_mem_zip hb).1).1)] at htie
  exact Prod.ext htie hscore

/-- The first candidates by score have the same relevances in both runs. -/
theorem forall₂_topRelevance (h : Renumbered relevance scores relevance' scores') (c : ℕ) :
    List.Forall₂ (fun x y => x ∈ relevance ∧ y ∈ relevance ∧ SameNumber x y) (topRelevance relevance' scores' c)
      (topRelevance relevance scores c) := by
  have hsorted := h.rankedPairs_eq
  rw [← List.forall₂_eq_eq_eq, List.forall₂_map_left_iff, List.forall₂_map_right_iff, List.forall₂_iff_zip] at hsorted
  obtain ⟨hlength, hplaces⟩ := hsorted
  rw [topRelevance_eq_map_rankedPairs, topRelevance_eq_map_rankedPairs]
  refine List.forall₂_take c ?_
  rw [List.forall₂_map_left_iff, List.forall₂_map_right_iff, List.forall₂_iff_zip]
  refine ⟨hlength, fun {a b} hab => ?_⟩
  obtain ⟨ha, hb⟩ := List.of_mem_zip hab
  have ha := (List.of_mem_zip (h.mem_of_mem_rankedPairs ha)).1
  have hb := (List.of_mem_zip ((rankedPairs_perm h.length).mem_iff.1 hb)).1
  obtain ⟨hfinite, hnonneg⟩ := h.accepted _ ha
  exact ⟨ha, hb, Double.sameNumber_of_place hnonneg (isNaN_of_isFinite hfinite)
    (isNaN_of_isFinite (h.accepted _ hb).1) (congrArg Prod.fst (hplaces hab))⟩

/-- the ideal order is that of the relevances by themselves, whose ties are harmless -/
theorem ideal (h : Renumbered relevance scores relevance' scores') :
    Renumbered relevance relevance relevance' relevance' where
  length := rfl
  length' := rfl
  accepted := h.accepted
  finite x hx := (h.accepted x hx).1
  perm := by
    rw [zip_self_eq_map, zip_self_eq_map]
    exact h.relevance_perm.map _
  ties := by
    unfold HarmlessTies
    rw [zip_self_eq_map, List.forall_mem_map]
    exact fun x _ => List.forall_mem_map.2 fun y _ heq => heq

end Renumbered

end

/-! ## The same gains -/

section
variable {xs ys relevance scores relevance' scores' : List Float} {x y : Float}

theorem isRelevant_of_sameNumber (h : SameNumber x y) : isRelevant x = isRelevant y := by
  rcases h with rfl | ⟨hx, hy⟩
  · rfl
  · have hzero : ∀ z : Float, (z == 0.0) = true → isRelevant z = false := by
      intro z hz
      obtain ⟨s, hzu⟩ := Double.beq_zero_iff_unpack.1 hz
      refine decide_eq_false ?_
      rw [Double.lt_iff_unpacked_lt, hzu]
      cases s <;> decide
    rw [hzero x hx, hzero y hy]

theorem relevantCount_of_sameNumber (h : List.Forall₂ SameNumber xs ys) : relevantCount xs = relevantCount ys := by
  unfold relevantCount
  induction h with
  | nil => rfl
  | cons hxy _ ih => rw [List.countP_cons, List.countP_cons, ih, isRelevant_of_sameNumber hxy]

/-- gains that are the same are worth the same -/
theorem sameNumber_dcg {gain : Float → Float} (discount : ℕ → Float)
    (h : List.Forall₂ (fun x y => SameNumber (gain x) (gain y)) xs ys) :
    SameNumber (dcg gain discount xs) (dcg gain discount ys) := by
  have hterms : ∀ p, List.Forall₂ SameNumber ((xs.zipIdx p).map fun e => gain e.1 / discount e.2)
      ((ys.zipIdx p).map fun e => gain e.1 / discount e.2) := by
    induction h with
    | nil => exact fun p => .nil
    | cons hxy _ ih => exact fun p => .cons (hxy.div _) (ih (p + 1))
  exact Double.sameNumber_total (hterms 0)

/-- an exponential that does not tell the zeros apart, if both are there -/
def Gain.IgnoresSign (relevance : List Float) (g : Gain) : Prop :=
  g = .exponential → -0.0 ∈ relevance → Float.exp2 (-0.0) = Float.exp2 0.0

theorem Gain.IgnoresSign.sameNumber {g : Gain} (hg : g.IgnoresSign relevance) (hx : x ∈ relevance) (hy : y ∈ relevance)
    (h : SameNumber x y) : SameNumber (g.apply x) (g.apply y) := by
  cases g with
  | linear => exact h
  | exponential =>
    rcases h with rfl | ⟨hx0, hy0⟩
    · exact .refl _
    · have hzero : ∀ z ∈ relevance, (z == 0.0) = true → Float.exp2 z = Float.exp2 0.0 := by
        intro z hz hz0
        rcases Double.eq_zero_or_of_beq_zero hz0 with rfl | rfl
        · rfl
        · exact hg rfl hz
      refine .inl ?_
      rw [Gain.apply, Gain.apply, hzero x hx hx0, hzero y hy hy0]

namespace Renumbered

theorem hits_eq (h : Renumbered relevance scores relevance' scores') (c : ℕ) :
    hits relevance' scores' c = hits relevance scores c :=
  relevantCount_of_sameNumber ((h.forall₂_topRelevance c).imp fun _ _ hxy => hxy.2.2)

/-- without negative zeros, the relevances at all places are the same doubles -/
theorem topRelevance_eq (h : Renumbered relevance scores relevance' scores') (hneg : -0.0 ∉ relevance) (c : ℕ) :
    topRelevance relevance' scores' c = topRelevance relevance scores c := by
  rw [← List.forall₂_eq_eq_eq]
  refine (h.forall₂_topRelevance c).imp fun x y ⟨hx, hy, hxy⟩ => ?_
  rcases hxy with rfl | ⟨hx0, hy0⟩
  · rfl
  · have hzero : ∀ z ∈ relevance, (z == 0.0) = true → z = 0.0 := fun z hz hz0 =>
      (Double.eq_zero_or_of_beq_zero hz0).resolve_right fun heq => hneg (heq ▸ hz)
    rw [hzero x hx hx0, hzero y hy hy0]

/-- **Normalised gains of renumbered candidates.** -/
theorem sameNumber_normalisedDcg (h : Renumbered relevance scores relevance' scores') {g : Gain}
    (hg : g.IgnoresSign relevance) (discount : ℕ → Float) (c : ℕ) :
    SameNumber (normalisedDcg g.apply discount relevance' scores' c)
      (normalisedDcg g.apply discount relevance scores c) := by
  have hgains : ∀ x y, x ∈ relevance ∧ y ∈ relevance ∧ SameNumber x y → SameNumber (g.apply x) (g.apply y) :=
    fun _ _ ⟨hx, hy, hxy⟩ => hg.sameNumber hx hy hxy
  have hdcg := sameNumber_dcg discount ((h.forall₂_topRelevance c).imp hgains)
  have hideal := sameNumber_dcg discount ((h.ideal.forall₂_topRelevance c).imp hgains)
  unfold normalisedDcg
  dsimp only
  cases hzero : dcg g.apply discount (topRelevance relevance' relevance' c) == Arithmetic.ofNat 0 with
  | true =>
    rw [if_pos rfl, if_pos (hideal.beq_zero ▸ hzero)]
    exact .refl _
  | false =>
    rw [← hideal.eq_of_ne_zero hzero, hzero]
    exact hdcg.div _

theorem normalisedDcg_eq (h : Renumbered relevance scores relevance' scores') (hneg : -0.0 ∉ relevance)
    (gain : Float → Float) (discount : ℕ → Float) (c : ℕ) :
    normalisedDcg gain discount relevance' scores' c = normalisedDcg gain discount relevance scores c := by
  rw [normalisedDcg, normalisedDcg, h.topRelevance_eq hneg, h.ideal.topRelevance_eq hneg]

end Renumbered

end

/-! ## The area -/

section
variable {relevance relevance' : List Float} {scores scores' : AlignedScores} {k c : ℕ}

/-- some candidate is relevant, and some is not -/
def HasArea (relevance : List Float) : Prop :=
  0 < relevantCount relevance ∧ relevantCount relevance < relevance.length

theorem HasArea.auc_eq_ok (h : HasArea relevance) (hv : validate relevance scores.values k = .ok c) (R : Type)
    [Arithmetic R] : ∃ area, auc R relevance scores = .ok area := by
  rw [auc_of_validate hv, if_neg h.1.ne', if_neg h.2.ne]
  exact ⟨_, rfl⟩

/-- candidates of accepted vectors in another order -/
structure SameCandidates (relevance relevance' : List Float) (scores scores' : AlignedScores) : Prop where
  length : relevance'.length = scores'.values.length
  perm : (candidates relevance' scores').Perm (candidates relevance scores)

namespace SameCandidates

theorem length_eq (h : SameCandidates relevance relevance' scores scores')
    (hlen : relevance.length = scores.values.length) : relevance'.length = relevance.length := by
  rw [← length_candidates hlen, ← length_candidates h.length, h.perm.length_eq]

theorem relevantCount_eq (h : SameCandidates relevance relevance' scores scores')
    (hlen : relevance.length = scores.values.length) : relevantCount relevance' = relevantCount relevance := by
  rw [relevantCount_eq_countP hlen, relevantCount_eq_countP h.length, h.perm.countP_eq]

/-- an area that is undefined is missed alike -/
theorem auc_eq_of_not_hasArea (h : SameCandidates relevance relevance' scores scores')
    (hv : validate relevance scores.values k = .ok c) (hundefined : ¬ HasArea relevance) (R : Type) [Arithmetic R] :
    auc R relevance' scores' = auc R relevance scores := by
  obtain ⟨hlen, -⟩ := (validate_eq_ok_iff ..).1 hv
  rw [auc_of_validate hv, auc_of_validate (validate_perm hv h.length h.perm), h.relevantCount_eq hlen, h.length_eq hlen]
  split_ifs with hnone hall
  · rfl
  · rfl
  · exact absurd ⟨Nat.pos_of_ne_zero hnone, lt_of_le_of_ne List.countP_le_length hall⟩ hundefined

/-- **The area of renumbered candidates**, exactly; with fewer than `2 ^ 26` candidates it is the same double. -/
theorem auc_eq (h : SameCandidates relevance relevance' scores scores')
    (hv : validate relevance scores.values k = .ok c) :
    auc ℚ relevance' scores' = auc ℚ relevance scores ∧
      (relevance.length < 2 ^ 26 → auc Float relevance' scores' = auc Float relevance scores) := by
  obtain ⟨hlen, -⟩ := (validate_eq_ok_iff ..).1 hv
  have hv' := validate_perm hv h.length h.perm
  have hlength := h.length_eq hlen
  have hcount := h.relevantCount_eq hlen
  by_cases hdefined : HasArea relevance
  · obtain ⟨h0, hlt⟩ := hdefined
    constructor
    · rw [auc_eq_pairShare hv h0 hlt, auc_eq_pairShare hv' (hcount ▸ h0) (hcount ▸ hlength ▸ hlt),
        pairShare_perm h.perm]
    · intro hn
      have hsum := rankSum_of_perm hv h.length h.perm hn h0
      rw [hlength] at hsum
      rw [auc_of_validate hv, auc_of_validate hv', hcount, hlength, hsum]
  · exact ⟨h.auc_eq_of_not_hasArea hv hdefined ℚ, fun _ => h.auc_eq_of_not_hasArea hv hdefined Float⟩

/-- an area for a record is absent, or missed, for both or for neither -/
theorem optionalAuc_eq (h : SameCandidates relevance relevance' scores scores')
    (hv : validate relevance scores.values k = .ok c) (policy : UndefinedAuc) :
    (∃ e, optionalAuc policy relevance scores = .error e ∧ optionalAuc policy relevance' scores' = .error e) ∨
      ∃ area area', optionalAuc policy relevance scores = .ok area ∧ optionalAuc policy relevance' scores' = .ok area' ∧
        area'.isSome = area.isSome ∧ (relevance.length < 2 ^ 26 → area' = area) := by
  obtain ⟨hlen, -⟩ := (validate_eq_ok_iff ..).1 hv
  by_cases hdefined : HasArea relevance
  · have hdefined' : HasArea relevance' := by
      rwa [HasArea, h.relevantCount_eq hlen, h.length_eq hlen]
    obtain ⟨area, harea⟩ := hdefined.auc_eq_ok hv Float
    obtain ⟨area', harea'⟩ := hdefined'.auc_eq_ok (validate_perm hv h.length h.perm) Float
    have hsame := (h.auc_eq hv).2
    unfold optionalAuc
    rw [harea, harea'] at hsame ⊢
    exact .inr ⟨some area, some area', rfl, rfl, rfl, fun hn => congrArg some (Except.ok.inj (hsame hn))⟩
  · have hsame : optionalAuc policy relevance' scores' = optionalAuc policy relevance scores := by
      unfold optionalAuc
      rw [h.auc_eq_of_not_hasArea hv hdefined]
    cases hoptional : optionalAuc policy relevance scores with
    | error e => exact .inl ⟨e, rfl, hsame.trans hoptional⟩
    | ok area => exact .inr ⟨area, area, rfl, hsame.trans hoptional, rfl, fun _ => rfl⟩

end SameCandidates

end

/-! ## Whole evaluations -/

/-- the same record, but for the sign of a zero and for roundings of the area -/
structure SameRecord (record record' : Record) : Prop where
  k : record'.k = record.k
  relevant : record'.relevant = record.relevant
  precisionAtK : record'.precisionAtK = record.precisionAtK
  recallAtK : record'.recallAtK = record.recallAtK
  ndcg : SameNumber record'.ndcg record.ndcg
  auc : record'.auc.isSome = record.auc.isSome

/-- What two evaluations have in common: the error, or all of the record. Without negative zeros the normalised gain is
the same double, and with fewer than `2 ^ 26` candidates the area is. -/
structure SameEvaluation (options : Options) (k : ℕ) (relevance relevance' : List Float)
    (scores scores' : AlignedScores) : Prop where
  error : ∀ e, evaluate options relevance' scores' k = .error e ↔ evaluate options relevance scores k = .error e
  record : ∀ record, evaluate options relevance scores k = .ok record →
    ∃ record', evaluate options relevance' scores' k = .ok record' ∧ SameRecord record record' ∧
      (-0.0 ∉ relevance → record'.ndcg = record.ndcg) ∧ (relevance.length < 2 ^ 26 → record'.auc = record.auc)
  exact_auc : auc ℚ relevance' scores' = auc ℚ relevance scores

section
variable {options : Options} {relevance relevance' : List Float} {scores scores' : AlignedScores} {k c : ℕ}

/-- the vectors side by side, without flags -/
theorem zip_eq_map_candidates (relevance : List Float) (scores : AlignedScores) :
    relevance.zip scores.values = (candidates relevance scores).map fun c => (c.relevance, c.score) := by
  rw [candidates, List.map_map]
  exact (List.zipIdx_map_fst 0 _).symm

theorem SameCandidates.renumbered (h : SameCandidates relevance relevance' scores scores')
    (hv : validate relevance scores.values k = .ok c) (hties : HarmlessTies relevance scores.values) :
    Renumbered relevance scores.values relevance' scores'.values := by
  obtain ⟨hlen, -, -, hrel, hfin, -⟩ := (validate_eq_ok_iff ..).1 hv
  refine ⟨hlen, h.length, hrel, hfin, ?_, hties⟩
  rw [zip_eq_map_candidates, zip_eq_map_candidates]
  exact h.perm.map _

/-- evaluations of the same candidates -/
theorem SameCandidates.evaluate (h : SameCandidates relevance relevance' scores scores')
    (hv : validate relevance scores.values k = .ok c) (hties : HarmlessTies relevance scores.values)
    (hgain : options.gain.IgnoresSign relevance) : SameEvaluation options k relevance relevance' scores scores' := by
  have hrenumbered := h.renumbered hv hties
  have hhits := hrenumbered.hits_eq c
  have hcount := h.relevantCount_eq hrenumbered.length
  have hoptional := h.optionalAuc_eq hv options.auc
  have heval := evaluate_of_validate options hv
  have heval' := evaluate_of_validate options (validate_perm hv h.length h.perm)
  rcases hoptional with ⟨e, he, he'⟩ | ⟨area, area', harea, harea', hsome, hsmall⟩
  · rw [he] at heval
    rw [he'] at heval'
    refine ⟨fun e => ?_, fun record hrecord => ?_, (h.auc_eq hv).1⟩
    · rw [heval, heval']
      exact Iff.rfl
    · rw [heval] at hrecord
      cases hrecord
  · rw [harea] at heval
    rw [harea'] at heval'
    refine ⟨fun e => ?_, fun record hrecord => ?_, (h.auc_eq hv).1⟩
    · rw [heval, heval']
      exact iff_of_false nofun nofun
    · rw [heval] at hrecord
      cases hrecord
      refine ⟨_, heval', ⟨rfl, hhits, ?_, ?_, hrenumbered.sameNumber_normalisedDcg hgain discount c, hsome⟩,
        fun hneg => hrenumbered.normalisedDcg_eq hneg _ _ c, hsmall⟩
      · dsimp only
        rw [hhits]
      · dsimp only
        rw [hhits, hcount]

end

/-! ## Permutations -/

/-- the values in a given order of their positions -/
def reorder (order : List ℕ) (values : List Float) : List Float := order.map fun i => values.getD i 0.0

/-- the scores in a given order, each with its flag -/
def reorderScores (order : List ℕ) (scores : AlignedScores) : AlignedScores :=
  ⟨reorder order scores.values, order.map scores.isScored⟩

theorem sameCandidates_reorder {relevance : List Float} {scores : AlignedScores} {order : List ℕ}
    (hlen : relevance.length = scores.values.length) (horder : order.Perm (List.range relevance.length)) :
    SameCandidates relevance (reorder order relevance) scores (reorderScores order scores) := by
  have hlen' : (reorder order relevance).length = (reorderScores order scores).values.length := by
    simp [reorder, reorderScores]
  refine ⟨hlen', ?_⟩
  have hcandidates : candidates (reorder order relevance) (reorderScores order scores) =
      order.map (candidateAt relevance scores) := by
    rw [candidates_eq_map_range hlen']
    refine List.ext_getElem (by simp [reorder]) fun i _ hi => ?_
    rw [List.length_map] at hi
    simp [candidateAt, reorder, reorderScores, AlignedScores.isScored, hi]
  rw [hcandidates, candidates_eq_map_range hlen]
  exact horder.map _

/-- **Renumbering is harmless when ties are.** If candidates with equal scores have equal relevance, one permutation of
relevance, scores and flags leaves the cutoff, the number of relevant candidates and both shares as they are, and the
normalised gain but for the sign of a zero; the area is the same in exact arithmetic, and as a double for fewer than
`2 ^ 26` candidates. What fails fails with the same error. Of the exponential it is assumed that it is the same for both
zeros, and only if negative zeros are there. -/
theorem evaluate_renumbered (options : Options) (relevance : List Float) (scores : AlignedScores) (k c : ℕ)
    (order : List ℕ) (hv : validate relevance scores.values k = .ok c) (hties : HarmlessTies relevance scores.values)
    (hgain : options.gain.IgnoresSign relevance) (horder : order.Perm (List.range relevance.length)) :
    SameEvaluation options k relevance (reorder order relevance) scores (reorderScores order scores) :=
  (sameCandidates_reorder ((validate_eq_ok_iff ..).1 hv).1 horder).evaluate hv hties hgain

/-- Two pairs of ties: two relevant candidates, and two that are not, one of which has no score. -/
theorem evaluate_renumbered_of_five :
    let options : Options := { gain := .exponential }
    let relevance := [1.0, 0.0, 1.0, 0.0, 0.5]
    let scores : AlignedScores := ⟨[0.5, -0.0, 0.5, 0.0, 2.0], [true, true, true, false, true]⟩
    let relevance' := [0.5, 1.0, 0.0, 1.0, 0.0]
    let scores' : AlignedScores := ⟨[2.0, 0.5, 0.0, 0.5, -0.0], [true, true, false, true, true]⟩
    validate relevance scores.values 3 = .ok 3 ∧ HarmlessTies relevance scores.values ∧
      ∃ record record', evaluate options relevance scores 3 = .ok record ∧
        evaluate options relevance' scores' 3 = .ok record' ∧ record'.ndcg = record.ndcg ∧
        record'.relevant = record.relevant ∧ record'.auc = record.auc ∧
        auc ℚ relevance' scores' = auc ℚ relevance scores := by
  intro options relevance scores relevance' scores'
  have hv : validate relevance scores.values 3 = .ok 3 := by decide +kernel
  have hties : HarmlessTies relevance scores.values := by decide +kernel
  have hnonzero : ∀ x ∈ relevance, x ≠ -0.0 := by decide +kernel
  have hneg : -0.0 ∉ relevance := fun hmem => hnonzero _ hmem rfl
  obtain ⟨-, hrecord, hauc⟩ := evaluate_renumbered options relevance scores 3 3 [4, 2, 3, 0, 1] hv hties
    (fun _ hmem => absurd hmem hneg) (by decide)
  have hok : (evaluate options relevance scores 3).isOk = true := by decide +kernel
  obtain ⟨record, heval⟩ : ∃ record, evaluate options relevance scores 3 = .ok record := by
    cases heval : evaluate options relevance scores 3 with
    | error e =>
      rw [heval] at hok
      cases hok
    | ok record => exact ⟨record, rfl⟩
  obtain ⟨record', heval', hsame, hndcg, harea⟩ := hrecord record heval
  exact ⟨hv, hties, record, record', heval, heval', hndcg hneg, hsame.relevant, harea (by decide), hauc⟩

end RankEval.Metric
