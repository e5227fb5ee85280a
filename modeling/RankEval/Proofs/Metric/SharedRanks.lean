/-
The ranks that tied scores share, by counting. A list of numbers is ranked highest first, cut into groups of equal
scores, and every group gets the mean of its ranks; the result does not depend on how any of this is done.

- `grouped_splitBy`: cutting a falling list where its key changes gives its levels, from high to low.
- `averageRanks_eq_map`: the rank of a score is the mean of the ranks from `above + 1` to `above + level`, where `above`
  scores are greater and `level` are equal to it.
-/
import Mathlib.Data.List.SplitBy
import RankEval.Proofs.Double.Order

namespace RankEval.Metric

open Double (place precedes_iff_place tied_iff_place lt_iff_place)

/-! ## Levels of a falling list -/

section
variable {α β : Type}

/-- a list falls along a key -/
def Falling [LinearOrder β] (key : α → β) (l : List α) : Prop := l.Pairwise fun a b => key b ≤ key a

/-- groups with one key each, from high to low -/
structure Levels [LinearOrder β] (key : α → β) (groups : List (List α)) : Prop where
  level : ∀ g ∈ groups, ∀ a ∈ g, ∀ b ∈ g, key a = key b
  falling : groups.Pairwise fun g g' => ∀ a ∈ g, ∀ b ∈ g', key b < key a

theorem level_of_isChain (key : α → β) (g : List α) (h : g.IsChain fun a b => key a = key b) :
    ∀ a ∈ g, ∀ b ∈ g, key a = key b := by
  induction g with
  | nil => intro a ha; simp at ha
  | cons x g ih =>
    have htail : ∀ b ∈ g, key x = key b := by
      intro b hb
      cases g with
      | nil => simp at hb
      | cons y g =>
        rw [List.isChain_cons_cons] at h
        exact h.1.trans (ih h.2 y List.mem_cons_self b hb)
    have hall : ∀ b ∈ x :: g, key x = key b := List.forall_mem_cons.2 ⟨rfl, htail⟩
    intro a ha b hb
    exact (hall a ha).symm.trans (hall b hb)

/-- In a falling list that is cut where the key changes, every group lies below those before it: its elements are not
above its first one, which is below the last one of the group before. -/
theorem falling_of_adjacent [LinearOrder β] (key : α → β) (groups : List (List α)) (hne : ∀ g ∈ groups, g ≠ [])
    (hlevel : ∀ g ∈ groups, ∀ a ∈ g, ∀ b ∈ g, key a = key b) (hfall : Falling key groups.flatten)
    (hcut : groups.IsChain fun g g' => ∃ hg hg', key (g.getLast hg) ≠ key (g'.head hg')) :
    groups.Pairwise fun g g' => ∀ a ∈ g, ∀ b ∈ g', key b < key a := by
  induction groups with
  | nil => exact List.Pairwise.nil
  | cons g rest ih =>
    have hrest : Falling key rest.flatten := (List.pairwise_append.1 (List.flatten_cons ▸ hfall)).2.1
    refine List.pairwise_cons.2 ⟨fun g' hg' a ha b hb => ?_,
      ih (fun g hg => hne g (List.mem_cons_of_mem _ hg)) (fun g hg => hlevel g (List.mem_cons_of_mem _ hg)) hrest
        hcut.tail⟩
    cases rest with
    | nil => simp at hg'
    | cons h rest =>
      obtain ⟨⟨hgne, hhne, hneq⟩, -⟩ := List.isChain_cons_cons.1 hcut
      have hlast : key (g.getLast hgne) = key a := hlevel g List.mem_cons_self _ (List.getLast_mem hgne) a ha
      have hdrop : key (h.head hhne) < key (g.getLast hgne) := by
        refine lt_of_le_of_ne ?_ (Ne.symm hneq)
        refine (List.pairwise_append.1 (List.flatten_cons ▸ hfall)).2.2 _ (List.getLast_mem hgne) _ ?_
        exact List.mem_flatten.2 ⟨h, List.mem_cons_self, List.head_mem hhne⟩
      have hbelow : key b ≤ key (h.head hhne) := by
        have hb' : b ∈ (h :: rest).flatten := List.mem_flatten.2 ⟨g', hg', hb⟩
        obtain ⟨x, t, rfl⟩ := List.exists_cons_of_ne_nil hhne
        rw [List.flatten_cons, List.cons_append] at hb' hrest
        rcases List.mem_cons.1 hb' with rfl | hb'
        · exact le_rfl
        · exact (List.pairwise_cons.1 hrest).1 b hb'
      exact hlast ▸ lt_of_le_of_lt hbelow hdrop

theorem grouped_splitBy [LinearOrder β] (key : α → β) (same : α → α → Bool) (l : List α) (hl : Falling key l)
    (hsame : ∀ a ∈ l, ∀ b ∈ l, same a b = true ↔ key a = key b) : Levels key (l.splitBy same) := by
  have hmem : ∀ g ∈ l.splitBy same, ∀ a ∈ g, a ∈ l := by
    intro g hg a ha
    rw [← List.flatten_splitBy same l]
    exact List.mem_flatten.2 ⟨g, hg, ha⟩
  have hlevel : ∀ g ∈ l.splitBy same, ∀ a ∈ g, ∀ b ∈ g, key a = key b := by
    intro g hg
    refine level_of_isChain key g ((List.isChain_of_mem_splitBy hg).imp_of_mem_imp fun a b ha hb h => ?_)
    exact (hsame a (hmem g hg a ha) b (hmem g hg b hb)).1 h
  refine ⟨hlevel, falling_of_adjacent key _ (fun g hg => List.ne_nil_of_mem_splitBy hg) hlevel ?_ ?_⟩
  · rw [List.flatten_splitBy]
    exact hl
  · refine (List.isChain_getLast_head_splitBy same l).imp_of_mem_imp fun g g' hg hg' h => ?_
    obtain ⟨hgne, hgne', hcut⟩ := h
    refine ⟨hgne, hgne', fun heq => ?_⟩
    rw [(hsame _ (hmem g hg _ (List.getLast_mem hgne)) _ (hmem g' hg' _ (List.head_mem hgne'))).2 heq] at hcut
    exact Bool.noConfusion hcut

end

/-! ## Ranks by counting -/

/-- how many scores are greater than a score -/
def above (scores : List Float) (x : Float) : Nat := scores.countP fun y => decide (x < y)

/-- how many scores are equal to a score, itself included -/
def level (scores : List Float) (x : Float) : Nat := scores.countP fun y => tied x y

section
variable {scores : List Float}

theorem number_of_mem_ranked (h : ∀ x ∈ scores, x.isNaN = false) : ∀ e ∈ ranked scores, e.1.isNaN = false := by
  intro e he
  obtain ⟨x, i⟩ := e
  exact h x (List.fst_mem_of_mem_zipIdx (List.mem_mergeSort.1 he))

/-- the comparison of the sort is a total preorder on numbers only; there it is that of places -/
theorem ranked_eq_mergeSort_place (h : ∀ x ∈ scores, x.isNaN = false) :
    ranked scores = scores.zipIdx.mergeSort fun a b => decide (place b.1 ≤ place a.1) := by
  have hzip : ∀ e ∈ scores.zipIdx, e.1.isNaN = false := by
    intro e he
    exact h e.1 (List.fst_mem_of_mem_zipIdx he)
  have hsame := List.map_mergeSort (f := id) (r := fun a b => precedes a.1 b.1)
    (s := fun a b : Float × Nat => decide (place b.1 ≤ place a.1)) (l := scores.zipIdx) fun a ha b hb => by
      rw [Bool.eq_iff_iff, precedes_iff_place (hzip a ha) (hzip b hb), decide_eq_true_iff, id, id]
  simpa [ranked] using hsame

theorem placed_trans (a b c : Float × Nat) (hab : decide (place b.1 ≤ place a.1) = true)
    (hbc : decide (place c.1 ≤ place b.1) = true) : decide (place c.1 ≤ place a.1) = true := by
  simp only [decide_eq_true_iff] at *
  exact hbc.trans hab

theorem placed_total (a b : Float × Nat) :
    (decide (place b.1 ≤ place a.1) || decide (place a.1 ≤ place b.1)) = true := by
  simpa using le_total (place b.1) (place a.1)

theorem falling_ranked (h : ∀ x ∈ scores, x.isNaN = false) : Falling (fun e => place e.1) (ranked scores) := by
  rw [ranked_eq_mergeSort_place h]
  exact (List.pairwise_mergeSort placed_trans placed_total scores.zipIdx).imp fun hab => of_decide_eq_true hab

theorem map_fst_ranked_perm : ((ranked scores).map Prod.fst).Perm scores := by
  have h := (List.mergeSort_perm scores.zipIdx fun a b => precedes a.1 b.1).map Prod.fst
  rwa [List.zipIdx_map_fst] at h

end

/-- sorting by distinct positions has one result only -/
theorem mergeSort_position {α : Type} {l l' : List (α × Nat)} (h : l.Perm l') (hl' : l'.Pairwise fun a b => a.2 < b.2) :
    l.mergeSort (fun a b => decide (a.2 ≤ b.2)) = l' := by
  refine @List.Perm.eq_of_pairwise _ (fun a b => a.2 ≤ b.2) _ _ ?_ ?_ (hl'.imp Nat.le_of_lt)
    ((List.mergeSort_perm _ _).trans h)
  · have hnodup : (l'.map Prod.snd).Nodup := List.pairwise_map.2 (hl'.imp fun hab => hab.ne)
    intro a b ha hb hab hba
    exact List.inj_on_of_nodup_map hnodup (h.mem_iff.1 (List.mem_mergeSort.1 ha)) hb (Nat.le_antisymm hab hba)
  · have hpair : (l.mergeSort fun a b => decide (a.2 ≤ b.2)).Pairwise fun a b => decide (a.2 ≤ b.2) = true :=
      List.pairwise_mergeSort (fun a b c hab hbc => by simp only [decide_eq_true_iff] at *; exact hab.trans hbc)
      (fun a b => by simpa using le_total a.2 b.2) l
    exact hpair.imp fun hab => of_decide_eq_true hab

section
variable (R : Type) [Arithmetic R]

/-- the rank of a score, by counting -/
def sharedRank (scores : List Float) (x : Float) : R :=
  meanRank R (above scores x + 1) (above scores x + level scores x)

theorem sharedRank_perm {l l' : List Float} (h : l.Perm l') (x : Float) : sharedRank R l x = sharedRank R l' x := by
  unfold sharedRank above level
  rw [h.countP_eq, h.countP_eq]

/-- The rank of a score by what stands before it, level with it and behind it. -/
theorem sharedRank_eq_meanRank {scores pre group post : List Float} {x : Float}
    (hsplit : (pre ++ (group ++ post)).Perm scores) (hnum : ∀ y ∈ scores, y.isNaN = false) (hx : x ∈ scores)
    (hpre : ∀ y ∈ pre, place x < place y) (hgroup : ∀ y ∈ group, place x = place y)
    (hpost : ∀ y ∈ post, place y < place x) :
    sharedRank R scores x = meanRank R (pre.length + 1) (pre.length + group.length) := by
  have hmem : ∀ y, y ∈ pre ∨ y ∈ group ∨ y ∈ post → y.isNaN = false := by
    intro y hy
    refine hnum y (hsplit.mem_iff.1 ?_)
    simpa only [List.mem_append] using hy
  have hnumX := hnum x hx
  have habove : above scores x = pre.length := by
    rw [above, ← hsplit.countP_eq, List.countP_append, List.countP_append, List.countP_eq_length.2,
      List.countP_eq_zero.2, List.countP_eq_zero.2]
    · rfl
    · intro y hy
      simp [lt_iff_place hnumX (hmem y (Or.inr (Or.inr hy))), (hpost y hy).le]
    · intro y hy
      simp [lt_iff_place hnumX (hmem y (Or.inr (Or.inl hy))), (hgroup y hy).ge]
    · intro y hy
      simp [lt_iff_place hnumX (hmem y (Or.inl hy)), hpre y hy]
  have hlevel : level scores x = group.length := by
    rw [level, ← hsplit.countP_eq, List.countP_append, List.countP_append, List.countP_eq_zero.2,
      List.countP_eq_length.2, List.countP_eq_zero.2]
    · simp
    · intro y hy
      simp [tied_iff_place hnumX (hmem y (Or.inr (Or.inr hy))), (hpost y hy).ne']
    · intro y hy
      simp [tied_iff_place hnumX (hmem y (Or.inr (Or.inl hy))), hgroup y hy]
    · intro y hy
      simp [tied_iff_place hnumX (hmem y (Or.inl hy)), (hpre y hy).ne]
  rw [sharedRank, habove, hlevel]

/-- Every group gets the rank that counting gives its scores: what stands before a group is above it, and only the group
itself is level with it. -/
theorem groupRanks_eq_map (l pre : List (Float × Nat)) (groups : List (List (Float × Nat)))
    (hl : pre ++ groups.flatten = l) (hnum : ∀ e ∈ l, e.1.isNaN = false)
    (hpre : ∀ a ∈ pre, ∀ b ∈ groups.flatten, place b.1 < place a.1) (hlev : Levels (fun e => place e.1) groups) :
    groupRanks R pre.length groups =
      groups.flatten.map fun e => (sharedRank R (l.map Prod.fst) e.1, e.2) := by
  induction groups generalizing pre with
  | nil => rfl
  | cons g rest ih =>
    have hsplit : pre ++ (g ++ rest.flatten) = l := by rw [← List.flatten_cons]; exact hl
    have hbelow : ∀ a ∈ g, ∀ b ∈ rest.flatten, place b.1 < place a.1 := by
      intro a ha b hb
      obtain ⟨g', hg', hb⟩ := List.mem_flatten.1 hb
      exact (List.pairwise_cons.1 hlev.falling).1 g' hg' a ha b hb
    have hscores : pre.map Prod.fst ++ (g.map Prod.fst ++ rest.flatten.map Prod.fst) = l.map Prod.fst := by
      rw [← hsplit, List.map_append, List.map_append]
    have hrank : ∀ e ∈ g, meanRank R (pre.length + 1) (pre.length + g.length) = sharedRank R (l.map Prod.fst) e.1 := by
      intro e he
      have hshared := sharedRank_eq_meanRank R (x := e.1) (List.Perm.of_eq hscores) (List.forall_mem_map.2 hnum)
        (hscores ▸ List.mem_append_right _ (List.mem_append_left _ (List.mem_map_of_mem he)))
        (List.forall_mem_map.2 fun d hd => hpre d hd e (List.flatten_cons ▸ List.mem_append_left _ he))
        (List.forall_mem_map.2 (hlev.level g List.mem_cons_self e he)) (List.forall_mem_map.2 (hbelow e he))
      rw [hshared, List.length_map, List.length_map]
    rw [groupRanks, List.flatten_cons, List.map_append]
    congr 1
    · exact List.map_congr_left fun e he => by rw [hrank e he]
    · rw [← List.length_append]
      refine ih (pre ++ g) ?_ ?_ ⟨fun g' hg' => hlev.level g' (List.mem_cons_of_mem _ hg'),
        (List.pairwise_cons.1 hlev.falling).2⟩
      · rw [List.append_assoc]; exact hsplit
      · intro a ha b hb
        rcases List.mem_append.1 ha with ha | ha
        · exact hpre a ha b (List.flatten_cons ▸ List.mem_append_right _ hb)
        · exact hbelow a ha b hb

/-- **Shared ranks are counts.** The rank of a score is the mean of the ranks that it and the scores equal to it take
up, below the scores that are greater. -/
theorem averageRanks_eq_map (scores : List Float) (h : ∀ x ∈ scores, x.isNaN = false) :
    averageRanks R scores = scores.map (sharedRank R scores) := by
  have hnum := number_of_mem_ranked h
  have hlev : Levels (fun e => place e.1) ((ranked scores).splitBy fun a b => tied a.1 b.1) :=
    grouped_splitBy _ _ _ (falling_ranked h) fun a ha b hb => tied_iff_place (hnum a ha) (hnum b hb)
  have hgroups := groupRanks_eq_map R (ranked scores) [] _ (List.flatten_splitBy _ _) hnum (by simp) hlev
  rw [List.flatten_splitBy] at hgroups
  have hsorted : ((ranked scores).map fun e => (sharedRank R scores e.1, e.2)).mergeSort
      (fun a b => decide (a.2 ≤ b.2)) = scores.zipIdx.map fun e => (sharedRank R scores e.1, e.2) := by
    refine mergeSort_position ((List.mergeSort_perm _ _).map _) ?_
    rw [List.pairwise_map]
    have hpos := List.pairwise_lt_range' (s := 0) (n := scores.length)
    rw [← List.zipIdx_map_snd] at hpos
    exact List.pairwise_map.1 hpos
  simp only [List.length_nil, sharedRank_perm R map_fst_ranked_perm] at hgroups
  simp only [averageRanks, hgroups, hsorted, List.map_map]
  conv_rhs => rw [← List.zipIdx_map_fst 0 scores, List.map_map]
  rw [List.zipIdx_map_fst]
  rfl

end

end RankEval.Metric
