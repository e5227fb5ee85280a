/-
What ground truth makes of a universe. The value of a table is the greatest of 0 and the scores that some source gives
to it, and two doubles that are both the greatest are the same double. So the map depends only on which scores are given
to which tables: not on the order in which sources, keys and tables are gone through, and not on how often.

- `mem_certified`: the walk over a source meets a table with a score iff the source gives it that score.
- `IsLargest.eq`: there is one greatest score.
- `build_congr`: sources that give the same scores make the same map.
- `build_merges`: the map that is built, entry by entry, and what follows for rearranged, repeated and added sources.
-/
import RankEval.Proofs.Candidates.Stored
import RankEval.Proofs.Double.Packing

namespace RankEval

open Double (isNaN_of_lt le_of_lt le_iff_place lt_iff_place beq_iff_place eq_of_place)

/-! ## The greatest score -/

/-- Being the greatest of 0 and those given scores that are numbers. -/
structure IsLargest (given : Float → Prop) (m : Float) : Prop where
  attained : m = 0.0 ∨ 0.0 < m ∧ given m
  above : ∀ s, given s → s.isNaN = false → s ≤ m

namespace IsLargest

variable {given given' : Float → Prop} {m m' s : Float}

theorem isNaN_eq (h : IsLargest given m) : m.isNaN = false := by
  rcases h.attained with rfl | ⟨hpos, -⟩
  · rfl
  · exact (isNaN_of_lt hpos).2

theorem nonneg (h : IsLargest given m) : 0.0 ≤ m := by
  rcases h.attained with rfl | ⟨hpos, -⟩
  · decide
  · exact le_of_lt hpos

/-- more scores have no smaller greatest one -/
theorem mono (h : IsLargest given m) (h' : IsLargest given' m') (hsub : ∀ s, 0.0 < s → given s → given' s) :
    m ≤ m' := by
  rcases h.attained with rfl | ⟨hpos, hgiven⟩
  · exact h'.nonneg
  · exact h'.above m (hsub m hpos hgiven) h.isNaN_eq

/-- There is one greatest score: a positive double is the only one at its place, and neither is negative zero. -/
theorem eq (h : IsLargest given m) (h' : IsLargest given' m') (hsame : ∀ s, 0.0 < s → (given s ↔ given' s)) :
    m = m' := by
  have hplace : Double.place m = Double.place m' := by
    apply le_antisymm
    · exact (le_iff_place h.isNaN_eq h'.isNaN_eq).1 (h.mono h' fun s hs => (hsame s hs).1)
    · exact (le_iff_place h'.isNaN_eq h.isNaN_eq).1 (h'.mono h fun s hs => (hsame s hs).2)
  rcases h.attained with rfl | ⟨hpos, -⟩
  · rcases h'.attained with rfl | ⟨hpos', -⟩
    · rfl
    · exact (eq_of_place hpos' hplace.symm).symm
  · exact eq_of_place hpos hplace

/-- one more score, and the greatest one is raised to it -/
theorem raise (h : IsLargest given m) (s : Float) :
    IsLargest (fun x => given x ∨ x = s) (RelevanceMap.raise m s) := by
  unfold RelevanceMap.raise
  have hm := h.isNaN_eq
  split_ifs with hlt
  · have hs := (isNaN_of_lt hlt).2
    have hplace := (lt_iff_place hm hs).1 hlt
    refine ⟨.inr ⟨?_, .inr rfl⟩, ?_⟩
    · exact (lt_iff_place rfl hs).2 (((le_iff_place rfl hm).1 h.nonneg).trans_lt hplace)
    · rintro x (hx | rfl) hnumber
      · exact (le_iff_place hnumber hs).2 (((le_iff_place hnumber hm).1 (h.above x hx hnumber)).trans hplace.le)
      · exact (le_iff_place hnumber hs).2 le_rfl
  · refine ⟨h.attained.imp_right fun hpos => ⟨hpos.1, .inl hpos.2⟩, ?_⟩
    rintro x (hx | rfl) hnumber
    · exact h.above x hx hnumber
    · exact (le_iff_place hnumber hm).2 (not_lt.1 fun hplace => hlt ((lt_iff_place hm hnumber).2 hplace))

end IsLargest

/-! ## The scores that are given to a table -/

namespace GroundTruth

/-- the source scores a key that vouches for the table -/
def Certifies (g : GroundTruth) (t : TableId) (s : Float) : Prop :=
  ∃ key, (key, s) ∈ g.scores ∧ ∃ grant ∈ g.grants, grant.1 = key ∧ t ∈ grant.2

/-- The walk over a source meets a table with a score iff the source gives it that score. -/
theorem mem_certified {g : GroundTruth} {t : TableId} {s : Float} : (t, s) ∈ g.certified ↔ g.Certifies t s := by
  rw [certified, List.mem_flatMap]
  constructor
  · rintro ⟨⟨key, score⟩, hscore, hpair⟩
    obtain ⟨t', ht, heq⟩ := List.mem_map.1 hpair
    obtain ⟨rfl, rfl⟩ := Prod.mk.inj heq
    rw [getD_gather, List.mem_flatMap] at ht
    obtain ⟨grant, hgrant, ht⟩ := ht
    obtain ⟨hgrant, hkey⟩ := List.mem_filter.1 hgrant
    exact ⟨key, hscore, grant, hgrant, of_decide_eq_true hkey, ht⟩
  · rintro ⟨key, hscore, grant, hgrant, hkey, ht⟩
    refine ⟨(key, s), hscore, List.mem_map.2 ⟨t, ?_, rfl⟩⟩
    rw [getD_gather, List.mem_flatMap]
    exact ⟨grant, List.mem_filter.2 ⟨hgrant, decide_eq_true hkey⟩, ht⟩

/-- some of the sources gives the table that score -/
def Given (sources : List GroundTruth) (t : TableId) (s : Float) : Prop := ∃ g ∈ sources, g.Certifies t s

theorem given_iff_mem {sources : List GroundTruth} {t : TableId} {s : Float} :
    Given sources t s ↔ (t, s) ∈ sources.flatMap certified := by
  simp [Given, ← mem_certified]

/-- a source among others adds what it gives itself -/
theorem given_insert (before after : List GroundTruth) (g : GroundTruth) (t : TableId) (s : Float) :
    Given (before ++ g :: after) t s ↔ Given (before ++ after) t s ∨ g.Certifies t s := by
  simp only [Given, List.mem_append, List.mem_cons, or_and_right, exists_or, exists_eq_left]
  rw [or_assoc, or_comm (a := g.Certifies t s)]

end GroundTruth

/-! ## The map -/

namespace RelevanceMap

open GroundTruth (Given given_insert)

variable {u : CandidateUniverse} {sources sources' : List GroundTruth} {before after : List GroundTruth}

/-- what a table gets is the greatest of 0 and the scores that are given to it -/
theorem isLargest_peaks (sources : List GroundTruth) (t : TableId) :
    IsLargest (Given sources t) ((peaks (sources.flatMap GroundTruth.certified)).getD t 0.0) := by
  have hpeak := peak_isPeak ((sources.flatMap GroundTruth.certified |>.filter fun e => e.1 = t).map Prod.snd)
  have hmem (s : Float) : s ∈ (sources.flatMap GroundTruth.certified |>.filter fun e => e.1 = t).map Prod.snd ↔
      Given sources t s := by
    rw [GroundTruth.given_iff_mem, List.mem_map]
    constructor
    · rintro ⟨⟨t', s'⟩, hpair, rfl⟩
      obtain ⟨hgiven, ht⟩ := List.mem_filter.1 hpair
      obtain rfl : t' = t := of_decide_eq_true ht
      exact hgiven
    · intro hmem
      exact ⟨(t, s), List.mem_filter.2 ⟨hmem, decide_eq_true rfl⟩, rfl⟩
  rw [peaks_getD, foldl_raise_eq_peak]
  generalize peak _ = m at hpeak ⊢
  have hm : m.isNaN = false := by
    rcases hpeak.attained with rfl | ⟨hpos, -⟩
    · rfl
    · exact (isNaN_of_lt hpos).2
  refine ⟨hpeak.attained.imp_right fun hpos => ⟨hpos.1, (hmem m).1 hpos.2⟩, ?_⟩
  intro s hs hnumber
  exact (le_iff_place hnumber hm).2
    (not_lt.1 fun hplace => hpeak.not_below s ((hmem s).2 hs) ((lt_iff_place hm hnumber).2 hplace))

theorem get?_ofUniverse (u : CandidateUniverse) (value : TableId → Float) (t : TableId) :
    (ofUniverse u value).get? t = if t ∈ u.items then some (value t) else none := by
  rw [get?, ofUniverse]
  split_ifs with ht
  · refine (Distinct.lookup_eq_some_iff (ofUniverse u value).nodup).2 ?_
    exact List.mem_map.2 ⟨t, ht, rfl⟩
  · rw [List.lookup_eq_none_iff]
    intro e he
    obtain ⟨t', ht', rfl⟩ := List.mem_map.1 he
    exact bne_iff_ne.2 fun heq => ht (heq ▸ ht')

/-- sources that give the same positive scores make the same map -/
theorem build_congr (h : ∀ t ∈ u.items, ∀ s, 0.0 < s → (Given sources t s ↔ Given sources' t s)) :
    build u sources = build u sources' := by
  refine ext_entries (List.map_congr_left fun t ht => ?_)
  exact congrArg (Prod.mk t) ((isLargest_peaks sources t).eq (isLargest_peaks sources' t) (h t ht))

theorem build_insert_congr {g g' : GroundTruth} (h : ∀ t s, g.Certifies t s ↔ g'.Certifies t s) :
    build u (before ++ g :: after) = build u (before ++ g' :: after) :=
  build_congr fun t _ s _ => by rw [given_insert, given_insert, h]

/-- raising some tables after a map is built does what one more source does, wherever it stands -/
theorem withSelfRelevance_build {g : GroundTruth} {tables : List TableId} {score : Float}
    (hg : ∀ t s, g.Certifies t s ↔ t ∈ tables ∧ s = score) :
    (build u (before ++ after)).withSelfRelevance tables score = build u (before ++ g :: after) := by
  refine ext_entries (List.map_map.trans (List.map_congr_left fun t _ => ?_))
  have hown := isLargest_peaks (before ++ after) t
  have hmore := isLargest_peaks (before ++ g :: after) t
  simp only [Function.comp_apply, Std.TreeSet.contains_ofList, List.contains_iff_mem]
  by_cases ht : t ∈ tables
  · rw [if_pos ht, (hown.raise score).eq hmore fun s _ => by simp [given_insert, hg, ht]]
  · rw [if_neg ht, hown.eq hmore fun s _ => by simp [given_insert, hg, ht]]

/-- **Ground truth is merged by maximum, whatever its order.** The map lists the tables of the universe in its order and
no other; the value of a table is the greatest of 0 and the scores that are numbers and that some source gives to it.
Raising values in place through an index of their places makes the same entries. Rearranging the sources or the scores
of one of them, repeating a source, and naming a table more than once for a key change nothing; one more source lowers
no value; and raising the query's own tables afterwards is one more source at any place. -/
theorem build_merges (u : CandidateUniverse) (sources : List GroundTruth) :
    (build u sources).tables = u.items ∧
    (∀ t ∈ u.items, ∃ m, (build u sources).get? t = some m ∧ IsLargest (Given sources t) m) ∧
    (∀ t ∉ u.items, (build u sources).get? t = none) ∧
    (∀ stored : StoredUniverse, stored.Keeps u.items →
      (Indexed.build stored sources).Keeps (build u sources).entries) ∧
    (∀ sources', sources.Perm sources' → build u sources' = build u sources) ∧
    (∀ before g after, sources = before ++ g :: after →
      (∀ scores, g.scores.Perm scores →
        build u (before ++ { g with scores := scores } :: after) = build u sources) ∧
      (∀ grants key tables tables' grants', g.grants = grants ++ (key, tables) :: grants' →
        (∀ t, t ∈ tables' ↔ t ∈ tables) →
        build u (before ++ { g with grants := grants ++ (key, tables') :: grants' } :: after) = build u sources)) ∧
    ∀ before after, sources = before ++ after →
      (∀ g ∈ sources, build u (before ++ g :: after) = build u sources) ∧
      (∀ g t m, (build u sources).get? t = some m →
        ∃ m', (build u (before ++ g :: after)).get? t = some m' ∧ m ≤ m') ∧
      ∀ g tables score, (∀ t s, g.Certifies t s ↔ t ∈ tables ∧ s = score) →
        (build u sources).withSelfRelevance tables score = build u (before ++ g :: after) := by
  have hget (sources : List GroundTruth) (t : TableId) := get?_ofUniverse u
    (fun t => (peaks (sources.flatMap GroundTruth.certified)).getD t 0.0) t
  refine ⟨?tables, ?value, ?outside, fun stored hstored => Indexed.keeps_build hstored sources, ?rearranged, ?within,
    ?more⟩
  case tables => rw [tables, build, ofUniverse, List.map_map, Function.comp_def, List.map_id']
  case value =>
    intro t ht
    exact ⟨_, by rw [build, hget, if_pos ht], isLargest_peaks sources t⟩
  case outside =>
    intro t ht
    rw [build, hget, if_neg ht]
  case rearranged =>
    intro sources' hperm
    refine build_congr fun t _ s _ => ?_
    simp only [Given, hperm.mem_iff]
  case within =>
    rintro before g after rfl
    constructor
    · intro scores hperm
      apply build_insert_congr
      intro t s
      simp only [GroundTruth.Certifies, hperm.mem_iff]
    · intro grants key tables tables' grants' hgrants hsame
      apply build_insert_congr
      intro t s
      simp only [GroundTruth.Certifies, hgrants, List.mem_append, List.mem_cons, or_and_right, exists_or,
        exists_eq_left, hsame]
  case more =>
    rintro before after rfl
    refine ⟨fun g hg => ?_, fun g t m hm => ?_, fun g tables score hg => withSelfRelevance_build hg⟩
    · refine build_congr fun t _ s _ => ?_
      rw [given_insert, or_iff_left_of_imp]
      exact fun hgives => ⟨g, hg, hgives⟩
    · rw [build, hget] at hm
      split_ifs at hm with ht
      obtain rfl := Option.some.inj hm
      refine ⟨_, by rw [build, hget, if_pos ht], ?_⟩
      exact (isLargest_peaks (before ++ after) t).mono (isLargest_peaks (before ++ g :: after) t)
        fun s _ hgiven => (given_insert before after g t s).2 (.inl hgiven)

end RelevanceMap

end RankEval
