/-
A universe of a page's own tables and as many others. The others are drawn from the tables of the corpus that are not on
the page, at distinct places, so that no table can come twice; as many are drawn as the page lists tables. A table that
the page lists more than once is counted every time it is listed, but is only one candidate: then more others than own
tables are drawn, if there are so many.

- `IsPick`, `isPick_of_isSample`: what stands at distinct places of a list without repeats.
- `isLabeled_of_isPick`: the universe, for any way of picking the others.
- `labeled_structure`: the universe, as it is made.
- `labeled_structure_of_repeats`: a page with a repeated table.
- `labeled_balance`: how many of its tables are on the page and how many are not.
-/
import Mathlib.Data.List.Perm.Subperm
import RankEval.Proofs.Candidates.Stored
import RankEval.Proofs.Random.Sample

namespace RankEval.CandidateUniverse

open RankEval.Random (IsSample isSample_sample)

/-- the tables of the corpus that are not on a page -/
def eligible (page : List TableId) (corpus : CandidateUniverse) : List TableId :=
  corpus.items.filter fun t => t ∉ page

/-- The tables of a page at their first occurrences, and then as many others as the page lists tables: none of them
twice, none from the page, and all of the corpus if there are not as many. -/
structure IsLabeled (page : List TableId) (corpus : CandidateUniverse) (tables others : List TableId) : Prop where
  order : tables = page.eraseDups ++ others
  others_once : others.Nodup
  others_eligible : ∀ t ∈ others, t ∈ corpus.items ∧ t ∉ page
  count : others.length = min page.length (corpus.items.countP fun t => t ∉ page)
  exhausted : (corpus.items.countP fun t => t ∉ page) ≤ page.length → ∀ t ∈ corpus.items, t ∉ page → t ∈ others
  once : tables.Nodup

section
variable {page : List TableId} {corpus : CandidateUniverse}

theorem nodup_eligible (page : List TableId) (corpus : CandidateUniverse) : (eligible page corpus).Nodup :=
  corpus.nodup.filter _

theorem mem_eligible {t : TableId} : t ∈ eligible page corpus ↔ t ∈ corpus.items ∧ t ∉ page := by
  rw [eligible, List.mem_filter, decide_eq_true_eq]

theorem length_eligible (page : List TableId) (corpus : CandidateUniverse) :
    (eligible page corpus).length = corpus.items.countP fun t => t ∉ page := List.countP_eq_length_filter.symm

/-! ## Drawing from a pool -/

/-- some elements of a pool, each once: as many as are asked for, or all -/
structure IsPick (pool : List TableId) (amount : Nat) (picked : List TableId) : Prop where
  once : picked.Nodup
  from_pool : picked ⊆ pool
  count : picked.length = min amount pool.length

theorem isPick_of_isSample {pool : List TableId} (hpool : pool.Nodup) {amount : Nat} {positions : List Nat}
    (h : IsSample pool.length amount positions) : IsPick pool amount (positions.filterMap fun i => pool[i]?) where
  once := by
    refine List.Nodup.filterMap (fun i j t hi hj => ?_) h.once
    obtain ⟨hlt, -⟩ := List.getElem?_eq_some_iff.1 hi
    exact (List.getElem?_inj hlt hpool).1 (hi.trans hj.symm)
  from_pool := by
    intro t ht
    obtain ⟨i, -, hi⟩ := List.mem_filterMap.1 ht
    exact List.mem_of_getElem? hi
  count := by
    rw [List.length_filterMap_eq_countP, ← h.count, List.countP_eq_length]
    intro i hi
    rw [List.getElem?_eq_getElem (h.below i hi)]
    rfl

/-- a pick from a pool with no more elements than are asked for has them all -/
theorem IsPick.all {pool : List TableId} {amount : Nat} {picked : List TableId} (h : IsPick pool amount picked)
    (hsmall : pool.length ≤ amount) : pool ⊆ picked := by
  have hlength : pool.length ≤ picked.length := by rw [h.count, min_eq_right hsmall]
  exact ((List.subperm_of_subset h.once h.from_pool).perm_of_length_le hlength).symm.subset

/-! ## The universe -/

/-- **Structure of a labelled universe**, for any way of picking the others. -/
theorem isLabeled_of_isPick {others : List TableId} (h : IsPick (eligible page corpus) page.length others) :
    IsLabeled page corpus (ofList (page ++ others)).items others := by
  have hothers : ∀ t ∈ others, t ∈ corpus.items ∧ t ∉ page := fun t ht => mem_eligible.1 (h.from_pool ht)
  have hleft : others.removeAll page = others := by
    refine List.filter_eq_self.2 fun t ht => ?_
    simpa using (hothers t ht).2
  have horder : (ofList (page ++ others)).items = page.eraseDups ++ others := by
    rw [items_ofList, List.eraseDups_append, hleft, Distinct.eraseDups_of_nodup h.once]
  refine ⟨horder, h.once, hothers, ?_, fun hsmall t ht hnot => ?_, (ofList (page ++ others)).nodup⟩
  · rw [h.count, length_eligible]
  · rw [← length_eligible] at hsmall
    exact h.all hsmall (mem_eligible.2 ⟨ht, hnot⟩)

/-- the tables of the page are candidates, each once -/
theorem IsLabeled.countP_mem {tables others : List TableId} (h : IsLabeled page corpus tables others) :
    (tables.countP fun t => t ∈ page) = page.eraseDups.length := by
  have hown : (page.eraseDups.countP fun t => t ∈ page) = page.eraseDups.length :=
    List.countP_eq_length.2 fun t ht => decide_eq_true (List.mem_eraseDups.1 ht)
  have hothers : (others.countP fun t => t ∈ page) = 0 :=
    List.countP_eq_zero.2 fun t ht hmem => (h.others_eligible t ht).2 (of_decide_eq_true hmem)
  rw [h.order, List.countP_append, hown, hothers, Nat.add_zero]

theorem IsLabeled.countP_not_mem {tables others : List TableId} (h : IsLabeled page corpus tables others) :
    (tables.countP fun t => t ∉ page) = min page.length (corpus.items.countP fun t => t ∉ page) := by
  have hown : (page.eraseDups.countP fun t => t ∉ page) = 0 :=
    List.countP_eq_zero.2 fun t ht hnot => of_decide_eq_true hnot (List.mem_eraseDups.1 ht)
  have hothers : (others.countP fun t => t ∉ page) = others.length :=
    List.countP_eq_length.2 fun t ht => decide_eq_true (h.others_eligible t ht).2
  rw [h.order, List.countP_append, hown, hothers, Nat.zero_add, h.count]

theorem isPick_distractors (page : List TableId) (corpus : CandidateUniverse) (seed : UInt64) :
    IsPick (eligible page corpus) page.length (distractors page corpus.items seed) :=
  isPick_of_isSample (nodup_eligible page corpus) (isSample_sample ..)

theorem isLabeled_distractors (page : List TableId) (corpus : CandidateUniverse) (seed : UInt64) :
    IsLabeled page corpus (labeled page corpus seed).items (distractors page corpus.items seed) := by
  have h := isLabeled_of_isPick (isPick_distractors page corpus seed)
  rwa [items_ofList, ← items_labeled] at h

end

/-- **A labelled universe** lists the tables of the page at their first occurrences, whether or not the corpus has them,
and then distinct tables of the corpus that are not on the page: as many as the page lists tables, or all there are. No
table is listed twice. This is so for the way in which tables are drawn by a seed, and for every other one that draws at
distinct places; and with a set of the tables that are already listed the same universe is made. -/
theorem labeled_structure (page : List TableId) (corpus : CandidateUniverse) :
    (∀ seed, ∃ others, IsLabeled page corpus (labeled page corpus seed).items others) ∧
    (∀ positions, IsSample (eligible page corpus).length page.length positions →
      ∃ others, IsLabeled page corpus
        (ofList (page ++ positions.filterMap fun i => (eligible page corpus)[i]?)).items others) ∧
    ∀ stored : StoredUniverse, stored.Keeps corpus.items → ∀ seed,
      (StoredUniverse.labeled page stored seed).Keeps (labeled page corpus seed).items := by
  refine ⟨fun seed => ⟨_, isLabeled_distractors page corpus seed⟩, fun positions h => ?_,
    fun stored h seed => StoredUniverse.keeps_labeled h page seed⟩
  exact ⟨_, isLabeled_of_isPick (isPick_of_isSample (nodup_eligible page corpus) h)⟩

/-- A page that lists one table twice and a table that the corpus has too, and three of the four others, drawn from the
last to the first. -/
theorem labeled_structure_of_repeats :
    let page := ["a", "b", "a"]
    let corpus := ofList ["b", "w", "x", "y", "z"]
    IsSample (eligible page corpus).length page.length [3, 2, 0] ∧
      ∃ others, IsLabeled page corpus ["a", "b", "z", "y", "w"] others := by
  intro page corpus
  have hsample : IsSample (eligible page corpus).length page.length [3, 2, 0] :=
    ⟨⟨by decide, by decide⟩, by decide⟩
  exact ⟨hsample, (labeled_structure page corpus).2.1 [3, 2, 0] hsample⟩

/-- **When the others outnumber the page.** The universe has each table of the page once, and as many others as the page
lists tables, or all there are. So the others are as many as the page has tables, or all there are, iff no table is
listed twice or the corpus has no more others; else there are more of them than of the page's own tables. -/
theorem labeled_balance (page : List TableId) (corpus : CandidateUniverse) (seed : UInt64) :
    let tables := (labeled page corpus seed).items
    let eligible := corpus.items.countP fun t => t ∉ page
    (tables.countP fun t => t ∈ page) = page.eraseDups.length ∧
    (tables.countP fun t => t ∉ page) = min page.length eligible ∧
    ((tables.countP fun t => t ∉ page) = min page.eraseDups.length eligible ↔
      page.Nodup ∨ eligible ≤ page.eraseDups.length) ∧
    ((tables.countP fun t => t ∈ page) < (tables.countP fun t => t ∉ page) ↔
      ¬ page.Nodup ∧ page.eraseDups.length < eligible) := by
  intro tables eligible
  have hlabeled := isLabeled_distractors page corpus seed
  have hown : (tables.countP fun t => t ∈ page) = page.eraseDups.length := hlabeled.countP_mem
  have hothers : (tables.countP fun t => t ∉ page) = min page.length eligible := hlabeled.countP_not_mem
  have hle := Distinct.length_eraseDups_le page
  rw [hown, hothers, ← Distinct.length_eraseDups_eq_iff]
  refine ⟨rfl, rfl, ?_, ?_⟩ <;> omega

-- one table of the page, listed twice, and two others
example : (labeled ["a", "a"] (ofList ["a", "x", "y"]) 42).items = ["a", "x", "y"] := by decide +kernel

end RankEval.CandidateUniverse
