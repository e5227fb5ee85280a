/-
What a query's metrics are computed from. The evaluator makes a universe, a map of relevance and aligned scores, each
with an index of its own, and leaves the excluded tables out of the first two separately. Written out, one list of
candidates remains, and every vector is a function of a candidate.

- `prepare_eq`: universe and map of relevance never diverge, and what is aligned is one list.
- `score_eq_evaluate`: the metrics of a query are those of the vectors written out.
-/
import RankEval.Campaign.Evaluator
import RankEval.Proofs.Candidates.FirstSeen
import RankEval.Proofs.Candidates.Peak

namespace RankEval

/-! ## Leaving tables out -/

theorem CandidateUniverse.items_without (u : CandidateUniverse) (excluded : List TableId) :
    (u.without excluded).items = u.items.filter fun t => t ∉ excluded := remaining_eq_filter excluded u.items

namespace RelevanceMap

theorem entries_ofUniverse_without (u : CandidateUniverse) (value : TableId → Float) (excluded : List TableId) :
    ((ofUniverse u value).without excluded).entries =
      (u.items.filter fun t => t ∉ excluded).map fun t => (t, value t) := by
  simp only [without, ofUniverse, List.filter_map]
  congr 1
  refine List.filter_congr fun t _ => ?_
  simp [Std.TreeSet.contains_ofList]

end RelevanceMap

/-! ## Aligning scores -/

namespace PredictedScores

/-- the index by which scores are aligned finds what a search through the list finds -/
theorem getElem?_index (p : PredictedScores) (t : TableId) : (Std.TreeMap.ofList p.ranked)[t]? = p.get? t := by
  have hdistinct : p.ranked.Pairwise fun a b => ¬ compare a.1 b.1 = .eq := by
    refine (List.pairwise_map.1 p.nodup).imp fun hab => ?_
    rwa [Std.LawfulEqOrd.compare_eq_iff_eq]
  cases hget : p.get? t with
  | some s =>
    obtain ⟨before, after, hranked, -⟩ := List.lookup_eq_some_iff.1 hget
    have hmem : (t, s) ∈ p.ranked := by
      rw [hranked]
      exact List.mem_append_right _ List.mem_cons_self
    exact Std.TreeMap.getElem?_ofList_of_mem Std.ReflOrd.compare_self hdistinct hmem
  | none =>
    have hne := List.lookup_eq_none_iff.1 hget
    refine Std.TreeMap.getElem?_ofList_of_contains_eq_false ?_
    rw [List.contains_eq_mem, decide_eq_false_iff_not, List.mem_map]
    rintro ⟨e, he, rfl⟩
    exact bne_iff_ne.1 (hne e he) rfl

/-- every key is answered by a search -/
theorem align_eq_ofOptions (p : PredictedScores) (keys : List TableId) :
    p.align keys = .ofOptions (keys.map p.get?) := by
  simp only [align, getElem?_index]

theorem align_eq (p : PredictedScores) (keys : List TableId) :
    p.align keys = ⟨keys.map fun t => (p.get? t).getD 0.0, keys.map fun t => (p.get? t).isSome⟩ := by
  simp only [align_eq_ofOptions, AlignedScores.ofOptions, List.map_map]
  rfl

end PredictedScores

/-- **Universe and map of relevance never diverge**: whatever is left out, both cover the same tables in one order. -/
theorem AlignedPair.prepare_eq (u : CandidateUniverse) (value : TableId → Float) (p : PredictedScores)
    (excluded : List TableId) :
    prepare u (.ofUniverse u value) p excluded =
      .ok ⟨u.items.filter fun t => t ∉ excluded, (u.items.filter fun t => t ∉ excluded).map value,
        p.align (u.items.filter fun t => t ∉ excluded)⟩ := by
  have hitems := u.items_without excluded
  have hentries := RelevanceMap.entries_ofUniverse_without u value excluded
  have htables : ((RelevanceMap.ofUniverse u value).without excluded).tables =
      u.items.filter fun t => t ∉ excluded := by
    rw [RelevanceMap.tables, hentries, List.map_map]
    exact List.map_id _
  have hvalues : ((RelevanceMap.ofUniverse u value).without excluded).values =
      (u.items.filter fun t => t ∉ excluded).map value := by
    rw [RelevanceMap.values, hentries, List.map_map]
    rfl
  have hlength : (u.without excluded).length = ((RelevanceMap.ofUniverse u value).without excluded).length := by
    rw [CandidateUniverse.length, RelevanceMap.length, hitems, hentries, List.length_map]
  have hjudged : (u.without excluded).items.find? (fun t => !(Std.TreeSet.ofList
      ((RelevanceMap.ofUniverse u value).without excluded).tables).contains t) = none := by
    rw [List.find?_eq_none]
    intro t ht
    rw [htables, ← hitems, Std.TreeSet.contains_ofList, List.contains_iff_mem.2 ht]
    exact Bool.false_ne_true
  unfold prepare
  rw [if_neg (not_not.2 hlength)]
  simp only [hjudged]
  rw [htables, hvalues]

/-! ## The vectors written out -/

namespace Evaluator

/-- the tables that are evaluated over, before any is left out, with repeats -/
def listed (e : Evaluator) (q : Query) (k : Nat) (returned : List (TableId × Float)) : List TableId :=
  match e.settings.evaluation.scope with
  | .corpus => e.corpus.items
  | .labeled => q.tables ++ CandidateUniverse.distractors q.tables e.corpus.items (.ofNat e.settings.evaluation.seed)
  | .output => (returned.map Prod.fst).eraseDups.take k

/-- what the exclusion names -/
def Excluded (e : Evaluator) (q : Query) (t : TableId) : Prop :=
  match e.settings.evaluation.exclusion with
  | .keepAll => False
  | .queryTable => q.selected = some t
  | .queryPageTables => t ∈ q.tables

instance (e : Evaluator) (q : Query) (t : TableId) : Decidable (e.Excluded q t) := by
  unfold Excluded
  cases e.settings.evaluation.exclusion <;> infer_instance

/-- the candidates of a query, each once and in first-seen order -/
def judged (e : Evaluator) (q : Query) (k : Nat) (returned : List (TableId × Float)) : List TableId :=
  (e.listed q k returned).eraseDups.filter fun t => ¬ e.Excluded q t

/-- the scores that are vouched for a table: those of the related titles whose page lists it or, without related titles,
1 for the tables of the query's own page -/
def vouched (e : Evaluator) (q : Query) (related : Option Inputs.Judgments) (t : TableId) : List Float :=
  match related with
  | some titles =>
    (titles.filter fun r => t ∈ e.pages.tablesOf (Inputs.PageTables.addressStart ++ r.1)).map Prod.snd
  | none => if t ∈ q.tables then [1.0] else []

section
variable (e : Evaluator) (q : Query)

theorem items_candidates (k : Nat) (returned : List (TableId × Float)) :
    (e.candidates q k (.ofList returned)).items = (e.listed q k returned).eraseDups := by
  unfold candidates listed
  cases e.settings.evaluation.scope with
  | corpus =>
    -- a universe has no repeats to begin with
    exact (Distinct.eraseDups_of_nodup e.corpus.nodup).symm
  | labeled => exact CandidateUniverse.items_labeled ..
  | output => rw [CandidateUniverse.items_ofList, PredictedScores.tables_ofList]

theorem mem_exclusion_tables (t : TableId) :
    t ∈ e.settings.evaluation.exclusion.tables q.selected q.tables ↔ e.Excluded q t := by
  unfold Excluded
  cases e.settings.evaluation.exclusion with
  | keepAll => exact List.mem_nil_iff t
  | queryTable => exact Option.mem_toList
  | queryPageTables => exact Iff.rfl

/-- the relevance of a table before any is left out -/
theorem getD_peaks_truth (related : Option Inputs.Judgments) (t : TableId) :
    (RelevanceMap.peaks ([e.truth q related].flatMap GroundTruth.certified)).getD t 0.0 =
      peak (e.vouched q related t) := by
  rw [List.flatMap_singleton, GroundTruth.getD_peaks_certified]
  cases related with
  | some titles =>
    rw [truth, Inputs.PageTables.groundTruth_eq, vouched]
    congr 2
    refine List.filter_congr fun r hr => ?_
    rw [decide_eq_decide]
    constructor
    · rintro ⟨grant, hgrant, htitle, ht⟩
      obtain ⟨r', -, rfl⟩ := List.mem_map.1 hgrant
      exact htitle ▸ ht
    · intro ht
      exact ⟨_, List.mem_map_of_mem hr, rfl, ht⟩
  | none =>
    rw [truth, vouched]
    by_cases ht : t ∈ q.tables <;> simp [GroundTruth.coMembership, GroundTruth.withKey, GroundTruth.empty, ht]

end

/-- **A query's metrics are those of the vectors written out.** Whatever the mode, the exclusion, the inputs and the
engine's output, scoring a query fails only with an error of the metrics; its result is that of the metrics at the same
cutoff over the candidates, where the relevance of a candidate is the greatest of 0 and the scores vouched for it, and
its score is the first that the engine returned for it, or 0 and no score if there is none. -/
theorem score_eq_evaluate (e : Evaluator) (q : Query) (k : Nat) (related : Option Inputs.Judgments)
    (returned : List (TableId × Float)) :
    e.score q k related (.ofList returned) =
        (Metric.evaluate e.settings.evaluation.metrics
          ((e.judged q k returned).map fun t => peak (e.vouched q related t))
          ⟨(e.judged q k returned).map fun t => (returned.lookup t).getD 0.0,
            (e.judged q k returned).map fun t => (returned.lookup t).isSome⟩ k).mapError .metric ∧
      (∀ t, IsPeak (e.vouched q related t) (peak (e.vouched q related t))) ∧
      ∀ fault, e.score q k related (.ofList returned) ≠ .error (.settings fault) := by
  have hscore : e.score q k related (.ofList returned) =
      (Metric.evaluate e.settings.evaluation.metrics
        ((e.judged q k returned).map fun t => peak (e.vouched q related t))
        ⟨(e.judged q k returned).map fun t => (returned.lookup t).getD 0.0,
          (e.judged q k returned).map fun t => (returned.lookup t).isSome⟩ k).mapError .metric := by
    have hjudged : ((e.candidates q k (.ofList returned)).items.filter fun t =>
        t ∉ e.settings.evaluation.exclusion.tables q.selected q.tables) = e.judged q k returned := by
      rw [items_candidates, judged]
      exact List.filter_congr fun t _ => decide_eq_decide.2 (not_congr (mem_exclusion_tables e q t))
    rw [score, pair, RelevanceMap.build, AlignedPair.prepare_eq, hjudged, PredictedScores.align_eq]
    simp only [getD_peaks_truth, PredictedScores.get?_ofList]
  refine ⟨hscore, fun t => peak_isPeak _, fun fault h => ?_⟩
  rw [hscore] at h
  cases hm : Metric.evaluate e.settings.evaluation.metrics
      ((e.judged q k returned).map fun t => peak (e.vouched q related t))
      ⟨(e.judged q k returned).map fun t => (returned.lookup t).getD 0.0,
        (e.judged q k returned).map fun t => (returned.lookup t).isSome⟩ k <;> rw [hm] at h <;> cases h

end Evaluator

end RankEval
