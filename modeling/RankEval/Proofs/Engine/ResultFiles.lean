/-
Where results lie. A file of results is found below the directory of results through a number of names. The names say
which variant the results are of, what it was run with and, unless it is a keyword search, for which query; they say
nothing of a vote threshold that the variant does not use.

- `parts_eq_iff`: which keys and queries have the same names.
- `vote_of_mem_keys`: in the keys of a run, a threshold that is not used is always the same.
- `resultPath_eq_iff`: results of different keys never lie in one file.
-/
import RankEval.Campaign.Run
import RankEval.Inputs.Query
import RankEval.Proofs.Decimal.Digits
import RankEval.Proofs.Engine.Order
import RankEval.Proofs.Files.Components

namespace RankEval

open Decimal (natText natText_inj toList_natText isDigit_of_mem_toDigits)
open RankEval.Path (IsPlain isPlain_of_mem components components_joinAll)

/-! ## Names -/

theorem Representation.name_inj {a b : Representation} : a.name = b.name ↔ a = b := by
  cases a <;> cases b <;> decide

theorem QueryField.name_inj {a b : QueryField} : a.name = b.name ↔ a = b := by
  cases a <;> cases b <;> decide

theorem slash_not_mem_natText (n : ℕ) : '/' ∉ (natText n).toList := by
  rw [toList_natText]
  exact Decimal.not_mem_toDigits (by decide) n

/-- whatever stands around a number, but for slashes, makes a plain name with it -/
theorem isPlain_around (before after : String) (hbefore : '/' ∉ before.toList) (hafter : '/' ∉ after.toList) (n : ℕ) :
    IsPlain (before ++ natText n ++ after) := by
  obtain ⟨c, cs, hdigits⟩ := List.exists_cons_of_ne_nil (@Nat.toDigits_ne_nil n 10)
  have hc : c ∈ (natText n).toList := by
    rw [toList_natText, hdigits]
    exact List.mem_cons_self
  have hdigit : c.isDigit = true := isDigit_of_mem_toDigits c (toList_natText n ▸ hc)
  refine isPlain_of_mem (c := c) ?_ ?_ ?_
  · simp [hc]
  · rintro rfl
    exact absurd hdigit (by decide)
  · simp [hbefore, hafter, slash_not_mem_natText n]

theorem isPlain_append_natText (word : String) (h : '/' ∉ word.toList) (n : ℕ) : IsPlain (word ++ natText n) := by
  have hplain := isPlain_around word "" h (by decide) n
  rwa [String.append_empty] at hplain

theorem isPlain_natText_append (word : String) (h : '/' ∉ word.toList) (n : ℕ) : IsPlain (natText n ++ word) := by
  have hplain := isPlain_around "" word (by decide) h n
  rwa [String.empty_append] at hplain

theorem isPlain_natText (n : ℕ) : IsPlain (natText n) := by
  have hplain := isPlain_natText_append "" (by decide) n
  rwa [String.append_empty] at hplain

instance : DecidablePred IsPlain := fun _ => inferInstanceAs (Decidable (_ ∧ _))

theorem Representation.isPlain_name (mode : Representation) : IsPlain mode.name := by cases mode <;> decide

theorem QueryField.isPlain_name (field : QueryField) : IsPlain field.name := by cases field <;> decide

namespace EvaluationKey

/-- the name of the directory in which every table is compared -/
def comparisonName : Representation → String
  | .types => "baseline_jaccard"
  | .embeddings => "baseline_cosine"

theorem comparisonName_inj {a b : Representation} : comparisonName a = comparisonName b ↔ a = b := by
  cases a <;> cases b <;> decide

/-- the directories of a variant, by its kind -/
theorem variantParts_eq (c : Configuration) (tuples k vote : ℕ) :
    variantParts ⟨c, tuples, k, vote⟩ = match c with
      | .typesLsh v b => ("vote_" ++ natText vote) :: hashParts .types v b
      | .embeddingsLsh v b => ("vote_" ++ natText vote) :: hashParts .embeddings v b
      | .columnAggregated mode v b => ("vote_" ++ natText vote) :: "aggregation" :: hashParts mode v b
      | .baseline mode => ["baseline", comparisonName mode]
      | .bm25Prefilter mode => ["baseline", "baseline_bm25_prefiltering", mode.name]
      | .bm25 _ => ["baseline", "bm25"] := by
  cases c with
  | baseline mode => cases mode <;> rfl
  | _ => rfl

/-- the names from the directory of results to a file -/
def parts (key : EvaluationKey) (query : String) : List FilePath :=
  key.variantParts ++ [natText key.k, natText key.tuples ++ "-tuple"] ++ match key.configuration with
    | .bm25 field => [field.name, "content.txt"]
    | _ => ["search_output", query, "filenameToScore.json"]

/-- whether two keys, each with a query, have their results in one file -/
def SameResults (a b : EvaluationKey) (p q : ℕ) : Prop :=
  a.configuration = b.configuration ∧ a.tuples = b.tuples ∧ a.k = b.k ∧
    (a.configuration.usesVote = true → a.vote = b.vote) ∧ ((∀ field, a.configuration ≠ .bm25 field) → p = q)

/-- **Which results have the same names.** Results of different variants differ in how many names there are, or in the
first two of them. -/
theorem parts_eq_iff (a b : EvaluationKey) (p q : ℕ) :
    a.parts (queryName p) = b.parts (queryName q) ↔ a.SameResults b p q := by
  obtain ⟨ca, ta, ka, va⟩ := a
  obtain ⟨cb, tb, kb, vb⟩ := b
  cases ca <;> cases cb <;>
    simp [parts, variantParts_eq, hashParts, SameResults, queryName, natText_inj,
      Representation.name_inj, QueryField.name_inj, comparisonName_inj, Configuration.usesVote]
  all_goals tauto

theorem isPlain_of_mem_hashParts (mode : Representation) (v b : ℕ) : ∀ part ∈ hashParts mode v b, IsPlain part := by
  have hvectors : IsPlain ("vectors_" ++ natText v) := isPlain_append_natText _ (by decide) v
  have hband : IsPlain ("bandsize_" ++ natText b) := isPlain_append_natText _ (by decide) b
  simp [hashParts, mode.isPlain_name, hvectors, hband]

theorem isPlain_of_mem_variantParts (key : EvaluationKey) : ∀ part ∈ key.variantParts, IsPlain part := by
  obtain ⟨c, tuples, k, vote⟩ := key
  have hvote : IsPlain ("vote_" ++ natText vote) := isPlain_append_natText _ (by decide) vote
  rw [variantParts_eq]
  cases c with
  | typesLsh v b => exact List.forall_mem_cons.2 ⟨hvote, isPlain_of_mem_hashParts .types v b⟩
  | embeddingsLsh v b => exact List.forall_mem_cons.2 ⟨hvote, isPlain_of_mem_hashParts .embeddings v b⟩
  | columnAggregated mode v b =>
    exact List.forall_mem_cons.2 ⟨hvote, List.forall_mem_cons.2 ⟨by decide, isPlain_of_mem_hashParts mode v b⟩⟩
  | baseline mode =>
    have hplain : IsPlain "baseline" ∧ IsPlain (comparisonName mode) := by cases mode <;> decide
    simpa using hplain
  | bm25Prefilter mode =>
    have hplain : IsPlain "baseline" ∧ IsPlain "baseline_bm25_prefiltering" := by decide
    simpa [mode.isPlain_name] using hplain
  | bm25 field =>
    have hplain : IsPlain "baseline" ∧ IsPlain "bm25" := by decide
    simpa using hplain

/-- every name is one component of the path -/
theorem isPlain_of_mem_parts (key : EvaluationKey) (page : ℕ) : ∀ part ∈ key.parts (queryName page), IsPlain part := by
  have htuples : IsPlain (natText key.tuples ++ "-tuple") := isPlain_natText_append _ (by decide) key.tuples
  have hquery : IsPlain (queryName page) := isPlain_append_natText _ (by decide) page
  rw [parts, List.forall_mem_append, List.forall_mem_append]
  refine ⟨⟨key.isPlain_of_mem_variantParts, by simp [htuples, isPlain_natText]⟩, ?_⟩
  have houtput : IsPlain "search_output" ∧ IsPlain "filenameToScore.json" ∧ IsPlain "content.txt" := by decide
  split
  · next field _ => simp [field.isPlain_name, houtput]
  · simp [hquery, houtput]

/-- the components of a file of results -/
theorem components_resultPath (key : EvaluationKey) (results : FilePath) (page : ℕ) :
    components (key.resultPath results (queryName page)) = components results ++ key.parts (queryName page) :=
  components_joinAll results (key.isPlain_of_mem_parts page)

/-! ## The keys of a run -/

theorem mem_keys_iff (s : Settings) (key : EvaluationKey) :
    key ∈ s.keys ↔ ∃ variant ∈ s.variants, key ∈ s.evaluation.keysOf variant := by
  rw [Settings.keys, Std.TreeSet.mem_toList, Std.TreeSet.mem_ofList, List.contains_iff_mem, List.mem_flatMap]

/-- a threshold that is not used is 0 -/
theorem vote_of_mem_keys {s : Settings} {key : EvaluationKey} (h : key ∈ s.keys)
    (hvote : key.configuration.usesVote = false) : key.vote = 0 := by
  obtain ⟨variant, -, h⟩ := (mem_keys_iff s key).1 h
  obtain ⟨tuples, -, h⟩ := List.mem_flatMap.1 h
  obtain ⟨k, -, h⟩ := List.mem_flatMap.1 h
  obtain ⟨vote, hmem, rfl⟩ := List.mem_map.1 h
  have hnone : s.evaluation.votesOf variant = [0] := by
    rw [Settings.Evaluation.votesOf, if_neg]
    exact Bool.not_eq_true _ ▸ hvote
  rw [hnone] at hmem
  exact List.mem_singleton.1 hmem

/-- in the keys of a run every part of a key shows in the place of its results -/
theorem not_sameResults_of_mem_keys {s : Settings} {a b : EvaluationKey} (ha : a ∈ s.keys) (hb : b ∈ s.keys)
    (hne : a ≠ b) (p q : ℕ) : ¬ a.SameResults b p q := by
  rintro ⟨hc, ht, hk, hvote, -⟩
  have hv : a.vote = b.vote := by
    cases huses : a.configuration.usesVote with
    | true => exact hvote huses
    | false => rw [vote_of_mem_keys ha huses, vote_of_mem_keys hb (hc ▸ huses)]
  obtain ⟨ca, ta, ka, va⟩ := a
  obtain ⟨cb, tb, kb, vb⟩ := b
  dsimp only at hc ht hk hv
  subst hc ht hk hv
  exact hne rfl

/-- **Results never share a file.** Two results are found under the same path, whether paths are compared by their text
or by their components, iff variant, tuples and cutoff are the same, the threshold too if the variant uses it, and the
query too unless the variant writes one file for all. So different keys of a run never read the same file. -/
theorem resultPath_eq_iff :
    (∀ (results : FilePath) (a b : EvaluationKey) (p q : ℕ),
      (a.resultPath results (queryName p) = b.resultPath results (queryName q) ↔ a.SameResults b p q) ∧
      (components (a.resultPath results (queryName p)) = components (b.resultPath results (queryName q)) ↔
        a.SameResults b p q)) ∧
    ∀ s : Settings, ∀ a ∈ s.keys, ∀ b ∈ s.keys, a ≠ b → ∀ q q' : Query,
      components (a.resultPath s.places.results q.name) ≠ components (b.resultPath s.places.results q'.name) := by
  have hcomponents : ∀ (results : FilePath) (a b : EvaluationKey) (p q : ℕ),
      components (a.resultPath results (queryName p)) = components (b.resultPath results (queryName q)) ↔
        a.SameResults b p q := by
    intro results a b p q
    rw [components_resultPath, components_resultPath, List.append_cancel_left_eq, parts_eq_iff]
  refine ⟨fun results a b p q => ⟨⟨fun h => ?_, fun h => ?_⟩, hcomponents results a b p q⟩, ?_⟩
  · exact (hcomponents results a b p q).1 (congrArg components h)
  · exact congrArg (Path.joinAll results) ((parts_eq_iff a b p q).2 h)
  · intro s a ha b hb hne q q' heq
    exact not_sameResults_of_mem_keys ha hb hne q.page q'.page ((hcomponents _ a b _ _).1 heq)

/-- one variant, run with two thresholds -/
def twoVotes : Settings where
  places := { results := "results" }
  evaluation := { cutoffs := [10], votes := [1, 2] }
  variants := [.typesLsh 30 10]

/-- The results of one query for two thresholds. -/
theorem resultPath_of_two_votes :
    twoVotes.keys = [⟨.typesLsh 30 10, 1, 10, 1⟩, ⟨.typesLsh 30 10, 1, 10, 2⟩] ∧
    resultPath ⟨.typesLsh 30 10, 1, 10, 1⟩ "results" "wikipage_7" =
      "results/vote_1/types/vectors_30/bandsize_10/10/1-tuple/search_output/wikipage_7/filenameToScore.json" ∧
    ∀ q : Query,
      components (resultPath ⟨.typesLsh 30 10, 1, 10, 1⟩ "results" q.name) ≠
        components (resultPath ⟨.typesLsh 30 10, 1, 10, 2⟩ "results" q.name) := by
  have hkeys : twoVotes.keys = [⟨.typesLsh 30 10, 1, 10, 1⟩, ⟨.typesLsh 30 10, 1, 10, 2⟩] := by decide +kernel
  refine ⟨hkeys, by decide +kernel, fun q => ?_⟩
  exact resultPath_eq_iff.2 twoVotes ⟨.typesLsh 30 10, 1, 10, 1⟩ (by simp [hkeys])
    ⟨.typesLsh 30 10, 1, 10, 2⟩ (by simp [hkeys]) (by decide) q q

end EvaluationKey

end RankEval
