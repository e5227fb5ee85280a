/-
What the command that scores one output of the engine evaluates, and what it shows. Without a directory of tables the
candidates are those that the files name, and each of them that is not excluded is a candidate once: first the judged
ones in the order of their bytes, then those that only the engine returned, in its order. So every judgment and every
score counts, and relevance and scores cannot fail to fit together.

- `judgments_ascending`: judged tables are in order.
- `judgedPair_eq`: what is evaluated.
- `Covers`: that it is all of the files, less what is excluded.
- `ending_cutoffs`: the lines of the cutoffs.
- `query_drops_nothing`: the whole command.
- `query_drops_nothing_of_overlap`: files that overlap, a table that is excluded, a cutoff with metrics and one that
  fails.
-/
import RankEval.Proofs.Candidates.Coverage
import RankEval.Proofs.CommandLine.RunCommand
import RankEval.Proofs.Inputs.Readers
import RankEval.Proofs.Inputs.TitleJoin
import RankEval.Proofs.Metric.Cutoffs
import RankEval.Proofs.Metric.Evaluation
import RankEval.Proofs.Text.ByteOrder

namespace RankEval.CommandLine

open Decimal (natText fixed)
open Inputs (Judgments)

/-! ## Judgments -/

/-- what is read from an object is in the order of its keys -/
theorem exists_toList_of_mapOf? {α : Type} {read : Json.Place → Option α} {p : Json.Place}
    {entries : List (String × α)} (h : Json.mapOf? read p = some entries) :
    ∃ index : Std.TreeMap String α, entries = index.toList := by
  unfold Json.mapOf? at h
  simp only [Option.bind_eq_bind, Option.bind_eq_some_iff] at h
  obtain ⟨members, -, read, -, h⟩ := h
  exact ⟨_, (Option.some.inj h).symm⟩

/-- judged tables are in order -/
theorem judgments_ascending {t : FileTree} {path : FilePath} {judgments : Judgments}
    (h : (Inputs.judgments path).outcome t = .ok judgments) :
    (judgments.map Prod.fst).Pairwise fun a b => Text.bytes a < Text.bytes b := by
  rw [Inputs.judgments, Inputs.outcome_jsonFile] at h
  split at h
  · next text _ =>
    cases hread : Json.decode? (Json.mapOf? Document.float?) text with
    | none =>
      rw [hread] at h
      cases h
    | some entries =>
      rw [hread] at h
      cases h
      obtain ⟨value, -, hmap⟩ := Option.bind_eq_some_iff.1 hread
      obtain ⟨index, rfl⟩ := exists_toList_of_mapOf? hmap
      refine List.pairwise_map.2 (Std.TreeMap.ordered_keys_toList.imp fun {a b} hlt => ?_)
      exact (Text.bytes_lt_iff a.1 b.1).2 (compareOfLessAndEq_eq_lt.1 hlt)
  · cases h

/-- the relevance of a table: its judgment, if that is above 0 -/
def judgedRelevance (judgments : Judgments) (table : TableId) : Float :=
  match judgments.lookup table with
  | some score => if 0.0 < score then score else 0.0
  | none => 0.0

theorem judgedTruth_eq (judgments : Judgments) :
    judgedTruth judgments = ⟨judgments, judgments.map fun e => (e.1, [e.1])⟩ :=
  GroundTruth.foldl_withKey (fun table => [table]) judgments .empty

section
variable {judgments : Judgments} (hnodup : (judgments.map Prod.fst).Nodup)
include hnodup

/-- every judged table vouches for itself and for no other table -/
theorem getD_peaks_judgedTruth (table : TableId) :
    (RelevanceMap.peaks ([judgedTruth judgments].flatMap GroundTruth.certified)).getD table 0.0 =
      judgedRelevance judgments table := by
  have hown : (judgments.filter fun e => ∃ grant ∈ judgments.map fun e => (e.1, [e.1]),
      grant.1 = e.1 ∧ table ∈ grant.2) = judgments.filter fun e => e.1 = table := by
    refine List.filter_congr fun e he => ?_
    rw [decide_eq_decide]
    constructor
    · rintro ⟨grant, hgrant, hkey, htable⟩
      obtain ⟨e', -, rfl⟩ := List.mem_map.1 hgrant
      rw [List.mem_singleton.1 htable]
      exact hkey.symm
    · rintro rfl
      exact ⟨_, List.mem_map_of_mem he, rfl, List.mem_singleton_self _⟩
  rw [List.flatMap_singleton, GroundTruth.getD_peaks_certified, judgedTruth_eq]
  dsimp only
  rw [hown, judgedRelevance, ← RelevanceMap.foldl_raise_eq_peak]
  cases hlookup : judgments.lookup table with
  | none =>
    have hnone : (judgments.filter fun e => e.1 = table) = [] := by
      rw [List.filter_eq_nil_iff]
      intro e he heq
      have hne := List.lookup_eq_none_iff.1 hlookup e he
      simp [of_decide_eq_true heq] at hne
    rw [hnone]
    rfl
  | some score =>
    have hmem : (table, score) ∈ judgments := (Distinct.lookup_eq_some_iff hnodup).1 hlookup
    rw [filter_key_eq_singleton hnodup hmem]
    rfl

theorem judgedRelevance_of_mem {e : String × Float} (he : e ∈ judgments) :
    judgedRelevance judgments e.1 = if 0.0 < e.2 then e.2 else 0.0 := by
  have hlookup : judgments.lookup e.1 = some e.2 := (Distinct.lookup_eq_some_iff hnodup).2 he
  rw [judgedRelevance, hlookup]

end

theorem judgedRelevance_of_not_mem {judgments : Judgments} {table : TableId} (h : table ∉ judgments.map Prod.fst) :
    judgedRelevance judgments table = 0.0 := by
  have hlookup : judgments.lookup table = none := by
    rw [List.lookup_eq_none_iff]
    intro e he
    rw [bne_iff_ne]
    rintro rfl
    exact h (List.mem_map_of_mem he)
  rw [judgedRelevance, hlookup]

/-! ## Candidates -/

/-- the judged tables, then those that only the engine returned -/
def named (judgments : Judgments) (predicted : PredictedScores) : List TableId :=
  judgments.map Prod.fst ++ predicted.tables.filter fun table => table ∉ judgments.map Prod.fst

/-- What is evaluated is all of the files, less what is excluded: each table that is judged or scored is a candidate
once, with its judgment and the engine's score. -/
structure Covers (judgments : Judgments) (predicted : PredictedScores) (excluded : List TableId) (pair : AlignedPair) :
    Prop where
  ascending : (judgments.map Prod.fst).Pairwise fun a b => Text.bytes a < Text.bytes b
  tables : pair.tables = (named judgments predicted).filter fun table => table ∉ excluded
  nodup : pair.tables.Nodup
  mem_iff : ∀ table, table ∈ pair.tables ↔
    (table ∈ judgments.map Prod.fst ∨ table ∈ predicted.tables) ∧ table ∉ excluded
  relevance : pair.relevance = pair.tables.map (judgedRelevance judgments)
  scores : pair.scores = ⟨pair.tables.map fun table => (predicted.get? table).getD 0.0,
    pair.tables.map fun table => (predicted.get? table).isSome⟩

section
variable {judgments : Judgments} (hnodup : (judgments.map Prod.fst).Nodup) (predicted : PredictedScores)
include hnodup

theorem items_judgedAndScored : (judgedAndScored judgments predicted).items = named judgments predicted := by
  have hothers : (predicted.tables.removeAll (judgments.map Prod.fst)).Nodup := predicted.nodup.filter _
  rw [judgedAndScored, CandidateUniverse.items_ofList, List.eraseDups_append, Distinct.eraseDups_of_nodup hnodup,
    Distinct.eraseDups_of_nodup hothers, named, List.removeAll]
  simp

theorem judgedPair_eq (excluded : List TableId) :
    judgedPair (judgedAndScored judgments predicted) judgments predicted excluded =
      .ok ⟨(named judgments predicted).filter fun table => table ∉ excluded,
        ((named judgments predicted).filter fun table => table ∉ excluded).map (judgedRelevance judgments),
        predicted.align ((named judgments predicted).filter fun table => table ∉ excluded)⟩ := by
  have hvalue : (fun table => (RelevanceMap.peaks
      ([judgedTruth judgments].flatMap GroundTruth.certified)).getD table 0.0) = judgedRelevance judgments :=
    funext (getD_peaks_judgedTruth hnodup)
  rw [judgedPair, RelevanceMap.build, hvalue, AlignedPair.prepare_eq, items_judgedAndScored hnodup]

/-- as many candidates are relevant as tables are judged above 0 and not excluded -/
theorem countP_relevant (excluded : List TableId) :
    (((named judgments predicted).filter fun table => table ∉ excluded).map (judgedRelevance judgments)).countP
      (fun r => decide (0.0 < r)) = judgments.countP fun e => e.1 ∉ excluded ∧ 0.0 < e.2 := by
  have hzero : ¬ (0.0 : Float) < 0.0 := fun h => Double.not_lt_of_lt h h
  have hothers : (predicted.tables.filter fun table => table ∉ judgments.map Prod.fst).countP (fun table =>
      decide (0.0 < judgedRelevance judgments table) && decide (table ∉ excluded)) = 0 := by
    rw [List.countP_eq_zero]
    intro table htable
    have hunjudged : table ∉ judgments.map Prod.fst := of_decide_eq_true (List.mem_filter.1 htable).2
    rw [judgedRelevance_of_not_mem hunjudged]
    simp [hzero]
  rw [List.countP_map, List.countP_filter, named, List.countP_append, List.countP_map]
  simp only [Function.comp_def]
  rw [hothers, Nat.add_zero]
  refine List.countP_congr fun e he => ?_
  rw [judgedRelevance_of_mem hnodup he, ← Bool.decide_and, decide_eq_true_iff, decide_eq_true_iff, and_comm]
  refine and_congr_right fun _ => ?_
  split
  · rfl
  · next hscore => exact iff_of_false hzero hscore

/-- as many candidates are scored as tables are returned and not excluded -/
theorem scoredCount_align (excluded : List TableId) :
    (predicted.align ((named judgments predicted).filter fun table => table ∉ excluded)).scoredCount =
      predicted.tables.countP fun table => table ∉ excluded := by
  have hnamed : (named judgments predicted).Nodup :=
    items_judgedAndScored hnodup predicted ▸ (judgedAndScored judgments predicted).nodup
  -- both counts are lengths of lists without repeats that have the same members
  have hperm : (((named judgments predicted).filter fun table => table ∉ excluded).filter fun table =>
      (predicted.get? table).isSome).Perm (predicted.tables.filter fun table => table ∉ excluded) := by
    have hreturned : predicted.tables.Nodup := predicted.nodup
    rw [List.perm_ext_iff_of_nodup ((hnamed.filter _).filter _) (hreturned.filter _)]
    intro table
    simp only [List.mem_filter, named, List.mem_append, predicted.isSome_get?_iff, decide_eq_true_eq]
    tauto
  rw [PredictedScores.align_eq, AlignedScores.scoredCount, List.countP_map, List.countP_eq_length_filter,
    List.countP_eq_length_filter]
  exact hperm.length_eq

theorem covers_of_ascending (hascending : (judgments.map Prod.fst).Pairwise fun a b => Text.bytes a < Text.bytes b)
    {excluded : List TableId} {pair : AlignedPair}
    (h : judgedPair (judgedAndScored judgments predicted) judgments predicted excluded = .ok pair) :
    Covers judgments predicted excluded pair := by
  rw [judgedPair_eq hnodup] at h
  cases h
  constructor
  case ascending => exact hascending
  case tables => rfl
  case nodup =>
    rw [← items_judgedAndScored hnodup]
    exact (judgedAndScored judgments predicted).nodup.filter _
  case mem_iff =>
    intro table
    rw [List.mem_filter, decide_eq_true_iff, named, List.mem_append, List.mem_filter, decide_eq_true_iff]
    tauto
  case relevance => rfl
  case scores => exact predicted.align_eq _

end

/-! ## Cutoffs -/

/-- What is found out about some cutoffs: the metrics of each, up to the first one whose metrics fail. -/
inductive Evaluated (options : Metric.Options) (pair : AlignedPair) :
    List Nat → List Metric.Record → Option (Nat × Metric.Error) → Prop
  | done : Evaluated options pair [] [] none
  | record {k : Nat} {r : Metric.Record} {ks : List Nat} {rs : List Metric.Record}
    {failed : Option (Nat × Metric.Error)} (hr : Metric.evaluate options pair.relevance pair.scores k = .ok r)
    (h : Evaluated options pair ks rs failed) : Evaluated options pair (k :: ks) (r :: rs) failed
  | failed {k : Nat} {e : Metric.Error} (ks : List Nat)
    (he : Metric.evaluate options pair.relevance pair.scores k = .error e) :
    Evaluated options pair (k :: ks) [] (some (k, e))

theorem exists_evaluated (options : Metric.Options) (pair : AlignedPair) (ks : List Nat) :
    ∃ records failed, Evaluated options pair ks records failed := by
  induction ks with
  | nil => exact ⟨[], none, .done⟩
  | cons k ks ih =>
    cases hk : Metric.evaluate options pair.relevance pair.scores k with
    | error e => exact ⟨[], some (k, e), .failed ks hk⟩
    | ok r =>
      obtain ⟨records, failed, h⟩ := ih
      exact ⟨r :: records, failed, .record hk h⟩

/-- what is shown for a cutoff: a line with the fields of its record, the doubles with four decimal places and a dash in
the place of an area that there is not -/
def shownFor (r : Metric.Record) : Shown :=
  .text ("k=" ++ Report.padRight 5 (natText r.k) ++ " ndcg=" ++ fixed 4 r.ndcg ++ "  P@k=" ++ fixed 4 r.precisionAtK ++
    "  R@k=" ++ fixed 4 r.recallAtK ++ "  auc=" ++ (match r.auc with | some area => fixed 4 area | none => "-") ++
    "  relevant@k=" ++ natText r.relevant ++ "\n")

theorem metricsLine_eq (r : Metric.Record) : .text (metricsLine r ++ "\n") = shownFor r := by
  unfold metricsLine shownFor
  cases r.auc <;> rfl

/-- the complaint about a cutoff whose metrics fail -/
def cutoffComplaint (failed : Nat × Metric.Error) : Complaint :=
  ⟨"Failed to compute metrics at k=" ++ natText failed.1, [failed.2.message]⟩

/-- **The lines of the cutoffs**, in the order in which they are given, up to the first one whose metrics fail. -/
theorem ending_cutoffs (t : FileTree) {options : Metric.Options} {pair : AlignedPair} {ks : List Nat}
    {records : List Metric.Record} {failed : Option (Nat × Metric.Error)}
    (h : Evaluated options pair ks records failed) : ∀ shown,
      Script.ending t (ks.forM (cutoffScript options pair)) shown = (failed.elim (.ok ()) fun failed => .error (cutoffComplaint failed), shown ++ records.map shownFor) := by
  induction h with
  | done =>
    intro shown
    rw [List.map_nil, List.append_nil]
    rfl
  | record hr h ih =>
    intro shown
    rw [List.forM, Script.ending_bind, cutoffScript, hr]
    dsimp only
    rw [Script.ending_line]
    dsimp only
    rw [ih, List.map_cons, ← metricsLine_eq, ← List.append_cons]
  | failed ks he =>
    intro shown
    rw [List.forM, Script.ending_bind, cutoffScript, he, List.map_nil, List.append_nil]
    rfl

/-! ## The command -/

/-- the metrics that a query asks for -/
def QueryOptions.metrics (o : QueryOptions) : Metric.Options := { auc := if o.omitAuc then .omit else .strict }

/-- what is shown before the cutoffs: how many candidates there are, how many tables are judged above 0 and how many the
engine returned, those that are excluded left out -/
def heading (o : QueryOptions) (judgments : Judgments) (predicted : PredictedScores) (pair : AlignedPair) :
    List Shown :=
  [.text ("Candidates: " ++ natText pair.tables.length ++ " (" ++
      natText (judgments.countP fun e => e.1 ∉ o.excluded ∧ 0.0 < e.2) ++ " relevant, " ++
      natText (predicted.tables.countP fun table => table ∉ o.excluded) ++ " scored)\n"),
    .text (Report.rule pageWidth ++ "\n")]

section
variable {t : FileTree} {o : QueryOptions} {judgments : Judgments} {predicted : PredictedScores}

theorem candidatesLine_eq (hnodup : (judgments.map Prod.fst).Nodup) {pair : AlignedPair}
    (h : judgedPair (judgedAndScored judgments predicted) judgments predicted o.excluded = .ok pair) :
    [.text (candidatesLine pair ++ "\n"), .text (Report.rule pageWidth ++ "\n")] =
      heading o judgments predicted pair := by
  have hline : candidatesLine pair = "Candidates: " ++ natText pair.tables.length ++ " (" ++
      natText (pair.relevance.countP fun r => decide (0.0 < r)) ++ " relevant, " ++
      natText pair.scores.scoredCount ++ " scored)" := rfl
  rw [judgedPair_eq hnodup] at h
  cases h
  rw [hline, countP_relevant hnodup, scoredCount_align hnodup, heading, String.append_assoc]
  rfl

/-- how the command ends once both files are loaded -/
theorem ending_queryScript (htables : o.tables = none)
    (hjudgments : (Inputs.judgments o.judgments).outcome t = .ok judgments)
    (hscores : (Inputs.scores o.scores).outcome t = .ok (some predicted)) {pair : AlignedPair}
    (hpair : judgedPair (judgedAndScored judgments predicted) judgments predicted o.excluded = .ok pair)
    {records : List Metric.Record} {failed : Option (Nat × Metric.Error)}
    (h : Evaluated o.metrics pair o.cutoffs records failed) :
    Script.ending t (queryScript o) [] =
      (failed.elim (.ok none) fun failed => .error (cutoffComplaint failed),
        [.text (candidatesLine pair ++ "\n"), .text (Report.rule pageWidth ++ "\n")] ++ records.map shownFor) := by
  unfold queryScript
  rw [Script.ending_reading_bind, hjudgments]
  dsimp only
  rw [Script.ending_reading_bind, hscores]
  dsimp only
  rw [htables]
  dsimp only
  rw [Script.ending_bind, Script.ending_pure]
  dsimp only
  rw [hpair]
  dsimp only
  rw [Script.ending_bind, Script.ending_line]
  dsimp only
  rw [Script.ending_bind, Script.ending_line]
  dsimp only
  rw [Script.ending_bind]
  have hcutoffs := ending_cutoffs t h
  unfold QueryOptions.metrics at hcutoffs
  rw [hcutoffs]
  cases failed <;> rfl

end

/-- **A query drops no judgment and no score.** If no directory of tables is given and both files load, relevance and
scores fit together, whatever tables are judged, returned and excluded. They cover all that is in the files, less what
is excluded. The command counts the tables that are judged above 0 and those that were returned, then shows the metrics
of one cutoff after the other, in the order in which they are given. At the first one whose metrics fail it complains
and exits with 1; otherwise it exits with 0. It changes nothing. -/
theorem query_drops_nothing (t : FileTree) (o : QueryOptions) (judgments : Judgments) (predicted : PredictedScores)
    (htables : o.tables = none) (hjudgments : (Inputs.judgments o.judgments).outcome t = .ok judgments)
    (hscores : (Inputs.scores o.scores).outcome t = .ok (some predicted)) :
    ∃ pair records failed,
      judgedPair (judgedAndScored judgments predicted) judgments predicted o.excluded = .ok pair ∧
      Covers judgments predicted o.excluded pair ∧
      Evaluated o.metrics pair o.cutoffs records failed ∧
      (queryScript o).perform t =
        (t, ⟨heading o judgments predicted pair ++ records.map shownFor, failed.map cutoffComplaint⟩) ∧
      ∀ env args, Command.parse args = .ok (.query o) →
        program env args t = (t, ⟨heading o judgments predicted pair ++ records.map shownFor,
          failed.map cutoffComplaint, if failed.isSome then 1 else 0⟩) := by
  have hascending := judgments_ascending hjudgments
  have hnodup : (judgments.map Prod.fst).Nodup := hascending.imp fun {a b} hlt heq => by
    rw [heq] at hlt
    exact List.lt_irrefl _ hlt
  have hpair := judgedPair_eq hnodup predicted o.excluded
  generalize (⟨_, _, _⟩ : AlignedPair) = pair at hpair
  obtain ⟨records, failed, hevaluated⟩ := exists_evaluated o.metrics pair o.cutoffs
  have hperform : (queryScript o).perform t =
      (t, ⟨heading o judgments predicted pair ++ records.map shownFor, failed.map cutoffComplaint⟩) := by
    rw [perform_eq, ending_queryScript htables hjudgments hscores hpair hevaluated, candidatesLine_eq hnodup hpair]
    cases failed <;> rfl
  refine ⟨pair, records, failed, hpair, covers_of_ascending hnodup predicted hascending hpair, hevaluated, hperform, ?_⟩
  intro env args hparse
  rw [program, programBy_eq .sequential env t hparse, Command.script, hperform]
  cases failed <;> rfl

/-- judgments and scores of three tables each, two of them the same -/
def overlapping : FileTree where
  entries := .ofList ([
    (["j.json"], .file (some "\x7b\"x\": 2, \"b\": 0, \"a\": 1\x7d")),
    (["s.json"], .file (some "\x7b\"scores\": [[\"a\", 0.5], [\"c\", 0.25], [\"x\", 0.75]]\x7d"))] :
      List (List String × FileEntry))
  workingDirectory := []

/-- the arguments of a query that leaves one of the two out and asks for two tables, and then for none -/
def overlappingQuery : List String := ["query", "-g", "j.json", "-s", "s.json", "-k", "2", "0", "--exclude", "x"]

/-- what the arguments ask for -/
def overlappingOptions : QueryOptions := ⟨"j.json", "s.json", [2, 0], none, ["x"], false⟩

/-- the judgments -/
def overlappingJudgments : Judgments := [("a", 1.0), ("b", 0.0), ("x", 2.0)]

/-- the scores -/
def overlappingScores : PredictedScores := .ofList [("a", 0.5), ("c", 0.25), ("x", 0.75)]

/-- what is left of judgments and scores -/
def overlappingPair : AlignedPair := ⟨["a", "b", "c"], [1.0, 0.0, 0.0], ⟨[0.5, 0.0, 0.25], [true, false, true]⟩⟩

/-- one of the first two is relevant, and no other table is -/
theorem evaluate_overlappingPair : ∃ ndcg area : Float,
    Metric.evaluate overlappingOptions.metrics overlappingPair.relevance overlappingPair.scores 2 =
      .ok ⟨2, ndcg, 0.5, 1.0, some area, 1⟩ := by
  have hv : Metric.validate overlappingPair.relevance overlappingPair.scores.values 2 = .ok 2 := by decide +kernel
  have horder : [0, 2, 1] = Metric.ranking overlappingPair.scores.values :=
    (Metric.stableOrder_iff (by decide) _).1 ⟨by decide, by decide⟩
  have hhits : Metric.hits overlappingPair.relevance overlappingPair.scores.values 2 = 1 := by
    rw [Metric.hits_eq_countP, ← horder]
    decide
  have hrelevant : Metric.relevantCount overlappingPair.relevance = 1 := by decide
  have hauc := Metric.auc_of_validate (R := Float) hv
  rw [hrelevant, if_neg one_ne_zero, if_neg (by decide)] at hauc
  have hhalf : Float.ofNat 1 / Float.ofNat 2 = 0.5 := by decide +kernel
  have hone : Arithmetic.ratio Float 1 1 = 1.0 := by decide +kernel
  obtain ⟨area, harea⟩ : ∃ area, Metric.optionalAuc overlappingOptions.metrics.auc overlappingPair.relevance
      overlappingPair.scores = .ok (some area) := by
    unfold Metric.optionalAuc
    rw [hauc]
    exact ⟨_, rfl⟩
  rw [Metric.evaluate_of_validate _ hv, harea, hhits, hrelevant, hhalf, hone]
  exact ⟨_, area, rfl⟩

/-- the line of a record of the cutoff 2 with one hit in it, which is the only relevant table -/
theorem shownFor_of_rates (ndcg area : Float) : shownFor ⟨2, ndcg, 0.5, 1.0, some area, 1⟩ =
    .text ("k=2     ndcg=" ++ fixed 4 ndcg ++ "  P@k=0.5000  R@k=1.0000  auc=" ++ fixed 4 area ++
      "  relevant@k=1\n") := by
  have hcutoff : "k=2     ndcg=" = "k=" ++ Report.padRight 5 (natText 2) ++ " ndcg=" := by decide +kernel
  have hrates : "  P@k=0.5000  R@k=1.0000  auc=" =
      "  P@k=" ++ fixed 4 0.5 ++ "  R@k=" ++ fixed 4 1.0 ++ "  auc=" := by decide +kernel
  have hhits : "  relevant@k=1\n" = "  relevant@k=" ++ natText 1 ++ "\n" := by decide +kernel
  rw [hcutoff, hrates, hhits, shownFor]
  simp only [String.append_assoc]

/-- Two of the three judged tables and two of the three scored ones are left, and one table is both. The metrics of the
first two are shown, and then there is a complaint. -/
theorem query_drops_nothing_of_overlap :
    Command.parse overlappingQuery = .ok (.query overlappingOptions) ∧
    (Inputs.judgments "j.json").outcome overlapping = .ok overlappingJudgments ∧
    (Inputs.scores "s.json").outcome overlapping = .ok (some overlappingScores) ∧
    ∃ ndcg area : Float, Metric.evaluate overlappingOptions.metrics overlappingPair.relevance overlappingPair.scores 2 =
      .ok ⟨2, ndcg, 0.5, 1.0, some area, 1⟩ ∧
    program ⟨[]⟩ overlappingQuery overlapping = (overlapping,
      ⟨[.text "Candidates: 3 (1 relevant, 2 scored)\n", .text (Report.rule pageWidth ++ "\n"),
        .text ("k=2     ndcg=" ++ fixed 4 ndcg ++ "  P@k=0.5000  R@k=1.0000  auc=" ++ fixed 4 area ++
          "  relevant@k=1\n")],
        some ⟨"Failed to compute metrics at k=0", [Metric.Error.zeroCutoff.message]⟩, 1⟩) := by
  have hparse : Command.parse overlappingQuery = .ok (.query overlappingOptions) := by decide +kernel
  have hjudgments : (Inputs.judgments "j.json").outcome overlapping = .ok overlappingJudgments := by decide +kernel
  have hscores : (Inputs.scores "s.json").outcome overlapping = .ok (some overlappingScores) := by decide +kernel
  obtain ⟨pair, records, failed, hpair, hcovers, hevaluated, -, hprogram⟩ :=
    query_drops_nothing overlapping overlappingOptions _ _ rfl hjudgments hscores
  have hcomputed : judgedPair (judgedAndScored overlappingJudgments overlappingScores) overlappingJudgments
      overlappingScores overlappingOptions.excluded = .ok overlappingPair := by
    decide +kernel
  obtain rfl := Except.ok.inj (hcomputed.symm.trans hpair)
  obtain ⟨ndcg, area, htwo⟩ := evaluate_overlappingPair
  have hzero : Metric.evaluate overlappingOptions.metrics overlappingPair.relevance overlappingPair.scores 0 =
      .error .zeroCutoff := rfl
  refine ⟨hparse, hjudgments, hscores, ndcg, area, htwo, (hprogram ⟨[]⟩ overlappingQuery hparse).trans ?_⟩
  cases hevaluated with
  | failed _ he => cases htwo.symm.trans he
  | record hr h =>
    cases htwo.symm.trans hr
    cases h with
    | record hr _ => cases hzero.symm.trans hr
    | failed _ he =>
      cases hzero.symm.trans he
      have hheading : heading overlappingOptions overlappingJudgments overlappingScores overlappingPair =
          [.text "Candidates: 3 (1 relevant, 2 scored)\n", .text (Report.rule pageWidth ++ "\n")] := by
        decide +kernel
      rw [hheading, List.map_singleton, shownFor_of_rates]
      rfl

end RankEval.CommandLine
