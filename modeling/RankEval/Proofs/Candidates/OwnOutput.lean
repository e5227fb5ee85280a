/-
An engine judged over its own output. The candidates are the first tables that it returned, and the cutoff is large
enough for all of them. So the ranking by score, which may list them in another order, does not matter to what is found:
all of them are among the first. What is counted are the tables of the query's page that the engine returned first.

- `Metric.evaluate_of_full`: a cutoff that takes in every candidate.
- `evaluated_of_output`: the candidates, in returned order.
- `score_of_output`: the metrics of a query, and that there are any.
- `score_of_output_four`: an output with a repeated table, not in the order of its scores.
-/
import RankEval.Proofs.Candidates.Confinement
import RankEval.Proofs.Metric.Cutoffs
import RankEval.Proofs.Metric.Evaluation

namespace RankEval

namespace Metric

variable {options : Options} {relevance : List Float} {scores : AlignedScores} {k c : ℕ}

/-- an area is left out of the record where it is undefined -/
theorem optionalAuc_omit (hv : validate relevance scores.values k = .ok c) :
    ∃ area, optionalAuc .omit relevance scores = .ok area ∧
      (area = none ↔ relevantCount relevance = 0 ∨ relevantCount relevance = relevance.length) := by
  unfold optionalAuc
  rw [auc_of_validate hv]
  split_ifs with hnone hall
  · exact ⟨none, rfl, by simp [hnone]⟩
  · exact ⟨none, rfl, by simp [hall]⟩
  · exact ⟨some _, rfl, by simp [hnone, hall]⟩

/-- **A cutoff that takes in every candidate** finds every relevant one, whatever the scores. -/
theorem evaluate_of_full (hv : validate relevance scores.values k = .ok relevance.length)
    (hpolicy : options.auc = .omit) (hword : relevance.length < 2 ^ 64) :
    ∃ record, evaluate options relevance scores k = .ok record ∧ record.k = relevance.length ∧
      record.relevant = relevantCount relevance ∧
      record.precisionAtK = Float.ofNat record.relevant / Float.ofNat record.k ∧
      record.recallAtK = (if 0 < record.relevant then 1.0 else 0.0) ∧
      (record.auc = none ↔ record.relevant = 0 ∨ record.relevant = record.k) := by
  obtain ⟨hlen, -⟩ := (validate_eq_ok_iff ..).1 hv
  obtain ⟨area, harea, hnone⟩ := optionalAuc_omit hv
  have hfound : hits relevance scores.values relevance.length = relevantCount relevance :=
    hits_of_length_le hlen le_rfl
  have hcount : relevantCount relevance < 2 ^ 64 := List.countP_le_length.trans_lt hword
  refine ⟨_, by rw [evaluate_of_validate options hv, hpolicy, harea]; rfl, rfl, hfound, rfl, ?_, ?_⟩
  · rw [hfound]
    exact Double.ratio_self hcount
  · rw [hfound]
    exact hnone

end Metric

namespace Evaluator

/-- the tables that an engine returned, each once and in its order -/
def returnedTables (returned : List (TableId × Float)) : List TableId := (returned.map Prod.fst).eraseDups

section
variable {e : Evaluator} {q : Query} {k : ℕ} {returned : List (TableId × Float)}

/-- the candidates are the first tables that the engine returned -/
theorem evaluated_of_output (hscope : e.settings.evaluation.scope = .output)
    (hall : e.settings.evaluation.exclusion = .keepAll) :
    e.evaluated q k (.ofList returned) = (returnedTables returned).take k := by
  have hkept : ∀ t, ¬ e.Excluded q t := by
    intro t
    simp [Excluded, hall]
  have honce : ((returned.map Prod.fst).eraseDups.take k).Nodup :=
    (Distinct.nodup_eraseDups _).sublist (List.take_sublist ..)
  rw [evaluated, items_candidates, listed, hscope]
  dsimp only
  rw [Distinct.eraseDups_of_nodup honce]
  exact List.filter_eq_self.2 fun t _ => decide_eq_true (hkept t)

theorem take_returnedTables_ne_nil (hk : 1 ≤ k) (hsome : returned ≠ []) : (returnedTables returned).take k ≠ [] := by
  obtain ⟨r, hr⟩ := List.exists_mem_of_ne_nil _ hsome
  have hmem : r.1 ∈ returnedTables returned := List.mem_eraseDups.2 (List.mem_map_of_mem hr)
  simpa [Nat.one_le_iff_ne_zero.1 hk] using List.ne_nil_of_mem hmem

/-- without related titles, a table is worth 1 if it is on the query's page, and nothing else -/
theorem peak_vouched_none (e : Evaluator) (q : Query) (t : TableId) :
    peak (e.vouched q none t) = if t ∈ q.tables then 1.0 else 0.0 := by
  unfold vouched
  split_ifs
  · exact (by decide : peak [1.0] = 1.0)
  · exact (by decide : peak [] = 0.0)

/-- the tables that are worth something are those on the query's page -/
theorem relevantCount_vouched_none (e : Evaluator) (q : Query) (tables : List TableId) :
    Metric.relevantCount (tables.map fun t => peak (e.vouched q none t)) = tables.countP fun t => t ∈ q.tables := by
  rw [Metric.relevantCount, List.countP_map]
  refine List.countP_congr fun t _ => ?_
  rw [Function.comp_apply, peak_vouched_none, decide_eq_true_eq]
  split_ifs with ht
  · exact iff_of_true (by decide) ht
  · exact iff_of_false (by decide) ht

/-- tables with such a worth and with finite answers of the engine are accepted by the metrics -/
theorem validate_vouched_none {tables : List TableId} {p : PredictedScores} (hk : 1 ≤ k) (hsome : tables ≠ [])
    (hfinite : ∀ t ∈ tables, ∀ s, p.get? t = some s → s.isFinite = true) :
    Metric.validate (tables.map fun t => peak (e.vouched q none t)) (AlignedScores.ofOptions (tables.map p.get?)).values
      k = .ok (min k tables.length) := by
  refine (Metric.validate_eq_ok_iff ..).2 ⟨by simp [AlignedScores.ofOptions], Nat.one_le_iff_ne_zero.1 hk, by simpa,
    ?relevance, ?scores, by simp⟩
  case relevance =>
    intro x hx
    obtain ⟨t, -, rfl⟩ := List.mem_map.1 hx
    rw [peak_vouched_none]
    split_ifs <;> decide
  case scores =>
    intro x hx
    rw [AlignedScores.ofOptions, List.map_map] at hx
    obtain ⟨t, ht, rfl⟩ := List.mem_map.1 hx
    rw [Function.comp_apply]
    cases hanswer : p.get? t with
    | none => decide
    | some s => exact hfinite t ht s hanswer

end

/-- **An engine judged over its own output.** Whenever an engine returned something, with finite scores, its first `k`
tables have metrics, where `k` is a positive 64-bit word. The cutoff that is used is the number of those tables. In the
order in which they were returned, and whatever their scores, those on the query's page are counted; precision is their
share, recall is 1 unless there are none, and the area is left out iff there are none or no others. -/
theorem score_of_output (e : Evaluator) (q : Query) (k : ℕ) (returned : List (TableId × Float))
    (hscope : e.settings.evaluation.scope = .output) (hall : e.settings.evaluation.exclusion = .keepAll)
    (hauc : e.settings.evaluation.metrics.auc = .omit) (hk : 1 ≤ k) (hword : k < 2 ^ 64) (hsome : returned ≠ [])
    (hfinite : ∀ r ∈ returned, r.2.isFinite = true) :
    ∃ record, e.score q k none (.ofList returned) = .ok record ∧
      record.k = min k (returnedTables returned).length ∧
      record.relevant = ((returnedTables returned).take record.k).countP (fun t => t ∈ q.tables) ∧
      record.precisionAtK = Float.ofNat record.relevant / Float.ofNat record.k ∧
      record.recallAtK = (if 0 < record.relevant then 1.0 else 0.0) ∧
      (record.auc = none ↔ record.relevant = 0 ∨ record.relevant = record.k) := by
  have hanswers : ∀ t s, (PredictedScores.ofList returned).get? t = some s → s.isFinite = true := by
    intro t s hanswer
    rw [PredictedScores.get?_ofList] at hanswer
    obtain ⟨before, after, rfl, -⟩ := List.lookup_eq_some_iff.1 hanswer
    exact hfinite (t, s) (List.mem_append_right _ List.mem_cons_self)
  have hvalid := validate_vouched_none (e := e) (q := q) hk (take_returnedTables_ne_nil hk hsome) fun t _ => hanswers t
  -- there are no more candidates than the cutoff takes
  have hlength : (((returnedTables returned).take k).map fun t => peak (e.vouched q none t)).length =
      min k (returnedTables returned).length := by
    rw [List.length_map, List.length_take]
  rw [List.length_take, ← min_assoc, min_self, ← hlength] at hvalid
  obtain ⟨record, hrecord, hcutoff, hrelevant, hrest⟩ :=
    Metric.evaluate_of_full hvalid hauc (hlength.trans_lt ((min_le_left ..).trans_lt hword))
  rw [hlength] at hcutoff
  refine ⟨record, ?_, hcutoff, ?_, hrest⟩
  · rw [score_of_answers, evaluated_of_output hscope hall, hrecord]
    rfl
  · have htake : (returnedTables returned).take record.k = (returnedTables returned).take k := by
      rw [List.take_eq_take_iff, hcutoff, min_assoc, min_self]
    rw [htake, hrelevant, relevantCount_vouched_none]

/-- the first tables that an engine returned, judged by lying on the query's page -/
def outputSearch : Evaluator where
  settings := { evaluation := { scope := .output, truth := .coMembership, metrics := { auc := .omit } } }
  corpus := .empty
  pages := .empty

/-- Four tables, the last of them with the highest score, and one of them returned twice. Of the first three by the
engine's order, which is not that of their scores, one is on the page. -/
theorem score_of_output_four :
    let returned : List (TableId × Float) := [("a", 0.25), ("b", 0.5), ("a", 9.0), ("c", 0.75), ("d", 1.0)]
    let q : Query := ⟨1, "https://en.wikipedia.org/wiki/P", ["b", "z"], none⟩
    outputSearch.settings.evaluation.scope = .output ∧ outputSearch.settings.evaluation.exclusion = .keepAll ∧
      outputSearch.settings.evaluation.metrics.auc = .omit ∧ (1 ≤ 3 ∧ 3 < 2 ^ 64) ∧ returned ≠ [] ∧
      (∀ r ∈ returned, r.2.isFinite = true) ∧
      ∃ record, outputSearch.score q 3 none (.ofList returned) = .ok record ∧ record.k = 3 ∧ record.relevant = 1 ∧
        record.precisionAtK = Float.ofNat 1 / Float.ofNat 3 ∧ record.recallAtK = 1.0 ∧ record.auc ≠ none := by
  intro returned q
  have hfinite : ∀ r ∈ returned, r.2.isFinite = true := by decide
  obtain ⟨record, hrecord, hcutoff, hrelevant, hprecision, hrecall, harea⟩ :=
    outputSearch.score_of_output q 3 returned rfl rfl rfl (by decide) (by decide) (by decide) hfinite
  have hk : record.k = 3 := hcutoff.trans (by decide)
  rw [hk] at hrelevant hprecision harea
  have hone : record.relevant = 1 := hrelevant.trans (by decide)
  rw [hone] at hprecision hrecall harea
  exact ⟨rfl, rfl, rfl, by decide, by decide, hfinite, record, hrecord, hk, hone, hprecision, hrecall,
    fun hnone => absurd (harea.1 hnone) (by decide)⟩

end Evaluator

end RankEval
