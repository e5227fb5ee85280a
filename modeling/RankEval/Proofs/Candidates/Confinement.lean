/-
What an engine says about other tables stays without effect. Where the candidates of a query do not come from the
engine, its output is only asked about them; so neither the scores of excluded tables, nor those of tables outside the
universe, nor the order of the output can be seen in the metrics or in an error.

- `score_of_answers`: what a query's metrics are computed from, candidate by candidate.
- `score_confined`: outputs that agree on the candidates give the same result; so do an output in another order and one
  from which all other tables are struck.
- `score_confined_labeled`: no number as the score of the query's own table, which is excluded, and a table that is not
  in the corpus.
-/
import RankEval.Proofs.Candidates.Scoring

namespace RankEval

namespace PredictedScores

/-- a table's score is the one it is listed with -/
theorem get?_eq_some_iff (p : PredictedScores) (t : TableId) (s : Float) : p.get? t = some s ↔ (t, s) ∈ p.ranked :=
  Distinct.lookup_eq_some_iff p.nodup

/-- the output as far as it is about some tables -/
def restrict (p : PredictedScores) (keep : TableId → Bool) : PredictedScores :=
  ⟨p.ranked.filter fun e => keep e.1, (List.filter_sublist.map Prod.fst).nodup p.nodup⟩

theorem get?_restrict (p : PredictedScores) (keep : TableId → Bool) (t : TableId) (ht : keep t = true) :
    (p.restrict keep).get? t = p.get? t := by
  ext s
  rw [get?_eq_some_iff, get?_eq_some_iff, restrict, List.mem_filter]
  exact and_iff_left ht

theorem get?_of_perm {p p' : PredictedScores} (h : p'.ranked.Perm p.ranked) (t : TableId) : p'.get? t = p.get? t := by
  ext s
  rw [get?_eq_some_iff, get?_eq_some_iff, h.mem_iff]

end PredictedScores

namespace Evaluator

section
variable (e : Evaluator) (q : Query) (k : Nat) (related : Option Inputs.Judgments)

/-- the tables that are evaluated over -/
def evaluated (p : PredictedScores) : List TableId := (e.candidates q k p).items.filter fun t => ¬ e.Excluded q t

/-- The metrics of a query are computed from the engine's answer for each candidate, and from nothing else that it
returned. -/
theorem score_of_answers (p : PredictedScores) :
    e.score q k related p =
      (Metric.evaluate e.settings.evaluation.metrics
        ((e.evaluated q k p).map fun t => peak (e.vouched q related t))
        (.ofOptions ((e.evaluated q k p).map p.get?)) k).mapError .metric := by
  have hevaluated : ((e.candidates q k p).items.filter fun t =>
      t ∉ e.settings.evaluation.exclusion.tables q.selected q.tables) = e.evaluated q k p :=
    List.filter_congr fun t _ => decide_eq_decide.2 (not_congr (mem_exclusion_tables e q t))
  have halign : p.align (e.evaluated q k p) = .ofOptions ((e.evaluated q k p).map p.get?) := by
    simp only [PredictedScores.align, PredictedScores.getElem?_index]
  rw [score, pair, RelevanceMap.build, AlignedPair.prepare_eq, hevaluated, halign]
  simp only [getD_peaks_truth]

/-- the candidates do not depend on the engine unless they are its output -/
theorem evaluated_congr (hscope : e.settings.evaluation.scope ≠ .output) (p p' : PredictedScores) :
    e.evaluated q k p' = e.evaluated q k p := by
  unfold evaluated candidates
  cases h : e.settings.evaluation.scope with
  | corpus => rfl
  | labeled => rfl
  | output => exact absurd h hscope

end

/-- **Tables outside the candidates do not leak into the metrics.** Unless the candidates are the engine's output
itself, a query's result, be it metrics or an error, is the same for any two outputs that give the same answer for every
table of the universe that is not excluded. In particular it is the same for the output in another order, and for the
output without all other tables. -/
theorem score_confined (e : Evaluator) (q : Query) (k : Nat) (related : Option Inputs.Judgments) (p : PredictedScores)
    (hscope : e.settings.evaluation.scope ≠ .output) :
    (∀ p' : PredictedScores, (∀ t ∈ (e.candidates q k p).items, ¬ e.Excluded q t → p'.get? t = p.get? t) →
        e.score q k related p' = e.score q k related p) ∧
      (∀ p' : PredictedScores, p'.ranked.Perm p.ranked → e.score q k related p' = e.score q k related p) ∧
      e.score q k related (p.restrict fun t => t ∈ (e.candidates q k p).items ∧ ¬ e.Excluded q t) =
        e.score q k related p := by
  have hconfined : ∀ p' : PredictedScores,
      (∀ t ∈ (e.candidates q k p).items, ¬ e.Excluded q t → p'.get? t = p.get? t) →
        e.score q k related p' = e.score q k related p := by
    intro p' hagree
    have hanswers : (e.evaluated q k p).map p'.get? = (e.evaluated q k p).map p.get? := by
      refine List.map_congr_left fun t ht => ?_
      obtain ⟨hin, hkept⟩ := List.mem_filter.1 ht
      exact hagree t hin (of_decide_eq_true hkept)
    rw [score_of_answers, score_of_answers, evaluated_congr e q k hscope p p', hanswers]
  refine ⟨hconfined, fun p' hperm => ?_, ?_⟩
  · exact hconfined p' fun t _ _ => PredictedScores.get?_of_perm hperm t
  · refine hconfined _ fun t hin hkept => PredictedScores.get?_restrict p _ t ?_
    exact decide_eq_true ⟨hin, hkept⟩

/-- the tables of a query's page and as many others, less the table that the query was sampled from -/
def labeledSearch : Evaluator where
  settings := { evaluation := { scope := .labeled, exclusion := .queryTable, truth := .coMembership } }
  corpus := .ofList ["a", "b", "c", "d"]
  pages := .empty

/-- a query for which all tables of the corpus are candidates but its own -/
def sampledQuery : Query := ⟨1, "https://en.wikipedia.org/wiki/P", ["a", "b"], some "a"⟩

/-- No number for the excluded table, and a high score for a table outside the universe: the metrics are those without
either, with the two scored candidates in the other order. -/
theorem score_confined_labeled :
    let output := PredictedScores.ofList [("z", 9.0), ("c", 0.25), ("a", 0.0 / 0.0), ("b", 0.5)]
    let inside := PredictedScores.ofList [("b", 0.5), ("c", 0.25)]
    labeledSearch.settings.evaluation.scope ≠ .output ∧
      (∀ t ∈ (labeledSearch.candidates sampledQuery 2 output).items, ¬ labeledSearch.Excluded sampledQuery t →
        inside.get? t = output.get? t) ∧
      labeledSearch.score sampledQuery 2 none inside = labeledSearch.score sampledQuery 2 none output ∧
      ((labeledSearch.score sampledQuery 2 none output).toOption.map fun r => (r.k, r.auc.isSome)) =
        some (2, true) := by
  intro output inside
  have hscope : labeledSearch.settings.evaluation.scope ≠ .output := by decide
  have hagree : ∀ t ∈ (labeledSearch.candidates sampledQuery 2 output).items,
      ¬ labeledSearch.Excluded sampledQuery t → inside.get? t = output.get? t := by
    decide +kernel
  have hsame := (labeledSearch.score_confined sampledQuery 2 none output hscope).1 inside hagree
  have hmetrics : ((labeledSearch.score sampledQuery 2 none inside).toOption.map fun r => (r.k, r.auc.isSome)) =
      some (2, true) := by
    decide +kernel
  exact ⟨hscope, hagree, hsame, hsame ▸ hmetrics⟩

end Evaluator

end RankEval
