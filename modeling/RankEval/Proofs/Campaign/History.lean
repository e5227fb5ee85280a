/-
What was evaluated before does not matter. An evaluator keeps the files that many queries share, so that it reads them
once; what it keeps is what reading the files gives, also that there is no file, and nothing that could not be read. So
what happens to a query under a key is the same whatever the evaluator has done before, and a run of two lists of
queries, one after the other, is the two runs put together.

- `faithful_evaluate`, `faithful_after`: what one query, and a history of queries, leave in the cache.
- `lists_ofLedger`: the lists of a report are those of the ledger.
- `history_irrelevant`: no history has an influence.
- `history_irrelevant_bm25`: a ranking that two queries share, and one that is not there.
-/
import RankEval.Proofs.Campaign.Accounts

namespace RankEval

open Report (Ledger Distribution)
open Cached (Gives outcome)

/-! ## What is kept -/

theorem overlay_eq_self_iff {K V : Type} [Ord K] {kept : Std.TreeMap K V} {read : K → Except Failure V} :
    overlay kept read = read ↔ ∀ key value, kept[key]? = some value → read key = .ok value := by
  rw [funext_iff]
  refine forall_congr' fun key => ?_
  unfold overlay
  cases hkept : kept[key]? with
  | none => simp
  | some value =>
    rw [Option.elim_some]
    constructor
    · rintro hread other heq
      cases heq
      exact hread.symm
    · intro h
      exact (h value rfl).symm

/-- Whatever is kept is what reading the files gives. So a file that cannot be read is not kept, and where it is kept
that there is no ranking, there is none. -/
structure Cache.Faithful (t : FileTree) (directory : FilePath) (cache : Cache) : Prop where
  rankings : ∀ path rows, cache.rankings[path]? = some rows → Attempt.outcome t (Inputs.rankedRows path) = .ok rows
  related : ∀ page titles, cache.related[page]? = some titles →
    Attempt.outcome t (Inputs.relatedTitles directory page) = .ok titles

/-- with such a cache the same can be found out as with nothing kept -/
theorem Cache.faithful_iff (t : FileTree) (directory : FilePath) (cache : Cache) :
    cache.Faithful t directory ↔ cache.found t directory = Cache.empty.found t directory := by
  rw [Cache.found_empty, Cache.found, Found.mk.injEq, overlay_eq_self_iff, overlay_eq_self_iff]
  exact ⟨fun h => ⟨h.rankings, h.related⟩, fun h => ⟨h.1, h.2⟩⟩

theorem Cache.faithful_empty (t : FileTree) (directory : FilePath) : Cache.empty.Faithful t directory :=
  (Cache.faithful_iff t directory .empty).2 rfl

/-! ## Two lists of queries -/

namespace Report

/-- the lists of one distribution behind those of another one -/
def Distribution.append (a b : Distribution) : Distribution :=
  ⟨a.records ++ b.records, a.skipped ++ b.skipped, a.failed ++ b.failed⟩

theorem Distribution.ofLog_append (a b : List (String × Outcome)) : ofLog (a ++ b) = (ofLog a).append (ofLog b) := by
  simp only [ofLog, append, List.filterMap_append, List.filter_append, List.map_append]

/-- the names in the three lists -/
def Distribution.names (d : Distribution) : List String × List String × List String :=
  (d.records.map QueryRecord.query, d.skipped, d.failed)

theorem Distribution.names_append (a b : Distribution) : (a.append b).names =
    (a.names.1 ++ b.names.1, a.names.2.1 ++ b.names.2.1, a.names.2.2 ++ b.names.2.2) := by
  simp only [names, append, List.map_append]

/-- the lists under a key; empty ones if the report has no entry for it -/
def lists (r : Report) (key : EvaluationKey) : Distribution := (r.get? key).elim .empty Entry.distribution

theorem lists_ofLedger (l : Ledger) (key : EvaluationKey) : (ofLedger l).lists key = l.held key := by
  have hfind : ∀ keys : List EvaluationKey,
      ((keys.map fun k => Entry.ofDistribution k (l.held k)).find? fun e => e.key = key) =
        if key ∈ keys then some (.ofDistribution key (l.held key)) else none := by
    intro keys
    induction keys with
    | nil => rfl
    | cons k keys ih =>
      rw [List.map_cons, List.find?_cons]
      by_cases hk : k = key
      · subst hk
        simp [Entry.ofDistribution]
      · have hkey : (Entry.ofDistribution k (l.held k)).key ≠ key := hk
        simp only [decide_eq_false hkey, ih, List.mem_cons, Ne.symm hk, false_or]
  have hentry := hfind l.keys
  rw [lists, get?, entries_ofLedger]
  unfold Ledger.held at hentry ⊢
  rw [hentry]
  split
  · rfl
  · next hmem =>
    -- a key without an entry is one under which nothing is held
    rw [Ledger.mem_keys_iff, Option.not_isSome_iff_eq_none] at hmem
    rw [hmem]
    rfl

end Report

namespace Evaluator

variable (e : Evaluator) (t : FileTree)

/-- what is logged under a key for two lists of queries is what is logged for the first, then for the second -/
theorem logOf_units_append (found : Found) (first second : List Query) (key : EvaluationKey) :
    Ledger.logOf ((e.units (first ++ second)).map (e.eventOf t found)) key =
      Ledger.logOf ((e.units first).map (e.eventOf t found)) key ++
        Ledger.logOf ((e.units second).map (e.eventOf t found)) key := by
  by_cases hkey : key ∈ e.settings.keys
  · rw [e.logOf_run t found _ hkey, e.logOf_run t found _ hkey, e.logOf_run t found _ hkey, List.map_append]
  · have hnone : ∀ queries, Ledger.logOf ((e.units queries).map (e.eventOf t found)) key = [] := by
      intro queries
      rw [Ledger.logOf_eq_nil_iff]
      rintro ⟨event, hevent, rfl⟩
      obtain ⟨unit, hunit, rfl⟩ := List.mem_map.1 hevent
      obtain ⟨key, hmem, hunit⟩ := List.mem_flatMap.1 hunit
      obtain ⟨q, -, rfl⟩ := List.mem_map.1 hunit
      exact hkey hmem
    rw [hnone, hnone, hnone]
    rfl

theorem lists_reportIn_append (found : Found) (first second : List Query) (key : EvaluationKey) :
    (e.reportIn t found (first ++ second)).lists key =
      ((e.reportIn t found first).lists key).append ((e.reportIn t found second).lists key) := by
  simp only [reportIn, ledgerIn, Report.lists_ofLedger, Ledger.held_ofEvents, logOf_units_append,
    Distribution.ofLog_append]

/-! ## Histories -/

/-- the cache after some queries were evaluated under keys, one after the other, with whatever result -/
def after (history : List (EvaluationKey × Query)) (cache : Cache) : Cache :=
  history.foldl (fun cache unit => (outcome t cache (e.evaluate unit.1 unit.2)).2) cache

/-- an evaluation keeps nothing but what the files give -/
theorem faithful_evaluate {cache : Cache} (h : cache.Faithful t e.settings.places.related) (key : EvaluationKey)
    (q : Query) : (outcome t cache (e.evaluate key q)).2.Faithful t e.settings.places.related := by
  rw [Cache.faithful_iff] at h ⊢
  obtain ⟨kept, hrun, hkept⟩ := e.gives_evaluate key q cache h
  rw [hrun]
  exact hkept

theorem faithful_after (history : List (EvaluationKey × Query)) :
    ∀ cache : Cache, cache.Faithful t e.settings.places.related →
      (e.after t history cache).Faithful t e.settings.places.related := by
  induction history with
  | nil => exact fun cache h => h
  | cons unit history ih => exact fun cache h => ih _ (e.faithful_evaluate t h unit.1 unit.2)

/-- after any history the same can be found out as from the files -/
theorem found_after (history : List (EvaluationKey × Query)) :
    (e.after t history .empty).found t e.settings.places.related = Cache.empty.found t e.settings.places.related :=
  (Cache.faithful_iff t _ _).1 (e.faithful_after t history .empty (Cache.faithful_empty t _))

/-- the report of a run after any history -/
theorem run_after (hskip : e.settings.evaluation.onFailure = .skip) (history : List (EvaluationKey × Query))
    (queries : List Query) :
    (outcome t (e.after t history .empty) (e.run queries)).1 =
      .ok (e.reportIn t (Cache.empty.found t e.settings.places.related) queries) := by
  obtain ⟨kept, hrun, -⟩ := e.gives_run queries hskip _ (e.found_after t history)
  rw [hrun]

/-- **No history has an influence.** Whatever queries an evaluator has evaluated before, under whatever keys and with
whatever results: all that it keeps is what the files give, and evaluating another query has the result that it has with
nothing kept, be it metrics, no usable output or a failure. If failures do not end runs, then whatever was evaluated
before each of them, a run of two lists of queries holds under every key what a run of the first list holds there,
followed by what a run of the second list holds. -/
theorem history_irrelevant :
    (∀ history, (e.after t history .empty).Faithful t e.settings.places.related) ∧
    (∀ history key q, (outcome t (e.after t history .empty) (e.evaluate key q)).1 =
      (outcome t .empty (e.evaluate key q)).1) ∧
    (e.settings.evaluation.onFailure = .skip → ∀ history history₁ history₂ first second, ∃ report report₁ report₂,
      (outcome t (e.after t history .empty) (e.run (first ++ second))).1 = .ok report ∧
      (outcome t (e.after t history₁ .empty) (e.run first)).1 = .ok report₁ ∧
      (outcome t (e.after t history₂ .empty) (e.run second)).1 = .ok report₂ ∧
      ∀ key, report.lists key = (report₁.lists key).append (report₂.lists key)) := by
  refine ⟨fun history => ?_, fun history key q => ?_, fun hskip history history₁ history₂ first second => ?_⟩
  · exact e.faithful_after t history .empty (Cache.faithful_empty t _)
  · obtain ⟨kept, hrun, -⟩ := e.gives_evaluate key q _ (e.found_after t history)
    obtain ⟨kept', hrun', -⟩ := e.gives_evaluate key q .empty rfl
    rw [hrun, hrun']
  · refine ⟨_, _, _, e.run_after t hskip history _, e.run_after t hskip history₁ _, e.run_after t hskip history₂ _,
      fun key => ?_⟩
    exact e.lists_reportIn_append t _ first second key

/-- keyword searches, with pages as relevance -/
def keywordSearch : Evaluator where
  settings := {
    evaluation := { cutoffs := [1, 2], truth := .coMembership, wantsFullTopK := true }
    variants := [.bm25 .entities, .bm25 .text] }
  corpus := .ofList ["a", "b"]
  pages := .empty

/-- a file in the place of a ranking -/
def rankingOf (cutoff : String) (field : QueryField) (text : String) : List (List String × FileEntry) :=
  fileBelow ["baseline", "bm25", cutoff, "1-tuple", field.name] "content.txt" text

/-- At the first cutoff, a ranking with a row for the first query and one that cannot be read; at the second one, no
ranking and one with two rows for the first query and one for the second one. -/
def threeRankings : FileTree where
  entries := .ofList (rankingOf "1" .text "1\tq\ta\t1\t0.5\n" ++ rankingOf "1" .entities "1\tq\n" ++
    rankingOf "2" .entities "1\tq\ta\t1\t0.5\n1\tq\tb\t2\t0.25\n2\tq\ta\t1\t0.5\n")
  workingDirectory := []

/-- the keys of the two variants at the two cutoffs -/
def searchKeys : List EvaluationKey :=
  [⟨.bm25 .text, 1, 1, 0⟩, ⟨.bm25 .entities, 1, 1, 0⟩, ⟨.bm25 .text, 1, 2, 0⟩, ⟨.bm25 .entities, 1, 2, 0⟩]

/-- Three queries are evaluated twice. Both times the one ranking has a row for the first query only, the other one
fails them all, and that there is none for the second cutoff is known the second time. Where two tables are wanted, one
of the queries has them. -/
theorem history_irrelevant_bm25 :
    keywordSearch.settings.evaluation.onFailure = .skip ∧
    ∃ report, (outcome threeRankings (keywordSearch.after threeRankings (keywordSearch.units threeQueries) .empty)
        (keywordSearch.run (threeQueries.take 2 ++ threeQueries.drop 2))).1 = .ok report ∧
      (searchKeys.map fun key => (report.lists key).names) =
        [(["wikipage_1"], ["wikipage_2", "wikipage_3"], []), ([], [], ["wikipage_1", "wikipage_2", "wikipage_3"]),
          ([], ["wikipage_1", "wikipage_2", "wikipage_3"], []), (["wikipage_1"], ["wikipage_2", "wikipage_3"], [])] := by
  have hskip : keywordSearch.settings.evaluation.onFailure = .skip := rfl
  obtain ⟨report, first, second, hrun, hfirst, hsecond, hlists⟩ := (keywordSearch.history_irrelevant threeRankings).2.2
    hskip (keywordSearch.units threeQueries) [] [] (threeQueries.take 2) (threeQueries.drop 2)
  have hnames : ((outcome threeRankings .empty (keywordSearch.run (threeQueries.take 2))).1.toOption.map fun report =>
      searchKeys.map fun key => (report.lists key).names) =
      some [(["wikipage_1"], ["wikipage_2"], []), ([], [], ["wikipage_1", "wikipage_2"]),
        ([], ["wikipage_1", "wikipage_2"], []), (["wikipage_1"], ["wikipage_2"], [])] := by
    decide +kernel
  have hnames' : ((outcome threeRankings .empty (keywordSearch.run (threeQueries.drop 2))).1.toOption.map fun report =>
      searchKeys.map fun key => (report.lists key).names) =
      some [([], ["wikipage_3"], []), ([], [], ["wikipage_3"]), ([], ["wikipage_3"], []),
        ([], ["wikipage_3"], [])] := by
    decide +kernel
  rw [show (outcome threeRankings .empty (keywordSearch.run (threeQueries.take 2))).1 = _ from hfirst] at hnames
  rw [show (outcome threeRankings .empty (keywordSearch.run (threeQueries.drop 2))).1 = _ from hsecond] at hnames'
  simp only [Except.toOption, Option.map_some, Option.some.injEq, searchKeys, List.map_cons, List.map_nil,
    List.cons.injEq, and_true] at hnames hnames'
  obtain ⟨h₁, h₂, h₃, h₄⟩ := hnames
  obtain ⟨h₁', h₂', h₃', h₄'⟩ := hnames'
  refine ⟨hskip, report, hrun, ?_⟩
  simp only [searchKeys, List.map_cons, List.map_nil, hlists, Distribution.names_append, h₁, h₂, h₃, h₄, h₁', h₂', h₃',
    h₄']
  rfl

end Evaluator

end RankEval
