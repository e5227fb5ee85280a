/-
What a run accounts for if failures do not end it. A run goes through every key with every query. Each step logs what
happens to one query under one key, which no other step has an influence on. So every entry of the report splits the
list of queries into those that were evaluated, those that were skipped and those that failed, and no other key's
queries get into it.

- `gives_runUnits`, `gives_run`: the report of a run.
- `run_accounts`: what is in it.
- `run_accounts_three`: three queries, to each of which something else happens.
-/
import RankEval.Proofs.Campaign.Units
import RankEval.Proofs.Report.Ledger

namespace RankEval

open Report (Ledger Outcome QueryRecord)

/-! ## Keys -/

namespace Settings

/-- the keys are in order, and no key comes twice -/
theorem keys_sorted (s : Settings) : s.keys.Pairwise fun a b => compare a b = .lt := Std.TreeSet.ordered_toList

theorem keys_nodup (s : Settings) : s.keys.Nodup := EvaluationKey.nodup_of_sorted s.keys_sorted

end Settings

namespace Evaluator

variable (e : Evaluator) (t : FileTree) (found : Found) (queries : List Query)

/-! ## A whole run -/

/-- what a step of a run logs -/
def eventOf (unit : EvaluationKey × Query) : Ledger.Event :=
  ⟨unit.1, unit.2.name, e.outcomeIn t found unit.1 unit.2⟩

/-- the ledger of a whole run -/
def ledgerIn : Ledger := .ofEvents ((e.units queries).map (e.eventOf t found))

/-- the report of a whole run -/
def reportIn : Report := .ofLedger (e.ledgerIn t found queries)

section
variable {t} {found}

open Cached

/-- some steps, one after the other -/
theorem gives_steps (hskip : e.settings.evaluation.onFailure = .skip) (units : List (EvaluationKey × Query))
    (l : Ledger) :
    Gives t e.settings.places.related found (units.foldlM e.step l)
      (.ok (units.foldl (fun l unit => l.log unit.1 unit.2.name (e.outcomeIn t found unit.1 unit.2)) l)) := by
  have hsteps := gives_foldlM (@gives_step e t found) units l
  have hstep : e.stepIn t found = fun l unit =>
      pure (l.log unit.1 unit.2.name (e.outcomeIn t found unit.1 unit.2)) := by
    funext l unit
    exact e.stepIn_skip t found hskip l unit
  rw [hstep, List.foldlM_pure] at hsteps
  exact hsteps

/-- what is logged is reported, in whatever order -/
theorem gives_runUnits (hskip : e.settings.evaluation.onFailure = .skip) (units : List (EvaluationKey × Query)) :
    Gives t e.settings.places.related found (e.runUnits units)
      (.ok (.ofLedger (.ofEvents (units.map (e.eventOf t found))))) := by
  unfold Ledger.ofEvents
  rw [List.foldl_map]
  exact gives_map (e.gives_steps hskip units .empty) Report.ofLedger

/-- a run reports what is logged -/
theorem gives_run (hskip : e.settings.evaluation.onFailure = .skip) :
    Gives t e.settings.places.related found (e.run queries) (.ok (e.reportIn t found queries)) :=
  e.gives_runUnits hskip (e.units queries)

end

/-! ## What is logged -/

theorem filter_pairs_eq_nil {keys : List EvaluationKey} {key : EvaluationKey} (hkey : key ∉ keys) :
    ((keys.flatMap fun k => queries.map fun q => (k, q)).filter fun unit => unit.1 = key) = [] := by
  rw [List.filter_eq_nil_iff]
  intro unit hunit heq
  obtain ⟨k, hk, hunit⟩ := List.mem_flatMap.1 hunit
  obtain ⟨q, -, rfl⟩ := List.mem_map.1 hunit
  exact hkey (of_decide_eq_true heq ▸ hk)

theorem filter_pairs {keys : List EvaluationKey} {key : EvaluationKey} (hnodup : keys.Nodup) (hkey : key ∈ keys) :
    ((keys.flatMap fun k => queries.map fun q => (k, q)).filter fun unit => unit.1 = key) =
      queries.map fun q => (key, q) := by
  induction keys with
  | nil => cases hkey
  | cons k keys ih =>
    obtain ⟨hk, hnodup⟩ := List.nodup_cons.1 hnodup
    rw [List.flatMap_cons, List.filter_append]
    -- the pairs of the first key are either all kept, and then they are the only ones, or all dropped
    rcases List.mem_cons.1 hkey with rfl | hkey
    · rw [filter_pairs_eq_nil queries hk, List.append_nil, List.filter_eq_self]
      intro unit hunit
      obtain ⟨q, -, rfl⟩ := List.mem_map.1 hunit
      exact decide_eq_true rfl
    · have hne : key ∉ [k] := fun h => hk (List.mem_singleton.1 h ▸ hkey)
      have hfirst := filter_pairs_eq_nil queries hne
      rw [List.flatMap_singleton] at hfirst
      rw [hfirst, List.nil_append, ih hnodup hkey]

/-- what is logged under a key is what happens to every query, in order -/
theorem logOf_run {key : EvaluationKey} (hkey : key ∈ e.settings.keys) :
    Ledger.logOf ((e.units queries).map (e.eventOf t found)) key =
      queries.map fun q => (q.name, e.outcomeIn t found key q) := by
  have hfilter := filter_pairs queries e.settings.keys_nodup hkey
  unfold Ledger.logOf units
  rw [List.filter_map, List.map_map]
  change List.map _ (List.filter (fun unit : EvaluationKey × Query => unit.1 = key) _) = _
  rw [hfilter, List.map_map]
  rfl

/-- without queries nothing is logged, otherwise something under every key -/
theorem keys_ledgerIn : (e.ledgerIn t found queries).keys = if queries = [] then [] else e.settings.keys := by
  unfold ledgerIn units
  split
  · next hempty =>
    subst hempty
    refine Ledger.keys_ofEvents .nil fun key => ?_
    simp
  · next hne =>
    refine Ledger.keys_ofEvents e.settings.keys_sorted fun key => ?_
    constructor
    · intro hkey
      obtain ⟨q, hq⟩ := List.exists_mem_of_ne_nil queries hne
      refine ⟨e.eventOf t found (key, q), List.mem_map_of_mem (List.mem_flatMap.2 ⟨key, hkey, ?_⟩), rfl⟩
      exact List.mem_map_of_mem hq
    · rintro ⟨event, hevent, rfl⟩
      obtain ⟨unit, hunit, rfl⟩ := List.mem_map.1 hevent
      obtain ⟨key, hkey, hunit⟩ := List.mem_flatMap.1 hunit
      obtain ⟨q, -, rfl⟩ := List.mem_map.1 hunit
      exact hkey

theorem entries_reportIn :
    (e.reportIn t found queries).entries = (if queries = [] then [] else e.settings.keys).map fun key =>
      .ofDistribution key (.ofLog (queries.map fun q => (q.name, e.outcomeIn t found key q))) := by
  rw [reportIn, Report.entries_ofLedger, keys_ledgerIn]
  refine List.map_congr_left fun key hkey => ?_
  by_cases hempty : queries = []
  · rw [if_pos hempty] at hkey
    cases hkey
  · rw [if_neg hempty] at hkey
    have hlog := e.logOf_run t found queries hkey
    have hne : queries.map (fun q => (q.name, e.outcomeIn t found key q)) ≠ [] := mt List.map_eq_nil_iff.1 hempty
    rw [ledgerIn, Ledger.distribution?_ofEvents, hlog, if_neg hne, Option.getD_some]

theorem keys_reportIn :
    (e.reportIn t found queries).entries.map Report.Entry.key = if queries = [] then [] else e.settings.keys := by
  rw [reportIn, Report.keys_ofLedger, keys_ledgerIn]

theorem keys_reportIn_sorted :
    (e.reportIn t found queries).entries.Pairwise fun a b => compare a.key b.key = .lt := by
  have hsorted : ((e.reportIn t found queries).entries.map Report.Entry.key).Pairwise
      fun a b => compare a b = .lt := by
    rw [keys_reportIn]
    split
    · exact .nil
    · exact e.settings.keys_sorted
  exact List.pairwise_map.1 hsorted

theorem length_reportIn :
    (e.reportIn t found queries).entries.length * queries.length = e.settings.keys.length * queries.length := by
  rw [← List.length_map Report.Entry.key, keys_reportIn]
  split
  · next hempty => simp [hempty]
  · rfl

/-- every entry says what happened to the queries under its key -/
theorem exists_of_mem_reportIn {entry : Report.Entry} (h : entry ∈ (e.reportIn t found queries).entries) :
    ∃ key, entry = .ofDistribution key (.ofLog (queries.map fun q => (q.name, e.outcomeIn t found key q))) := by
  rw [entries_reportIn] at h
  obtain ⟨key, -, rfl⟩ := List.mem_map.1 h
  exact ⟨key, rfl⟩

/-! ## Accounts -/

/-- What an entry says of the queries of a run. Each query stands in one of three lists, in the order of the queries. It
is skipped without output of the engine or, if all of the cutoff is wanted, with fewer tables than that. It fails if the
output cannot be loaded, or if there is enough of it and it cannot be scored. In the remaining case it is recorded with
its metrics. -/
structure Accounts (entry : Report.Entry) : Prop where
  records : entry.distribution.records =
    queries.filterMap fun q => (e.outcomeIn t found entry.key q).record?.map (QueryRecord.mk q.name)
  skipped : entry.distribution.skipped =
    (queries.filter fun q => e.outcomeIn t found entry.key q = .missing).map Query.name
  failed : entry.distribution.failed =
    (queries.filter fun q => e.outcomeIn t found entry.key q = .failed).map Query.name
  summary : entry.summary = entry.distribution.summarize
  missing_iff : ∀ q, e.outcomeIn t found entry.key q = .missing ↔ e.predictedIn t found entry.key q = .ok none ∨
    ∃ predicted, e.predictedIn t found entry.key q = .ok (some predicted) ∧
      e.settings.evaluation.wantsFullTopK = true ∧ predicted.tables.toFinset.card < entry.key.k
  failed_iff : ∀ q, e.outcomeIn t found entry.key q = .failed ↔
    (∃ failure, e.predictedIn t found entry.key q = .error failure) ∨
      ∃ predicted failure, e.predictedIn t found entry.key q = .ok (some predicted) ∧
        ¬ (e.settings.evaluation.wantsFullTopK = true ∧ predicted.tables.toFinset.card < entry.key.k) ∧
        e.scoreIn found entry.key q predicted = .error failure
  scored_iff : ∀ q record, e.outcomeIn t found entry.key q = .scored record ↔
    ∃ predicted, e.predictedIn t found entry.key q = .ok (some predicted) ∧
      ¬ (e.settings.evaluation.wantsFullTopK = true ∧ predicted.tables.toFinset.card < entry.key.k) ∧
      e.scoreIn found entry.key q predicted = .ok record

theorem accounts_ofLog (key : EvaluationKey) :
    e.Accounts t found queries
      (.ofDistribution key (.ofLog (queries.map fun q => (q.name, e.outcomeIn t found key q)))) where
  records := List.filterMap_map
  skipped := by
    simp only [Report.Entry.ofDistribution, Report.Distribution.ofLog, List.filter_map, List.map_map]
    rfl
  failed := by
    simp only [Report.Entry.ofDistribution, Report.Distribution.ofLog, List.filter_map, List.map_map]
    rfl
  summary := rfl
  missing_iff q := (e.outcomeIn_iff t found key q).1
  failed_iff q := (e.outcomeIn_iff t found key q).2.1
  scored_iff q := (e.outcomeIn_iff t found key q).2.2

/-- **A run accounts for every query under every key.** If failures do not end a run, it succeeds, whatever files there
are and whatever was kept before. Without queries the report is empty; otherwise it has one entry for each key, in
order, which says of every query what happened to it. So the lists have as many names together as there are keys with
queries, and so have the totals, as far as 64 bits reach. -/
theorem run_accounts (hskip : e.settings.evaluation.onFailure = .skip) (cache : Cache) :
    ∃ report, (Cached.outcome t cache (e.run queries)).1 = .ok report ∧
      report.entries.map Report.Entry.key = (if queries = [] then [] else e.settings.keys) ∧
      (report.entries.Pairwise fun a b => compare a.key b.key = .lt) ∧
      (∀ entry ∈ report.entries, e.Accounts t (cache.found t e.settings.places.related) queries entry) ∧
      (report.totals.evaluated + report.totals.skipped + report.totals.failed) % Nat.pow 2 64 =
        e.settings.keys.length * queries.length % Nat.pow 2 64 ∧
      (e.settings.keys.length * queries.length < Nat.pow 2 64 →
        report.totals.evaluated + report.totals.skipped + report.totals.failed =
          e.settings.keys.length * queries.length) := by
  obtain ⟨kept, hrun, -⟩ := e.gives_run queries hskip cache rfl
  generalize cache.found t e.settings.places.related = found at hrun ⊢
  refine ⟨e.reportIn t found queries, by rw [hrun], e.keys_reportIn t found queries,
    e.keys_reportIn_sorted t found queries, ?_, ?_⟩
  · intro entry hmem
    obtain ⟨key, rfl⟩ := e.exists_of_mem_reportIn t found queries hmem
    exact e.accounts_ofLog t found queries key
  · rw [← e.length_reportIn t found queries]
    refine Report.totals_add fun entry hmem => ?_
    obtain ⟨key, rfl⟩ := e.exists_of_mem_reportIn t found queries hmem
    rw [← List.length_map fun q : Query => (q.name, e.outcomeIn t found key q)]
    exact Report.Distribution.length_ofLog _

/-- one engine variant at two cutoffs, with pages as relevance -/
def oneVariant : Evaluator where
  settings := {
    evaluation := { cutoffs := [1, 2], truth := .coMembership, wantsFullTopK := true }
    variants := [.baseline .types] }
  corpus := .ofList ["a", "b"]
  pages := .empty

/-- three queries -/
def threeQueries : List Query := [1, 2, 3].map fun page => ⟨page, "", ["a"], none⟩

/-- a file and the directories above it -/
def fileBelow (above : List String) (name text : String) : List (List String × FileEntry) :=
  (above ++ [name], .file (some text)) :: above.inits.tail.map fun place => (place, .directory)

/-- a file in the place of the engine's output for a query -/
def outputFor (cutoff name text : String) : List (List String × FileEntry) :=
  fileBelow ["baseline", "baseline_jaccard", cutoff, "1-tuple", "search_output", name] "filenameToScore.json" text

/-- The engine's output. At the first cutoff there is some for the first query, none for the second one, and a file that
holds none for the third one; at the second cutoff the same for the second and the first one, and too little for the
third one. -/
def threeOutputs : FileTree where
  entries := .ofList (
    outputFor "1" "wikipage_1" "\x7b\"scores\":[\x7b\"tableID\":\"a\",\"score\":0.5\x7d]\x7d" ++
    outputFor "1" "wikipage_3" "null" ++
    outputFor "2" "wikipage_1" "null" ++
    outputFor "2" "wikipage_2" "\x7b\"scores\":[[\"a\",0.5],[\"b\",0.25]]\x7d" ++
    outputFor "2" "wikipage_3" "\x7b\"scores\":[[\"a\",0.5],[\"a\",0.25]]\x7d")
  workingDirectory := []

/-- Under either key one query is evaluated, one has no output or only one table where two are wanted, and the output of
one cannot be read. -/
theorem run_accounts_three :
    oneVariant.settings.evaluation.onFailure = .skip ∧
    ∃ report, (Cached.outcome threeOutputs .empty (oneVariant.run threeQueries)).1 = .ok report ∧
      (report.entries.map fun entry => (entry.distribution.records.map QueryRecord.query, entry.distribution.skipped,
        entry.distribution.failed)) =
          [(["wikipage_1"], ["wikipage_2"], ["wikipage_3"]), (["wikipage_2"], ["wikipage_3"], ["wikipage_1"])] ∧
      report.totals.evaluated + report.totals.skipped + report.totals.failed = 6 := by
  have hskip : oneVariant.settings.evaluation.onFailure = .skip := rfl
  obtain ⟨report, hrun, -, -, -, -, htotals⟩ := oneVariant.run_accounts threeOutputs threeQueries hskip .empty
  have hunits : oneVariant.settings.keys.length * threeQueries.length = 6 := by decide +kernel
  have hlists : ((Cached.outcome threeOutputs .empty (oneVariant.run threeQueries)).1.toOption.map fun report =>
      report.entries.map fun entry => (entry.distribution.records.map QueryRecord.query, entry.distribution.skipped,
        entry.distribution.failed)) =
      some [(["wikipage_1"], ["wikipage_2"], ["wikipage_3"]), (["wikipage_2"], ["wikipage_3"], ["wikipage_1"])] := by
    decide +kernel
  rw [hrun] at hlists
  rw [hunits] at htotals
  exact ⟨hskip, report, hrun, Option.some.inj hlists, htotals (by decide)⟩

end Evaluator

end RankEval
