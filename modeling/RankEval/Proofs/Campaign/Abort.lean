/-
Two runs over the same files, one that a failure ends and one that logs failures and goes on. They do the same up to the
first failure. A query without output of the engine is no failure, so it ends neither run.

The first run stops early, so the two do not read the same files and do not keep the same ones. That does not matter,
since what a query gives does not depend on what is kept: every step can be compared with the same step of the other
run.

- `stepIn_abort`: what a step does if a failure ends the run.
- `foldlM_stepIn_abort`, `gives_runUnits_abort`, `gives_run_abort`: what a run does.
- `exists_failed_iff`: when the other run logs a failure.
- `abort_run`: the two runs, compared.
- `abort_run_three`: a query without output, then one that fails.
-/
import RankEval.Proofs.Campaign.Accounts

namespace RankEval.Evaluator

open Report (Ledger Outcome)
open Cached (Gives outcome)

/-- the same evaluation, with another answer to failures -/
def withPolicy (e : Evaluator) (policy : Settings.OnFailure) : Evaluator :=
  { e with settings := { e.settings with evaluation := { e.settings.evaluation with onFailure := policy } } }

variable (e : Evaluator) (t : FileTree) (found : Found) (queries : List Query)

/-! ## Steps that fail -/

/-- the failure that a query under a key gives, if it does -/
def failureIn (unit : EvaluationKey × Query) : Option Failure :=
  match e.evaluateIn t found unit.1 unit.2 with
  | .ok _ => none
  | .error failure => some failure

theorem failureIn_eq_some_iff (unit : EvaluationKey × Query) (failure : Failure) :
    e.failureIn t found unit = some failure ↔ e.evaluateIn t found unit.1 unit.2 = .error failure := by
  unfold failureIn
  cases e.evaluateIn t found unit.1 unit.2 <;> simp

theorem failureIn_eq_none_iff (unit : EvaluationKey × Query) :
    e.failureIn t found unit = none ↔ ∃ metrics, e.evaluateIn t found unit.1 unit.2 = .ok metrics := by
  unfold failureIn
  cases e.evaluateIn t found unit.1 unit.2 <;> simp

theorem outcomeIn_eq_failed_iff (unit : EvaluationKey × Query) :
    e.outcomeIn t found unit.1 unit.2 = .failed ↔ e.failureIn t found unit ≠ none := by
  unfold outcomeIn failureIn
  rcases e.evaluateIn t found unit.1 unit.2 with failure | _ | record <;> simp

/-- what a step logs if nothing fails -/
def logIn (l : Ledger) (unit : EvaluationKey × Query) : Ledger :=
  l.log unit.1 unit.2.name (e.outcomeIn t found unit.1 unit.2)

/-- under `abort`, a step fails if its query does, and otherwise logs what happens -/
theorem stepIn_abort (habort : e.settings.evaluation.onFailure = .abort) (l : Ledger) (unit : EvaluationKey × Query) :
    e.stepIn t found l unit = (e.failureIn t found unit).elim (.ok (e.logIn t found l unit)) .error := by
  unfold stepIn failureIn logIn outcomeIn
  rw [habort]
  rcases e.evaluateIn t found unit.1 unit.2 with failure | _ | record <;> rfl

/-- some steps, up to the first one that fails -/
theorem foldlM_stepIn_abort (habort : e.settings.evaluation.onFailure = .abort)
    (units : List (EvaluationKey × Query)) (l : Ledger) :
    units.foldlM (e.stepIn t found) l =
      (units.findSome? (e.failureIn t found)).elim (.ok (units.foldl (e.logIn t found) l)) .error := by
  induction units generalizing l with
  | nil => rfl
  | cons unit units ih =>
    rw [List.foldlM_cons, e.stepIn_abort t found habort, List.findSome?_cons]
    cases hfailure : e.failureIn t found unit with
    | some failure => rfl
    | none => exact ih (e.logIn t found l unit)

/-- what a run gives if a failure ends it -/
def abortIn : Except Failure Report :=
  ((e.units queries).findSome? (e.failureIn t found)).elim (.ok (e.reportIn t found queries)) .error

/-- queries under keys, in whatever order, up to the first one that fails -/
theorem gives_runUnits_abort (habort : e.settings.evaluation.onFailure = .abort)
    (units : List (EvaluationKey × Query)) :
    Gives t e.settings.places.related found (e.runUnits units) ((units.findSome? (e.failureIn t found)).elim
      (.ok (.ofLedger (.ofEvents (units.map (e.eventOf t found))))) .error) := by
  have hsteps := Cached.gives_foldlM (@gives_step e t found) units .empty
  have hrun := Cached.gives_map hsteps Report.ofLedger
  rw [e.foldlM_stepIn_abort t found habort] at hrun
  rw [Ledger.ofEvents, List.foldl_map]
  generalize units.findSome? (e.failureIn t found) = first at hrun ⊢
  cases first with
  | none => exact hrun
  | some failure => exact hrun

theorem gives_run_abort (habort : e.settings.evaluation.onFailure = .abort) :
    Gives t e.settings.places.related found (e.run queries) (e.abortIn t found queries) :=
  e.gives_runUnits_abort t found habort (e.units queries)

theorem abortIn_eq_error_iff (failure : Failure) :
    e.abortIn t found queries = .error failure ↔
      (e.units queries).findSome? (e.failureIn t found) = some failure := by
  unfold abortIn
  cases (e.units queries).findSome? (e.failureIn t found) <;> simp

theorem abortIn_eq_ok (h : (e.units queries).findSome? (e.failureIn t found) = none) :
    e.abortIn t found queries = .ok (e.reportIn t found queries) := by
  rw [abortIn, h, Option.elim_none]

/-! ## What the other run logs -/

theorem mem_units_iff (key : EvaluationKey) (q : Query) :
    (key, q) ∈ e.units queries ↔ key ∈ e.settings.keys ∧ q ∈ queries := by
  simp [units]

/-- what a run that goes on logs as failed under a key -/
theorem failed_ne_nil_iff (key : EvaluationKey) :
    (Report.Distribution.ofLog (queries.map fun q => (q.name, e.outcomeIn t found key q))).failed ≠ [] ↔
      ∃ q ∈ queries, e.failureIn t found (key, q) ≠ none := by
  rw [Report.Distribution.ofLog, ne_eq, List.map_eq_nil_iff, List.filter_eq_nil_iff]
  push Not
  constructor
  · rintro ⟨logged, hmem, houtcome⟩
    obtain ⟨q, hq, rfl⟩ := List.mem_map.1 hmem
    exact ⟨q, hq, (e.outcomeIn_eq_failed_iff t found (key, q)).1 (of_decide_eq_true houtcome)⟩
  · rintro ⟨q, hq, hfailure⟩
    refine ⟨_, List.mem_map_of_mem hq, decide_eq_true ?_⟩
    exact (e.outcomeIn_eq_failed_iff t found (key, q)).2 hfailure

/-- a run that goes on logs a failure iff some query fails under some key -/
theorem exists_failed_iff :
    (∃ entry ∈ (e.reportIn t found queries).entries, entry.distribution.failed ≠ []) ↔
      (e.units queries).findSome? (e.failureIn t found) ≠ none := by
  rw [entries_reportIn, ne_eq, List.findSome?_eq_none_iff]
  constructor
  · rintro ⟨entry, hentry, hne⟩ hnone
    obtain ⟨key, hkey, rfl⟩ := List.mem_map.1 hentry
    obtain ⟨q, hq, hfailure⟩ := (e.failed_ne_nil_iff t found queries key).1 hne
    rw [if_neg (List.ne_nil_of_mem hq)] at hkey
    exact hfailure (hnone (key, q) ((e.mem_units_iff queries key q).2 ⟨hkey, hq⟩))
  · intro hsome
    push Not at hsome
    obtain ⟨⟨key, q⟩, hunit, hfailure⟩ := hsome
    obtain ⟨hkey, hq⟩ := (e.mem_units_iff queries key q).1 hunit
    refine ⟨_, List.mem_map_of_mem ?_, (e.failed_ne_nil_iff t found queries key).2 ⟨q, hq, hfailure⟩⟩
    rw [if_neg (List.ne_nil_of_mem hq)]
    exact hkey

/-! ## Both runs -/

/-- Whether a failure is that of the first query that fails: under the least key under which any query fails, and there
of the first query in the list that does. Every other query before it has metrics, or no usable output. -/
def FirstFailure (cache : Cache) (failure : Failure) : Prop :=
  ∃ key ∈ e.settings.keys, ∃ before q after, queries = before ++ q :: after ∧
    (∀ lesser ∈ e.settings.keys, compare lesser key = .lt → ∀ other ∈ queries,
      ∃ metrics, (outcome t cache (e.evaluate lesser other)).1 = .ok metrics) ∧
    (∀ earlier ∈ before, ∃ metrics, (outcome t cache (e.evaluate key earlier)).1 = .ok metrics) ∧
    (outcome t cache (e.evaluate key q)).1 = .error failure

theorem outcome_evaluate (cache : Cache) (key : EvaluationKey) (q : Query) :
    (outcome t cache (e.evaluate key q)).1 = e.evaluateIn t (cache.found t e.settings.places.related) key q := by
  obtain ⟨kept, hrun, -⟩ := e.gives_evaluate key q cache rfl
  rw [hrun]

/-- the first of all units that fails is the first under the first key under which one fails -/
theorem findSome?_units (f : EvaluationKey × Query → Option Failure) :
    (e.units queries).findSome? f = e.settings.keys.findSome? fun key => queries.findSome? fun q => f (key, q) := by
  unfold units
  induction e.settings.keys with
  | nil => rfl
  | cons key keys ih =>
    rw [List.flatMap_cons, List.findSome?_append, List.findSome?_map, ih, List.findSome?_cons]
    change (queries.findSome? fun q => f (key, q)).or _ = _
    cases queries.findSome? fun q => f (key, q) <;> rfl

theorem firstFailure_iff (cache : Cache) (failure : Failure) :
    e.FirstFailure t queries cache failure ↔
      (e.units queries).findSome? (e.failureIn t (cache.found t e.settings.places.related)) = some failure := by
  have hsorted := e.settings.keys_sorted
  unfold FirstFailure
  simp only [outcome_evaluate]
  generalize cache.found t e.settings.places.related = found
  rw [findSome?_units, List.findSome?_eq_some_iff]
  simp only [List.findSome?_eq_some_iff, List.findSome?_eq_none_iff, failureIn_eq_some_iff, failureIn_eq_none_iff]
  constructor
  · rintro ⟨key, hkey, before, q, after, hqueries, hlesser, hearlier, hfails⟩
    obtain ⟨keysBefore, keysAfter, hkeys⟩ := List.append_of_mem hkey
    refine ⟨keysBefore, key, keysAfter, hkeys, ⟨before, q, after, hqueries, hfails, hearlier⟩, fun other hother => ?_⟩
    have hmem : other ∈ e.settings.keys := hkeys ▸ List.mem_append_left _ hother
    rw [hkeys] at hsorted
    exact hlesser other hmem ((EvaluationKey.mem_before_iff hsorted (hkeys ▸ hmem)).1 hother)
  · rintro ⟨keysBefore, key, keysAfter, hkeys, ⟨before, q, after, hqueries, hfails, hearlier⟩, hbefore⟩
    have hkey : key ∈ e.settings.keys := hkeys ▸ List.mem_append_right _ List.mem_cons_self
    refine ⟨key, hkey, before, q, after, hqueries, fun other hother hlt => ?_, hearlier, hfails⟩
    rw [hkeys] at hsorted hother
    exact hbefore other ((EvaluationKey.mem_before_iff hsorted hother).2 hlt)

theorem outcome_run_skip (cache : Cache) :
    (outcome t cache ((e.withPolicy .skip).run queries)).1 =
      .ok (e.reportIn t (cache.found t e.settings.places.related) queries) := by
  have hskip : (e.withPolicy .skip).settings.evaluation.onFailure = .skip := rfl
  obtain ⟨kept, hrun, -⟩ := @gives_run (e.withPolicy .skip) t _ queries hskip cache rfl
  rw [hrun]
  -- nothing that is found or reported depends on the answer to failures
  rfl

theorem outcome_run_abort (cache : Cache) :
    (outcome t cache ((e.withPolicy .abort).run queries)).1 =
      e.abortIn t (cache.found t e.settings.places.related) queries := by
  have habort : (e.withPolicy .abort).settings.evaluation.onFailure = .abort := rfl
  obtain ⟨kept, hrun, -⟩ := (e.withPolicy .abort).gives_run_abort t _ queries habort cache rfl
  rw [hrun]
  rfl

/-- **A run that a failure ends does what one that goes on does, up to the first failure.** The run that goes on
succeeds. The other one fails iff a failure is logged there, and then with the failure of the first query that fails
under the least key, whether or not others before it have output. If no failure is logged, both give the same report. -/
theorem abort_run (cache : Cache) :
    ∃ report, (outcome t cache ((e.withPolicy .skip).run queries)).1 = .ok report ∧
      ((∃ failure, (outcome t cache ((e.withPolicy .abort).run queries)).1 = .error failure) ↔
        ∃ entry ∈ report.entries, entry.distribution.failed ≠ []) ∧
      (∀ failure, (outcome t cache ((e.withPolicy .abort).run queries)).1 = .error failure ↔
        e.FirstFailure t queries cache failure) ∧
      ((∀ entry ∈ report.entries, entry.distribution.failed = []) →
        (outcome t cache ((e.withPolicy .abort).run queries)).1 = .ok report) := by
  refine ⟨_, e.outcome_run_skip t queries cache, ?_⟩
  rw [outcome_run_abort]
  refine ⟨?_, fun failure => ?_, fun hnone => ?_⟩
  · rw [exists_failed_iff, Option.ne_none_iff_exists']
    simp only [abortIn_eq_error_iff]
  · rw [abortIn_eq_error_iff, firstFailure_iff]
  · apply abortIn_eq_ok
    by_contra hsome
    obtain ⟨entry, hentry, hfailed⟩ := (e.exists_failed_iff t _ queries).2 hsome
    exact hfailed (hnone entry hentry)

/-- the second query alone -/
def secondQuery : List Query := (threeQueries.drop 1).take 1

/-- the failure of the third query at the first cutoff -/
def unreadableOutput : Failure :=
  .malformed "baseline/baseline_jaccard/1/1-tuple/search_output/wikipage_3/filenameToScore.json" .shape

/-- The third query cannot be evaluated at the first cutoff, and the first query cannot at the second one. So a run of
all three ends with the failure of the third query. The second query has no output at the first cutoff, which ends no
run. -/
theorem abort_run_three :
    ((outcome threeOutputs .empty ((oneVariant.withPolicy .abort).run threeQueries)).1 = .error unreadableOutput ∧
      oneVariant.FirstFailure threeOutputs threeQueries .empty unreadableOutput) ∧
    ∃ report, (outcome threeOutputs .empty ((oneVariant.withPolicy .abort).run secondQuery)).1 = .ok report ∧
      (report.entries.map fun entry => (entry.distribution.skipped, entry.distribution.failed)) =
        [(["wikipage_2"], []), ([], [])] := by
  constructor
  · obtain ⟨report, -, -, hfirst, -⟩ := oneVariant.abort_run threeOutputs threeQueries .empty
    have hcomputed : (match (outcome threeOutputs .empty ((oneVariant.withPolicy .abort).run threeQueries)).1 with
        | .error failure => some failure
        | .ok _ => none) = some unreadableOutput := by
      decide +kernel
    split at hcomputed
    · next failure habort =>
      obtain rfl := Option.some.inj hcomputed
      exact ⟨habort, (hfirst _).1 habort⟩
    · cases hcomputed
  · obtain ⟨report, hskip, -, -, hsame⟩ := oneVariant.abort_run threeOutputs secondQuery .empty
    have hlists : ((outcome threeOutputs .empty ((oneVariant.withPolicy .skip).run secondQuery)).1.toOption.map
        fun report => report.entries.map fun entry => (entry.distribution.skipped, entry.distribution.failed)) =
          some [(["wikipage_2"], []), ([], [])] := by
      decide +kernel
    rw [hskip] at hlists
    have hentries : (report.entries.map fun entry => (entry.distribution.skipped, entry.distribution.failed)) =
        [(["wikipage_2"], []), ([], [])] := Option.some.inj hlists
    refine ⟨report, hsame fun entry hentry => ?_, hentries⟩
    have hmem : (entry.distribution.skipped, entry.distribution.failed) ∈
        [(["wikipage_2"], []), ([], ([] : List String))] := by
      rw [← hentries]
      exact List.mem_map_of_mem hentry
    simp only [List.mem_cons, Prod.mk.injEq, List.not_mem_nil, or_false] at hmem
    rcases hmem with ⟨-, hfailed⟩ | ⟨-, hfailed⟩
    · exact hfailed
    · exact hfailed

end RankEval.Evaluator
