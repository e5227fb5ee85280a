/-
Runs with several workers. What a query gives under a key does not depend on what was done before it. So the order in
which the workers are done decides in which order the queries are listed, and which of several failures ends a run; but
not which queries are in a list, and not whether a run ends early.

- `runBy_of_single`: a single worker.
- `Report.same_ofEvents`: two orders of the same calls.
- `gives_runBy`: what a run gives by a schedule.
- `runBy_agrees`: any two schedules.
-/
import RankEval.Proofs.Campaign.Abort
import RankEval.Proofs.Report.Workers

namespace RankEval

open Report (Ledger)

/-- two reports with the same queries in every list, but maybe in another order -/
def Report.Same (r r' : Report) : Prop :=
  List.Forall₂ (fun entry entry' => entry.key = entry'.key ∧ entry.distribution.Same entry'.distribution) r.entries
    r'.entries

/-- the order of the calls does not matter -/
theorem Report.same_ofEvents {events events' : List Ledger.Event} (h : events.Perm events') :
    (Report.ofLedger (.ofEvents events)).Same (.ofLedger (.ofEvents events')) := by
  have hkeys : (Ledger.ofEvents events).keys = (Ledger.ofEvents events').keys := by
    refine Ledger.keys_ofEvents (Ledger.keys_sorted _) fun key => ?_
    rw [Ledger.mem_keys_ofEvents]
    simp only [h.mem_iff]
  rw [Report.Same, Report.entries_ofLedger, Report.entries_ofLedger, hkeys, List.forall₂_map_left_iff,
    List.forall₂_map_right_iff, List.forall₂_same]
  refine fun key _ => ⟨rfl, ?_⟩
  change ((Ledger.ofEvents events).held key).Same ((Ledger.ofEvents events').held key)
  rw [Ledger.held_ofEvents, Ledger.held_ofEvents]
  exact Report.Distribution.same_ofLog (Ledger.logOf_perm h key)

namespace Evaluator

open Cached (Gives outcome)

variable (e : Evaluator) (t : FileTree) (queries : List Query)

/-- a single worker makes a run key by key -/
theorem runBy_of_single (schedule : Schedule) (h : e.settings.evaluation.workers = 1) :
    e.runBy schedule queries = e.run queries := by
  rw [runBy, h, schedule.single, run]

/-- the failure that ends a run by a schedule, if one does -/
def endingIn (schedule : Schedule) (found : Found) : Option Failure :=
  match e.settings.evaluation.onFailure with
  | .skip => none
  | .abort => (schedule.order e.settings.evaluation.workers (e.units queries)).findSome? (e.failureIn t found)

/-- the report of a run by a schedule -/
def scheduledIn (schedule : Schedule) (found : Found) : Report :=
  .ofLedger (.ofEvents ((schedule.order e.settings.evaluation.workers (e.units queries)).map (e.eventOf t found)))

theorem gives_runBy (schedule : Schedule) (found : Found) :
    Gives t e.settings.places.related found (e.runBy schedule queries)
      ((e.endingIn t queries schedule found).elim (.ok (e.scheduledIn t queries schedule found)) .error) := by
  unfold endingIn
  cases hpolicy : e.settings.evaluation.onFailure with
  | skip => exact e.gives_runUnits hpolicy _
  | abort => exact e.gives_runUnits_abort t found hpolicy _

theorem same_scheduledIn (schedule schedule' : Schedule) (found : Found) :
    (e.scheduledIn t queries schedule found).Same (e.scheduledIn t queries schedule' found) :=
  Report.same_ofEvents (((schedule.perm _ _).trans (schedule'.perm _ _).symm).map _)

/-- a failure that ends a run is that of a query under a key -/
theorem exists_of_endingIn {schedule : Schedule} {found : Found} {failure : Failure}
    (h : e.endingIn t queries schedule found = some failure) :
    ∃ key ∈ e.settings.keys, ∃ q ∈ queries, e.evaluateIn t found key q = .error failure := by
  unfold endingIn at h
  split at h
  · cases h
  · obtain ⟨⟨key, q⟩, hunit, hfailure⟩ := List.exists_of_findSome?_eq_some h
    obtain ⟨hkey, hq⟩ := (e.mem_units_iff queries key q).1 ((schedule.perm _ _).mem_iff.1 hunit)
    exact ⟨key, hkey, q, hq, (e.failureIn_eq_some_iff t found (key, q) failure).1 hfailure⟩

/-- whether a run ends early does not depend on the schedule -/
theorem endingIn_eq_none_iff (schedule schedule' : Schedule) (found : Found) :
    e.endingIn t queries schedule found = none ↔ e.endingIn t queries schedule' found = none := by
  unfold endingIn
  cases e.settings.evaluation.onFailure with
  | skip => exact Iff.rfl
  | abort =>
    simp only [List.findSome?_eq_none_iff, (schedule.perm _ _).mem_iff, (schedule'.perm _ _).mem_iff]

/-- **The order in which workers are done does not decide what a run comes to.** By any two schedules a run gives
reports with the same keys and the same queries in every list, or it ends by both with the failure of some query. -/
theorem runBy_agrees (schedule schedule' : Schedule) (cache : Cache) :
    (∃ report report', (outcome t cache (e.runBy schedule queries)).1 = .ok report ∧
      (outcome t cache (e.runBy schedule' queries)).1 = .ok report' ∧ report.Same report') ∨
    ∃ failure failure', (outcome t cache (e.runBy schedule queries)).1 = .error failure ∧
      (outcome t cache (e.runBy schedule' queries)).1 = .error failure' ∧
      ∀ ending ∈ [failure, failure'], ∃ key ∈ e.settings.keys, ∃ q ∈ queries,
        (outcome t cache (e.evaluate key q)).1 = .error ending := by
  obtain ⟨kept, hrun, -⟩ := e.gives_runBy t queries schedule _ cache rfl
  obtain ⟨kept', hrun', -⟩ := e.gives_runBy t queries schedule' _ cache rfl
  rw [hrun, hrun']
  simp only [outcome_evaluate]
  generalize cache.found t e.settings.places.related = found
  have hnone := e.endingIn_eq_none_iff t queries schedule schedule' found
  cases hending : e.endingIn t queries schedule found with
  | none =>
    rw [hnone.1 hending]
    exact .inl ⟨_, _, rfl, rfl, e.same_scheduledIn t queries schedule schedule' found⟩
  | some failure =>
    cases hending' : e.endingIn t queries schedule' found with
    | none => rw [hnone.2 hending'] at hending; cases hending
    | some failure' =>
      refine .inr ⟨failure, failure', rfl, rfl, ?_⟩
      simp only [List.forall_mem_cons, List.not_mem_nil, false_imp_iff, implies_true, and_true]
      exact ⟨e.exists_of_endingIn t queries hending, e.exists_of_endingIn t queries hending'⟩

end Evaluator

end RankEval
