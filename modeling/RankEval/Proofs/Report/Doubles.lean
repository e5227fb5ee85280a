/-
The doubles in a report, and reports in which every double is replaced by another one.

- `traverse_eq_self_iff`: a report stays as it is iff every double in it does.
-/
import Mathlib.Tactic
import RankEval.Report.Basic

namespace RankEval

section
variable {α : Type} {f : α → Option α}

theorem mapM_eq_self_iff (xs : List α) : xs.mapM f = some xs ↔ ∀ x ∈ xs, f x = some x := by
  induction xs with
  | nil => simp
  | cons x xs ih =>
    rw [List.mapM_cons, List.forall_mem_cons, ← ih]
    cases f x with
    | none => simp
    | some y => cases xs.mapM f <;> simp

theorem optionMapM_eq_self_iff (x : Option α) : x.mapM f = some x ↔ ∀ y ∈ x.toList, f y = some y := by
  cases x with
  | none => simp
  | some x => cases h : f x <;> simp [h]

end

namespace Metric.Record

/-- the doubles in a record -/
def doubles (r : Record) : List Float := r.ndcg :: r.precisionAtK :: r.recallAtK :: r.auc.toList

/-- the record with every double replaced; nothing if there is no replacement for one of them -/
def traverse (f : Float → Option Float) (r : Record) : Option Record := do
  let ndcg ← f r.ndcg
  let precisionAtK ← f r.precisionAtK
  let recallAtK ← f r.recallAtK
  let auc ← r.auc.mapM f
  return { r with ndcg, precisionAtK, recallAtK, auc }

theorem traverse_eq_self_iff (f : Float → Option Float) (r : Record) :
    r.traverse f = some r ↔ ∀ x ∈ r.doubles, f x = some x := by
  obtain ⟨k, ndcg, precisionAtK, recallAtK, auc, relevant⟩ := r
  simp only [traverse, doubles, List.forall_mem_cons, ← optionMapM_eq_self_iff]
  cases f ndcg <;> cases f precisionAtK <;> cases f recallAtK <;> cases auc.mapM f <;> simp

end Metric.Record

namespace Report

namespace FieldSummary

def doubles (s : FieldSummary Float) : List Float := s.mean.toList ++ s.deviation.toList ++ s.values

def traverse (f : Float → Option Float) (s : FieldSummary Float) : Option (FieldSummary Float) := do
  let mean ← s.mean.mapM f
  let deviation ← s.deviation.mapM f
  let values ← s.values.mapM f
  return { s with mean, deviation, values }

theorem traverse_eq_self_iff (f : Float → Option Float) (s : FieldSummary Float) :
    s.traverse f = some s ↔ ∀ x ∈ s.doubles, f x = some x := by
  obtain ⟨mean, deviation, count, values⟩ := s
  simp only [traverse, doubles, List.forall_mem_append, ← optionMapM_eq_self_iff, ← mapM_eq_self_iff]
  cases mean.mapM f <;> cases deviation.mapM f <;> cases values.mapM f <;> simp [and_assoc]

end FieldSummary

namespace Summary

/-- the summaries of the five metrics -/
def metrics (s : Summary) : List (FieldSummary Float) := [s.ndcg, s.precisionAtK, s.recallAtK, s.auc, s.relevant]

def doubles (s : Summary) : List Float := s.metrics.flatMap FieldSummary.doubles

def traverse (f : Float → Option Float) (s : Summary) : Option Summary := do
  let ndcg ← s.ndcg.traverse f
  let precisionAtK ← s.precisionAtK.traverse f
  let recallAtK ← s.recallAtK.traverse f
  let auc ← s.auc.traverse f
  let relevant ← s.relevant.traverse f
  return { s with ndcg, precisionAtK, recallAtK, auc, relevant }

theorem traverse_eq_self_iff (f : Float → Option Float) (s : Summary) :
    s.traverse f = some s ↔ ∀ x ∈ s.doubles, f x = some x := by
  have hdoubles : (∀ x ∈ s.doubles, f x = some x) ↔ ∀ m ∈ s.metrics, m.traverse f = some m := by
    simp only [doubles, List.forall_mem_flatMap, FieldSummary.traverse_eq_self_iff]
  obtain ⟨count, skipped, failed, ndcg, precisionAtK, recallAtK, auc, relevant⟩ := s
  rw [hdoubles]
  simp only [traverse, metrics, List.forall_mem_cons]
  cases ndcg.traverse f <;> cases precisionAtK.traverse f <;> cases recallAtK.traverse f <;> cases auc.traverse f <;>
    cases relevant.traverse f <;> simp

end Summary

namespace QueryRecord

def traverse (f : Float → Option Float) (r : QueryRecord) : Option QueryRecord := do
  let record ← r.record.traverse f
  return { r with record }

theorem traverse_eq_self_iff (f : Float → Option Float) (r : QueryRecord) :
    r.traverse f = some r ↔ ∀ x ∈ r.record.doubles, f x = some x := by
  obtain ⟨query, record⟩ := r
  rw [← Metric.Record.traverse_eq_self_iff]
  unfold traverse
  cases record.traverse f <;> simp

end QueryRecord

namespace Distribution

def doubles (d : Distribution) : List Float := d.records.flatMap fun r => r.record.doubles

def traverse (f : Float → Option Float) (d : Distribution) : Option Distribution := do
  let records ← d.records.mapM (QueryRecord.traverse f)
  return { d with records }

theorem traverse_eq_self_iff (f : Float → Option Float) (d : Distribution) :
    d.traverse f = some d ↔ ∀ x ∈ d.doubles, f x = some x := by
  have hdoubles : (∀ x ∈ d.doubles, f x = some x) ↔ d.records.mapM (QueryRecord.traverse f) = some d.records := by
    simp only [doubles, List.forall_mem_flatMap, mapM_eq_self_iff, QueryRecord.traverse_eq_self_iff]
  obtain ⟨records, skipped, failed⟩ := d
  rw [hdoubles]
  unfold traverse
  cases records.mapM (QueryRecord.traverse f) <;> simp

end Distribution

namespace Entry

def doubles (e : Entry) : List Float := e.summary.doubles ++ e.distribution.doubles

def traverse (f : Float → Option Float) (e : Entry) : Option Entry := do
  let summary ← e.summary.traverse f
  let distribution ← e.distribution.traverse f
  return { e with summary, distribution }

theorem traverse_eq_self_iff (f : Float → Option Float) (e : Entry) :
    e.traverse f = some e ↔ ∀ x ∈ e.doubles, f x = some x := by
  obtain ⟨key, summary, distribution⟩ := e
  simp only [doubles, traverse, List.forall_mem_append, ← Summary.traverse_eq_self_iff,
    ← Distribution.traverse_eq_self_iff]
  cases summary.traverse f <;> cases distribution.traverse f <;> simp

end Entry

/-- the doubles in a report, in records and in summaries -/
def doubles (r : Report) : List Float := r.entries.flatMap Entry.doubles

/-- the report with every double replaced -/
def traverse (f : Float → Option Float) (r : Report) : Option Report :=
  (r.entries.mapM (Entry.traverse f)).map Report.mk

theorem traverse_eq_self_iff (f : Float → Option Float) (r : Report) :
    r.traverse f = some r ↔ ∀ x ∈ r.doubles, f x = some x := by
  have hdoubles : (∀ x ∈ r.doubles, f x = some x) ↔ r.entries.mapM (Entry.traverse f) = some r.entries := by
    simp only [doubles, List.forall_mem_flatMap, mapM_eq_self_iff, Entry.traverse_eq_self_iff]
  obtain ⟨entries⟩ := r
  rw [hdoubles]
  unfold traverse
  cases entries.mapM (Entry.traverse f) <;> simp

end Report

end RankEval
