/-
What a ledger holds after a number of events, and what a report on it holds.

Every event stands in exactly one list of exactly one key, in the order in which the events were logged. A report has an
entry for each key under which anything was logged, and its totals are those of all lists, as 64-bit numbers.

- `distribution?_ofEvents`: what is held for a key after a number of events.
- `keys_ofEvents`: the keys of a sorted list, each with some event, are the keys of the ledger.
- `entries_ofLedger`, `keys_ofLedger`: the entries of a report.
- `totals_eq`, `totals_add_eq`: the totals of a report.
-/
import Mathlib.Tactic
import RankEval.Proofs.Engine.Order
import RankEval.Report.Basic

namespace RankEval.Report

/-! ## One key -/

/-- the metrics of a query that was evaluated -/
def Outcome.record? : Outcome → Option Metric.Record
  | .scored record => some record
  | .missing | .failed => none

/-- what happened to some queries, each in the list that it belongs to -/
def Distribution.ofLog (log : List (String × Outcome)) : Distribution where
  records := log.filterMap fun e => e.2.record?.map (QueryRecord.mk e.1)
  skipped := (log.filter fun e => e.2 = .missing).map Prod.fst
  failed := (log.filter fun e => e.2 = .failed).map Prod.fst

namespace Distribution

theorem ofLog_append_singleton (log : List (String × Outcome)) (query : String) (outcome : Outcome) :
    ofLog (log ++ [(query, outcome)]) = Ledger.append (ofLog log) query outcome := by
  cases outcome <;> simp [ofLog, Ledger.append, Outcome.record?]

/-- no query is lost, and none is counted twice -/
theorem length_ofLog (log : List (String × Outcome)) :
    (ofLog log).records.length + (ofLog log).skipped.length + (ofLog log).failed.length = log.length := by
  induction log using List.reverseRecOn with
  | nil => rfl
  | append_singleton log e ih =>
    obtain ⟨query, outcome⟩ := e
    rw [ofLog_append_singleton, List.length_append, ← ih]
    cases outcome <;> simp only [Ledger.append, List.length_append, List.length_singleton] <;> omega

end Distribution

/-! ## All keys -/

namespace Ledger

/-- something that happened to a query under a key -/
structure Event where
  key : EvaluationKey
  query : String
  outcome : Outcome

/-- the ledger in which some events were logged, one after the other -/
def ofEvents (events : List Event) : Ledger := events.foldl (fun l e => l.log e.key e.query e.outcome) .empty

/-- what happened under one of the keys -/
def logOf (events : List Event) (key : EvaluationKey) : List (String × Outcome) :=
  (events.filter fun e => e.key = key).map fun e => (e.query, e.outcome)

/-- an event changes what is held for its key and for no other one -/
theorem distribution?_log (l : Ledger) (key key' : EvaluationKey) (query : String) (outcome : Outcome) :
    (l.log key query outcome).distribution? key' =
      if key = key' then some (append ((l.distribution? key').getD .empty) query outcome)
      else l.distribution? key' := by
  unfold log distribution?
  rw [Std.TreeMap.getElem?_alter]
  by_cases h : key = key'
  · subst h
    simp
  · rw [if_neg h, if_neg (by rwa [Std.LawfulEqOrd.compare_eq_iff_eq])]

theorem logOf_append_singleton (events : List Event) (e : Event) (key : EvaluationKey) :
    logOf (events ++ [e]) key =
      if e.key = key then logOf events key ++ [(e.query, e.outcome)] else logOf events key := by
  unfold logOf
  by_cases h : e.key = key <;> simp [h]

/-- **What is held for a key**: everything that happened under it, in order, and nothing if nothing did. -/
theorem distribution?_ofEvents (events : List Event) (key : EvaluationKey) :
    (ofEvents events).distribution? key =
      if logOf events key = [] then none else some (.ofLog (logOf events key)) := by
  -- by the last event: under its own key it is added at the end, under any other one nothing changes
  induction events using List.reverseRecOn with
  | nil => rfl
  | append_singleton events e ih =>
    rw [ofEvents, List.foldl_append]
    change ((ofEvents events).log e.key e.query e.outcome).distribution? key = _
    rw [distribution?_log, logOf_append_singleton]
    by_cases h : e.key = key
    · have hheld : ((ofEvents events).distribution? key).getD .empty = .ofLog (logOf events key) := by
        rw [ih]
        by_cases hnone : logOf events key = []
        · rw [if_pos hnone, hnone]
          rfl
        · rw [if_neg hnone]
          rfl
      rw [if_pos h, if_pos h, if_neg (List.append_ne_nil_of_right_ne_nil _ (List.cons_ne_nil _ _)), hheld,
        Distribution.ofLog_append_singleton]
    · rw [if_neg h, if_neg h, ih]

/-- the keys of a ledger are in order -/
theorem keys_sorted (l : Ledger) : l.keys.Pairwise fun a b => compare a b = .lt := Std.TreeMap.ordered_keys

theorem mem_keys_iff (l : Ledger) (key : EvaluationKey) : key ∈ l.keys ↔ (l.distribution? key).isSome := by
  unfold keys distribution?
  rw [Std.TreeMap.mem_keys, Std.TreeMap.mem_iff_isSome_getElem?]

theorem logOf_eq_nil_iff (events : List Event) (key : EvaluationKey) :
    logOf events key = [] ↔ ¬ ∃ e ∈ events, e.key = key := by
  unfold logOf
  rw [List.map_eq_nil_iff, List.filter_eq_nil_iff]
  simp

theorem isSome_ofEvents (events : List Event) (key : EvaluationKey) :
    ((ofEvents events).distribution? key).isSome ↔ ∃ e ∈ events, e.key = key := by
  rw [distribution?_ofEvents, ← not_iff_not, ← logOf_eq_nil_iff]
  split <;> simp [*]

theorem mem_keys_ofEvents (events : List Event) (key : EvaluationKey) :
    key ∈ (ofEvents events).keys ↔ ∃ e ∈ events, e.key = key := by
  rw [mem_keys_iff, isSome_ofEvents]

theorem keys_ofEvents {events : List Event} {keys : List EvaluationKey}
    (hsorted : keys.Pairwise fun a b => compare a b = .lt) (h : ∀ key, key ∈ keys ↔ ∃ e ∈ events, e.key = key) :
    (ofEvents events).keys = keys := by
  -- both lists are sorted, so that only their members matter
  refine EvaluationKey.ext_of_sorted (keys_sorted _) hsorted fun key => ?_
  rw [mem_keys_ofEvents, h]

/-- what is held for a key, be it nothing -/
def held (l : Ledger) (key : EvaluationKey) : Distribution := (l.distribution? key).getD .empty

theorem held_ofEvents (events : List Event) (key : EvaluationKey) :
    (ofEvents events).held key = .ofLog (logOf events key) := by
  rw [held, distribution?_ofEvents]
  split
  · next hnone =>
    rw [hnone]
    rfl
  · rfl

/-- every event stands under one of the keys -/
theorem sum_length_logOf {events : List Event} {keys : List EvaluationKey} (hnodup : keys.Nodup)
    (h : ∀ e ∈ events, e.key ∈ keys) : (keys.map fun key => (logOf events key).length).sum = events.length := by
  induction events with
  | nil => simp [logOf]
  | cons e events ih =>
    obtain ⟨he, hevents⟩ := List.forall_mem_cons.1 h
    have hfirst : (keys.map fun key => if e.key = key then 1 else 0).sum = 1 := by
      rw [List.sum_map_eq_nsmul_single e.key _ fun key hne _ => if_neg hne.symm, if_pos rfl,
        List.count_eq_one_of_mem hnodup he]
      rfl
    have hlength : ∀ key, (logOf (e :: events) key).length =
        (if e.key = key then 1 else 0) + (logOf events key).length := by
      intro key
      unfold logOf
      by_cases hkey : e.key = key <;> simp [hkey, Nat.add_comm]
    rw [List.map_congr_left fun key _ => hlength key, List.sum_map_add, hfirst, ih hevents, List.length_cons,
      Nat.add_comm]

end Ledger

/-! ## Reports -/

/-- the entry of a key -/
def Entry.ofDistribution (key : EvaluationKey) (d : Distribution) : Entry := ⟨key, d.summarize, d⟩

/-- a report has an entry for each key of the ledger -/
theorem entries_ofLedger (l : Ledger) :
    (ofLedger l).entries = l.keys.map fun key => .ofDistribution key ((l.distribution? key).getD .empty) := by
  unfold ofLedger Ledger.keys
  rw [← Std.TreeMap.map_fst_toList_eq_keys, List.map_map]
  refine List.map_congr_left fun e he => ?_
  obtain ⟨key, d⟩ := e
  have hheld : l.distribution? key = some d := Std.TreeMap.mem_toList_iff_getElem?_eq_some.1 he
  simp only [Function.comp_apply, hheld, Option.getD_some, Entry.ofDistribution]

/-- the keys of a report are those of the ledger -/
theorem keys_ofLedger (l : Ledger) : (ofLedger l).entries.map Entry.key = l.keys := by
  rw [entries_ofLedger, List.map_map]
  exact List.map_id _

/-- **Totals** are the sums over all entries, in 64 bits. -/
theorem totals_eq (r : Report) :
    r.totals = ⟨(r.entries.map fun e => e.summary.count).sum % Nat.pow 2 64,
      (r.entries.map fun e => e.summary.skipped).sum % Nat.pow 2 64,
      (r.entries.map fun e => e.summary.failed).sum % Nat.pow 2 64⟩ := by
  obtain ⟨entries⟩ := r
  unfold totals
  induction entries using List.reverseRecOn with
  | nil => rfl
  | append_singleton entries e ih =>
    dsimp only at ih ⊢
    rw [List.foldl_append, ih]
    simp only [List.foldl_cons, List.foldl_nil, List.map_append, List.map_cons, List.map_nil, List.sum_append,
      List.sum_cons, List.sum_nil, addCount, Nat.add_zero, Nat.mod_add_mod]

/-- how many queries an entry says something of -/
def Entry.units (entry : Entry) : Nat := entry.summary.count + entry.summary.skipped + entry.summary.failed

/-- the totals of a report, together -/
theorem totals_add_eq {r : Report} {n : Nat} (h : (r.entries.map Entry.units).sum = n) :
    (r.totals.evaluated + r.totals.skipped + r.totals.failed) % Nat.pow 2 64 = n % Nat.pow 2 64 ∧
    (n < Nat.pow 2 64 → r.totals.evaluated + r.totals.skipped + r.totals.failed = n) := by
  have hsum : (r.entries.map fun e => e.summary.count).sum + (r.entries.map fun e => e.summary.skipped).sum +
      (r.entries.map fun e => e.summary.failed).sum = n := by
    rw [← List.sum_map_add, ← List.sum_map_add]
    exact h
  have hbits : Nat.pow 2 64 = 18446744073709551616 := rfl
  rw [totals_eq, hbits]
  dsimp only
  constructor
  · omega
  · intro hlt
    omega

/-- the totals of a report on equally many queries under every key -/
theorem totals_add {r : Report} {n : Nat}
    (h : ∀ entry ∈ r.entries, entry.summary.count + entry.summary.skipped + entry.summary.failed = n) :
    (r.totals.evaluated + r.totals.skipped + r.totals.failed) % Nat.pow 2 64 = r.entries.length * n % Nat.pow 2 64 ∧
    (r.entries.length * n < Nat.pow 2 64 →
      r.totals.evaluated + r.totals.skipped + r.totals.failed = r.entries.length * n) := by
  have hunits : ∀ entry ∈ r.entries, entry.units = n := h
  refine totals_add_eq ?_
  rw [List.map_congr_left hunits, List.map_const', List.sum_replicate, smul_eq_mul]

end RankEval.Report
