/-
Workers with one ledger. Every worker has its calls to make, in its own order. Which of them is next is not known, but a
call is logged as a whole before the next one is. So a run of the workers is a list of turns: whose call is next, and
then whose, until no call is left.

However the turns fall, the ledger is an exact log of the calls in the order in which they were made, and these are all
calls of all workers, those of one worker in its order. Two runs may hold their queries in different orders, but not
different queries.

- `adds_log`: what one call changes.
- `logs_ofEvents`: what a ledger holds after some calls, and what a report on it says.
- `turn_cases`: what one turn does.
- `made_perm`, `sublist_made`, `ledger_run`: what a run does.
- `exists_done`: from any state some turns finish.
- `log_of_workers`: all of it together.
- `log_of_two_workers`: two runs of two workers.
-/
import RankEval.Proofs.Report.Ledger

namespace RankEval.Report

/-! ## Statistics -/

/-- whether statistics are those of some values -/
structure FieldSummary.Covers {R : Type} [Arithmetic R] (f : FieldSummary R) (vs : List R) : Prop where
  values : f.values = vs
  count : f.count = vs.length
  mean : f.mean = if vs.isEmpty then none else some (Report.mean vs)
  deviation : f.deviation = if vs.isEmpty then none else some (Report.deviation vs)

theorem FieldSummary.covers_ofValues {R : Type} [Arithmetic R] (vs : List R) : (ofValues vs).Covers vs := by
  cases vs with
  | nil => exact ⟨rfl, rfl, rfl, rfl⟩
  | cons v vs => exact ⟨rfl, rfl, rfl, rfl⟩

/-- Whether a summary is one of a distribution. Only a record with an AUC counts for the AUC; for every other metric all
records do. -/
structure Summary.Describes (s : Summary) (d : Distribution) : Prop where
  count : s.count = d.records.length
  skipped : s.skipped = d.skipped.length
  failed : s.failed = d.failed.length
  ndcg : s.ndcg.Covers (d.records.map fun r => r.record.ndcg)
  precisionAtK : s.precisionAtK.Covers (d.records.map fun r => r.record.precisionAtK)
  recallAtK : s.recallAtK.Covers (d.records.map fun r => r.record.recallAtK)
  auc : s.auc.Covers (d.records.filterMap fun r => r.record.auc)
  relevant : s.relevant.Covers (d.records.map fun r => Float.ofNat r.record.relevant)

theorem Distribution.describes_summarize (d : Distribution) : d.summarize.Describes d where
  count := rfl
  skipped := rfl
  failed := rfl
  ndcg := FieldSummary.covers_ofValues _
  precisionAtK := FieldSummary.covers_ofValues _
  recallAtK := FieldSummary.covers_ofValues _
  auc := FieldSummary.covers_ofValues _
  relevant := FieldSummary.covers_ofValues _

/-! ## Distributions with the same queries -/

namespace Distribution

/-- the same queries in every list, but maybe in another order -/
structure Same (d d' : Distribution) : Prop where
  records : d.records.Perm d'.records
  skipped : d.skipped.Perm d'.skipped
  failed : d.failed.Perm d'.failed

/-- every list is found in the other distribution, in the same order, but maybe with others in between -/
structure Within (d d' : Distribution) : Prop where
  records : d.records.Sublist d'.records
  skipped : d.skipped.Sublist d'.skipped
  failed : d.failed.Sublist d'.failed

theorem same_ofLog {log log' : List (String × Outcome)} (h : log.Perm log') : (ofLog log).Same (ofLog log') where
  records := h.filterMap _
  skipped := (h.filter _).map _
  failed := (h.filter _).map _

theorem within_ofLog {log log' : List (String × Outcome)} (h : log.Sublist log') :
    (ofLog log).Within (ofLog log') where
  records := h.filterMap _
  skipped := (h.filter _).map _
  failed := (h.filter _).map _

end Distribution

namespace Ledger

theorem logOf_perm {events events' : List Event} (h : events.Perm events') (key : EvaluationKey) :
    (logOf events key).Perm (logOf events' key) := (h.filter _).map _

theorem logOf_sublist {events events' : List Event} (h : events.Sublist events') (key : EvaluationKey) :
    (logOf events key).Sublist (logOf events' key) := (h.filter _).map _

/-! ## One call -/

/-- what a call changes: it adds a query at the end of one list of one key -/
structure Adds (e : Event) (l l' : Ledger) : Prop where
  others : ∀ key, key ≠ e.key → l'.distribution? key = l.distribution? key
  used : (l'.distribution? e.key).isSome
  records : (l'.held e.key).records =
    (l.held e.key).records ++ (e.outcome.record?.map (QueryRecord.mk e.query)).toList
  skipped : (l'.held e.key).skipped = (l.held e.key).skipped ++ if e.outcome = .missing then [e.query] else []
  failed : (l'.held e.key).failed = (l.held e.key).failed ++ if e.outcome = .failed then [e.query] else []

theorem adds_log (l : Ledger) (e : Event) : Adds e l (l.log e.key e.query e.outcome) := by
  obtain ⟨key, query, outcome⟩ := e
  have hown : (l.log key query outcome).distribution? key = some (append (l.held key) query outcome) := by
    rw [distribution?_log, if_pos rfl]
    rfl
  have hheld : (l.log key query outcome).held key = append (l.held key) query outcome := by
    rw [held, hown, Option.getD_some]
  refine ⟨fun other hne => ?_, by simp [hown], ?_, ?_, ?_⟩
  · rw [distribution?_log, if_neg hne.symm]
  all_goals
    rw [hheld]
    cases outcome <;> simp [append, Outcome.record?]

/-! ## A number of calls -/

/-- whether a ledger, and a report on it, are an exact log of some calls -/
structure Logs (l : Ledger) (calls : List Event) : Prop where
  keys_sorted : l.keys.Pairwise fun a b => compare a b = .lt
  mem_keys : ∀ key, key ∈ l.keys ↔ ∃ e ∈ calls, e.key = key
  used : ∀ key, (l.distribution? key).isSome ↔ ∃ e ∈ calls, e.key = key
  records : ∀ key, (l.held key).records =
    (calls.filter fun e => e.key = key).filterMap fun e => e.outcome.record?.map (QueryRecord.mk e.query)
  skipped : ∀ key, (l.held key).skipped =
    (calls.filter fun e => e.key = key ∧ e.outcome = .missing).map Event.query
  failed : ∀ key, (l.held key).failed = (calls.filter fun e => e.key = key ∧ e.outcome = .failed).map Event.query
  summarized : ∀ key, (l.summary? key).isSome ↔ ∃ e ∈ calls, e.key = key
  summary : ∀ key, ∀ s ∈ l.summary? key, s.Describes (l.held key)
  reported : (Report.ofLedger l).entries.map Entry.key = l.keys
  entries : ∀ entry ∈ (Report.ofLedger l).entries, l.distribution? entry.key = some entry.distribution ∧
    l.summary? entry.key = some entry.summary
  units : ((Report.ofLedger l).entries.map Entry.units).sum = calls.length
  totals_mod : ((Report.ofLedger l).totals.evaluated + (Report.ofLedger l).totals.skipped +
    (Report.ofLedger l).totals.failed) % Nat.pow 2 64 = calls.length % Nat.pow 2 64
  totals : calls.length < Nat.pow 2 64 → (Report.ofLedger l).totals.evaluated + (Report.ofLedger l).totals.skipped +
    (Report.ofLedger l).totals.failed = calls.length

theorem mem_entries_ofLedger {l : Ledger} {entry : Entry} (h : entry ∈ (Report.ofLedger l).entries) :
    l.distribution? entry.key = some entry.distribution ∧ l.summary? entry.key = some entry.summary := by
  obtain ⟨⟨key, d⟩, hmem, rfl⟩ := List.mem_map.1 h
  have hheld : l.distribution? key = some d := Std.TreeMap.mem_toList_iff_getElem?_eq_some.1 hmem
  exact ⟨hheld, by rw [summary?, hheld, Option.map_some]⟩

/-- the entries of a report say something of every call -/
theorem units_ofEvents (calls : List Event) :
    ((Report.ofLedger (ofEvents calls)).entries.map Entry.units).sum = calls.length := by
  have hunits : ∀ key, Entry.units (.ofDistribution key ((ofEvents calls).held key)) = (logOf calls key).length := by
    intro key
    rw [held_ofEvents]
    exact Distribution.length_ofLog _
  rw [entries_ofLedger, List.map_map]
  calc ((ofEvents calls).keys.map fun key => Entry.units (.ofDistribution key ((ofEvents calls).held key))).sum
      = ((ofEvents calls).keys.map fun key => (logOf calls key).length).sum := by
        rw [List.map_congr_left fun key _ => hunits key]
    _ = calls.length := ?_
  refine sum_length_logOf (EvaluationKey.nodup_of_sorted (keys_sorted _)) fun e he => ?_
  exact (mem_keys_ofEvents calls e.key).2 ⟨e, he, rfl⟩

/-- **A ledger is an exact log**: each call stands in the list of its kind under its key, in the order of the calls, and
a report on it leaves none out and counts none twice. -/
theorem logs_ofEvents (calls : List Event) : (ofEvents calls).Logs calls where
  keys_sorted := keys_sorted _
  mem_keys := mem_keys_ofEvents calls
  used := isSome_ofEvents calls
  records key := by
    rw [held_ofEvents]
    exact List.filterMap_map
  skipped key := by
    simp [held_ofEvents, Distribution.ofLog, logOf, List.filter_map, Function.comp_def, Bool.and_comm]
  failed key := by
    simp [held_ofEvents, Distribution.ofLog, logOf, List.filter_map, Function.comp_def, Bool.and_comm]
  summarized key := by rw [summary?, Option.isSome_map, isSome_ofEvents]
  summary key s hs := by
    obtain ⟨d, hd, rfl⟩ := Option.map_eq_some_iff.1 hs
    rw [held, hd, Option.getD_some]
    exact d.describes_summarize
  reported := keys_ofLedger _
  entries entry hmem := mem_entries_ofLedger hmem
  units := units_ofEvents calls
  totals_mod := (totals_add_eq (units_ofEvents calls)).1
  totals := (totals_add_eq (units_ofEvents calls)).2

end Ledger

/-! ## Workers -/

open Ledger (Event)

/-- some workers with one ledger -/
structure Workers where
  /-- the calls that each of them has still to make -/
  pending : List (List Event)
  ledger : Ledger

namespace Workers

/-- workers that have not made any call -/
def start (calls : List (List Event)) : Workers := ⟨calls, .empty⟩

/-- the call that a worker makes next -/
def next? (w : Workers) (i : ℕ) : Option Event := w.pending[i]?.bind List.head?

/-- the worker whose turn it is makes its next call, if one is left -/
def turn (w : Workers) (i : ℕ) : Workers :=
  match w.next? i with
  | some e => ⟨w.pending.modify i List.tail, w.ledger.log e.key e.query e.outcome⟩
  | none => w

/-- some turns, one after the other -/
def run (w : Workers) (turns : List ℕ) : Workers := turns.foldl turn w

/-- the calls that are made in some turns -/
def made : Workers → List ℕ → List Event
  | _, [] => []
  | w, i :: turns => (w.next? i).toList ++ made (w.turn i) turns

/-- no worker has a call left -/
def Done (w : Workers) : Prop := ∀ calls ∈ w.pending, calls = []

instance : DecidablePred Done := fun w => inferInstanceAs (Decidable (∀ calls ∈ w.pending, calls = []))

variable (w : Workers)

/-- a turn does nothing, or one worker's next call is logged -/
theorem turn_cases (i : ℕ) :
    (w.next? i = none ∧ w.turn i = w) ∨
      ∃ before e rest after, w.pending = before ++ (e :: rest) :: after ∧ w.next? i = some e ∧
        w.turn i = ⟨before ++ rest :: after, w.ledger.log e.key e.query e.outcome⟩ := by
  cases hnext : w.next? i with
  | none => exact .inl ⟨rfl, by rw [turn, hnext]⟩
  | some e =>
    obtain ⟨calls, hcalls, hhead⟩ := Option.bind_eq_some_iff.1 hnext
    obtain ⟨rest, rfl⟩ := List.head?_eq_some_iff.1 hhead
    obtain ⟨hi, hget⟩ := List.getElem?_eq_some_iff.1 hcalls
    obtain ⟨before, found, after, hpending, rfl, hmodify⟩ := List.exists_of_modify List.tail hi
    have hfound : found = e :: rest := by simpa [hpending] using hget
    subst hfound
    refine .inr ⟨before, e, rest, after, hpending, rfl, ?_⟩
    rw [turn, hnext]
    exact congrArg (Workers.mk · _) hmodify

/-- the ledger of a run is a log of the calls that were made -/
theorem ledger_run (turns : List ℕ) :
    (w.run turns).ledger = (w.made turns).foldl (fun l e => l.log e.key e.query e.outcome) w.ledger := by
  induction turns generalizing w with
  | nil => rfl
  | cons i turns ih =>
    change ((w.turn i).run turns).ledger = _
    rw [ih, made, List.foldl_append]
    rcases w.turn_cases i with ⟨hnext, hturn⟩ | ⟨before, e, rest, after, -, hnext, hturn⟩
    · rw [hnext, hturn]
      rfl
    · rw [hnext, hturn]
      rfl

/-- no call is lost, and none is made twice -/
theorem made_perm (turns : List ℕ) :
    (w.made turns ++ (w.run turns).pending.flatten).Perm w.pending.flatten := by
  induction turns generalizing w with
  | nil => exact .refl _
  | cons i turns ih =>
    have hrest := ih (w.turn i)
    rw [made, List.append_assoc]
    refine (hrest.append_left _).trans ?_
    rcases w.turn_cases i with ⟨hnext, hturn⟩ | ⟨before, e, rest, after, hpending, hnext, hturn⟩
    · rw [hnext, hturn]
      exact .refl _
    · rw [hnext, hturn, hpending]
      simpa using List.perm_middle.symm

/-- a worker's calls are made in its order -/
theorem sublist_made (turns : List ℕ) (h : (w.run turns).Done) : ∀ own ∈ w.pending, own.Sublist (w.made turns) := by
  induction turns generalizing w with
  | nil =>
    intro own hown
    rw [h own hown]
    exact List.nil_sublist _
  | cons i turns ih =>
    have hrest := ih (w.turn i) h
    rw [made]
    rcases w.turn_cases i with ⟨hnext, hturn⟩ | ⟨before, e, rest, after, hpending, hnext, hturn⟩
    · rw [hturn] at hrest
      rw [hnext, hturn]
      exact hrest
    · rw [hturn] at hrest
      rw [hnext, hturn, hpending]
      intro own hown
      -- the call is the first one of its own worker, and in the way of no other one
      rcases List.mem_append.1 hown with hbefore | hown
      · exact (hrest own (List.mem_append_left _ hbefore)).cons e
      · rcases List.mem_cons.1 hown with rfl | hafter
        · exact (hrest rest (List.mem_append_right _ List.mem_cons_self)).cons_cons e
        · exact (hrest own (List.mem_append_right _ (List.mem_cons_of_mem _ hafter))).cons e

/-- whatever calls were made, the others can be made too -/
theorem exists_done : ∃ turns, (w.run turns).Done := by
  induction hleft : w.pending.flatten.length generalizing w with
  | zero =>
    refine ⟨[], fun calls hcalls => ?_⟩
    exact List.flatten_eq_nil_iff.1 (List.length_eq_zero_iff.1 hleft) calls hcalls
  | succ left ih =>
    obtain ⟨i, e, hnext⟩ : ∃ i e, w.next? i = some e := by
      obtain ⟨e, he⟩ := List.exists_mem_of_length_pos (by rw [hleft]; exact Nat.succ_pos left)
      obtain ⟨calls, hcalls, he⟩ := List.mem_flatten.1 he
      obtain ⟨i, hi⟩ := List.mem_iff_getElem?.1 hcalls
      obtain ⟨first, rest, rfl⟩ := List.exists_cons_of_ne_nil (List.ne_nil_of_mem he)
      exact ⟨i, first, by rw [next?, hi]; rfl⟩
    rcases w.turn_cases i with ⟨hnone, -⟩ | ⟨before, e, rest, after, hpending, -, hturn⟩
    · rw [hnext] at hnone
      cases hnone
    · obtain ⟨turns, hdone⟩ := ih (w.turn i) (by rw [hturn]; simp [hpending] at hleft ⊢; omega)
      exact ⟨i :: turns, hdone⟩

/-! ## All calls of all workers -/

theorem ledger_start (calls : List (List Event)) (turns : List ℕ) :
    ((start calls).run turns).ledger = .ofEvents ((start calls).made turns) := ledger_run _ turns

theorem made_perm_flatten {calls : List (List Event)} {turns : List ℕ} (h : ((start calls).run turns).Done) :
    ((start calls).made turns).Perm calls.flatten := by
  have hperm := (start calls).made_perm turns
  rwa [List.flatten_eq_nil_iff.2 h, List.append_nil] at hperm

/-- **Workers log exactly what they were to log.** A call adds one query to one list and changes nothing else. After any
calls the ledger is an exact log of them. So it is after any run of workers: the calls that were made are all calls of
all workers, each worker's in its order, and another run has the same keys, and under each of them the same queries. -/
theorem log_of_workers :
    (∀ (l : Ledger) (e : Event), Ledger.Adds e l (l.log e.key e.query e.outcome)) ∧
    (∀ calls : List Event, (Ledger.ofEvents calls).Logs calls) ∧
    ∀ (calls : List (List Event)) (turns : List ℕ), ((start calls).run turns).Done →
      ((start calls).run turns).ledger.Logs ((start calls).made turns) ∧
      ((start calls).made turns).Perm calls.flatten ∧
      (∀ own ∈ calls, own.Sublist ((start calls).made turns) ∧
        ∀ key, ((Ledger.ofEvents own).held key).Within (((start calls).run turns).ledger.held key)) ∧
      ∀ turns' : List ℕ, ((start calls).run turns').Done →
        ((start calls).run turns).ledger.keys = ((start calls).run turns').ledger.keys ∧
        ∀ key, (((start calls).run turns).ledger.held key).Same (((start calls).run turns').ledger.held key) := by
  refine ⟨Ledger.adds_log, Ledger.logs_ofEvents, fun calls turns hdone => ?_⟩
  have hmade := made_perm_flatten hdone
  rw [ledger_start]
  refine ⟨Ledger.logs_ofEvents _, hmade, fun own hown => ?_, fun turns' hdone' => ?_⟩
  · have hown := (start calls).sublist_made turns hdone own hown
    refine ⟨hown, fun key => ?_⟩
    rw [Ledger.held_ofEvents, Ledger.held_ofEvents]
    exact Distribution.within_ofLog (Ledger.logOf_sublist hown key)
  · have hsame := hmade.trans (made_perm_flatten hdone').symm
    rw [ledger_start]
    constructor
    · refine Ledger.keys_ofEvents (Ledger.keys_sorted _) fun key => ?_
      rw [Ledger.mem_keys_ofEvents]
      simp only [hsame.mem_iff]
    · intro key
      rw [Ledger.held_ofEvents, Ledger.held_ofEvents]
      exact Distribution.same_ofLog (Ledger.logOf_perm hsame key)

/-- two workers with three queries under one key, and one under another -/
def twoWorkers : List (List Event) :=
  let types : EvaluationKey := ⟨.baseline .types, 1, 10, 0⟩
  let embeddings : EvaluationKey := ⟨.baseline .embeddings, 1, 10, 0⟩
  [[⟨types, "wikipage_1", .missing⟩, ⟨types, "wikipage_2", .failed⟩],
    [⟨types, "wikipage_3", .missing⟩, ⟨embeddings, "wikipage_3", .failed⟩]]

/-- Two runs of the same workers: the queries that are skipped are the same, but not in the same order. -/
theorem log_of_two_workers :
    ((start twoWorkers).run [0, 1, 0, 1]).Done ∧ ((start twoWorkers).run [1, 1, 0, 0]).Done ∧
    (((start twoWorkers).run [0, 1, 0, 1]).ledger.held ⟨.baseline .types, 1, 10, 0⟩).skipped =
      ["wikipage_1", "wikipage_3"] ∧
    (((start twoWorkers).run [1, 1, 0, 0]).ledger.held ⟨.baseline .types, 1, 10, 0⟩).skipped =
      ["wikipage_3", "wikipage_1"] ∧
    ∀ key, (((start twoWorkers).run [0, 1, 0, 1]).ledger.held key).Same
      (((start twoWorkers).run [1, 1, 0, 0]).ledger.held key) := by
  have hdone : ((start twoWorkers).run [0, 1, 0, 1]).Done := by decide +kernel
  have hdone' : ((start twoWorkers).run [1, 1, 0, 0]).Done := by decide +kernel
  obtain ⟨-, -, -, hsame⟩ := log_of_workers.2.2 twoWorkers [0, 1, 0, 1] hdone
  exact ⟨hdone, hdone', by decide +kernel, by decide +kernel, (hsame [1, 1, 0, 0] hdone').2⟩

end Workers

end RankEval.Report
