/-
The keys of a run as a matrix. Settings list variants, numbers of tuples, cutoffs and thresholds, and the keys are all
combinations of them, but for a variant without a threshold, which has 0 in its place. Only what is listed matters, not
how often or where, since keys are in order and each comes once.

Checked settings list something of everything and no cutoff of 0. A query can only fail for want of a cutoff where the
cutoff of its key is 0, so under checked settings none does.

- `compare_eq_lt_iff`: the order of keys, field by field.
- `mem_keys_iff_asksFor`: which keys there are.
- `check_eq_ok_iff`: which settings pass the check.
- `cutoff_of_evaluateIn`: where a query fails for want of a cutoff.
- `keys_matrix`: all of it together.
- `keys_matrix_of_two_kinds`: a variant with thresholds and one without, listed with repeats.
-/
import RankEval.Proofs.Campaign.Abort
import RankEval.Proofs.Engine.ResultFiles
import RankEval.Proofs.Inputs.Readers
import RankEval.Proofs.Metric.Evaluation

namespace RankEval

/-! ## The order, field by field -/

/-- lists of numbers are compared by the first place at which they differ -/
theorem compare_cons_eq_lt_iff (x y : Nat) (xs ys : List Nat) :
    compare (x :: xs) (y :: ys) = .lt ↔ x < y ∨ x = y ∧ compare xs ys = .lt := by
  rw [List.compare_eq_compareLex, List.compareLex_cons_cons, Ordering.then_eq_lt, Nat.compare_eq_lt, Nat.compare_eq_eq]

namespace Configuration

/-- The order of variants. The kinds come in the order of their declaration; within a kind the first parameter that
differs counts. -/
def Before : Configuration → Configuration → Prop
  | .typesLsh v b, .typesLsh v' b' => v < v' ∨ v = v' ∧ b < b'
  | .embeddingsLsh v b, .embeddingsLsh v' b' => v < v' ∨ v = v' ∧ b < b'
  | .columnAggregated mode v b, .columnAggregated mode' v' b' =>
    mode.ctorIdx < mode'.ctorIdx ∨ mode = mode' ∧ (v < v' ∨ v = v' ∧ b < b')
  | .bm25 field, .bm25 field' => field.ctorIdx < field'.ctorIdx
  | .baseline mode, .baseline mode' => mode.ctorIdx < mode'.ctorIdx
  | .bm25Prefilter mode, .bm25Prefilter mode' => mode.ctorIdx < mode'.ctorIdx
  | a, b => a.ctorIdx < b.ctorIdx

theorem modeRank_eq_ctorIdx (mode : Representation) : modeRank mode = mode.ctorIdx := by cases mode <;> rfl

theorem fieldRank_eq_ctorIdx (field : QueryField) : fieldRank field = field.ctorIdx := by cases field <;> rfl

/-- what follows the rank of a variant only counts between keys of one variant -/
theorem compare_rank_append_eq_lt_iff (a b : Configuration) (xs ys : List Nat) :
    compare (a.rank ++ xs) (b.rank ++ ys) = .lt ↔ a.Before b ∨ a = b ∧ compare xs ys = .lt := by
  -- kinds differ in the first number; variants of one kind have ranks of one length
  cases a <;> cases b <;>
    simp only [rank, List.cons_append, List.nil_append, compare_cons_eq_lt_iff, Before, modeRank_eq_ctorIdx,
      fieldRank_eq_ctorIdx]
  case typesLsh.typesLsh | embeddingsLsh.embeddingsLsh => simp; tauto
  case columnAggregated.columnAggregated => simp [modeRank_injective.eq_iff, ← modeRank_eq_ctorIdx]; tauto
  case bm25.bm25 => simp [fieldRank_injective.eq_iff, ← fieldRank_eq_ctorIdx]
  case baseline.baseline | bm25Prefilter.bm25Prefilter => simp [modeRank_injective.eq_iff, ← modeRank_eq_ctorIdx]
  all_goals simp [Configuration.ctorIdx]

end Configuration

namespace EvaluationKey

/-- the order of keys: the first field that differs counts -/
def Before (a b : EvaluationKey) : Prop :=
  a.configuration.Before b.configuration ∨ a.configuration = b.configuration ∧
    (a.tuples < b.tuples ∨ a.tuples = b.tuples ∧ (a.k < b.k ∨ a.k = b.k ∧ a.vote < b.vote))

/-- **The order of keys**, field by field. -/
theorem compare_eq_lt_iff (a b : EvaluationKey) : compare a b = .lt ↔ a.Before b := by
  have hrank : compare a b = compare (a.configuration.rank ++ [a.tuples, a.k, a.vote])
      (b.configuration.rank ++ [b.tuples, b.k, b.vote]) := rfl
  rw [hrank, Configuration.compare_rank_append_eq_lt_iff, Before]
  simp only [compare_cons_eq_lt_iff]
  simp

end EvaluationKey

namespace Settings

/-! ## Which keys there are -/

/-- the combinations that settings ask for; without a threshold there is a 0 in its place -/
structure AsksFor (s : Settings) (key : EvaluationKey) : Prop where
  variant : key.configuration ∈ s.variants
  tuples : key.tuples ∈ s.evaluation.tuples
  cutoff : key.k ∈ s.evaluation.cutoffs
  vote : if key.configuration.usesVote then key.vote ∈ s.evaluation.votes else key.vote = 0

/-- settings that list the same, be it in another order or more often -/
structure ListsAlike (s s' : Settings) : Prop where
  variants : ∀ c, c ∈ s.variants ↔ c ∈ s'.variants
  tuples : ∀ n, n ∈ s.evaluation.tuples ↔ n ∈ s'.evaluation.tuples
  cutoffs : ∀ k, k ∈ s.evaluation.cutoffs ↔ k ∈ s'.evaluation.cutoffs
  votes : ∀ v, v ∈ s.evaluation.votes ↔ v ∈ s'.evaluation.votes

theorem mem_votesOf_iff (e : Evaluation) (variant : Configuration) (vote : Nat) :
    vote ∈ e.votesOf variant ↔ if variant.usesVote then vote ∈ e.votes else vote = 0 := by
  unfold Evaluation.votesOf
  split
  · rfl
  · exact List.mem_singleton

theorem mem_keysOf_iff (e : Evaluation) (variant : Configuration) (key : EvaluationKey) :
    key ∈ e.keysOf variant ↔ key.configuration = variant ∧ key.tuples ∈ e.tuples ∧ key.k ∈ e.cutoffs ∧
      key.vote ∈ e.votesOf variant := by
  obtain ⟨c, tuples, k, vote⟩ := key
  simp only [Evaluation.keysOf, List.mem_flatMap, List.mem_map, EvaluationKey.mk.injEq]
  constructor
  · rintro ⟨tuples', htuples, k', hk, vote', hvote, rfl, rfl, rfl, rfl⟩
    exact ⟨rfl, htuples, hk, hvote⟩
  · rintro ⟨rfl, htuples, hk, hvote⟩
    exact ⟨tuples, htuples, k, hk, vote, hvote, rfl, rfl, rfl, rfl⟩

/-- **Which keys there are.** -/
theorem mem_keys_iff_asksFor (s : Settings) (key : EvaluationKey) : key ∈ s.keys ↔ s.AsksFor key := by
  rw [EvaluationKey.mem_keys_iff]
  constructor
  · rintro ⟨variant, hvariant, hkey⟩
    obtain ⟨rfl, htuples, hk, hvote⟩ := (mem_keysOf_iff s.evaluation variant key).1 hkey
    exact ⟨hvariant, htuples, hk, (mem_votesOf_iff s.evaluation key.configuration key.vote).1 hvote⟩
  · intro h
    refine ⟨key.configuration, h.variant, (mem_keysOf_iff s.evaluation _ key).2 ⟨rfl, h.tuples, h.cutoff, ?_⟩⟩
    exact (mem_votesOf_iff s.evaluation key.configuration key.vote).2 h.vote

theorem ListsAlike.asksFor_iff {s s' : Settings} (h : s.ListsAlike s') (key : EvaluationKey) :
    s.AsksFor key ↔ s'.AsksFor key := by
  constructor
  · rintro ⟨hvariant, htuples, hk, hvote⟩
    refine ⟨(h.variants _).1 hvariant, (h.tuples _).1 htuples, (h.cutoffs _).1 hk, ?_⟩
    rwa [← h.votes]
  · rintro ⟨hvariant, htuples, hk, hvote⟩
    refine ⟨(h.variants _).2 hvariant, (h.tuples _).2 htuples, (h.cutoffs _).2 hk, ?_⟩
    rwa [h.votes]

theorem keys_before (s : Settings) : s.keys.Pairwise EvaluationKey.Before :=
  s.keys_sorted.imp fun {a b} h => (EvaluationKey.compare_eq_lt_iff a b).1 h

/-- only one list has these keys in order -/
theorem eq_keys {s : Settings} {keys : List EvaluationKey} (hsorted : keys.Pairwise EvaluationKey.Before)
    (hmem : ∀ key, key ∈ keys ↔ s.AsksFor key) : keys = s.keys := by
  refine EvaluationKey.ext_of_sorted (hsorted.imp fun {a b} h => ?_) s.keys_sorted fun key => ?_
  · exact (EvaluationKey.compare_eq_lt_iff a b).2 h
  · rw [hmem, mem_keys_iff_asksFor]

/-! ## Checked settings -/

/-- a check passes iff what it refuses does not hold, and the checks after it pass -/
theorem refuse_eq_ok_iff {refused : Prop} [Decidable refused] (fault : SettingsFault)
    (rest : Except SettingsFault Unit) :
    (if refused then .error fault else rest) = .ok () ↔ ¬ refused ∧ rest = .ok () := by
  by_cases h : refused <;> simp [h]

/-- **Which settings pass the check.** -/
theorem check_eq_ok_iff (s : Settings) :
    s.check = .ok () ↔ s.places.check s.evaluation.truth = .ok () ∧
      (s.evaluation.cutoffs ≠ [] ∧ 0 ∉ s.evaluation.cutoffs) ∧
      (s.evaluation.tuples ≠ [] ∧ s.evaluation.votes ≠ []) ∧ s.evaluation.workers ≠ 0 ∧ s.variants ≠ [] := by
  unfold check
  cases s.places.check s.evaluation.truth with
  | error fault => simp [bind, Except.bind]
  | ok u =>
    simp only [bind, Except.bind, throw, throwThe, MonadExceptOf.throw, pure, Except.pure, refuse_eq_ok_iff]
    simp [not_or]

section
variable {s : Settings}

theorem ne_zero_of_check (h : s.check = .ok ()) {key : EvaluationKey} (hkey : key ∈ s.keys) : key.k ≠ 0 := by
  obtain ⟨-, ⟨-, hzero⟩, -⟩ := (check_eq_ok_iff s).1 h
  have hk : key.k ∈ s.evaluation.cutoffs := ((mem_keys_iff_asksFor s key).1 hkey).cutoff
  exact fun hkzero => hzero (hkzero ▸ hk)

/-- every variant has a key -/
theorem exists_key_of_check (h : s.check = .ok ()) {variant : Configuration} (hvariant : variant ∈ s.variants) :
    ∃ key ∈ s.keys, key.configuration = variant := by
  obtain ⟨-, ⟨hcutoffs, -⟩, ⟨htuples, hvotes⟩, -⟩ := (check_eq_ok_iff s).1 h
  obtain ⟨k, hk⟩ := List.exists_mem_of_ne_nil _ hcutoffs
  obtain ⟨tuples, htuples⟩ := List.exists_mem_of_ne_nil _ htuples
  obtain ⟨vote, hvote⟩ := List.exists_mem_of_ne_nil _ hvotes
  cases huses : variant.usesVote with
  | true =>
    refine ⟨⟨variant, tuples, k, vote⟩, (mem_keys_iff_asksFor s _).2 ⟨hvariant, htuples, hk, ?_⟩, rfl⟩
    rwa [if_pos huses]
  | false =>
    refine ⟨⟨variant, tuples, k, 0⟩, (mem_keys_iff_asksFor s _).2 ⟨hvariant, htuples, hk, ?_⟩, rfl⟩
    rw [if_neg (by rw [huses]; exact Bool.false_ne_true)]

theorem keys_ne_nil_of_check (h : s.check = .ok ()) : s.keys ≠ [] := by
  obtain ⟨-, -, -, -, hvariants⟩ := (check_eq_ok_iff s).1 h
  obtain ⟨variant, hvariant⟩ := List.exists_mem_of_ne_nil _ hvariants
  obtain ⟨key, hkey, -⟩ := exists_key_of_check h hvariant
  exact List.ne_nil_of_mem hkey

end

end Settings

/-! ## Queries that fail for want of a cutoff -/

/-- what is kept is no failure -/
theorem read_of_overlay_eq_error {K V : Type} [Ord K] {kept : Std.TreeMap K V} {read : K → Except Failure V} {key : K}
    {failure : Failure} (h : overlay kept read key = .error failure) : read key = .error failure := by
  unfold overlay at h
  cases hkept : kept[key]? with
  | none =>
    rw [hkept] at h
    exact h
  | some known =>
    rw [hkept] at h
    cases h

theorem rows_found (t : FileTree) (directory : FilePath) (cache : Cache) :
    (cache.found t directory).rows = overlay cache.rankings fun path => Attempt.outcome t (Inputs.rankedRows path) :=
  rfl

theorem titles_found (t : FileTree) (directory : FilePath) (cache : Cache) :
    (cache.found t directory).titles =
      overlay cache.related fun page => Attempt.outcome t (Inputs.relatedTitles directory page) := rfl

namespace Evaluator

open Cached (outcome)
open Inputs (IsReading)

variable (e : Evaluator) (t : FileTree) (cache : Cache) {key : EvaluationKey} {q : Query}

/-- metrics that fail for want of a cutoff have none -/
theorem eq_zero_of_score {k : Nat} {related : Option Inputs.Judgments} {predicted : PredictedScores}
    (h : e.score q k related predicted = .error (.metric .zeroCutoff)) : k = 0 := by
  unfold score at h
  split at h
  · cases h
  · next pair _ =>
    cases hmetrics : Metric.evaluate e.settings.evaluation.metrics pair.relevance pair.scores k with
    | ok record =>
      rw [hmetrics] at h
      cases h
    | error error =>
      rw [hmetrics] at h
      cases h
      cases (Metric.firstFault_of_evaluate hmetrics).has with
      | zeroCutoff hk => exact hk

variable {e} {t} {cache} {directory : FilePath} {failure : Failure}

/-- the engine's output can only fail to be read -/
theorem isReading_of_predictedIn (h : e.predictedIn t (cache.found t directory) key q = .error failure) :
    IsReading failure := by
  unfold predictedIn at h
  split at h
  · exact Inputs.isReading_of_scores h
  · cases hrows : (cache.found t directory).rows (key.resultPath e.settings.places.results q.name) with
    | ok rows =>
      rw [hrows] at h
      cases h
    | error failure' =>
      rw [hrows] at h
      cases h
      rw [rows_found] at hrows
      have hread := read_of_overlay_eq_error hrows
      exact Inputs.isReading_of_rankedRows hread

/-- so can related titles -/
theorem isReading_of_relatedIn (h : e.relatedIn (cache.found t directory) q = .error failure) : IsReading failure := by
  unfold relatedIn at h
  split at h
  · cases htitles : (cache.found t directory).titles q.page with
    | ok titles =>
      rw [htitles] at h
      cases h
    | error failure' =>
      rw [htitles] at h
      cases h
      rw [titles_found] at htitles
      have hread := read_of_overlay_eq_error htitles
      exact Inputs.isReading_of_relatedTitles hread
  · cases h

theorem cutoff_of_scoreIn {predicted : PredictedScores}
    (h : e.scoreIn (cache.found t directory) key q predicted = .error (.metric .zeroCutoff)) : key.k = 0 := by
  unfold scoreIn at h
  cases hrelated : e.relatedIn (cache.found t directory) q with
  | error failure =>
    rw [hrelated] at h
    cases h
    cases isReading_of_relatedIn hrelated
  | ok related =>
    rw [hrelated] at h
    exact e.eq_zero_of_score h

/-- **A query fails for want of a cutoff only under a key with a cutoff of 0.** Its files can only fail to be read. -/
theorem cutoff_of_evaluateIn (h : e.evaluateIn t (cache.found t directory) key q = .error (.metric .zeroCutoff)) :
    key.k = 0 := by
  unfold evaluateIn at h
  cases hpredicted : e.predictedIn t (cache.found t directory) key q with
  | error failure =>
    rw [hpredicted] at h
    cases h
    cases isReading_of_predictedIn hpredicted
  | ok output =>
    rw [hpredicted] at h
    cases output with
    | none => cases h
    | some predicted =>
      dsimp only [Except.bind] at h
      split at h
      · cases h
      · cases hscore : e.scoreIn (cache.found t directory) key q predicted with
        | ok record =>
          rw [hscore] at h
          cases h
        | error failure =>
          rw [hscore] at h
          cases h
          exact cutoff_of_scoreIn hscore

variable {queries : List Query}

/-- under checked settings no query of a run fails for want of a cutoff -/
theorem evaluate_ne_zeroCutoff (hcheck : e.settings.check = .ok ()) {unit : EvaluationKey × Query}
    (hunit : unit ∈ e.units queries) : (outcome t cache (e.evaluate unit.1 unit.2)).1 ≠ .error (.metric .zeroCutoff) := by
  rw [outcome_evaluate]
  intro h
  obtain ⟨hkey, -⟩ := (e.mem_units_iff queries unit.1 unit.2).1 hunit
  exact Settings.ne_zero_of_check hcheck hkey (cutoff_of_evaluateIn h)

/-- nor does the run, if failures end it -/
theorem run_ne_zeroCutoff (hcheck : e.settings.check = .ok ()) :
    (outcome t cache (e.run queries)).1 ≠ .error (.metric .zeroCutoff) := by
  intro h
  cases hpolicy : e.settings.evaluation.onFailure with
  | skip =>
    obtain ⟨kept, hrun, -⟩ := e.gives_run queries hpolicy cache (t := t) rfl
    rw [hrun] at h
    cases h
  | abort =>
    obtain ⟨kept, hrun, -⟩ := e.gives_run_abort t _ queries hpolicy cache rfl
    rw [hrun] at h
    obtain ⟨unit, hunit, hfailure⟩ := List.exists_of_findSome?_eq_some ((e.abortIn_eq_error_iff t _ queries _).1 h)
    refine @evaluate_ne_zeroCutoff e t cache queries hcheck unit hunit ?_
    rw [outcome_evaluate]
    exact (e.failureIn_eq_some_iff t _ unit _).1 hfailure

end Evaluator

/-! ## The matrix -/

namespace Settings

open Cached (outcome)

/-- **The keys of a run are exactly what the settings ask for, in order and once.** They are the one list in the order
of keys with these members, so that neither the order of what is listed nor repeats matter. If the settings pass the
check, there is a key, also for each variant, and none has a cutoff of 0. So no query of a run fails for want of a
cutoff, whatever files there are and whatever was kept before, and no run that failures end does. -/
theorem keys_matrix (s : Settings) :
    s.keys.Pairwise EvaluationKey.Before ∧
    (∀ key, key ∈ s.keys ↔ s.AsksFor key) ∧
    (∀ keys : List EvaluationKey, keys.Pairwise EvaluationKey.Before → (∀ key, key ∈ keys ↔ s.AsksFor key) →
      keys = s.keys) ∧
    (∀ s' : Settings, s'.ListsAlike s → s'.keys = s.keys) ∧
    (s.check = .ok () →
      s.keys ≠ [] ∧ (∀ variant ∈ s.variants, ∃ key ∈ s.keys, key.configuration = variant) ∧
      (∀ key ∈ s.keys, 1 ≤ key.k) ∧
      ∀ (e : Evaluator) (queries : List Query) (t : FileTree) (cache : Cache), e.settings = s →
        (∀ unit ∈ e.units queries,
          (outcome t cache (e.evaluate unit.1 unit.2)).1 ≠ .error (.metric .zeroCutoff)) ∧
        (outcome t cache (e.run queries)).1 ≠ .error (.metric .zeroCutoff)) := by
  refine ⟨s.keys_before, s.mem_keys_iff_asksFor, fun keys => eq_keys, ?_, ?_⟩
  · intro s' hsame
    refine eq_keys s'.keys_before fun key => ?_
    rw [mem_keys_iff_asksFor, hsame.asksFor_iff]
  · intro hcheck
    refine ⟨keys_ne_nil_of_check hcheck, fun variant => exists_key_of_check hcheck, ?_, ?_⟩
    · intro key hkey
      exact Nat.pos_of_ne_zero (ne_zero_of_check hcheck hkey)
    · rintro e queries t cache rfl
      exact ⟨fun unit => Evaluator.evaluate_ne_zeroCutoff hcheck, Evaluator.run_ne_zeroCutoff hcheck⟩

/-- a hashing variant and a keyword search, run with two cutoffs and two thresholds -/
def twoKinds : Settings where
  places := { tables := "tables", queries := "queries.json", results := "results" }
  evaluation := { cutoffs := [5, 10], votes := [1, 3], truth := .coMembership }
  variants := [.typesLsh 30 10, .bm25 .text]

/-- the same, listed in another order and with repeats -/
def repeatedKinds : Settings where
  places := twoKinds.places
  evaluation := { twoKinds.evaluation with cutoffs := [10, 5, 10], votes := [3, 1] }
  variants := [.bm25 .text, .typesLsh 30 10, .bm25 .text]

/-- Only the hashing variant has a key for each threshold. Whatever is listed twice has one key. -/
theorem keys_matrix_of_two_kinds :
    repeatedKinds.check = .ok () ∧ repeatedKinds.ListsAlike twoKinds ∧ repeatedKinds.keys = twoKinds.keys ∧
    twoKinds.keys = [⟨.typesLsh 30 10, 1, 5, 1⟩, ⟨.typesLsh 30 10, 1, 5, 3⟩, ⟨.typesLsh 30 10, 1, 10, 1⟩,
      ⟨.typesLsh 30 10, 1, 10, 3⟩, ⟨.bm25 .text, 1, 5, 0⟩, ⟨.bm25 .text, 1, 10, 0⟩] ∧
    ∀ queries t cache, (outcome t cache (Evaluator.run ⟨repeatedKinds, .ofList ["a"], .empty⟩ queries)).1 ≠
      .error (.metric .zeroCutoff) := by
  have hcheck : repeatedKinds.check = .ok () := by decide +kernel
  have halike : repeatedKinds.ListsAlike twoKinds := by
    constructor <;> intro x <;> simp only [repeatedKinds, twoKinds, List.mem_cons] <;> tauto
  obtain ⟨-, -, -, hsame, -⟩ := keys_matrix twoKinds
  obtain ⟨-, -, -, -, hsafe⟩ := keys_matrix repeatedKinds
  obtain ⟨-, -, -, hrun⟩ := hsafe hcheck
  exact ⟨hcheck, halike, hsame repeatedKinds halike, by decide +kernel,
    fun queries t cache => (hrun _ queries t cache rfl).2⟩

end Settings

end RankEval
