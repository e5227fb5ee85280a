/-
What an evaluation comes to, for all inputs. Seven things can be wrong with them; several can be wrong at once, and the
first of the seven decides. If none is, the record agrees in every field with the metric that is computed on its own.

- `FirstFault`: the faults that inputs have, each stated without the others, and the one that goes before the rest.
- `firstFault_of_validate`, `firstFault_of_optionalAuc`: what the two checks find.
- `evaluate_eq_error_iff`, `evaluate_eq_ok_iff`: when an evaluation fails, and what it gives otherwise.
- `evaluate_specified`: both together; so only whether a cutoff is 0 matters to failures, and cutoffs beyond the number
  of candidates to nothing.
-/
import RankEval.Proofs.Metric.Validity

namespace RankEval.Metric

/-! ## Faults -/

/-- a relevance that is infinite, no number or negative -/
def IsBadRelevance (x : Float) : Prop := x.isFinite = false ∨ x < 0.0

/-- the first value of a list with a property, and its position -/
structure FirstAt (p : Float → Prop) (values : List Float) (i : Nat) (x : Float) : Prop where
  at_ : values[i]? = some x
  holds : p x
  before : ∀ j < i, ∀ y, values[j]? = some y → ¬ p y

/-- the faults that inputs have, whatever else is wrong with them -/
inductive HasFault (policy : UndefinedAuc) (relevance : List Float) (scores : AlignedScores) (k : Nat) : Error → Prop
  | lengthMismatch (h : relevance.length ≠ scores.values.length) :
    HasFault policy relevance scores k (.lengthMismatch relevance.length scores.values.length)
  | zeroCutoff (h : k = 0) : HasFault policy relevance scores k .zeroCutoff
  | emptyInput (h : relevance = []) : HasFault policy relevance scores k .emptyInput
  | nonFiniteRelevance (i : Nat) (x : Float) (h : FirstAt IsBadRelevance relevance i x) (hx : x.isFinite = false) :
    HasFault policy relevance scores k (.nonFinite .relevance i)
  | negativeRelevance (i : Nat) (x : Float) (h : FirstAt IsBadRelevance relevance i x) (hx : x.isFinite = true) :
    HasFault policy relevance scores k (.negativeRelevance x i)
  | nonFiniteScore (i : Nat) (x : Float) (h : FirstAt (fun s => s.isFinite = false) scores.values i x) :
    HasFault policy relevance scores k (.nonFinite .score i)
  | noRelevantItems (hp : policy = .strict) (h : ∀ x ∈ relevance, ¬ 0.0 < x) :
    HasFault policy relevance scores k (.noRelevantItems relevance.length)
  | allRelevant (hp : policy = .strict) (h : ∀ x ∈ relevance, 0.0 < x) :
    HasFault policy relevance scores k (.allRelevant relevance.length)

/-- the place of a fault in the order in which faults are reported -/
def Error.rank : Error → Nat
  | .lengthMismatch _ _ => 0
  | .zeroCutoff => 1
  | .emptyInput => 2
  | .nonFinite .relevance _ => 3
  | .negativeRelevance _ _ => 3
  | .nonFinite .score _ => 4
  | .noRelevantItems _ => 5
  | .allRelevant _ => 6

/-- the fault that goes before all others -/
structure FirstFault (policy : UndefinedAuc) (relevance : List Float) (scores : AlignedScores) (k : Nat)
    (e : Error) : Prop where
  has : HasFault policy relevance scores k e
  first : ∀ e', HasFault policy relevance scores k e' → e.rank ≤ e'.rank

/-- The fields of a record are what the metrics are on their own. Only the AUC can be absent: iff no candidate is
relevant, or every one is. -/
structure Agrees (options : Options) (relevance : List Float) (scores : AlignedScores) (k : Nat) (record : Record) :
    Prop where
  cutoff : record.k = min k relevance.length
  ndcg : ndcgAtK relevance scores.values k options.gain = .ok record.ndcg
  precisionAtK : Metric.precisionAtK Float relevance scores.values k = .ok record.precisionAtK
  recallAtK : Metric.recallAtK Float relevance scores.values k = .ok record.recallAtK
  relevant : relevantAtK relevance scores.values k = .ok record.relevant
  auc_eq_none_iff : record.auc = none ↔ (∀ x ∈ relevance, ¬ 0.0 < x) ∨ ∀ x ∈ relevance, 0.0 < x
  auc_eq_some_iff : ∀ a, record.auc = some a ↔ auc Float relevance scores = .ok a

/-! ## The first value with a property -/

section
variable {p : Float → Prop} {values : List Float} {i j : Nat} {x y : Float}

theorem FirstAt.mem (h : FirstAt p values i x) : x ∈ values := List.mem_of_getElem? h.at_

/-- there is only one first value -/
theorem FirstAt.unique (h : FirstAt p values i x) (h' : FirstAt p values j y) : i = j ∧ x = y := by
  have hi : ¬ i < j := fun hlt => h'.before i hlt x h.at_ h.holds
  have hj : ¬ j < i := fun hlt => h.before j hlt y h'.at_ h'.holds
  obtain rfl : i = j := by omega
  exact ⟨rfl, Option.some.inj (h.at_.symm.trans h'.at_)⟩

/-- a search that ends at the first value with a property -/
theorem firstAt_of_findSome? {f : Float × Nat → Option Error} {e : Error} (hf : ∀ x i, f (x, i) = none ↔ ¬ p x)
    (h : values.zipIdx.findSome? f = some e) : ∃ i x, FirstAt p values i x ∧ f (x, i) = some e := by
  obtain ⟨before, ⟨x, i⟩, after, hsplit, hfound, hbefore⟩ := List.findSome?_eq_some_iff.1 h
  have hat : values.zipIdx[before.length]? = some (x, i) := by rw [hsplit]; simp
  rw [List.getElem?_zipIdx, Option.map_eq_some_iff] at hat
  obtain ⟨_, hat, heq⟩ := hat
  cases heq
  refine ⟨_, x, ⟨by simpa using hat, ?_, fun j hj y hy hp => ?_⟩, hfound⟩
  · by_contra hp
    rw [(hf x _).2 hp] at hfound
    cases hfound
  · -- what stands before the value that was found was searched too
    have hsearched : (y, j) ∈ before := by
      have hget : (before ++ (x, 0 + before.length) :: after)[j]? = some (y, j) := by
        rw [← hsplit, List.getElem?_zipIdx, hy]
        simp
      rw [List.getElem?_append_left (by omega)] at hget
      exact List.mem_of_getElem? hget
    exact (hf y j).1 (hbefore _ hsearched) hp

end

section
variable {relevance : List Float} {scores : AlignedScores} {k : Nat} {policy : UndefinedAuc} {e e' : Error}

theorem not_isBadRelevance_iff {x : Float} : ¬ IsBadRelevance x ↔ x.isFinite = true ∧ ¬ x < 0.0 := by
  rw [IsBadRelevance, not_or, Bool.not_eq_false]

theorem hasFault_of_badRelevance (h : badRelevance relevance = some e) :
    HasFault policy relevance scores k e ∧ e.rank = 3 := by
  obtain ⟨i, x, hfirst, he⟩ := firstAt_of_findSome? (p := IsBadRelevance) (fun x i => by
    rw [not_isBadRelevance_iff]
    dsimp only
    split_ifs <;> simp_all) h
  dsimp only at he
  split_ifs at he with hfinite hneg
  · cases he
    exact ⟨.nonFiniteRelevance i x hfirst (by simpa using hfinite), rfl⟩
  · cases he
    exact ⟨.negativeRelevance i x hfirst (by simpa using hfinite), rfl⟩

theorem hasFault_of_badScore (h : badScore scores.values = some e) :
    HasFault policy relevance scores k e ∧ e.rank = 4 := by
  obtain ⟨i, x, hfirst, he⟩ := firstAt_of_findSome? (p := fun s => s.isFinite = false) (fun x i => by
    dsimp only
    split_ifs <;> simp_all) h
  dsimp only at he
  split_ifs at he
  cases he
  exact ⟨.nonFiniteScore i x hfirst, rfl⟩

/-! ## What the checks find -/

/-- of two faults that nothing goes before, neither goes before the other, and there is only one of each rank -/
theorem FirstFault.unique (h : FirstFault policy relevance scores k e) (h' : FirstFault policy relevance scores k e') :
    e = e' := by
  have hrank : e.rank = e'.rank := le_antisymm (h.first e' h'.has) (h'.first e h.has)
  cases h.has <;> cases h'.has <;> simp only [Error.rank, reduceCtorEq] at hrank ⊢ <;> try omega
  case nonFiniteRelevance.nonFiniteRelevance i x hx _ j y hy _ => rw [(hx.unique hy).1]
  case nonFiniteRelevance.negativeRelevance i x hx hfin j y hy hfin' =>
    obtain ⟨-, rfl⟩ := hx.unique hy
    rw [hfin] at hfin'
    cases hfin'
  case negativeRelevance.nonFiniteRelevance i x hx hfin j y hy hfin' =>
    obtain ⟨-, rfl⟩ := hx.unique hy
    rw [hfin] at hfin'
    cases hfin'
  case negativeRelevance.negativeRelevance i x hx _ j y hy _ =>
    obtain ⟨rfl, rfl⟩ := hx.unique hy
    rfl
  case nonFiniteScore.nonFiniteScore i x hx j y hy => rw [(hx.unique hy).1]

/-- vectors of one length, with something asked for and given, have none of the first three faults -/
theorem three_le_rank (hlength : relevance.length = scores.values.length) (hk : k ≠ 0) (hne : relevance ≠ [])
    (h : HasFault policy relevance scores k e) : 3 ≤ e.rank := by
  cases h with
  | lengthMismatch h => exact absurd hlength h
  | zeroCutoff h => exact absurd h hk
  | emptyInput h => exact absurd h hne
  | _ => simp [Error.rank]

theorem four_le_rank (hlength : relevance.length = scores.values.length) (hk : k ≠ 0) (hne : relevance ≠ [])
    (hrel : badRelevance relevance = none) (h : HasFault policy relevance scores k e) : 4 ≤ e.rank := by
  have hgood := (badRelevance_eq_none_iff relevance).1 hrel
  have hthree := three_le_rank hlength hk hne h
  cases h with
  | nonFiniteRelevance i x h hx => exact absurd h.holds (not_isBadRelevance_iff.2 (hgood x h.mem))
  | negativeRelevance i x h hx => exact absurd h.holds (not_isBadRelevance_iff.2 (hgood x h.mem))
  | _ => simp_all [Error.rank]

theorem five_le_rank {c : Nat} (hv : validate relevance scores.values k = .ok c)
    (h : HasFault policy relevance scores k e) : 5 ≤ e.rank := by
  obtain ⟨hlength, hk, hne, hrel, hscores, -⟩ := (validate_eq_ok_iff ..).1 hv
  have hfour := four_le_rank hlength hk hne ((badRelevance_eq_none_iff relevance).2 hrel) h
  cases h with
  | nonFiniteScore i x h =>
    have hfinite := hscores x h.mem
    rw [h.holds] at hfinite
    cases hfinite
  | _ => simp_all [Error.rank]

/-- the first check finds the first fault -/
theorem firstFault_of_validate (h : validate relevance scores.values k = .error e) :
    FirstFault policy relevance scores k e := by
  unfold validate at h
  split_ifs at h with hlength hk hempty
  · cases h
    exact ⟨.lengthMismatch hlength, fun e' _ => Nat.zero_le _⟩
  · cases h
    refine ⟨.zeroCutoff hk, fun e' h' => ?_⟩
    cases h' with
    | lengthMismatch h' => exact absurd (not_not.1 hlength) h'
    | _ => simp [Error.rank]
  · cases h
    refine ⟨.emptyInput (List.isEmpty_iff.1 hempty), fun e' h' => ?_⟩
    cases h' with
    | lengthMismatch h' => exact absurd (not_not.1 hlength) h'
    | zeroCutoff h' => exact absurd h' hk
    | _ => simp [Error.rank]
  · have hne : relevance ≠ [] := fun h => hempty (List.isEmpty_iff.2 h)
    cases hrel : badRelevance relevance with
    | some bad =>
      rw [hrel] at h
      cases h
      obtain ⟨hhas, hrank⟩ := hasFault_of_badRelevance hrel
      exact ⟨hhas, fun e' h' => hrank.trans_le (three_le_rank (not_not.1 hlength) hk hne h')⟩
    | none =>
      cases hscore : badScore scores.values with
      | some bad =>
        rw [hrel, hscore] at h
        cases h
        obtain ⟨hhas, hrank⟩ := hasFault_of_badScore hscore
        exact ⟨hhas, fun e' h' => hrank.trans_le (four_le_rank (not_not.1 hlength) hk hne hrel h')⟩
      | none =>
        rw [hrel, hscore] at h
        cases h

/-! ## The area under the curve -/

theorem relevantCount_eq_zero_iff : relevantCount relevance = 0 ↔ ∀ x ∈ relevance, ¬ 0.0 < x := by
  simp [relevantCount, isRelevant, List.countP_eq_zero]

theorem relevantCount_eq_length_iff : relevantCount relevance = relevance.length ↔ ∀ x ∈ relevance, 0.0 < x := by
  simp [relevantCount, isRelevant, List.countP_eq_length]

/-- inputs that pass the checks pass them for every other cutoff, other than 0 -/
theorem validate_of_validate {c k' : Nat} (hv : validate relevance scores.values k = .ok c) (hk' : k' ≠ 0) :
    validate relevance scores.values k' = .ok (min k' relevance.length) := by
  obtain ⟨hlength, -, hne, hrel, hscores, -⟩ := (validate_eq_ok_iff ..).1 hv
  exact (validate_eq_ok_iff ..).2 ⟨hlength, hk', hne, hrel, hscores, rfl⟩

/-- the area of inputs that pass the checks -/
theorem auc_of_validate {R : Type} [Arithmetic R] {c : Nat} (hv : validate relevance scores.values k = .ok c) :
    auc R relevance scores =
      if relevantCount relevance = 0 then .error (.noRelevantItems relevance.length)
      else if relevantCount relevance = relevance.length then .error (.allRelevant relevance.length)
      else .ok (areaOf R relevance.length (relevantCount relevance)
        (rankSum R relevance scores.values (scores.flags relevance.length))) := by
  unfold auc
  rw [validate_of_validate hv one_ne_zero]
  rfl

/-- the record of inputs that pass the checks; only its area may be missed -/
theorem evaluate_of_validate {c : Nat} (options : Options) (hv : validate relevance scores.values k = .ok c) :
    evaluate options relevance scores k = (optionalAuc options.auc relevance scores).map fun area => {
      k := c
      ndcg := normalisedDcg options.gain.apply discount relevance scores.values c
      precisionAtK := Float.ofNat (hits relevance scores.values c) / Float.ofNat c
      recallAtK := Arithmetic.ratio Float (hits relevance scores.values c) (relevantCount relevance)
      auc := area
      relevant := hits relevance scores.values c } := by
  rw [evaluate, hv]
  rfl

/-- the second check finds the first fault of inputs that pass the first one -/
theorem firstFault_of_optionalAuc {c : Nat} (hv : validate relevance scores.values k = .ok c)
    (h : optionalAuc policy relevance scores = .error e) : FirstFault policy relevance scores k e := by
  unfold optionalAuc at h
  rw [auc_of_validate hv] at h
  by_cases hnone : relevantCount relevance = 0
  · rw [if_pos hnone] at h
    cases policy <;> cases h
    exact ⟨.noRelevantItems rfl (relevantCount_eq_zero_iff.1 hnone), fun e' h' => five_le_rank hv h'⟩
  · rw [if_neg hnone] at h
    by_cases hall : relevantCount relevance = relevance.length
    · rw [if_pos hall] at h
      cases policy <;> cases h
      refine ⟨.allRelevant rfl (relevantCount_eq_length_iff.1 hall), fun e' h' => ?_⟩
      have hfive := five_le_rank hv h'
      cases h' with
      | noRelevantItems _ h' => exact absurd (relevantCount_eq_zero_iff.2 h') hnone
      | _ => simp_all [Error.rank]
    · rw [if_neg hall] at h
      cases h

/-- an area for a record is absent iff it is undefined, and otherwise what is computed on its own -/
theorem optionalAuc_eq_ok {c : Nat} {area : Option Float} (hv : validate relevance scores.values k = .ok c)
    (h : optionalAuc policy relevance scores = .ok area) :
    (∀ e, ¬ HasFault policy relevance scores k e) ∧
      (area = none ↔ (∀ x ∈ relevance, ¬ 0.0 < x) ∨ ∀ x ∈ relevance, 0.0 < x) ∧
      ∀ a, area = some a ↔ auc Float relevance scores = .ok a := by
  unfold optionalAuc at h
  rw [auc_of_validate hv] at h
  rw [auc_of_validate hv, ← relevantCount_eq_zero_iff, ← relevantCount_eq_length_iff]
  refine ⟨fun e he => ?_, ?_⟩
  · have hfive := five_le_rank hv he
    cases he with
    | noRelevantItems hp he =>
      rw [if_pos (relevantCount_eq_zero_iff.2 he), hp] at h
      cases h
    | allRelevant hp he =>
      rw [if_pos (relevantCount_eq_length_iff.2 he), hp] at h
      split_ifs at h
    | _ => simp [Error.rank] at hfive
  · split_ifs at h ⊢ with hnone hall
    · cases policy <;> cases h
      simp [hnone]
    · cases policy <;> cases h
      simp [hall]
    · cases h
      simp [hnone, hall]

end

/-! ## The whole evaluation -/

section
variable {options : Options} {relevance : List Float} {scores : AlignedScores} {k : Nat} {e : Error} {record : Record}

/-- an evaluation that fails does so with the first fault -/
theorem firstFault_of_evaluate (h : evaluate options relevance scores k = .error e) :
    FirstFault options.auc relevance scores k e := by
  unfold evaluate at h
  cases hv : validate relevance scores.values k with
  | error e' =>
    rw [hv] at h
    cases h
    exact firstFault_of_validate hv
  | ok c =>
    cases harea : optionalAuc options.auc relevance scores with
    | error e' =>
      rw [hv, harea] at h
      cases h
      exact firstFault_of_optionalAuc hv harea
    | ok area =>
      rw [hv, harea] at h
      cases h

/-- an evaluation that succeeds had inputs without faults, and its record agrees with the metrics on their own -/
theorem agrees_of_evaluate (h : evaluate options relevance scores k = .ok record) :
    (∀ e, ¬ HasFault options.auc relevance scores k e) ∧ Agrees options relevance scores k record := by
  unfold evaluate at h
  cases hv : validate relevance scores.values k with
  | error e' =>
    rw [hv] at h
    cases h
  | ok c =>
    cases harea : optionalAuc options.auc relevance scores with
    | error e' =>
      rw [hv, harea] at h
      cases h
    | ok area =>
      rw [hv, harea] at h
      cases h
      obtain ⟨hfree, hnone, hsome⟩ := optionalAuc_eq_ok hv harea
      obtain ⟨-, -, -, -, -, rfl⟩ := (validate_eq_ok_iff ..).1 hv
      exact ⟨hfree, {
        cutoff := rfl
        ndcg := by rw [ndcgAtK, hv]; rfl
        precisionAtK := by rw [Metric.precisionAtK, hv]; rfl
        recallAtK := by rw [Metric.recallAtK, hv]; rfl
        relevant := by rw [relevantAtK, hv]; rfl
        auc_eq_none_iff := hnone
        auc_eq_some_iff := hsome }⟩

theorem Agrees.unique {record' : Record} (h : Agrees options relevance scores k record)
    (h' : Agrees options relevance scores k record') : record = record' := by
  have hauc : record.auc = record'.auc := Option.ext fun a => (h.auc_eq_some_iff a).trans (h'.auc_eq_some_iff a).symm
  obtain ⟨c, ndcg, precision, recalled, area, found⟩ := record
  obtain ⟨c', ndcg', precision', recalled', area', found'⟩ := record'
  obtain rfl : c = c' := h.cutoff.trans h'.cutoff.symm
  obtain rfl : ndcg = ndcg' := Except.ok.inj (h.ndcg.symm.trans h'.ndcg)
  obtain rfl : precision = precision' := Except.ok.inj (h.precisionAtK.symm.trans h'.precisionAtK)
  obtain rfl : recalled = recalled' := Except.ok.inj (h.recallAtK.symm.trans h'.recallAtK)
  obtain rfl : found = found' := Except.ok.inj (h.relevant.symm.trans h'.relevant)
  obtain rfl : area = area' := hauc
  rfl

/-- no fault but one depends on the cutoff -/
theorem HasFault.of_cutoff {k' : Nat} {policy : UndefinedAuc} (hk : k = 0 → k' = 0)
    (h : HasFault policy relevance scores k e) : HasFault policy relevance scores k' e := by
  cases h with
  | lengthMismatch h => exact .lengthMismatch h
  | zeroCutoff h => exact .zeroCutoff (hk h)
  | emptyInput h => exact .emptyInput h
  | nonFiniteRelevance i x h hx => exact .nonFiniteRelevance i x h hx
  | negativeRelevance i x h hx => exact .negativeRelevance i x h hx
  | nonFiniteScore i x h => exact .nonFiniteScore i x h
  | noRelevantItems hp h => exact .noRelevantItems hp h
  | allRelevant hp h => exact .allRelevant hp h

theorem FirstFault.of_cutoff {k' : Nat} {policy : UndefinedAuc} (hk : k = 0 ↔ k' = 0)
    (h : FirstFault policy relevance scores k e) : FirstFault policy relevance scores k' e :=
  ⟨h.has.of_cutoff hk.1, fun e' h' => h.first e' (h'.of_cutoff hk.2)⟩

theorem evaluate_eq_error_iff : evaluate options relevance scores k = .error e ↔
    FirstFault options.auc relevance scores k e := by
  refine ⟨firstFault_of_evaluate, fun h => ?_⟩
  cases heval : evaluate options relevance scores k with
  | error e' => rw [(firstFault_of_evaluate heval).unique h]
  | ok record => exact absurd h.has ((agrees_of_evaluate heval).1 e)

theorem evaluate_eq_ok_iff : evaluate options relevance scores k = .ok record ↔
    (∀ e, ¬ HasFault options.auc relevance scores k e) ∧ Agrees options relevance scores k record := by
  refine ⟨agrees_of_evaluate, fun ⟨hfree, hagrees⟩ => ?_⟩
  cases heval : evaluate options relevance scores k with
  | error e' => exact absurd (firstFault_of_evaluate heval).has (hfree e')
  | ok record' => rw [(agrees_of_evaluate heval).2.unique hagrees]

end

/-- cutoffs from the number of candidates on are the same to the checks -/
theorem validate_length_add {relevance : List Float} (hne : relevance ≠ []) (scores : List Float) (d : Nat) :
    validate relevance scores (relevance.length + d) = validate relevance scores relevance.length := by
  have hlength : relevance.length ≠ 0 := mt List.length_eq_zero_iff.1 hne
  have hadd : relevance.length + d ≠ 0 := by omega
  have hmin : min (relevance.length + d) relevance.length = min relevance.length relevance.length := by omega
  unfold validate
  rw [if_neg hlength, if_neg hadd, hmin]

/-- **An evaluation is specified for all inputs.** It fails iff the inputs have a fault, and then with the first one in
the order of ranks. Otherwise its record agrees in every field with the metrics on their own. So all cutoffs but 0 fail
alike or succeed alike, and every cutoff beyond the number of candidates gives the record of that number. -/
theorem evaluate_specified (options : Options) (relevance : List Float) (scores : AlignedScores) :
    (∀ k e, evaluate options relevance scores k = .error e ↔ FirstFault options.auc relevance scores k e) ∧
      (∀ k, (∃ record, evaluate options relevance scores k = .ok record) ↔
        ∀ e, ¬ HasFault options.auc relevance scores k e) ∧
      (∀ k record, evaluate options relevance scores k = .ok record ↔
        (∀ e, ¬ HasFault options.auc relevance scores k e) ∧ Agrees options relevance scores k record) ∧
      (∀ k k' e, evaluate options relevance scores (k + 1) = .error e ↔
        evaluate options relevance scores (k' + 1) = .error e) ∧
      ∀ d record, evaluate options relevance scores (relevance.length + d) = .ok record ↔
        evaluate options relevance scores relevance.length = .ok record := by
  refine ⟨fun k e => evaluate_eq_error_iff, fun k => ?_, fun k record => evaluate_eq_ok_iff, fun k k' e => ?_,
    fun d record => ?_⟩
  · constructor
    · rintro ⟨record, h⟩
      exact (agrees_of_evaluate h).1
    · intro hfree
      cases heval : evaluate options relevance scores k with
      | error e => exact absurd (firstFault_of_evaluate heval).has (hfree e)
      | ok record => exact ⟨record, rfl⟩
  · have hk : k + 1 = 0 ↔ k' + 1 = 0 := by omega
    rw [evaluate_eq_error_iff, evaluate_eq_error_iff]
    exact ⟨FirstFault.of_cutoff hk, FirstFault.of_cutoff hk.symm⟩
  · by_cases hne : relevance = []
    · have hempty : ∀ k, ¬ evaluate options relevance scores k = .ok record :=
        fun k h => (agrees_of_evaluate h).1 _ (.emptyInput hne)
      exact iff_of_false (hempty _) (hempty _)
    · unfold evaluate
      rw [validate_length_add hne]

/-- a negative relevance goes before an infinite score, although it stands further back -/
example : evaluate {} [0.5, -1.0] (.dense [1.0 / 0.0, 0.5]) 3 = .error (.negativeRelevance (-1.0) 1) := by
  decide +kernel

end RankEval.Metric
