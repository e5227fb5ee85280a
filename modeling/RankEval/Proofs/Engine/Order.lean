/-
The order of evaluation keys. A key is compared through a list of numbers that has a number for its kind first, and two
keys with the same list are the same key; so keys are in a lawful order, and a sorted list of keys is known by its
members.

- `EvaluationKey.rank_injective`: a key is known by its list.
- `EvaluationKey.ext_of_sorted`: a sorted list of keys is known by its members.
- `EvaluationKey.mem_before_iff`: what stands before a key in it are the lesser keys.
-/
import Mathlib.Data.List.Sort
import RankEval.Engine.Key

namespace RankEval

/-! ## Ranks -/

namespace Configuration

theorem modeRank_injective : Function.Injective modeRank := by
  intro a b h
  cases a <;> cases b <;> first | rfl | cases h

theorem fieldRank_injective : Function.Injective fieldRank := by
  intro a b h
  cases a <;> cases b <;> first | rfl | cases h

/-- the rank of a variant is known from any list that starts with it, for its length follows from its first number -/
theorem rank_append_injective {a b : Configuration} {x y : List Nat} (h : a.rank ++ x = b.rank ++ y) :
    a = b ∧ x = y := by
  cases a <;> cases b <;> simp only [rank, List.cons_append, List.nil_append, List.cons.injEq] at h
  case typesLsh.typesLsh => exact ⟨by rw [h.2.1, h.2.2.1], h.2.2.2⟩
  case embeddingsLsh.embeddingsLsh => exact ⟨by rw [h.2.1, h.2.2.1], h.2.2.2⟩
  case columnAggregated.columnAggregated =>
    exact ⟨by rw [modeRank_injective h.2.1, h.2.2.1, h.2.2.2.1], h.2.2.2.2⟩
  case bm25.bm25 => exact ⟨by rw [fieldRank_injective h.2.1], h.2.2⟩
  case baseline.baseline => exact ⟨by rw [modeRank_injective h.2.1], h.2.2⟩
  case bm25Prefilter.bm25Prefilter => exact ⟨by rw [modeRank_injective h.2.1], h.2.2⟩
  all_goals exact absurd h.1 (by decide)

end Configuration

namespace EvaluationKey

theorem rank_injective : Function.Injective rank := by
  intro a b h
  obtain ⟨ca, ta, ka, va⟩ := a
  obtain ⟨cb, tb, kb, vb⟩ := b
  obtain ⟨hc, hrest⟩ := Configuration.rank_append_injective h
  simp only [List.cons.injEq, and_true] at hrest
  obtain ⟨ht, hk, hv⟩ := hrest
  subst hc ht hk hv
  rfl

/-! ## The order -/

instance : Std.TransOrd EvaluationKey := inferInstanceAs (Std.TransCmp (compareOn rank))

instance : Std.LawfulEqOrd EvaluationKey where
  eq_of_compare h := rank_injective (Std.LawfulEqCmp.eq_of_compare h)

/-- **A sorted list of keys is known by its members.** -/
theorem ext_of_sorted {xs ys : List EvaluationKey} (hxs : xs.Pairwise fun a b => compare a b = .lt)
    (hys : ys.Pairwise fun a b => compare a b = .lt) (h : ∀ key, key ∈ xs ↔ key ∈ ys) : xs = ys := by
  have hirrefl : Std.Irrefl fun a b : EvaluationKey => compare a b = .lt := ⟨fun a ha => by simp at ha⟩
  have hantisymm : Std.Antisymm fun a b : EvaluationKey => compare a b = .lt :=
    ⟨fun a b hab hba => by simp [Std.OrientedCmp.gt_of_lt hba] at hab⟩
  exact List.Pairwise.eq_of_mem_iff hxs hys h

/-- in a sorted list no key comes twice -/
theorem nodup_of_sorted {keys : List EvaluationKey} (h : keys.Pairwise fun a b => compare a b = .lt) : keys.Nodup := by
  refine h.imp fun {a b} hab heq => ?_
  simp [heq] at hab

/-- in a sorted list the lesser keys stand before a key -/
theorem mem_before_iff {before after : List EvaluationKey} {key other : EvaluationKey}
    (h : (before ++ key :: after).Pairwise fun a b => compare a b = .lt) (hother : other ∈ before ++ key :: after) :
    other ∈ before ↔ compare other key = .lt := by
  obtain ⟨-, hafter, hbefore⟩ := List.pairwise_append.1 h
  constructor
  · exact fun hmem => hbefore other hmem key List.mem_cons_self
  · intro hlt
    rcases List.mem_append.1 hother with hmem | hmem
    · exact hmem
    · rcases List.mem_cons.1 hmem with rfl | hmem
      · simp at hlt
      · simp [Std.OrientedCmp.gt_of_lt ((List.pairwise_cons.1 hafter).1 other hmem)] at hlt

end EvaluationKey

end RankEval
