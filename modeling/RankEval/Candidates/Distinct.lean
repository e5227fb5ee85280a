/-
Lists in which every key occurs once: of the elements with one key the first is kept, in its place.

- `nodup_keys_firstBy`: no key occurs twice in the result.
- `mem_keys_firstBy`: no key gets lost.
-/
import Std.Data.TreeSet.Lemmas

namespace RankEval

/-- the name of a table -/
abbrev TableId := String

namespace Distinct

variable {α : Type}

/-- keeps the elements whose key is not yet `seen` -/
def keepFirst (key : α → String) (seen : Std.TreeSet String) (kept : List α) : List α → List α
  | [] => kept.reverse
  | x :: xs =>
    if seen.contains (key x) then keepFirst key seen kept xs
    else keepFirst key (seen.insert (key x)) (x :: kept) xs

/-- the first element with each key, in order -/
def firstBy (key : α → String) (xs : List α) : List α := keepFirst key ∅ [] xs

/-- the first occurrence of each name, in order -/
def names (xs : List String) : List String := firstBy id xs

/-- a set of the keys that are kept stays one -/
theorem mem_insert_seen {key : α → String} {seen : Std.TreeSet String} {kept : List α}
    (hs : ∀ k, k ∈ seen ↔ k ∈ kept.map key) (x : α) (k : String) :
    k ∈ seen.insert (key x) ↔ k ∈ (x :: kept).map key := by
  rw [Std.TreeSet.mem_insert, hs k, List.map_cons, List.mem_cons, Std.LawfulEqOrd.compare_eq_iff_eq]
  exact or_congr eq_comm Iff.rfl

theorem nodup_keepFirst (key : α → String) (xs : List α) :
    ∀ (seen : Std.TreeSet String) (kept : List α), (∀ k, k ∈ seen ↔ k ∈ kept.map key) → (kept.map key).Nodup →
      ((keepFirst key seen kept xs).map key).Nodup := by
  induction xs with
  | nil => intro seen kept _ hk; simpa [keepFirst, List.map_reverse, List.Nodup, List.pairwise_reverse, ne_comm] using hk
  | cons x xs ih =>
    intro seen kept hs hk
    unfold keepFirst
    split
    · exact ih seen kept hs hk
    · next hx =>
      refine ih _ _ (mem_insert_seen hs x) ?_
      rw [List.map_cons, List.nodup_cons]
      exact ⟨fun h => hx (Std.TreeSet.mem_iff_contains.1 ((hs _).2 h)), hk⟩

theorem nodup_keys_firstBy (key : α → String) (xs : List α) : ((firstBy key xs).map key).Nodup :=
  nodup_keepFirst key xs ∅ [] (by simp) (by simp)

theorem nodup_names (xs : List String) : (names xs).Nodup := by
  simpa [names] using nodup_keys_firstBy id xs

theorem mem_keys_keepFirst (key : α → String) (k : String) (xs : List α) :
    ∀ (seen : Std.TreeSet String) (kept : List α), (∀ k, k ∈ seen ↔ k ∈ kept.map key) →
      (k ∈ (keepFirst key seen kept xs).map key ↔ k ∈ kept.map key ∨ k ∈ xs.map key) := by
  induction xs with
  | nil => intro seen kept _; simp [keepFirst]
  | cons x xs ih =>
    intro seen kept hs
    unfold keepFirst
    split
    · next hx =>
      have hx : key x ∈ kept.map key := (hs _).1 (Std.TreeSet.mem_iff_contains.2 hx)
      rw [ih seen kept hs, List.map_cons, List.mem_cons]
      constructor
      · exact fun h => h.imp_right .inr
      · rintro (h | rfl | h)
        · exact .inl h
        · exact .inl hx
        · exact .inr h
    · rw [ih _ _ (mem_insert_seen hs x)]
      simp only [List.map_cons, List.mem_cons]
      constructor
      · rintro ((rfl | h) | h)
        · exact .inr (.inl rfl)
        · exact .inl h
        · exact .inr (.inr h)
      · rintro (h | rfl | h)
        · exact .inl (.inr h)
        · exact .inl (.inl rfl)
        · exact .inr h

theorem mem_keys_firstBy (key : α → String) (k : String) (xs : List α) :
    k ∈ (firstBy key xs).map key ↔ k ∈ xs.map key := by
  simpa [firstBy] using mem_keys_keepFirst key k xs ∅ [] (by simp)

end Distinct

end RankEval
