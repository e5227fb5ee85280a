/-
Lists in first-seen order. The walk that keeps the first element with each key is the standard one on keys, and a search
by key finds the same before and after it. What the walk has seen is looked at once, where one more element is added to
a list; all else is induction from the right end.

- `firstBy_concat`: what one more element changes.
- `map_firstBy`: the keys that are kept, in order.
- `ofList_eq_iff`: when two scores for each element make no difference.
- `lookup_firstBy`: what is found under a key is what was first listed under it.
- `lookup_eq_some_iff`: in a list without repeated keys, what is found is what is listed.
- `get?_ofList`, `tables_ofList`: the same for what an engine returned.
- `length_eraseDups_eq_iff`: nothing is dropped iff nothing is listed twice.
- `items_ofList`, `items_labeled`: the tables of a universe.
-/
import Mathlib.Data.List.Induction
import Mathlib.Tactic.Tauto
import RankEval.Candidates.Predicted
import RankEval.Candidates.Universe

namespace RankEval

namespace Distinct

variable {α : Type}

theorem keepFirst_concat (key : α → String) (x : α) (xs : List α) :
    ∀ (seen : Std.TreeSet String) (kept : List α), (∀ k, k ∈ seen ↔ k ∈ kept.map key) →
      keepFirst key seen kept (xs ++ [x]) =
        if key x ∈ kept.map key ∨ key x ∈ xs.map key then keepFirst key seen kept xs
        else keepFirst key seen kept xs ++ [x] := by
  induction xs with
  | nil =>
    intro seen kept hs
    have hseen : seen.contains (key x) = true ↔ key x ∈ kept.map key := Std.TreeSet.mem_iff_contains.symm.trans (hs _)
    simp only [List.nil_append, keepFirst, hseen, List.map_nil, List.not_mem_nil, or_false, List.reverse_cons]
  | cons y xs ih =>
    intro seen kept hs
    rw [List.cons_append, keepFirst, keepFirst]
    split
    · next hy =>
      have hy : key y ∈ kept.map key := (hs _).1 (Std.TreeSet.mem_iff_contains.2 hy)
      rw [ih seen kept hs]
      refine if_congr ?_ rfl rfl
      rw [List.map_cons, List.mem_cons]
      exact ⟨fun h => h.imp_right .inr, fun h => h.elim .inl fun h => h.elim (fun heq => .inl (heq ▸ hy)) .inr⟩
    · rw [ih _ _ (mem_insert_seen hs y)]
      refine if_congr ?_ rfl rfl
      simp only [List.map_cons, List.mem_cons]
      tauto

/-- an element is kept unless its key has come before -/
theorem firstBy_concat (key : α → String) (xs : List α) (x : α) :
    firstBy key (xs ++ [x]) = if key x ∈ xs.map key then firstBy key xs else firstBy key xs ++ [x] := by
  rw [firstBy, keepFirst_concat key x xs ∅ [] (by simp)]
  simp only [List.map_nil, List.not_mem_nil, false_or]
  rfl

theorem eraseDups_concat (xs : List String) (x : String) :
    (xs ++ [x]).eraseDups = if x ∈ xs then xs.eraseDups else xs.eraseDups ++ [x] := by
  rw [List.eraseDups_append]
  by_cases hx : x ∈ xs
  · simp [List.removeAll, hx]
  · simp [List.removeAll, hx, List.eraseDups_cons]

/-- the keys at their first occurrences -/
theorem map_firstBy (key : α → String) (xs : List α) : (firstBy key xs).map key = (xs.map key).eraseDups := by
  induction xs using List.reverseRecOn with
  | nil => rfl
  | append_singleton xs x ih =>
    rw [firstBy_concat, List.map_append, List.map_singleton, eraseDups_concat, apply_ite (List.map key),
      List.map_append, ih, List.map_singleton]

theorem names_eq_eraseDups (xs : List String) : names xs = xs.eraseDups := by
  simpa [names] using map_firstBy id xs

theorem nodup_eraseDups (xs : List String) : xs.eraseDups.Nodup := names_eq_eraseDups xs ▸ nodup_names xs

theorem firstBy_of_nodup (key : α → String) {xs : List α} (h : (xs.map key).Nodup) : firstBy key xs = xs := by
  induction xs using List.reverseRecOn with
  | nil => rfl
  | append_singleton xs x ih =>
    rw [List.map_append, List.nodup_append] at h
    obtain ⟨hxs, -, hx⟩ := h
    have hnew : key x ∉ xs.map key := fun hmem => hx _ hmem _ (List.mem_singleton_self _) rfl
    rw [firstBy_concat, if_neg hnew, ih hxs]

theorem eraseDups_of_nodup {xs : List String} (h : xs.Nodup) : xs.eraseDups = xs := by
  rw [← names_eq_eraseDups]
  exact firstBy_of_nodup id (by rwa [List.map_id])

theorem eraseDups_sublist (xs : List String) : xs.eraseDups.Sublist xs := by
  induction xs using List.reverseRecOn with
  | nil => exact List.Sublist.refl _
  | append_singleton xs x ih =>
    rw [eraseDups_concat]
    split
    · exact ih.trans (List.sublist_append_left xs [x])
    · exact ih.append (List.Sublist.refl [x])

theorem length_eraseDups_le (xs : List String) : xs.eraseDups.length ≤ xs.length := (eraseDups_sublist xs).length_le

/-- nothing is left out of a list iff it has no repeats -/
theorem length_eraseDups_eq_iff {xs : List String} : xs.eraseDups.length = xs.length ↔ xs.Nodup := by
  constructor
  · intro hlength
    have hsame : xs.eraseDups = xs := (eraseDups_sublist xs).eq_of_length hlength
    exact hsame ▸ nodup_eraseDups xs
  · exact fun h => congrArg List.length (eraseDups_of_nodup h)

/-- a search finds something iff its key is listed -/
theorem isSome_lookup_iff {xs : List (String × α)} {k : String} :
    (xs.lookup k).isSome = true ↔ k ∈ xs.map Prod.fst := by
  rw [List.lookup_isSome_iff, List.mem_map]
  refine exists_congr fun e => and_congr_right fun _ => ?_
  rw [beq_iff_eq, eq_comm]

theorem lookup_firstBy (k : String) (xs : List (String × α)) : (firstBy Prod.fst xs).lookup k = xs.lookup k := by
  induction xs using List.reverseRecOn with
  | nil => rfl
  | append_singleton xs x ih =>
    obtain ⟨key, a⟩ := x
    rw [firstBy_concat, List.lookup_append]
    split
    · next hseen =>
      -- the pair left out is not what the search finds: its key comes before
      by_cases hk : k = key
      · rw [ih, Option.or_of_isSome (isSome_lookup_iff.2 (hk ▸ hseen))]
      · rw [ih, List.lookup_cons, beq_eq_false_iff_ne.2 hk, List.lookup_nil, Option.or_none]
    · rw [List.lookup_append, ih]

theorem mem_of_mem_firstBy (key : α → String) {xs : List α} {x : α} (h : x ∈ firstBy key xs) : x ∈ xs := by
  induction xs using List.reverseRecOn with
  | nil => exact absurd h List.not_mem_nil
  | append_singleton xs y ih =>
    rw [firstBy_concat] at h
    split at h
    · exact List.mem_append_left _ (ih h)
    · rcases List.mem_append.1 h with hold | hnew
      · exact List.mem_append_left _ (ih hold)
      · exact List.mem_append_right _ hnew

/-- which elements are first with their keys is a matter of the keys alone -/
theorem firstBy_map {β : Type} (f : β → α) (key : α → String) (xs : List β) :
    firstBy key (xs.map f) = (firstBy (fun x => key (f x)) xs).map f := by
  induction xs using List.reverseRecOn with
  | nil => rfl
  | append_singleton xs x ih =>
    rw [List.map_append, List.map_singleton, firstBy_concat, firstBy_concat, ih, List.map_map, apply_ite (List.map f),
      List.map_append]
    rfl

/-- what is found under a key is what is listed under it, if no key is listed twice -/
theorem lookup_eq_some_iff {xs : List (String × α)} (h : (xs.map Prod.fst).Nodup) {k : String} {a : α} :
    xs.lookup k = some a ↔ (k, a) ∈ xs := by
  induction xs with
  | nil => simp
  | cons x xs ih =>
    obtain ⟨key, b⟩ := x
    obtain ⟨hkey, hxs⟩ := List.nodup_cons.1 h
    rw [List.lookup_cons, List.mem_cons, Prod.mk.injEq]
    by_cases hk : k = key
    · subst hk
      have hlater : (k, a) ∉ xs := fun hmem => hkey (List.mem_map.2 ⟨(k, a), hmem, rfl⟩)
      simp [hlater, eq_comm]
    · rw [beq_eq_false_iff_ne.2 hk, ih hxs]
      simp [hk]

end Distinct

namespace PredictedScores

theorem get?_ofList (returned : List (TableId × Float)) (t : TableId) :
    (ofList returned).get? t = returned.lookup t := Distinct.lookup_firstBy t returned

/-- two scores for each element make no difference iff they do not where a table comes first -/
theorem ofList_eq_iff {α : Type} {table : α → TableId} {score score' : α → Float} (xs : List α) :
    ofList (xs.map fun x => (table x, score x)) = ofList (xs.map fun x => (table x, score' x)) ↔
      ∀ x ∈ Distinct.firstBy table xs, score x = score' x := by
  rw [ofList, ofList, PredictedScores.mk.injEq, Distinct.firstBy_map, Distinct.firstBy_map]
  simp only [List.map_inj_left, Prod.mk.injEq, true_and]

theorem tables_ofList (returned : List (TableId × Float)) :
    (ofList returned).tables = (returned.map Prod.fst).eraseDups := Distinct.map_firstBy Prod.fst returned

end PredictedScores

namespace CandidateUniverse

/-- tables of the corpus that are not on a page, as many as there are on it, drawn by a seed -/
def distractors (page corpus : List TableId) (seed : UInt64) : List TableId :=
  let pool := corpus.filter fun t => t ∉ page
  (Random.sample pool.length page.length (.ofSeed seed)).filterMap fun i => pool[i]?

theorem remaining_eq_filter (excluded tables : List TableId) :
    remaining excluded tables = tables.filter fun t => t ∉ excluded := by
  refine List.filter_congr fun t _ => ?_
  rw [Std.TreeSet.contains_ofList]
  simp

theorem items_ofList (tables : List TableId) : (ofList tables).items = tables.eraseDups :=
  Distinct.names_eq_eraseDups tables

theorem items_labeled (page : List TableId) (corpus : CandidateUniverse) (seed : UInt64) :
    (labeled page corpus seed).items = (page ++ distractors page corpus.items seed).eraseDups := by
  simp only [labeled, items_ofList, distractors, remaining_eq_filter, List.size_toArray, List.getElem?_toArray]

end CandidateUniverse

end RankEval
