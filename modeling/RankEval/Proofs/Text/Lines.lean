/-
Texts that are put together from parts are cut into the same parts.

- `splitAt_append`: a separator ends the part before it.
- `lines_flatMap`: lines that are ended one by one are found again.
-/
import RankEval.Text.Basic

namespace RankEval.Text

/-! ## Texts cut at a character -/

/-- a character other than the separator goes to the first part -/
theorem splitAt_cons (sep c : Char) (cs : List Char) :
    splitAt sep (c :: cs) =
      if c = sep then [] :: splitAt sep cs else (c :: (splitAt sep cs).headD []) :: (splitAt sep cs).tail := by
  cases hparts : splitAt sep cs with
  | nil =>
    rw [splitAt] at hparts ⊢
    rw [List.foldr_cons, hparts]
    rfl
  | cons part rest =>
    rw [splitAt] at hparts ⊢
    rw [List.foldr_cons, hparts]
    rfl

theorem splitAt_ne_nil (sep : Char) (cs : List Char) : splitAt sep cs ≠ [] := by
  cases cs with
  | nil => exact List.cons_ne_nil _ _
  | cons c cs =>
    rw [splitAt_cons]
    split <;> exact List.cons_ne_nil _ _

/-- a separator ends the part before it -/
theorem splitAt_append (sep : Char) (cs ds : List Char) :
    splitAt sep (cs ++ sep :: ds) = splitAt sep cs ++ splitAt sep ds := by
  induction cs with
  | nil =>
    rw [List.nil_append, splitAt_cons, if_pos rfl]
    rfl
  | cons c cs ih =>
    obtain ⟨first, rest, hparts⟩ := List.exists_cons_of_ne_nil (splitAt_ne_nil sep cs)
    rw [List.cons_append, splitAt_cons, splitAt_cons, ih, hparts]
    split <;> rfl

/-- a text without the separator is its only part -/
theorem splitAt_of_not_mem {sep : Char} {cs : List Char} (h : sep ∉ cs) : splitAt sep cs = [cs] := by
  induction cs with
  | nil => rfl
  | cons c cs ih =>
    rw [splitAt_cons, if_neg (List.ne_of_not_mem_cons h).symm, ih (List.not_mem_of_not_mem_cons h)]
    rfl

/-- only the empty text has nothing but an empty part -/
theorem splitAt_ne_singleton_nil {sep : Char} {cs : List Char} (h : cs ≠ []) : splitAt sep cs ≠ [[]] := by
  obtain ⟨c, cs, rfl⟩ := List.exists_cons_of_ne_nil h
  rw [splitAt_cons]
  split
  · intro heq
    exact splitAt_ne_nil sep cs (List.cons.inj heq).2
  · intro heq
    exact List.cons_ne_nil _ _ (List.cons.inj heq).1

/-! ## Lines -/

/-- lines that are ended one by one are found again, if no line feed is in them and no carriage return at their ends -/
theorem lines_flatMap {ls : List (List Char)} (hfeed : ∀ l ∈ ls, '\n' ∉ l)
    (hreturn : ∀ l ∈ ls, l.getLast? ≠ some '\r') : lines (ls.flatMap fun l => l ++ ['\n']) = ls := by
  induction ls with
  | nil => rfl
  | cons l ls ih =>
    obtain ⟨hl, hls⟩ := List.forall_mem_cons.1 hfeed
    obtain ⟨hlast, hlasts⟩ := List.forall_mem_cons.1 hreturn
    have hkeep : dropReturn l = l := by
      unfold dropReturn
      split
      · next rest hrest => exact absurd (by rw [← List.head?_reverse, hrest]; rfl) hlast
      · rfl
    have hrest := ih hls hlasts
    unfold lines at hrest ⊢
    obtain ⟨part, parts, hparts⟩ := List.exists_cons_of_ne_nil
      (splitAt_ne_nil '\n' (ls.flatMap fun l => l ++ ['\n']))
    rw [List.flatMap_cons, List.append_assoc, List.singleton_append, splitAt_append, splitAt_of_not_mem hl,
      List.singleton_append, hparts, finishLines, ← hparts, hrest, hkeep]
    exact List.cons_ne_nil _ _

end RankEval.Text
