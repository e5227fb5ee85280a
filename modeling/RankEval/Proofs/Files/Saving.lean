/-
What is saved under a path is found under it. Writing a file changes no directory and no link, so that the same way
through the tree leads to the same place; where that way ended before the last name of the path, it now ends in the
file.

- `walk_congr`: only directories, links and whether there is anything matter to the way that a path takes.
- `walk_put_of_absent`: the way to a new file.
- `text?_of_save`: a path that was saved under holds the text.
-/
import RankEval.Files.Saving

namespace RankEval.FileTree

/-! ## Putting an entry -/

theorem found_put (t : FileTree) {at_ : List String} (hne : at_ ≠ []) (entry : FileEntry) (p : List String) :
    FileTree.entry? (t.put at_ entry) p = if p = at_ then some entry else t.entry? p := by
  unfold entry? put
  by_cases hp : p = []
  · rw [if_pos hp, if_pos hp, if_neg]
    rw [hp]
    exact hne.symm
  · rw [if_neg hp, if_neg hp, Std.TreeMap.getElem?_insert]
    by_cases h : p = at_
    · rw [if_pos h, if_pos (by rw [h, Std.ReflOrd.compare_self])]
    · rw [if_neg h, if_neg]
      rw [Std.LawfulEqOrd.compare_eq_iff_eq]
      exact Ne.symm h

/-! ## Ways -/

/-- trees with the same entries, other than texts of files -/
def Alike (t t' : FileTree) : Prop :=
  ∀ p, t.entry? p = t'.entry? p ∨ ∃ x y, t.entry? p = some (.file x) ∧ t'.entry? p = some (.file y)

section
variable {t t' : FileTree}

/-- only directories, links and whether there is anything matter to a way -/
theorem walk_congr (h : Alike t t') (follow : List String → List String → Except Fault Target)
    (rest : List String) : ∀ here, t.walk follow here rest = t'.walk follow here rest := by
  induction rest with
  | nil => intro here; rfl
  | cons part rest ih =>
    intro here
    have hdirectory : t.entry? here ≠ some .directory ↔ t'.entry? here ≠ some .directory := by
      rcases h here with heq | ⟨x, y, hx, hy⟩
      · rw [heq]
      · simp [hx, hy]
    unfold walk
    simp only [hdirectory, ih]
    rcases h (here ++ [part]) with heq | ⟨x, y, hx, hy⟩
    · rw [heq]
    · rw [hx, hy]

theorem resolveFrom_congr (h : Alike t t') (links : Nat) :
    t.resolveFrom links = t'.resolveFrom links := by
  induction links with
  | zero => rfl
  | succ links ih =>
    funext here rest
    rw [resolveFrom, resolveFrom, ih]
    exact walk_congr h _ rest here

theorem resolve_congr (h : Alike t t') (hw : t.workingDirectory = t'.workingDirectory)
    (path : FilePath) : t.resolve path = t'.resolve path := by
  rw [resolve, resolve, resolveFrom_congr h, hw]

/-- a way that ends before the last name has found nothing under it -/
theorem free_of_walk_absent {directory : List String} {name : String}
    {follow : List String → List String → Except Fault Target}
    (hfollow : ∀ here rest, follow here rest = .ok (.absent directory name) → t.entry? (directory ++ [name]) = none)
    (rest : List String) :
    ∀ here, t.walk follow here rest = .ok (.absent directory name) → t.entry? (directory ++ [name]) = none := by
  induction rest with
  | nil => intro here h; cases h
  | cons part rest ih =>
    intro here h
    unfold walk at h
    split at h
    · cases h
    · split at h
      · exact ih here h
      · split at h
        · exact ih _ h
        · split at h
          · next hnone =>
            split at h
            · cases h
              exact hnone
            · cases h
          · exact hfollow _ _ h
          · exact ih _ h

theorem free_of_resolveFrom_absent {directory : List String} {name : String} (links : Nat) :
    ∀ here rest, t.resolveFrom links here rest = .ok (.absent directory name) →
      t.entry? (directory ++ [name]) = none := by
  induction links with
  | zero => intro here rest h; cases h
  | succ links ih => exact fun here rest h => free_of_walk_absent ih rest here h

/-- the way to a new file: as far as before, and one name further -/
theorem walk_put_of_absent {directory : List String} {name : String} {entry : Option String}
    (hnone : t.entry? (directory ++ [name]) = none)
    {follow follow' : List String → List String → Except Fault Target}
    (hfollow : ∀ here rest, follow here rest = .ok (.absent directory name) →
      follow' here rest = .ok (.found (directory ++ [name])))
    (rest : List String) :
    ∀ here, t.walk follow here rest = .ok (.absent directory name) →
      (t.put (directory ++ [name]) (.file entry)).walk follow' here rest = .ok (.found (directory ++ [name])) := by
  have hne : directory ++ [name] ≠ [] := List.append_ne_nil_of_right_ne_nil _ (List.cons_ne_nil _ _)
  have hold : ∀ p e, t.entry? p = some e → FileTree.entry? (t.put (directory ++ [name]) (.file entry)) p = some e := by
    intro p e hp
    rw [found_put t hne, if_neg, hp]
    rintro rfl
    rw [hnone] at hp
    cases hp
  induction rest with
  | nil => intro here h; cases h
  | cons part rest ih =>
    intro here h
    unfold walk at h ⊢
    have hdirectory : t.entry? here = some .directory := by
      refine Decidable.byContradiction fun hno => ?_
      rw [if_pos hno] at h
      cases h
    rw [if_neg (not_not_intro hdirectory)] at h
    rw [if_neg (not_not_intro (hold here _ hdirectory))]
    by_cases hstay : part = "" ∨ part = "."
    · rw [if_pos hstay] at h ⊢
      exact ih here h
    rw [if_neg hstay] at h ⊢
    by_cases hup : part = ".."
    · rw [if_pos hup] at h ⊢
      exact ih _ h
    rw [if_neg hup] at h ⊢
    cases hentry : t.entry? (here ++ [part]) with
    | none =>
      rw [hentry] at h
      dsimp only at h
      by_cases hlast : rest = []
      · -- the name that was missing is the one that was put
        rw [if_pos hlast] at h
        cases h
        rw [found_put t hne, if_pos rfl, hlast]
        rfl
      · rw [if_neg hlast] at h
        cases h
    | some e =>
      rw [hentry] at h
      rw [hold _ _ hentry]
      cases e with
      | link target => exact hfollow _ _ h
      | file text => exact ih _ h
      | directory => exact ih _ h

theorem resolveFrom_put_of_absent {directory : List String} {name : String} {entry : Option String} (links : Nat)
    (hnone : t.entry? (directory ++ [name]) = none) :
    ∀ here rest, t.resolveFrom links here rest = .ok (.absent directory name) →
      (t.put (directory ++ [name]) (.file entry)).resolveFrom links here rest = .ok (.found (directory ++ [name])) := by
  induction links with
  | zero => intro here rest h; cases h
  | succ links ih => exact fun here rest h => walk_put_of_absent hnone ih rest here h

/-! ## Writing -/

/-- A text that was written lies where its path leads, in a new file or in the place of another text. Nothing else was
put anywhere. -/
theorem writeText_put {path : FilePath} {text : String} (h : t.writeText path text = .ok t') :
    ∃ at_, at_ ≠ [] ∧ t' = t.put at_ (.file (some text)) ∧ t'.resolve path = .ok (.found at_) ∧
      (t.entry? at_ = none ∨ ∃ old, t.entry? at_ = some (.file old)) := by
  unfold writeText at h
  split at h
  · cases h
  · split at h
    · cases h
    · next directory name hresolve =>
      cases h
      have hne : directory ++ [name] ≠ [] := List.append_ne_nil_of_right_ne_nil _ (List.cons_ne_nil _ _)
      unfold resolve at hresolve ⊢
      split at hresolve
      · cases hresolve
      · next hempty =>
        have hfree := free_of_resolveFrom_absent _ _ _ hresolve
        refine ⟨directory ++ [name], hne, rfl, ?_, .inl hfree⟩
        rw [if_neg hempty]
        exact resolveFrom_put_of_absent _ hfree _ _ hresolve
    · next at_ hresolve =>
      split at h
      · next old hold =>
        cases h
        have hne : at_ ≠ [] := by
          rintro rfl
          cases hold
        refine ⟨at_, hne, rfl, ?_, .inr ⟨old, hold⟩⟩
        rw [← hresolve]
        have halike : Alike t (t.put at_ (.file (some text))) := by
          intro p
          rw [found_put t hne]
          split
          · next hp =>
            rw [hp, hold]
            exact .inr ⟨_, _, rfl, rfl⟩
          · exact .inl rfl
        exact (resolve_congr halike rfl path).symm
      · cases h

/-- **What is saved under a path is found under it.** -/
theorem text?_of_save {path : FilePath} {text : String} (h : t.save path text = (t', none)) :
    t'.kind? path = some .file ∧ t'.text? path = .ok text := by
  have hwrite : ∃ made : FileTree, made.writeText path text = .ok t' := by
    unfold save at h
    dsimp only at h
    split at h
    · cases h
    · next made hmade =>
      split at h
      · next written hwritten =>
        cases h
        exact ⟨made, hwritten⟩
      · cases h
  obtain ⟨made, hmade⟩ := hwrite
  obtain ⟨at_, hne, hput, hresolve, -⟩ := writeText_put hmade
  have hentry : t'.entry? at_ = some (.file (some text)) := by rw [hput, found_put made hne, if_pos rfl]
  constructor
  · rw [kind?, hresolve]
    dsimp only
    rw [hentry]
  · rw [text?, hresolve]
    dsimp only
    rw [hentry]

end

end RankEval.FileTree
