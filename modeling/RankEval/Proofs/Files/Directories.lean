/-
What saving changes in a file tree: one file, and directories that were missing above it. Nothing that was there is
taken away, so that what a path led to while directories were made it still leads to afterwards.

- `resolve_found_of_keeps`: a way that was found stays while entries are added.
- `found_of_real`: the parts of a path that name nothing do not matter to a way to a directory.
- `grown_makeDirectories`: directories are made where the path and those above it lead, and nowhere else.
- `save_changes`: what is different after a text was saved, or could not be.
-/
import Mathlib.Tactic
import RankEval.Proofs.Files.Saving

namespace RankEval

/-- a path, and the paths that dropping last parts of it gives -/
inductive Path.Upwards (path : FilePath) : FilePath → Prop
  | here : Upwards path path
  | up {p above : FilePath} : Upwards path p → Path.parent? p = some above → Upwards path above

theorem Path.Upwards.of_parent {path above p : FilePath} (hparent : Path.parent? path = some above)
    (h : Upwards above p) : Upwards path p := by
  induction h with
  | here => exact .up .here hparent
  | up _ hstep ih => exact .up ih hstep

namespace FileTree

variable {t t' made : FileTree}

/-! ## Ways in a tree that has grown -/

/-- every entry of the first tree is one of the second, other than the texts of files -/
def Keeps (t t' : FileTree) : Prop :=
  ∀ p e, t.entry? p = some e → t'.entry? p = some e ∨ ∃ x y, e = .file x ∧ t'.entry? p = some (.file y)

/-- one step of a way that ends somewhere -/
theorem walk_found_cons {follow : List String → List String → Except Fault Target} {p here rest : List String}
    {part : String} :
    t.walk follow here (part :: rest) = .ok (.found p) ↔ t.entry? here = some .directory ∧
      if part = "" ∨ part = "." then t.walk follow here rest = .ok (.found p)
      else if part = ".." then t.walk follow here.dropLast rest = .ok (.found p)
      else match t.entry? (here ++ [part]) with
        | none => False
        | some (.link target) => follow (startOf here target) (parts target ++ rest) = .ok (.found p)
        | some _ => t.walk follow (here ++ [part]) rest = .ok (.found p) := by
  rw [walk]
  by_cases hdirectory : t.entry? here = some .directory
  · rw [if_neg (not_not_intro hdirectory), and_iff_right hdirectory]
    split_ifs with hstay hup hlast
    · rfl
    · rfl
    all_goals
      cases t.entry? (here ++ [part]) with
      | none => simp
      | some e => cases e <;> rfl
  · rw [if_pos hdirectory]
    exact iff_of_false (fun h => by cases h) fun h => hdirectory h.1

theorem Keeps.keeps_directory (h : Keeps t t') {p : List String} (hp : t.entry? p = some .directory) :
    t'.entry? p = some .directory := by
  rcases h p _ hp with hsame | ⟨x, y, hfile, -⟩
  · exact hsame
  · cases hfile

theorem walk_found_of_keeps (h : Keeps t t') {p : List String}
    {follow follow' : List String → List String → Except Fault Target}
    (hfollow : ∀ here rest, follow here rest = .ok (.found p) → follow' here rest = .ok (.found p))
    (rest : List String) :
    ∀ here, t.walk follow here rest = .ok (.found p) → t'.walk follow' here rest = .ok (.found p) := by
  induction rest with
  | nil => intro here hfound; exact hfound
  | cons part rest ih =>
    intro here hfound
    rw [walk_found_cons] at hfound ⊢
    obtain ⟨hdirectory, hstep⟩ := hfound
    refine ⟨h.keeps_directory hdirectory, ?_⟩
    split_ifs at hstep ⊢ with hstay hup
    · exact ih _ hstep
    · exact ih _ hstep
    · cases hentry : t.entry? (here ++ [part]) with
      | none =>
        rw [hentry] at hstep
        exact hstep.elim
      | some e =>
        rw [hentry] at hstep
        rcases h _ _ hentry with hsame | ⟨x, y, rfl, hfile⟩
        · rw [hsame]
          cases e with
          | link target => exact hfollow _ _ hstep
          | file text => exact ih _ hstep
          | directory => exact ih _ hstep
        · rw [hfile]
          exact ih _ hstep

theorem resolveFrom_found_of_keeps (h : Keeps t t') {p : List String} (links : Nat) :
    ∀ here rest, t.resolveFrom links here rest = .ok (.found p) →
      t'.resolveFrom links here rest = .ok (.found p) := by
  induction links with
  | zero => intro here rest hfound; cases hfound
  | succ links ih => exact fun here rest hfound => walk_found_of_keeps h ih rest here hfound

/-- a way that was found stays while entries are added -/
theorem resolve_found_of_keeps (h : Keeps t t') (hw : t'.workingDirectory = t.workingDirectory) {path : FilePath}
    {p : List String} (hfound : t.resolve path = .ok (.found p)) : t'.resolve path = .ok (.found p) := by
  unfold resolve at hfound ⊢
  split at hfound
  · cases hfound
  · next hempty =>
    rw [if_neg hempty, hw]
    exact resolveFrom_found_of_keeps h _ _ _ hfound

/-! ## Parts of a path that name nothing -/

/-- whether a part of a path leads anywhere else -/
def real (part : String) : Bool := part != "" && part != "."

theorem real_eq_false_iff (part : String) : real part = false ↔ part = "" ∨ part = "." := by
  simp [real, or_iff_not_imp_left]

/-- a way to a directory starts in one -/
theorem directory_of_walk_found {follow : List String → List String → Except Fault Target} {p : List String}
    (hp : t.entry? p = some .directory) {here rest : List String} (h : t.walk follow here rest = .ok (.found p)) :
    t.entry? here = some .directory := by
  cases rest with
  | nil =>
    cases h
    exact hp
  | cons part rest => exact (walk_found_cons.1 h).1

theorem walk_real {follow : List String → List String → Except Fault Target} {p : List String}
    (hp : t.entry? p = some .directory)
    (hfollow : ∀ here rest, follow here rest = .ok (.found p) ↔ follow here (rest.filter real) = .ok (.found p))
    (rest : List String) :
    ∀ here, t.walk follow here rest = .ok (.found p) ↔ t.walk follow here (rest.filter real) = .ok (.found p) := by
  induction rest with
  | nil => intro here; rfl
  | cons part rest ih =>
    intro here
    by_cases hreal : real part = true
    · rw [List.filter_cons_of_pos hreal, walk_found_cons, walk_found_cons, ← ih, ← ih]
      cases t.entry? (here ++ [part]) with
      | none => rfl
      | some e =>
        cases e with
        | link target =>
          -- what a link puts in front of the rest is filtered on both sides
          dsimp only
          rw [hfollow, hfollow _ (parts target ++ rest.filter real)]
          simp only [List.filter_append, List.filter_filter, Bool.and_self]
        | file text =>
          dsimp only
          rw [← ih]
        | directory =>
          dsimp only
          rw [← ih]
    · have hstay : part = "" ∨ part = "." := (real_eq_false_iff part).1 (Bool.eq_false_iff.2 hreal)
      rw [List.filter_cons_of_neg hreal, ← ih here, walk_found_cons, if_pos hstay, and_iff_right_iff_imp]
      exact directory_of_walk_found hp

/-- the parts of a path that name nothing do not matter to a way to a directory -/
theorem found_of_real {p : List String} (hp : t.entry? p = some .directory) (links : Nat) :
    ∀ here rest, t.resolveFrom links here rest = .ok (.found p) ↔
      t.resolveFrom links here (rest.filter real) = .ok (.found p) := by
  induction links with
  | zero => intro here rest; simp [resolveFrom]
  | succ links ih => exact fun here rest => walk_real hp ih rest here

/-! ## One directory -/

/-- one name further than a way to a directory -/
theorem walk_found_append {follow : List String → List String → Except Fault Target} {above : List String}
    {name : String} (hname : real name = true) (hup : name ≠ "..") (habove : t.entry? above = some .directory)
    (hentry : t.entry? (above ++ [name]) = some .directory)
    (hfollow : ∀ here rest, follow here rest = .ok (.found above) →
      follow here (rest ++ [name]) = .ok (.found (above ++ [name])))
    (rest : List String) :
    ∀ here, t.walk follow here rest = .ok (.found above) →
      t.walk follow here (rest ++ [name]) = .ok (.found (above ++ [name])) := by
  have hstay : ¬(name = "" ∨ name = ".") := by
    rw [← real_eq_false_iff, hname]
    exact Bool.noConfusion
  induction rest with
  | nil =>
    intro here hfound
    cases hfound
    rw [List.nil_append, walk_found_cons, if_neg hstay, if_neg hup, hentry]
    exact ⟨habove, rfl⟩
  | cons part rest ih =>
    intro here hfound
    rw [List.cons_append]
    rw [walk_found_cons] at hfound ⊢
    refine ⟨hfound.1, ?_⟩
    have hstep := hfound.2
    split_ifs at hstep ⊢ with hblank hparent
    · exact ih _ hstep
    · exact ih _ hstep
    · cases hpart : t.entry? (here ++ [part]) with
      | none =>
        rw [hpart] at hstep
        exact hstep.elim
      | some e =>
        rw [hpart] at hstep
        cases e with
        | link target =>
          dsimp only at hstep ⊢
          rw [← List.append_assoc]
          exact hfollow _ _ hstep
        | file text => exact ih _ hstep
        | directory => exact ih _ hstep

theorem resolveFrom_found_append {above : List String} {name : String} (hname : real name = true) (hup : name ≠ "..")
    (habove : t.entry? above = some .directory) (hentry : t.entry? (above ++ [name]) = some .directory)
    (links : Nat) :
    ∀ here rest, t.resolveFrom links here rest = .ok (.found above) →
      t.resolveFrom links here (rest ++ [name]) = .ok (.found (above ++ [name])) := by
  induction links with
  | zero => intro here rest hfound; cases hfound
  | succ links ih =>
    exact fun here rest hfound => walk_found_append hname hup habove hentry ih rest here hfound

theorem keeps_put (t : FileTree) {at_ : List String} (hne : at_ ≠ []) (hfree : t.entry? at_ = none)
    (entry : FileEntry) : Keeps t (t.put at_ entry) := by
  intro p e hp
  refine .inl ?_
  rw [found_put t hne, if_neg, hp]
  rintro rfl
  rw [hfree] at hp
  cases hp

/-- a directory is made at a free place, and its path leads there -/
theorem makeDirectory_put {path : FilePath} (h : t.makeDirectory path = .ok t') :
    ∃ at_, at_ ≠ [] ∧ t' = t.put at_ .directory ∧ t.entry? at_ = none ∧ t'.resolve path = .ok (.found at_) := by
  unfold makeDirectory at h
  dsimp only at h
  split at h
  · split at h <;> cases h
  next name hlast =>
  split at h
  · cases h
  · cases h
  next above habove =>
  split at h
  · cases h
  next hdirectory =>
  split at h
  · cases h
  next hfree =>
  cases h
  obtain ⟨hup, hnone⟩ := not_or.1 hfree
  have hdirectory : t.entry? above = some .directory := Decidable.not_not.1 hdirectory
  have hnone : t.entry? (above ++ [name]) = none := by simpa using hnone
  have hne : above ++ [name] ≠ [] := List.append_ne_nil_of_right_ne_nil _ (List.cons_ne_nil _ _)
  change ((parts path).filter real).getLast? = some name at hlast
  change t.resolveFrom linkLimit _ ((parts path).filter real).dropLast = _ at habove
  obtain ⟨front, hfront⟩ := List.getLast?_eq_some_iff.1 hlast
  have hname : real name = true := by
    have hmem : name ∈ (parts path).filter real := by rw [hfront]; simp
    exact (List.mem_filter.1 hmem).2
  have hnonempty : ¬ path.isEmpty = true := by
    intro hempty
    obtain rfl := String.isEmpty_iff.1 hempty
    exact absurd hfront (by simp [show (parts "").filter real = [] by decide])
  rw [hfront, List.dropLast_concat] at habove
  -- the way to the new directory in the tree that has it
  have hkeeps := keeps_put t hne hnone .directory
  have habove' := hkeeps.keeps_directory hdirectory
  have hentry : FileTree.entry? (t.put (above ++ [name]) .directory) (above ++ [name]) = some .directory := by
    rw [found_put t hne, if_pos rfl]
  refine ⟨above ++ [name], hne, rfl, hnone, ?_⟩
  rw [resolve, if_neg hnonempty, found_of_real hentry, hfront]
  apply resolveFrom_found_append hname hup habove' hentry
  exact resolveFrom_found_of_keeps hkeeps _ _ _ habove

/-! ## Missing directories -/

/-- a directory that was made because a path, or one above it, leads there -/
def IsMade (t t' : FileTree) (path : FilePath) (p : List String) : Prop :=
  t.entry? p = none ∧ t'.entry? p = some .directory ∧
    ∃ above, Path.Upwards path above ∧ t'.resolve above = .ok (.found p)

/-- What making missing directories does: there are more of them, where the path and those above it lead. -/
structure Grown (t t' : FileTree) (path : FilePath) : Prop where
  workingDirectory : t'.workingDirectory = t.workingDirectory
  entry : ∀ p, t'.entry? p = t.entry? p ∨ IsMade t t' path p

theorem Grown.rfl {path : FilePath} : Grown t t path := ⟨Eq.refl _, fun _ => .inl (Eq.refl _)⟩

theorem Grown.keeps {path : FilePath} (h : Grown t t' path) : Keeps t t' := by
  intro p e hp
  rcases h.entry p with hsame | ⟨hfree, -⟩
  · exact .inl (hsame.trans hp)
  · rw [hfree] at hp
    cases hp

theorem Grown.of_parent {path above : FilePath} (hparent : Path.parent? path = some above) (h : Grown t t' above) :
    Grown t t' path := by
  refine ⟨h.workingDirectory, fun p => (h.entry p).imp_right ?_⟩
  rintro ⟨hfree, hentry, q, hq, hresolve⟩
  exact ⟨hfree, hentry, q, hq.of_parent hparent, hresolve⟩

theorem Grown.trans {path : FilePath} {t₁ t₂ : FileTree} (h : Grown t t₁ path) (h' : Grown t₁ t₂ path) :
    Grown t t₂ path := by
  refine ⟨h'.workingDirectory.trans h.workingDirectory, fun p => ?_⟩
  rcases h'.entry p with hsame | ⟨hfree, hentry, hway⟩
  · rw [hsame]
    rcases h.entry p with hold | ⟨hfree, hentry, above, habove, hresolve⟩
    · exact .inl hold
    · exact .inr ⟨hfree, hsame.trans hentry, above, habove,
        resolve_found_of_keeps h'.keeps h'.workingDirectory hresolve⟩
  · rcases h.entry p with hold | ⟨-, hdirectory, -⟩
    · exact .inr ⟨hold.symm.trans hfree, hentry, hway⟩
    · rw [hdirectory] at hfree
      cases hfree

theorem grown_makeDirectory {path : FilePath} (h : t.makeDirectory path = .ok t') : Grown t t' path := by
  obtain ⟨at_, hne, rfl, hfree, hresolve⟩ := makeDirectory_put h
  refine ⟨rfl, fun p => ?_⟩
  by_cases hp : p = at_
  · subst hp
    exact .inr ⟨hfree, by rw [found_put t hne, if_pos rfl], path, .here, hresolve⟩
  · exact .inl (by rw [found_put t hne, if_neg hp])

/-- directories are made where the path and those above it lead, and nowhere else; also if one of them is refused -/
theorem grown_makeDirectories (fuel : ℕ) :
    ∀ (t : FileTree) (path : FilePath), Grown t (t.makeDirectories fuel path).1 path := by
  induction fuel with
  | zero => exact fun t path => .rfl
  | succ fuel ih =>
    intro t path
    unfold makeDirectories
    split
    · exact .rfl
    split
    · next hmade => exact grown_makeDirectory hmade
    · split
      · exact .rfl
      next above hparent =>
        have habove := (ih t above).of_parent hparent
        generalize makeDirectories t fuel above = result at habove ⊢
        obtain ⟨t₁, refused⟩ := result
        cases refused with
        | some fault => exact habove
        | none =>
          dsimp only at habove ⊢
          cases hmade : t₁.makeDirectory path with
          | ok t₂ => exact habove.trans (grown_makeDirectory hmade)
          | error fault => exact habove
    · exact .rfl

/-! ## Saving -/

/-- a directory that was made because the path lies below it -/
def IsMadeAbove (t t' : FileTree) (path : FilePath) (p : List String) : Prop :=
  ∃ parent, Path.parent? path = some parent ∧ IsMade t t' parent p

/-- What saving a text does: the path leads to a file with the text, which is new or was a file before, and all else is
as it was, except for new directories above it. -/
structure Saved (t t' : FileTree) (path : FilePath) (text : String) : Prop where
  workingDirectory : t'.workingDirectory = t.workingDirectory
  entry : ∃ at_, t'.resolve path = .ok (.found at_) ∧ t'.entry? at_ = some (.file (some text)) ∧
    (t.entry? at_ = none ∨ ∃ old, t.entry? at_ = some (.file old)) ∧
    ∀ p ≠ at_, t'.entry? p = t.entry? p ∨ IsMadeAbove t t' path p

/-- What a refused save does: at most directories above the path were made. -/
structure Refused (t t' : FileTree) (path : FilePath) : Prop where
  workingDirectory : t'.workingDirectory = t.workingDirectory
  entry : ∀ p, t'.entry? p = t.entry? p ∨ IsMadeAbove t t' path p

/-- a text written after directories were made -/
theorem Refused.saved {path : FilePath} {text : String} (h : Refused t made path)
    (hwrite : made.writeText path text = .ok t') : Saved t t' path text := by
  obtain ⟨at_, hne, rfl, hresolve, hbefore⟩ := writeText_put hwrite
  have hkeeps : Keeps made (made.put at_ (.file (some text))) := by
    intro p e hp
    by_cases hat : p = at_
    · subst hat
      rcases hbefore with hfree | ⟨old, hold⟩
      · rw [hfree] at hp
        cases hp
      · rw [hold] at hp
        cases hp
        exact .inr ⟨_, _, rfl, by rw [found_put made hne, if_pos rfl]⟩
    · exact .inl (by rw [found_put made hne, if_neg hat, hp])
  refine ⟨h.workingDirectory, at_, hresolve, by rw [found_put made hne, if_pos rfl], ?_, fun p hp => ?_⟩
  · rcases h.entry at_ with hsame | ⟨_, _, -, hdirectory, -⟩
    · rwa [hsame] at hbefore
    · rw [hdirectory] at hbefore
      simp at hbefore
  · have hentry : FileTree.entry? (made.put at_ (.file (some text))) p = made.entry? p := by
      rw [found_put made hne, if_neg hp]
    rw [hentry]
    refine (h.entry p).imp_right ?_
    rintro ⟨parent, hparent, hfree, hdirectory, above, habove, hway⟩
    exact ⟨parent, hparent, hfree, hentry.trans hdirectory, above, habove, resolve_found_of_keeps hkeeps rfl hway⟩

/-- **Saving changes one file and missing directories above it.** If it is refused, there is not even the file. -/
theorem save_changes (t : FileTree) (path : FilePath) (text : String) :
    match t.save path text with
    | (t', none) => Saved t t' path text
    | (t', some _) => Refused t t' path := by
  have hmade : Refused t t path := ⟨rfl, fun _ => .inl rfl⟩
  unfold save
  cases hparent : Path.parent? path with
  | none =>
    dsimp only
    cases hwrite : t.writeText path text with
    | ok t' => exact hmade.saved hwrite
    | error fault => exact hmade
  | some above =>
    dsimp only
    split_ifs with hthere
    · dsimp only
      cases hwrite : t.writeText path text with
      | ok t' => exact hmade.saved hwrite
      | error fault => exact hmade
    · have hgrown := grown_makeDirectories (above.length + 1) t above
      generalize t.makeDirectories (above.length + 1) above = result at hgrown ⊢
      obtain ⟨made, refused⟩ := result
      have hmade : Refused t made path :=
        ⟨hgrown.workingDirectory, fun p => (hgrown.entry p).imp_right fun h => ⟨above, hparent, h⟩⟩
      cases refused with
      | some fault => exact hmade
      | none =>
        dsimp only
        cases hwrite : made.writeText path text with
        | ok t' => exact hmade.saved hwrite
        | error fault => exact hmade

end FileTree

end RankEval
