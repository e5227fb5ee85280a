/-
Which files a walk through a directory finds. A walk goes into every directory below the one that it starts in, links
followed. As long as no link leads nowhere or to a directory that it lies in, it finds a name iff a file of that name
lies at some depth, whatever order directories list their entries in.

In a tree of finitely many entries such a walk ends: the directories on its way down differ from each other, so that
there are no more of them than there are entries and the root.

- `Directory.fileNames_of_sound`: what a walk finds.
- `Relisted`: the same directory with its entries in another order.
- `FileTree.Descent.length_le`: how far down a walk goes.
- `FileTree.entryBelow_of_sound`, `directory_of_sound`: what a tree has below a path.
-/
import Mathlib.Tactic
import RankEval.Proofs.Files.Directories

namespace RankEval

/-! ## Directories -/

namespace Directory

/-- a file with that name lies below a directory, at some depth -/
inductive HasFile (name : String) : Directory → Prop
  | direct {entries : List (String × Directory)} (h : (name, .file) ∈ entries) : HasFile name (.directory entries)
  | nested {entries : List (String × Directory)} {sub : String} {d : Directory} (h : (sub, d) ∈ entries)
    (hd : HasFile name d) : HasFile name (.directory entries)

/-- no link leads nowhere or to a directory that it lies in -/
inductive Sound : Directory → Prop
  | file : Sound .file
  | directory {entries : List (String × Directory)} (h : ∀ e ∈ entries, Sound e.2) : Sound (.directory entries)

theorem hasFile_directory_iff (name : String) (entries : List (String × Directory)) :
    HasFile name (.directory entries) ↔ ∃ e ∈ entries, (e.1 = name ∧ e.2 = .file) ∨ HasFile name e.2 := by
  constructor
  · rintro (hmem | ⟨hmem, hfile⟩)
    · exact ⟨_, hmem, .inl ⟨rfl, rfl⟩⟩
    · exact ⟨_, hmem, .inr hfile⟩
  · rintro ⟨⟨sub, d⟩, hmem, ⟨rfl, rfl⟩ | hfile⟩
    · exact .direct hmem
    · exact .nested hmem hfile

/-- what a walk finds in a list of entries, from what it finds in each of them -/
theorem exists_names {finds : String × Directory → String → Prop} (entries : List (String × Directory))
    (above : List FilePath)
    (h : ∀ e ∈ entries, ∃ found, e.2.namesAt above e.1 = .ok found ∧ ∀ name, name ∈ found ↔ finds e name) :
    ∃ found, names above entries = .ok found ∧ ∀ name, name ∈ found ↔ ∃ e ∈ entries, finds e name := by
  induction entries with
  | nil => exact ⟨[], rfl, by simp⟩
  | cons e entries ih =>
    obtain ⟨first, hfirst, hfinds⟩ := h e List.mem_cons_self
    obtain ⟨others, hothers, hothersFind⟩ := ih fun e he => h e (List.mem_cons_of_mem _ he)
    refine ⟨first ++ others, ?_, fun name => ?_⟩
    · rw [names, hfirst, hothers]
      rfl
    · rw [List.mem_append, hfinds, hothersFind, List.exists_mem_cons_iff]

/-- a walk finds an entry that is a file, and what lies below one that is a directory -/
theorem Sound.exists_namesAt {d : Directory} (h : d.Sound) : ∀ above name, ∃ found,
    d.namesAt above name = .ok found ∧ ∀ n, n ∈ found ↔ (name = n ∧ d = .file) ∨ HasFile n d := by
  induction h with
  | file =>
    intro above name
    refine ⟨[name], rfl, fun n => ?_⟩
    have hnone : ¬ HasFile n .file := nofun
    simp [hnone, eq_comm]
  | @directory entries _ ih =>
    intro above name
    obtain ⟨found, hfound, hfinds⟩ := exists_names entries _ fun e he => ih e he _ e.1
    refine ⟨found, hfound, fun n => ?_⟩
    rw [hfinds, ← hasFile_directory_iff]
    simp

/-- **What a walk finds:** the names of the files below the directory, and nothing else. -/
theorem fileNames_of_sound {d : Directory} (h : d.Sound) (path : FilePath) :
    ∃ found, d.fileNames path = .ok found ∧ ∀ name, name ∈ found ↔ HasFile name d := by
  cases h with
  | file => exact ⟨[], rfl, fun name => iff_of_false List.not_mem_nil nofun⟩
  | @directory entries h =>
    obtain ⟨found, hfound, hfinds⟩ := exists_names entries [path] fun e he => (h e he).exists_namesAt _ e.1
    exact ⟨found, hfound, fun name => by rw [hfinds, hasFile_directory_iff]⟩

/-- the same directory, with the entries of some directories in another order -/
inductive Relisted : Directory → Directory → Prop
  | refl (d : Directory) : Relisted d d
  | trans {d d' d'' : Directory} (h : Relisted d d') (h' : Relisted d' d'') : Relisted d d''
  | entries {es es' : List (String × Directory)} (h : es.Perm es') : Relisted (.directory es) (.directory es')
  | sub {before after : List (String × Directory)} {name : String} {d d' : Directory} (h : Relisted d d') :
    Relisted (.directory (before ++ (name, d) :: after)) (.directory (before ++ (name, d') :: after))

theorem Relisted.eq_file_iff {d d' : Directory} (h : Relisted d d') : d = .file ↔ d' = .file := by
  induction h with
  | refl d => rfl
  | trans _ _ ih ih' => exact ih.trans ih'
  | entries _ => simp
  | sub _ _ => simp

/-- the order of entries does not matter to what lies below a directory -/
theorem Relisted.hasFile_iff {d d' : Directory} (h : Relisted d d') (name : String) :
    HasFile name d ↔ HasFile name d' := by
  induction h with
  | refl d => rfl
  | trans _ _ ih ih' => exact ih.trans ih'
  | entries h =>
    rw [hasFile_directory_iff, hasFile_directory_iff]
    simp only [h.mem_iff]
  | sub h ih =>
    rw [hasFile_directory_iff, hasFile_directory_iff]
    simp only [List.mem_append, List.mem_cons, or_and_right, exists_or, exists_eq_left, h.eq_file_iff, ih]

/-- nor to whether it is sound -/
theorem Relisted.sound {d d' : Directory} (h : Relisted d d') (hd : d.Sound) : d'.Sound := by
  induction h with
  | refl d => exact hd
  | trans _ _ ih ih' => exact ih' (ih hd)
  | entries h =>
    cases hd with
    | directory hsound => exact .directory fun e he => hsound e (h.mem_iff.2 he)
  | @sub before after name d d' h ih =>
    cases hd with
    | directory hsound =>
      refine .directory fun e he => ?_
      rcases List.mem_append.1 he with he | he
      · exact hsound e (List.mem_append_left _ he)
      rcases List.mem_cons.1 he with rfl | he
      · exact ih (hsound (name, d) (List.mem_append_right _ List.mem_cons_self))
      · exact hsound e (List.mem_append_right _ (List.mem_cons_of_mem _ he))

end Directory

/-! ## Trees -/

namespace FileTree

open Relation (ReflTransGen TransGen)

variable (t : FileTree)

/-- where a name in a directory leads: to its entry or, if that is a link, where the link leads -/
inductive LeadsTo (here : List String) (name : String) : List String → Prop
  | entry {e : FileEntry} (h : t.entry? (here ++ [name]) = some e) (hlink : ∀ target, e ≠ .link target) :
    LeadsTo here name (here ++ [name])
  | link {target : FilePath} {p : List String} (h : t.entry? (here ++ [name]) = some (.link target))
    (hp : t.resolveFrom linkLimit here [name] = .ok (.found p)) : LeadsTo here name p

/-- whether a name in a directory leads to another directory -/
def Enters (here p : List String) : Prop := ∃ name, t.LeadsTo here name p ∧ t.entry? p = some .directory

/-- a file with that name lies below a directory, at some depth; links are followed -/
inductive HasFile (name : String) : List String → Prop
  | direct {here p : List String} {text : Option String} (h : t.LeadsTo here name p)
    (hfile : t.entry? p = some (.file text)) : HasFile name here
  | nested {here p : List String} (h : t.Enters here p) (hfile : HasFile name p) : HasFile name here

/-- whether every entry lies in a directory -/
def Rooted : Prop := ∀ p name, t.entry? (p ++ [name]) ≠ none → t.entry? p = some .directory

/-- Every entry lies in a directory. Below the given one, no link leads nowhere, and no directory can be entered from
itself. -/
structure Sound (root : List String) : Prop where
  rooted : t.Rooted
  leads : ∀ p, ReflTransGen t.Enters root p → ∀ name, t.entry? (p ++ [name]) ≠ none → ∃ q, t.LeadsTo p name q
  acyclic : ∀ p, ReflTransGen t.Enters root p → ¬ TransGen t.Enters p p

variable {t}

theorem mem_names_iff (here : List String) (name : String) :
    name ∈ t.names here ↔ t.entry? (here ++ [name]) ≠ none := by
  have hentry : t.entry? (here ++ [name]) = t.entries[here ++ [name]]? := by
    unfold entry?
    rw [if_neg (List.append_ne_nil_of_right_ne_nil _ (List.cons_ne_nil _ _))]
  rw [hentry, names, List.mem_filterMap, ← Option.isSome_iff_ne_none, Std.TreeMap.isSome_getElem?_iff_mem]
  constructor
  · rintro ⟨at_, hat, hname⟩
    split at hname
    · next hhere =>
      obtain ⟨front, rfl⟩ := List.getLast?_eq_some_iff.1 hname
      rw [List.dropLast_concat] at hhere
      exact hhere ▸ Std.TreeMap.mem_keys.1 hat
    · cases hname
  · intro hmem
    exact ⟨_, Std.TreeMap.mem_keys.2 hmem, by rw [List.dropLast_concat, if_pos rfl, List.getLast?_concat]⟩

theorem LeadsTo.mem_names {here p : List String} {name : String} (h : t.LeadsTo here name p) :
    name ∈ t.names here := by
  rw [mem_names_iff]
  cases h with
  | entry hentry _ => rw [hentry]; nofun
  | link hentry _ => rw [hentry]; nofun

/-! ### Ways that end -/

/-- whether a directory or a file stands at a place -/
def Stands (t : FileTree) (p : List String) : Prop :=
  t.entry? p = some .directory ∨ ∃ text, t.entry? p = some (.file text)

/-- a way that ends, does so at a directory or a file -/
theorem stands_of_walk (hrooted : t.Rooted) {follow : List String → List String → Except Fault Target}
    {p : List String}
    (hfollow : ∀ here rest, t.entry? here = some .directory → follow here rest = .ok (.found p) → t.Stands p)
    (rest : List String) : ∀ here, t.Stands here → t.walk follow here rest = .ok (.found p) → t.Stands p := by
  induction rest with
  | nil =>
    intro here hhere hfound
    cases hfound
    exact hhere
  | cons part rest ih =>
    intro here hhere hfound
    obtain ⟨hdirectory, hstep⟩ := walk_found_cons.1 hfound
    split_ifs at hstep with hstay hup
    · exact ih here hhere hstep
    · refine ih here.dropLast ?_ hstep
      rcases List.eq_nil_or_concat' here with rfl | ⟨above, name, rfl⟩
      · exact .inl rfl
      · rw [List.dropLast_concat]
        exact .inl (hrooted above name (by rw [hdirectory]; nofun))
    · cases hentry : t.entry? (here ++ [part]) with
      | none =>
        rw [hentry] at hstep
        exact hstep.elim
      | some e =>
        rw [hentry] at hstep
        cases e with
        | link target =>
          refine hfollow _ _ ?_ hstep
          unfold startOf
          split
          · rfl
          · exact hdirectory
        | file text => exact ih _ (.inr ⟨text, hentry⟩) hstep
        | directory => exact ih _ (.inl hentry) hstep

theorem stands_of_resolveFrom (hrooted : t.Rooted) {p : List String} (links : ℕ) :
    ∀ here rest, t.entry? here = some .directory → t.resolveFrom links here rest = .ok (.found p) → t.Stands p := by
  induction links with
  | zero =>
    intro here rest _ hfound
    cases hfound
  | succ links ih =>
    intro here rest hhere hfound
    exact stands_of_walk hrooted ih rest here (.inl hhere) hfound

theorem LeadsTo.stands (hrooted : t.Rooted) {here p : List String} {name : String} (h : t.LeadsTo here name p) :
    t.Stands p := by
  cases h with
  | @entry e h hlink =>
    cases e with
    | file text => exact .inr ⟨text, h⟩
    | directory => exact .inl h
    | link target => exact absurd rfl (hlink target)
  | link h hp => exact stands_of_resolveFrom hrooted _ _ _ (hrooted here name (by rw [h]; nofun)) hp

/-! ### The way down -/

/-- The directories on the way down to one, the innermost first. -/
inductive Descent (t : FileTree) (root : List String) : List String → List (List String) → Prop
  | root (h : t.entry? root = some .directory) : Descent t root root []
  | enter {here p : List String} {above : List (List String)} (h : Descent t root here above) (hp : t.Enters here p) :
    Descent t root p (here :: above)

section
variable {root here : List String} {above : List (List String)}

theorem Descent.reaches (h : Descent t root here above) : ReflTransGen t.Enters root here := by
  induction h with
  | root _ => exact .refl
  | enter _ hp ih => exact ih.tail hp

theorem Descent.reached (h : Descent t root here above) : ∀ q ∈ here :: above, ReflTransGen t.Enters q here := by
  induction h with
  | root _ =>
    intro q hq
    rw [List.mem_singleton.1 hq]
  | enter _ hp ih =>
    intro q hq
    rcases List.mem_cons.1 hq with rfl | hq
    · exact .refl
    · exact (ih q hq).tail hp

theorem Descent.directory (h : Descent t root here above) : ∀ q ∈ here :: above, t.entry? q = some .directory := by
  induction h with
  | root h => exact fun q hq => List.mem_singleton.1 hq ▸ h
  | enter _ hp ih =>
    intro q hq
    rcases List.mem_cons.1 hq with rfl | hq
    · obtain ⟨-, -, hdirectory⟩ := hp
      exact hdirectory
    · exact ih q hq

/-- a directory that is entered is none of those on the way to it -/
theorem Descent.not_mem (hsound : t.Sound root) (h : Descent t root here above) {p : List String}
    (hp : t.Enters here p) : p ∉ here :: above := by
  intro hmem
  have hcycle : TransGen t.Enters p p := .tail' (h.reached p hmem) hp
  exact hsound.acyclic p (h.reaches.tail hp) hcycle

theorem Descent.nodup (hsound : t.Sound root) (h : Descent t root here above) : (here :: above).Nodup := by
  induction h with
  | root _ => exact List.nodup_singleton _
  | enter h hp ih => exact List.nodup_cons.2 ⟨h.not_mem hsound hp, ih⟩

/-- **How far down a walk goes.** Each directory on the way is the root or has an entry of its own. -/
theorem Descent.length_le (hsound : t.Sound root) (h : Descent t root here above) :
    (here :: above).length ≤ t.entries.size + 1 := by
  have hsubset : (here :: above) ⊆ [] :: t.entries.keys := by
    intro q hq
    have hentry := h.directory q hq
    unfold entry? at hentry
    split at hentry
    · next hroot => exact hroot ▸ List.mem_cons_self
    · refine List.mem_cons_of_mem _ (Std.TreeMap.mem_keys.2 ?_)
      rw [← Std.TreeMap.isSome_getElem?_iff_mem, hentry]
      rfl
  calc (here :: above).length
    _ ≤ ([] :: t.entries.keys).length := (List.subperm_of_subset (h.nodup hsound) hsubset).length_le
    _ = t.entries.size + 1 := by rw [List.length_cons, Std.TreeMap.length_keys]

end

/-! ### What a tree has below a directory -/

section
variable {here p : List String} {name : String} {above : List (List String)} {fuel : ℕ}

/-- what an entry leads to, if it does not lead back up -/
theorem belowEntry_of_leadsTo (h : t.LeadsTo here name p)
    (hup : t.entry? p = some .directory → p ∉ here :: above) :
    t.belowEntry fuel (here :: above) (here ++ [name]) name =
      if t.entry? p = some .directory then t.below fuel (p :: here :: above) else .file := by
  cases h with
  | @entry e h hlink =>
    rw [belowEntry, h]
    cases e with
    | file text => rfl
    | directory => rfl
    | link target => exact absurd rfl (hlink target)
  | @link target p h hp =>
    rw [belowEntry, h]
    dsimp only [List.headD_cons]
    rw [hp]
    dsimp only
    split
    · next hdirectory =>
      have hnone : (here :: above).idxOf? p = none := List.idxOf?_eq_none_iff.2 (hup hdirectory)
      rw [hnone]
    · rfl

/-- what a walk finds below an entry, as far down as levels are left -/
structure EntryBelow (t : FileTree) (p : List String) (d : Directory) : Prop where
  sound : d.Sound
  hasFile : ∀ n, Directory.HasFile n d ↔ t.entry? p = some .directory ∧ t.HasFile n p
  eq_file_iff : d = .file ↔ ∃ text, t.entry? p = some (.file text)

/-- a directory has what its entries have -/
theorem entryBelow_directory (hhere : t.entry? here = some .directory) (entry : String → Directory)
    (hleads : ∀ name, t.entry? (here ++ [name]) ≠ none → ∃ p, t.LeadsTo here name p)
    (h : ∀ name p, t.LeadsTo here name p → t.EntryBelow p (entry name)) :
    t.EntryBelow here (.directory ((t.names here).map fun name => (name, entry name))) := by
  constructor
  case sound =>
    refine .directory fun e he => ?_
    obtain ⟨name, hname, rfl⟩ := List.mem_map.1 he
    obtain ⟨p, hp⟩ := hleads name ((mem_names_iff here name).1 hname)
    exact (h name p hp).sound
  case hasFile =>
    intro n
    rw [Directory.hasFile_directory_iff, and_iff_right hhere]
    constructor
    · rintro ⟨e, he, hfile⟩
      obtain ⟨name, hname, rfl⟩ := List.mem_map.1 he
      obtain ⟨p, hp⟩ := hleads name ((mem_names_iff here name).1 hname)
      rcases hfile with ⟨rfl, hfile⟩ | hfile
      · obtain ⟨text, htext⟩ := (h name p hp).eq_file_iff.1 hfile
        exact .direct hp htext
      · obtain ⟨hdirectory, hfile⟩ := ((h name p hp).hasFile n).1 hfile
        exact .nested ⟨name, hp, hdirectory⟩ hfile
    · have hmem : ∀ name p, t.LeadsTo here name p →
          (name, entry name) ∈ (t.names here).map fun name => (name, entry name) :=
        fun name p hp => List.mem_map_of_mem hp.mem_names
      intro hfile
      cases hfile with
      | direct hp htext => exact ⟨_, hmem _ _ hp, .inl ⟨rfl, (h _ _ hp).eq_file_iff.2 ⟨_, htext⟩⟩⟩
      | nested hp hfile =>
        obtain ⟨name, hp, hdirectory⟩ := hp
        exact ⟨_, hmem _ _ hp, .inr (((h _ _ hp).hasFile n).2 ⟨hdirectory, hfile⟩)⟩
  case eq_file_iff =>
    rw [hhere]
    simp

/-- **A tree has below a directory what a walk can reach**, given as many levels as the tree has directories. -/
theorem entryBelow_of_sound {root : List String} (hsound : t.Sound root) (fuel : ℕ) :
    ∀ here above, Descent t root here above → t.entries.size + 1 < fuel + (here :: above).length →
      t.EntryBelow here (t.below fuel (here :: above)) := by
  induction fuel with
  | zero =>
    intro here above h hfuel
    have hlength := h.length_le hsound
    omega
  | succ fuel ih =>
    intro here above h hfuel
    have hhere := h.directory here List.mem_cons_self
    rw [below]
    dsimp only [List.headD_cons]
    apply entryBelow_directory hhere _ (hsound.leads here h.reaches)
    intro name p hp
    have hup : t.entry? p = some .directory → p ∉ here :: above := fun hdirectory =>
      h.not_mem hsound ⟨name, hp, hdirectory⟩
    rw [belowEntry_of_leadsTo hp hup]
    rcases hp.stands hsound.rooted with hdirectory | ⟨text, htext⟩
    · rw [if_pos hdirectory]
      refine ih p (here :: above) (h.enter ⟨name, hp, hdirectory⟩) ?_
      rw [List.length_cons]
      omega
    · have hfile : ¬ t.entry? p = some .directory := by simp [htext]
      have hnone : ∀ n, ¬ Directory.HasFile n .file := fun n h => by cases h
      rw [if_neg hfile]
      exact ⟨.file, fun n => iff_of_false (hnone n) fun h => hfile h.1, iff_of_true rfl ⟨text, htext⟩⟩

/-- what lies below the path of a directory -/
theorem directory_of_sound {path : FilePath} {root : List String} (hresolve : t.resolve path = .ok (.found root))
    (hroot : t.entry? root = some .directory) (hsound : t.Sound root) :
    (t.directory path).Sound ∧ ∀ name, Directory.HasFile name (t.directory path) ↔ t.HasFile name root := by
  have hbelow : t.EntryBelow root (t.directory path) := by
    unfold directory
    rw [hresolve]
    dsimp only
    rw [if_pos hroot]
    apply entryBelow_of_sound hsound _ _ _ (.root hroot)
    rw [List.length_singleton]
    nlinarith
  exact ⟨hbelow.sound, fun name => by rw [hbelow.hasFile, and_iff_right hroot]⟩

end

/-! ### Checking a tree -/

section
variable {here p q : List String}

/-- where a name leads, computed -/
def leads? (t : FileTree) (here : List String) (name : String) : Option (List String) :=
  match t.entry? (here ++ [name]) with
  | none => none
  | some (.link _) =>
    match t.resolveFrom linkLimit here [name] with
    | .ok (.found p) => some p
    | _ => none
  | some _ => some (here ++ [name])

theorem leads?_eq_some_iff (name : String) : t.leads? here name = some p ↔ t.LeadsTo here name p := by
  constructor
  · intro h
    unfold leads? at h
    split at h
    · cases h
    · next target hentry =>
      split at h
      · next hp =>
        cases h
        exact .link hentry hp
      · cases h
    · next e hlink hentry =>
      cases h
      exact .entry hentry hlink
  · intro h
    unfold leads?
    cases h with
    | @entry e hentry hlink =>
      rw [hentry]
      cases e with
      | link target => exact absurd rfl (hlink target)
      | _ => rfl
    | link hentry hp =>
      rw [hentry]
      dsimp only
      rw [hp]

/-- whether directories only lead to files and to directories further on in the list -/
def isOrderly (t : FileTree) : List (List String) → Bool
  | [] => true
  | here :: later =>
    ((t.names here).all fun name =>
      (t.leads? here name).any fun p => t.entry? p ≠ some .directory || later.contains p) && isOrderly t later

theorem isOrderly_cons {later : List (List String)} (h : t.isOrderly (here :: later) = true) :
    (∀ name, t.entry? (here ++ [name]) ≠ none → ∃ p, t.LeadsTo here name p) ∧
      (∀ p, t.Enters here p → p ∈ later) ∧ t.isOrderly later = true := by
  rw [isOrderly, Bool.and_eq_true, List.all_eq_true] at h
  refine ⟨fun name hname => ?_, ?_, h.2⟩
  · obtain ⟨p, hp, -⟩ := (Option.any_eq_true _ _).1 (h.1 name ((mem_names_iff here name).2 hname))
    exact ⟨p, (leads?_eq_some_iff name).1 hp⟩
  · rintro p ⟨name, hp, hdirectory⟩
    have hlater := h.1 name hp.mem_names
    rw [(leads?_eq_some_iff name).2 hp] at hlater
    simpa [hdirectory] using hlater

theorem mem_of_isOrderly {dirs : List (List String)} (h : t.isOrderly dirs = true) (hp : p ∈ dirs)
    (hq : t.Enters p q) : q ∈ dirs := by
  induction dirs with
  | nil => cases hp
  | cons here later ih =>
    obtain ⟨-, hlater, horderly⟩ := isOrderly_cons h
    rcases List.mem_cons.1 hp with rfl | hp
    · exact List.mem_cons_of_mem _ (hlater q hq)
    · exact List.mem_cons_of_mem _ (ih horderly hp)

theorem not_transGen_of_isOrderly {dirs : List (List String)} (h : t.isOrderly dirs = true) (hp : p ∈ dirs) :
    ¬ TransGen t.Enters p p := by
  induction dirs with
  | nil => cases hp
  | cons here later ih =>
    obtain ⟨-, hlater, horderly⟩ := isOrderly_cons h
    intro hcycle
    have hmem : p ∈ later := by
      rcases List.mem_cons.1 hp with rfl | hp
      · -- a way from the first directory back to it stays among the others
        have hstays : ∀ q, TransGen t.Enters p q → q ∈ later := by
          intro q hq
          induction hq with
          | single hq => exact hlater _ hq
          | tail _ hq ih => exact mem_of_isOrderly horderly ih hq
        exact hstays p hcycle
      · exact hp
    exact ih horderly hmem hcycle

theorem exists_leadsTo_of_isOrderly {dirs : List (List String)} (h : t.isOrderly dirs = true) (hp : p ∈ dirs)
    {name : String} (hname : t.entry? (p ++ [name]) ≠ none) : ∃ q, t.LeadsTo p name q := by
  induction dirs with
  | nil => cases hp
  | cons here later ih =>
    obtain ⟨hleads, -, horderly⟩ := isOrderly_cons h
    rcases List.mem_cons.1 hp with rfl | hp
    · exact hleads name hname
    · exact ih horderly hp

/-- the names of the files right in some directories, links followed -/
def filesIn (t : FileTree) (dirs : List (List String)) : List String :=
  dirs.flatMap fun here => (t.names here).filter fun name =>
    (t.leads? here name).any fun p => t.entry? p ≠ some .directory

theorem mem_filesIn_of_hasFile {dirs : List (List String)} (h : t.isOrderly dirs = true) {name : String}
    (hfile : t.HasFile name p) (hp : p ∈ dirs) : name ∈ t.filesIn dirs := by
  induction hfile with
  | @direct here p text hlead hfile =>
    refine List.mem_flatMap.2 ⟨here, hp, List.mem_filter.2 ⟨hlead.mem_names, ?_⟩⟩
    rw [(leads?_eq_some_iff name).2 hlead]
    simp [hfile]
  | nested henters _ ih => exact ih (mem_of_isOrderly h hp henters)

theorem rooted_of_keys (h : (t.entries.keys.all fun key => t.entry? key.dropLast = some .directory) = true) :
    t.Rooted := by
  intro p name hentry
  have hne : p ++ [name] ≠ [] := List.append_ne_nil_of_right_ne_nil _ (List.cons_ne_nil _ _)
  unfold entry? at hentry
  rw [if_neg hne, ← Option.isSome_iff_ne_none, Std.TreeMap.isSome_getElem?_iff_mem] at hentry
  have hdirectory := List.all_eq_true.1 h _ (Std.TreeMap.mem_keys.2 hentry)
  rw [List.dropLast_concat] at hdirectory
  exact of_decide_eq_true hdirectory

/-- whether a tree is sound can be seen from a list of its directories -/
theorem sound_of_isOrderly (hrooted : t.Rooted) {root : List String} {dirs : List (List String)}
    (h : t.isOrderly dirs = true) (hroot : root ∈ dirs) : t.Sound root := by
  have hreached : ∀ p, ReflTransGen t.Enters root p → p ∈ dirs := by
    intro p hp
    induction hp with
    | refl => exact hroot
    | tail _ hq ih => exact mem_of_isOrderly h ih hq
  exact ⟨hrooted, fun p hp name hname => exists_leadsTo_of_isOrderly h (hreached p hp) hname,
    fun p hp => not_transGen_of_isOrderly h (hreached p hp)⟩

end

end FileTree

end RankEval
