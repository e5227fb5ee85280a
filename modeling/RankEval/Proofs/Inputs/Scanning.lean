/-
The corpus below a directory depends on the names of the files there and on nothing else. A walk finds every file below
the directory, at whatever depth, once for each place it lies at. Hidden files are dropped, the names are put in order,
and each is kept once: so what is left is the one list in order with these names, and it does not matter in which order
directories list their entries, or how files are spread over them.

- `CandidateUniverse.Lists.unique`: only one universe lists given tables in order.
- `corpusOf_of_sound`: the corpus of a directory.
- `corpus_canonical`: the corpus below a path.
- `corpus_canonical_of_shards`: the same tables in one directory, and spread over directories and a link.
-/
import RankEval.Inputs.Corpus
import RankEval.Proofs.Candidates.FirstSeen
import RankEval.Proofs.Files.Listing
import RankEval.Proofs.Inputs.Readers
import RankEval.Proofs.Text.ByteOrder

namespace RankEval

/-! ## Tables in order -/

/-- a universe of exactly the tables with a property, in the order of their bytes -/
structure CandidateUniverse.Lists (tables : TableId → Prop) (u : CandidateUniverse) : Prop where
  ascending : u.items.Pairwise fun a b => Text.bytes a < Text.bytes b
  mem_iff : ∀ table, table ∈ u.items ↔ tables table

theorem CandidateUniverse.Lists.unique {tables : TableId → Prop} {u u' : CandidateUniverse} (h : u.Lists tables)
    (h' : u'.Lists tables) : u = u' := by
  have hirrefl : Std.Irrefl fun a b : String => Text.bytes a < Text.bytes b := ⟨fun a => List.lt_irrefl _⟩
  have hantisymm : Std.Antisymm fun a b : String => Text.bytes a < Text.bytes b :=
    ⟨fun a b hab hba => absurd hab (List.lt_asymm hba)⟩
  have hitems : u.items = u'.items :=
    List.Pairwise.eq_of_mem_iff h.ascending h'.ascending fun table => by rw [h.mem_iff, h'.mem_iff]
  obtain ⟨items, hnodup⟩ := u
  obtain ⟨items', hnodup'⟩ := u'
  dsimp only at hitems
  subst hitems
  rfl

namespace Inputs

open Attempt (outcome outcome_bind outcome_lift outcome_throw)
open CandidateUniverse (Lists items_ofList)

/-- whether a file is a table, by its name -/
def IsTable (name : String) : Prop := name.toList.head? ≠ some '.'

instance : DecidablePred IsTable := fun _ => inferInstanceAs (Decidable (_ ≠ _))

theorem isHidden_eq_false_iff (name : String) : isHidden name = false ↔ IsTable name := by
  have hstart : isHidden name = true ↔ name.toList.head? = some '.' := by
    rw [isHidden, String.startsWith_string_iff]
    cases hname : name.toList with
    | nil => simp
    | cons c cs => simp [eq_comm]
  rw [IsTable, ne_eq, ← hstart, Bool.not_eq_true]

theorem mem_tableNames_iff (names : List String) (name : String) :
    name ∈ tableNames names ↔ name ∈ names ∧ IsTable name := by
  rw [tableNames, List.mem_mergeSort, List.mem_filter, Bool.not_eq_true', isHidden_eq_false_iff]

theorem tableNames_sorted (names : List String) : (tableNames names).Pairwise (· ≤ ·) :=
  List.pairwise_mergeSort' (· ≤ ·) _

/-- the tables in order, each once -/
theorem lists_tableNames (names : List String) :
    (CandidateUniverse.ofList (tableNames names)).Lists fun name => name ∈ names ∧ IsTable name := by
  constructor
  case ascending =>
    rw [items_ofList]
    have hsorted := (tableNames_sorted names).sublist (Distinct.eraseDups_sublist _)
    refine (hsorted.and (Distinct.nodup_eraseDups _)).imp fun {a b} h => ?_
    exact (Text.bytes_lt_iff a b).2 (lt_of_le_of_ne h.1 h.2)
  case mem_iff =>
    intro table
    rw [items_ofList, List.mem_eraseDups, mem_tableNames_iff]

/-! ## The corpus of a directory -/

/-- the tables below a directory -/
def tablesIn (d : Directory) (name : String) : Prop := d.HasFile name ∧ IsTable name

/-- **The corpus of a directory:** its tables in order, or a failure if there are none. -/
theorem corpusOf_of_sound {d : Directory} (h : d.Sound) (path : FilePath) :
    (corpusOf path d = .error (.emptyCorpus path) ∧ ∀ name, ¬ tablesIn d name) ∨
      ∃ u, corpusOf path d = .ok u ∧ u.Lists (tablesIn d) ∧ ∃ name, tablesIn d name := by
  obtain ⟨found, hfound, hfinds⟩ := Directory.fileNames_of_sound h path
  have hlists := lists_tableNames found
  have htables : (fun name => name ∈ found ∧ IsTable name) = tablesIn d := by
    funext name
    rw [tablesIn, hfinds]
  rw [htables] at hlists
  unfold corpusOf
  rw [hfound]
  dsimp only
  have hmem : ∀ name, name ∈ tableNames found ↔ tablesIn d name := fun name => by
    rw [mem_tableNames_iff, hfinds, tablesIn]
  cases hnames : tableNames found with
  | nil =>
    refine .inl ⟨rfl, fun name hname => ?_⟩
    rw [← hmem, hnames] at hname
    cases hname
  | cons first others =>
    rw [← hnames]
    refine .inr ⟨_, ?_, hlists, first, ?_⟩
    · rw [hnames]
      rfl
    · rw [← hmem, hnames]
      exact List.mem_cons_self

theorem corpusOf_eq_ok_iff {d : Directory} (h : d.Sound) (path : FilePath) (u : CandidateUniverse) :
    corpusOf path d = .ok u ↔ u.Lists (tablesIn d) ∧ ∃ name, tablesIn d name := by
  rcases corpusOf_of_sound h path with ⟨hcorpus, hnone⟩ | ⟨u', hcorpus, hlists, hsome⟩
  · rw [hcorpus]
    exact iff_of_false nofun fun h => h.2.elim hnone
  · rw [hcorpus]
    constructor
    · rintro ⟨⟩
      exact ⟨hlists, hsome⟩
    · rintro ⟨hu, -⟩
      rw [hlists.unique hu]

theorem corpusOf_eq_error_iff {d : Directory} (h : d.Sound) (path : FilePath) (failure : Failure) :
    corpusOf path d = .error failure ↔ failure = .emptyCorpus path ∧ ∀ name, ¬ tablesIn d name := by
  rcases corpusOf_of_sound h path with ⟨hcorpus, hnone⟩ | ⟨u', hcorpus, hlists, name, hname⟩
  · rw [hcorpus]
    exact ⟨fun heq => ⟨(Except.error.inj heq).symm, hnone⟩, fun heq => by rw [heq.1]⟩
  · rw [hcorpus]
    exact iff_of_false nofun fun h => h.2 name hname

/-- the corpus of a directory is not refused as that of something else -/
theorem corpusOf_ne_noCorpus (path path' : FilePath) (d : Directory) : corpusOf path d ≠ .error (.noCorpus path') := by
  intro h
  unfold corpusOf at h
  split at h
  · cases h
  · dsimp only at h
    split_ifs at h
    cases h

/-- directories with the same tables have the same corpus -/
theorem corpusOf_congr {d d' : Directory} (h : d.Sound) (h' : d'.Sound) (hsame : ∀ name, tablesIn d name ↔ tablesIn d' name)
    (path : FilePath) : corpusOf path d = corpusOf path d' := by
  have htables : tablesIn d = tablesIn d' := funext fun name => propext (hsame name)
  cases hcorpus : corpusOf path d with
  | ok u =>
    rw [corpusOf_eq_ok_iff h, htables, ← corpusOf_eq_ok_iff h' path] at hcorpus
    exact hcorpus.symm
  | error failure =>
    rw [corpusOf_eq_error_iff h, htables, ← corpusOf_eq_error_iff h'] at hcorpus
    exact hcorpus.symm

/-! ## The corpus below a path -/

theorem outcome_corpus (t : FileTree) (path : FilePath) :
    outcome t (corpus path) =
      if t.kind? path = some .directory then corpusOf path (t.directory path) else .error (.noCorpus path) := by
  unfold corpus
  rw [outcome_ask t (run_isDirectory_iff t path), outcome_bind, outcome_lift, outcome_throw]
  dsimp only [Except.bind, Reading.directoryOf, Reading.run]
  cases corpusOf path (t.directory path) <;> rfl

theorem kind?_eq_directory_iff (t : FileTree) (path : FilePath) :
    t.kind? path = some .directory ↔ ∃ root, t.resolve path = .ok (.found root) ∧ t.entry? root = some .directory := by
  unfold FileTree.kind?
  constructor
  · intro h
    split at h
    · next root hroot =>
      refine ⟨root, hroot, ?_⟩
      split at h
      · cases h
      · next hdirectory => exact hdirectory
      · cases h
    · cases h
  · rintro ⟨root, hroot, hdirectory⟩
    rw [hroot]
    dsimp only
    rw [hdirectory]

/-- a path that leads to a directory with neither broken links nor loops below it -/
structure IsCorpus (t : FileTree) (path : FilePath) (root : List String) : Prop where
  found : t.resolve path = .ok (.found root)
  directory : t.entry? root = some .directory
  sound : t.Sound root

/-- the tables below a directory of a tree -/
def tablesBelow (t : FileTree) (root : List String) (name : String) : Prop := t.HasFile name root ∧ IsTable name

/-- the corpus below a path is that of the directory it leads to, and its tables are those of the tree -/
theorem IsCorpus.outcome_eq {t : FileTree} {path : FilePath} {root : List String} (h : IsCorpus t path root) :
    outcome t (corpus path) = corpusOf path (t.directory path) ∧ (t.directory path).Sound ∧
      tablesIn (t.directory path) = tablesBelow t root := by
  obtain ⟨hsound, hfiles⟩ := FileTree.directory_of_sound h.found h.directory h.sound
  refine ⟨?_, hsound, funext fun name => ?_⟩
  · rw [outcome_corpus, if_pos ((kind?_eq_directory_iff t path).2 ⟨root, h.found, h.directory⟩)]
  · rw [tablesIn, tablesBelow, hfiles]

/-- the corpus below a path consists of the tables there, if there are any -/
theorem IsCorpus.outcome_eq_ok_iff {t : FileTree} {path : FilePath} {root : List String} (h : IsCorpus t path root)
    (u : CandidateUniverse) :
    outcome t (corpus path) = .ok u ↔ u.Lists (tablesBelow t root) ∧ ∃ name, tablesBelow t root name := by
  obtain ⟨hcorpus, hsound, htables⟩ := h.outcome_eq
  rw [hcorpus, corpusOf_eq_ok_iff hsound, htables]

/-- the tables of a directory that holds files only -/
theorem tablesBelow_iff_of_flat {t : FileTree} {root : List String} {tables : List String}
    (horderly : t.isOrderly [root] = true) (hfiles : ∀ name ∈ t.filesIn [root], IsTable name → name ∈ tables)
    (htables : ∀ name ∈ tables, IsTable name ∧ t.leads? root name = some (root ++ [name]) ∧
      ∃ text, t.entry? (root ++ [name]) = some (.file text)) (name : String) :
    tablesBelow t root name ↔ name ∈ tables := by
  constructor
  · rintro ⟨hfile, htable⟩
    exact hfiles name (FileTree.mem_filesIn_of_hasFile horderly hfile (List.mem_singleton_self _)) htable
  · intro hname
    obtain ⟨htable, hlead, text, hfile⟩ := htables name hname
    exact ⟨.direct ((FileTree.leads?_eq_some_iff name).1 hlead) hfile, htable⟩

/-- **A corpus is known by the names of its tables.** What is no directory is refused, and so is a directory without
tables; otherwise the corpus consists of the names of the tables at whatever depth, in the order of their bytes and each
once. So two directories with the same names give the same corpus, and so does one whose entries are listed in another
order. -/
theorem corpus_canonical :
    (∀ t path, outcome t (corpus path) = .error (.noCorpus path) ↔ t.kind? path ≠ some .directory) ∧
    (∀ t path root, IsCorpus t path root →
      (outcome t (corpus path) = .error (.emptyCorpus path) ↔ ∀ name, ¬ tablesBelow t root name) ∧
      ((∃ name, tablesBelow t root name) →
        ∃ u, outcome t (corpus path) = .ok u ∧ u.Lists (tablesBelow t root))) ∧
    (∀ t path root t' path' root', IsCorpus t path root → IsCorpus t' path' root' →
      (∀ name, tablesBelow t root name ↔ tablesBelow t' root' name) →
      ∀ u, outcome t (corpus path) = .ok u ↔ outcome t' (corpus path') = .ok u) ∧
    ∀ d d' path, Directory.Relisted d d' → d.Sound → corpusOf path d' = corpusOf path d := by
  refine ⟨fun t path => ?_, fun t path root h => ?_, fun t path root t' path' root' h h' hsame u => ?_, ?_⟩
  · rw [outcome_corpus]
    split
    · next hkind => exact iff_of_false (corpusOf_ne_noCorpus path path _) (not_not_intro hkind)
    · next hkind => exact iff_of_true rfl hkind
  · obtain ⟨hcorpus, hsound, htables⟩ := h.outcome_eq
    rw [hcorpus, corpusOf_eq_error_iff hsound, htables]
    refine ⟨and_iff_right rfl, fun ⟨name, hname⟩ => ?_⟩
    rcases corpusOf_of_sound hsound path with ⟨-, hnone⟩ | ⟨u, hok, hlists, -⟩
    · rw [htables] at hnone
      exact absurd hname (hnone name)
    · rw [htables] at hlists
      exact ⟨u, hok, hlists⟩
  · have heq : tablesBelow t root = tablesBelow t' root' := funext fun name => propext (hsame name)
    rw [h.outcome_eq_ok_iff, h'.outcome_eq_ok_iff, heq]
  · intro d d' path hlisted hsound
    refine corpusOf_congr (hlisted.sound hsound) hsound (fun name => ?_) path
    rw [tablesIn, tablesIn, hlisted.hasFile_iff]

/-- two tables in one directory, and a hidden file -/
def oneDirectory : FileTree where
  entries := .ofList ([
    (["corpus"], .directory), (["corpus", ".hidden"], .file none), (["corpus", "a.json"], .file none),
    (["corpus", "b.json"], .file none)] : List (List String × FileEntry))
  workingDirectory := []

/-- the same tables in a hidden directory and in one behind a link, where the second one lies again -/
def twoShards : FileTree where
  entries := .ofList ([
    (["data"], .directory), (["data", ".one"], .directory), (["data", ".one", "a.json"], .file none),
    (["data", ".one", "b.json"], .file none), (["data", "two"], .link "../else"), (["else"], .directory),
    (["else", "b.json"], .file none)] : List (List String × FileEntry))
  workingDirectory := []

theorem oneDirectory_isOrderly : oneDirectory.isOrderly [["corpus"]] = true := by decide +kernel

theorem twoShards_isOrderly : twoShards.isOrderly [["data"], ["data", ".one"], ["else"]] = true := by decide +kernel

theorem isCorpus_oneDirectory : IsCorpus oneDirectory "corpus" ["corpus"] where
  found := by decide +kernel
  directory := by decide +kernel
  sound := FileTree.sound_of_isOrderly (FileTree.rooted_of_keys (by decide +kernel)) oneDirectory_isOrderly (by decide)

theorem isCorpus_twoShards : IsCorpus twoShards "data" ["data"] where
  found := by decide +kernel
  directory := by decide +kernel
  sound := FileTree.sound_of_isOrderly (FileTree.rooted_of_keys (by decide +kernel)) twoShards_isOrderly (by decide)

theorem tables_oneDirectory (name : String) :
    tablesBelow oneDirectory ["corpus"] name ↔ name ∈ ["a.json", "b.json"] := by
  have hfiles : ∀ name ∈ oneDirectory.filesIn [["corpus"]], IsTable name → name ∈ ["a.json", "b.json"] := by
    decide +kernel
  have hdirect : ∀ name ∈ ["a.json", "b.json"], IsTable name ∧
      oneDirectory.leads? ["corpus"] name = some ["corpus", name] ∧
      oneDirectory.entry? ["corpus", name] = some (.file none) := by decide +kernel
  refine tablesBelow_iff_of_flat oneDirectory_isOrderly hfiles (fun name hname => ?_) name
  obtain ⟨htable, hlead, hfile⟩ := hdirect name hname
  exact ⟨htable, hlead, none, hfile⟩

theorem tables_twoShards (name : String) :
    tablesBelow twoShards ["data"] name ↔ name ∈ ["a.json", "b.json"] := by
  constructor
  · rintro ⟨hfile, -⟩
    have hmem := FileTree.mem_filesIn_of_hasFile twoShards_isOrderly hfile (by decide)
    have hfiles : twoShards.filesIn [["data"], ["data", ".one"], ["else"]] = ["a.json", "b.json", "b.json"] := by
      decide +kernel
    rw [hfiles] at hmem
    simpa using hmem
  · have hdirect : ∀ name ∈ ["a.json", "b.json"], IsTable name ∧
        twoShards.leads? ["data", ".one"] name = some ["data", ".one", name] ∧
        twoShards.entry? ["data", ".one", name] = some (.file none) := by decide +kernel
    have henters : twoShards.Enters ["data"] ["data", ".one"] :=
      ⟨".one", (FileTree.leads?_eq_some_iff ".one").1 (by decide +kernel), by decide +kernel⟩
    intro hname
    obtain ⟨htable, hlead, hfile⟩ := hdirect name hname
    exact ⟨.nested henters (.direct ((FileTree.leads?_eq_some_iff name).1 hlead) hfile), htable⟩

/-- Both have the same tables, so both give the same corpus. -/
theorem corpus_canonical_of_shards :
    IsCorpus oneDirectory "corpus" ["corpus"] ∧ IsCorpus twoShards "data" ["data"] ∧
    (∃ u, outcome oneDirectory (corpus "corpus") = .ok u ∧ outcome twoShards (corpus "data") = .ok u ∧
      u.Lists (tablesBelow oneDirectory ["corpus"])) ∧
    (∀ name, tablesBelow oneDirectory ["corpus"] name ↔ name ∈ ["a.json", "b.json"]) ∧
    corpusOf "" (.directory [("b", .file), ("a", .file)]) = corpusOf "" (.directory [("a", .file), ("b", .file)]) ∧
    outcome twoShards (corpus "nowhere") = .error (.noCorpus "nowhere") := by
  obtain ⟨hrefused, htables, hsame, hlisted⟩ := corpus_canonical
  obtain ⟨-, hcorpus⟩ := htables _ _ _ isCorpus_oneDirectory
  obtain ⟨u, hu, hlists⟩ := hcorpus ⟨"a.json", (tables_oneDirectory "a.json").2 (by decide)⟩
  have hshards := hsame _ _ _ _ _ _ isCorpus_oneDirectory isCorpus_twoShards fun name => by
    rw [tables_oneDirectory, tables_twoShards]
  have hsound : (Directory.directory [("a", .file), ("b", .file)]).Sound := .directory fun e he => by
    rcases List.mem_cons.1 he with rfl | he
    · exact .file
    · exact List.mem_singleton.1 he ▸ .file
  exact ⟨isCorpus_oneDirectory, isCorpus_twoShards, ⟨u, hu, (hshards u).1 hu, hlists⟩, tables_oneDirectory,
    hlisted _ _ _ (.entries (.swap _ _ [])) hsound, (hrefused _ _).2 (by decide +kernel)⟩

end Inputs

end RankEval
