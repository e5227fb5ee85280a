/-
Saving a report as YAML and loading it again. The digits of a double are read as the double nearest to them, so that
here every double that is a number survives, infinities and the negative zero among them. What a report holds besides
needs no quotes: keys, the names of variants and the names of queries.

- `isPlainText_queryName`, `isPlain_datum`: what is written without quotes.
- `load_of_saveYaml`: a report comes back as it was.
-/
import RankEval.Proofs.Report.RoundTrip
import RankEval.Proofs.Yaml.Records

namespace RankEval

open Yaml (IsKey IsPlain IsPlainText PlainItems PlainMembers)

/-! ## Names -/

/-- the name of a query is a text like no other scalar -/
theorem isPlainText_queryName (page : Nat) : IsPlainText (EvaluationKey.queryName page) := by
  have hchars : (EvaluationKey.queryName page).toList =
      'w' :: ['i', 'k', 'i', 'p', 'a', 'g', 'e', '_'] ++ Nat.toDigits 10 page := by
    rw [EvaluationKey.queryName, String.toList_append, Decimal.toList_natText]
    rfl
  have hstart : ∀ c ∈ ['w', 'i', 'k', 'i', 'p', 'a', 'g', 'e', '_'], Yaml.isPlainChar c = true :=
    List.all_eq_true.1 (by decide +kernel)
  refine ⟨⟨?_, ?_⟩, Yaml.Scalar.isText_of_head hchars, ?_⟩
  · rw [hchars]
    exact fun c hc => (List.mem_append.1 hc).elim (hstart c) ((Yaml.isWord_toDigits page).chars c)
  · rw [hchars]
    rfl
  · rw [hchars]
    rfl

theorem isPlainText_words : ∀ s ∈ Configuration.words, IsPlainText s := by decide +kernel

/-! ## Reports -/

/-- the keys of the records in a report -/
def Report.keys : List String :=
  ["entries", "key", "summary", "distribution", "configuration", "tuples", "k", "vote", "count", "skipped", "failed",
    "ndcg", "precision_at_k", "recall_at_k", "auc", "num_relevant_at_k", "mean", "std", "values", "records", "query",
    "record", "kind", "vectors", "band_size", "mode", "field"]

theorem Report.isKey_keys : ∀ key ∈ keys, IsKey key := by decide +kernel

theorem Report.isPlain_record {xs : List (String × Datum)} (hne : xs ≠ []) (hkeys : ∀ e ∈ xs, e.1 ∈ keys)
    (hvalues : ∀ e ∈ xs, IsPlain e.2) : IsPlain (.record xs) := by
  rw [IsPlain, Yaml.plainMembers_iff]
  exact ⟨hne, fun e he => ⟨isKey_keys e.1 (hkeys e he), hvalues e he⟩⟩

open Report (keys isPlain_record)

theorem Metric.Record.isPlain_datum (r : Metric.Record) : IsPlain r.datum :=
  isPlain_record (List.cons_ne_nil _ _) (by simp [keys]) (by simp [IsPlain, Yaml.isPlain_optional])

theorem Configuration.isPlain_datum (c : Configuration) : IsPlain c.datum := by
  have hwords := isPlainText_words
  simp only [words, List.forall_mem_cons] at hwords
  have hmodes : ∀ mode : Representation, IsPlainText mode.name := by rintro ⟨⟩ <;> simp [Representation.name, hwords]
  have hfields : ∀ field : QueryField, IsPlainText field.name := by rintro ⟨⟩ <;> simp [QueryField.name, hwords]
  cases c <;> exact isPlain_record (List.cons_ne_nil _ _) (by simp [keys])
    (by simp [IsPlain, Representation.datum, QueryField.datum, hwords, hmodes, hfields])

theorem EvaluationKey.isPlain_datum (key : EvaluationKey) : IsPlain key.datum :=
  isPlain_record (List.cons_ne_nil _ _) (by simp [keys]) (by simp [IsPlain, key.configuration.isPlain_datum])

namespace Report

theorem FieldSummary.isPlain_datum (s : FieldSummary Float) : IsPlain s.datum := by
  have hvalues : IsPlain (.listOf .number s.values) := Yaml.isPlain_listOf fun x _ => by simp [Yaml.isList, IsPlain]
  exact isPlain_record (List.cons_ne_nil _ _) (by simp [keys]) (by simp [IsPlain, Yaml.isPlain_optional, hvalues])

theorem Summary.isPlain_datum (s : Summary) : IsPlain s.datum :=
  isPlain_record (List.cons_ne_nil _ _) (by simp [keys]) (by simp [IsPlain, FieldSummary.isPlain_datum])

theorem QueryRecord.isPlain_datum {r : QueryRecord} (hquery : IsPlainText r.query) : IsPlain r.datum :=
  isPlain_record (List.cons_ne_nil _ _) (by simp [keys]) (by simp [IsPlain, hquery, r.record.isPlain_datum])

theorem Distribution.isPlain_datum {d : Distribution} (hnames : ∀ s ∈ d.queries, IsPlainText s) : IsPlain d.datum := by
  simp only [queries, List.forall_mem_append, List.forall_mem_map] at hnames
  obtain ⟨⟨hqueries, hskipped⟩, hfailed⟩ := hnames
  have htexts : ∀ {names : List String}, (∀ s ∈ names, IsPlainText s) → IsPlain (.listOf .text names) := fun hs =>
    Yaml.isPlain_listOf fun s hmem => by simp [Yaml.isList, IsPlain, hs s hmem]
  have hrecords : IsPlain (.listOf QueryRecord.datum d.records) :=
    Yaml.isPlain_listOf fun r hr => ⟨rfl, QueryRecord.isPlain_datum (hqueries r hr)⟩
  exact isPlain_record (List.cons_ne_nil _ _) (by simp [keys]) (by simp [hrecords, htexts hskipped, htexts hfailed])

theorem Entry.isPlain_datum {e : Entry} (hnames : ∀ s ∈ e.distribution.queries, IsPlainText s) : IsPlain e.datum :=
  isPlain_record (List.cons_ne_nil _ _) (by simp [keys])
    (by simp [e.key.isPlain_datum, e.summary.isPlain_datum, Distribution.isPlain_datum hnames])

theorem isPlain_datum {r : Report} (hnames : ∀ s ∈ r.queries, IsPlainText s) : IsPlain r.datum := by
  have hentries : IsPlain (.listOf Entry.datum r.entries) := Yaml.isPlain_listOf fun e he =>
    ⟨rfl, Entry.isPlain_datum fun s hs => hnames s (List.mem_flatMap.2 ⟨e, he, hs⟩)⟩
  exact isPlain_record (List.cons_ne_nil _ _) (by simp [keys]) (by simp [hentries])

/-- reading a report printed as YAML -/
theorem decode?_printYaml {r : Report} (hr : r.Fits) (hnames : ∀ s ∈ r.queries, IsPlainText s) :
    Yaml.decode? Report.read? (Yaml.print r.datum) = r.traverse Yaml.reread? := by
  have hdecode := Yaml.decode?_print Report.read? (isPlain_datum hnames)
  rw [← datum] at hdecode
  rw [hdecode]
  exact read?_place (Yaml.rereads _) 121 isPlainText_words hr (fun _ _ => trivial) hnames

variable {t t' : FileTree} {path : FilePath}

/-- **Saving and loading as YAML.** A report in which the queries have their names and every double is a number comes
back as it was. -/
theorem load_of_saveYaml {r : Report} (hpath : Path.extension? path = some "yaml" ∨ Path.extension? path = some "yml")
    (hr : r.Fits) (hnames : ∀ s ∈ r.queries, ∃ page, s = EvaluationKey.queryName page)
    (hnumbers : ∀ x ∈ r.doubles, x.isNaN = false) (hsave : t.save path (textFor path r) = (t', none)) :
    Attempt.outcome t' (load path) = .ok r := by
  obtain ⟨hkind, htext⟩ := FileTree.text?_of_save hsave
  have hformat : ReportFormat.ofPath path = .yaml := if_pos hpath
  have hplain : ∀ s ∈ r.queries, IsPlainText s := by
    intro s hs
    obtain ⟨page, rfl⟩ := hnames s hs
    exact isPlainText_queryName page
  have hself : r.traverse Yaml.reread? = some r :=
    (traverse_eq_self_iff _ r).2 fun x hx => Yaml.reread?_eq_self (hnumbers x hx)
  have hparse : (ReportFormat.ofPath path).parse? (textFor path r) = some r := by
    rw [textFor, hformat, ← hself]
    exact decode?_printYaml hr hplain
  rw [outcome_load hkind htext, hparse]

/-- A report with an infinite value, the negative zero, the least double and no AUC, beside a summary of nothing. -/
def ofExtremes : Report :=
  ⟨[⟨⟨.bm25Prefilter .embeddings, 1, 10, 3⟩, Distribution.summarize ⟨[], [], []⟩,
    ⟨[⟨EvaluationKey.queryName 7, ⟨10, 1 / 0, -0.0, 5e-324, none, 5⟩⟩], [EvaluationKey.queryName 0], []⟩⟩]⟩

/-- an empty file system in which a report was saved as YAML holds that report -/
theorem load_of_saveYaml_extremes :
    Attempt.outcome (.put ⟨∅, []⟩ ["run.yml"] (.file (some (textFor "run.yml" ofExtremes)))) (load "run.yml") =
      .ok ofExtremes := by
  refine load_of_saveYaml (.inr (by decide +kernel)) (by decide +kernel) ?_ (by decide +kernel)
    (save_first (by decide +kernel) (by decide +kernel) (by decide +kernel) _)
  intro s hs
  simp only [queries, Distribution.queries, ofExtremes, List.flatMap_cons, List.flatMap_nil, List.map_cons,
    List.map_nil, List.append_nil, List.mem_append, List.mem_singleton] at hs
  rcases hs with rfl | rfl
  · exact ⟨7, rfl⟩
  · exact ⟨0, rfl⟩

end Report

end RankEval
