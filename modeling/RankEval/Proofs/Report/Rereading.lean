/-
Reports read back, whatever the format that they were written in. Keys, names, lists and counts come back as they are,
an absent AUC stays absent, and every double comes back as the format reads it.

- `EvaluationKey.read?_place`: a key comes back.
- `read?_place`: a report comes back with every double reread.
- `decode?_print`: so it does from JSON.
-/
import RankEval.Proofs.Json.Records
import RankEval.Proofs.Report.Doubles
import RankEval.Report.Format

namespace RankEval

open Document (Rereads Keeps record?)

/-! ## Numbers that fit -/

namespace Configuration

/-- the parameters have 32 bits -/
def Fits : Configuration → Prop
  | .typesLsh v b | .embeddingsLsh v b | .columnAggregated _ v b => v < Nat.pow 2 32 ∧ b < Nat.pow 2 32
  | _ => True

instance (c : Configuration) : Decidable c.Fits :=
  match c with
  | .typesLsh _ _ | .embeddingsLsh _ _ | .columnAggregated _ _ _ => inferInstanceAs (Decidable (_ ∧ _))
  | .bm25 _ | .baseline _ | .bm25Prefilter _ => .isTrue trivial

end Configuration

/-- the cutoff has 64 bits, the other numbers 32 -/
@[mk_iff] structure EvaluationKey.Fits (key : EvaluationKey) : Prop where
  configuration : key.configuration.Fits
  tuples : key.tuples < Nat.pow 2 32
  k : key.k < Nat.pow 2 64
  vote : key.vote < Nat.pow 2 32

instance (key : EvaluationKey) : Decidable key.Fits := decidable_of_iff' _ (EvaluationKey.fits_iff key)

/-- the counts have 64 bits -/
@[mk_iff] structure Metric.Record.Fits (r : Metric.Record) : Prop where
  k : r.k < Nat.pow 2 64
  relevant : r.relevant < Nat.pow 2 64

instance (r : Metric.Record) : Decidable r.Fits := decidable_of_iff' _ (Metric.Record.fits_iff r)

namespace Report

@[mk_iff] structure Summary.Fits (s : Summary) : Prop where
  count : s.count < Nat.pow 2 64
  skipped : s.skipped < Nat.pow 2 64
  failed : s.failed < Nat.pow 2 64
  metrics : ∀ m ∈ s.metrics, m.count < Nat.pow 2 64

instance (s : Summary) : Decidable s.Fits := decidable_of_iff' _ (Summary.fits_iff s)

@[mk_iff] structure Entry.Fits (e : Entry) : Prop where
  key : e.key.Fits
  summary : e.summary.Fits
  records : ∀ r ∈ e.distribution.records, r.record.Fits

instance (e : Entry) : Decidable e.Fits := decidable_of_iff' _ (Entry.fits_iff e)

/-- every number in the report fits its field -/
def Fits (r : Report) : Prop := ∀ e ∈ r.entries, e.Fits

instance (r : Report) : Decidable r.Fits := inferInstanceAs (Decidable (∀ e ∈ r.entries, e.Fits))

end Report

/-! ## Names -/

/-- the names that variants are written with -/
def Configuration.words : List String :=
  ["kind", "types_lsh", "embeddings_lsh", "column_aggregated", "bm25", "baseline", "bm25_prefilter", "vectors",
    "band_size", "mode", "field", "types", "embeddings", "entities", "text"]

/-- the names of the queries under a key -/
def Report.Distribution.queries (d : Distribution) : List String :=
  d.records.map QueryRecord.query ++ d.skipped ++ d.failed

/-- the names of the queries in a report -/
def Report.queries (r : Report) : List String := r.entries.flatMap fun e => e.distribution.queries

/-! ## Reading -/

theorem mapM_some {α : Type} (xs : List α) : (xs.mapM fun x => some x) = some xs :=
  (mapM_eq_self_iff xs).2 fun _ _ => rfl

section
variable {D : Type} [Document D] {place : Nat → Datum → D} {number : Float → Prop} {reread? : Float → Option Float}
  {text : String → Prop} (h : Rereads text place number reread?) (room : Nat)

include h

theorem Metric.Record.read?_place {r : Metric.Record} (hr : r.Fits) (hnumbers : ∀ x ∈ r.doubles, number x) :
    Metric.Record.read? (place (room + 1) r.datum) = r.traverse reread? := by
  obtain ⟨k, ndcg, precisionAtK, recallAtK, auc, relevant⟩ := r
  have hauc : ∀ x ∈ auc, number x := by
    intro x hx
    exact hnumbers x (by simp [doubles, Option.mem_def.1 hx])
  unfold Metric.Record.read? Metric.Record.datum Metric.Record.fields traverse
  rw [h.record?_place]
  simp [-bind_pure_comp, FieldReader.bind_named, FieldReader.pure_named, FieldReader.required_named,
    FieldReader.optional_named, h.nat?_place _ hr.k, h.nat?_place _ hr.relevant, h.float?_place,
    h.optional?_place _ hauc, Option.bind_map, Option.bind_assoc]

namespace Configuration

omit h in
theorem size?_nat {n : Nat} (hn : n < Nat.pow 2 32) : size? (.nat n) = some n := if_pos hn

omit h in
theorem choice?_mode (mode : Representation) : choice? Representation.choices (.text mode.name) = some mode := by
  cases mode <;> decide

omit h in
theorem choice?_field (field : QueryField) : choice? QueryField.choices (.text field.name) = some field := by
  cases field <;> decide

/-- a variant comes back, if the names that it is written with do -/
theorem read?_place (hwords : ∀ s ∈ words, text s) {c : Configuration} (hc : c.Fits) :
    read? (place (room + 1) c.datum) = some c := by
  simp only [words, List.forall_mem_cons] at hwords
  obtain ⟨hkind, htypesLsh, hembeddingsLsh, haggregated, hbm25, hbaseline, hprefilter, hvectors, hband, hmode, hfield,
    htypes, hembeddings, hentities, htext, -⟩ := hwords
  have h64 : ∀ {n}, n < Nat.pow 2 32 → n < Nat.pow 2 64 := fun hn => Nat.lt_trans hn (by decide)
  have hmodes : ∀ mode : Representation, text mode.name := by rintro ⟨⟩ <;> assumption
  have hfields : ∀ field : QueryField, text field.name := by rintro ⟨⟩ <;> assumption
  cases c with
  | typesLsh v b =>
    have htagged := h.tagged?_place room hkind htypesLsh (by simp)
      (.cons (.count hvectors (h64 hc.1)) (.cons (.count hband (h64 hc.2)) .nil))
    simp [read?, datum, htagged, ofTagged?, hashing?, TaggedFields.values?, TaggedFields.keyMeans?, size?_nat hc.1,
      size?_nat hc.2]
  | embeddingsLsh v b =>
    have htagged := h.tagged?_place room hkind hembeddingsLsh (by simp)
      (.cons (.count hvectors (h64 hc.1)) (.cons (.count hband (h64 hc.2)) .nil))
    simp [read?, datum, htagged, ofTagged?, hashing?, TaggedFields.values?, TaggedFields.keyMeans?, size?_nat hc.1,
      size?_nat hc.2]
  | columnAggregated mode v b =>
    have htagged := h.tagged?_place room hkind haggregated (by simp) (.cons (.text hmode (hmodes mode))
      (.cons (.count hvectors (h64 hc.1)) (.cons (.count hband (h64 hc.2)) .nil)))
    simp [read?, datum, Representation.datum, htagged, ofTagged?, choice?_mode, TaggedFields.values?,
      TaggedFields.keyMeans?, size?_nat hc.1, size?_nat hc.2]
  | bm25 field =>
    have htagged := h.tagged?_place room hkind hbm25 (by simp) (.cons (.text hfield (hfields field)) .nil)
    simp [read?, datum, QueryField.datum, htagged, ofTagged?, single?, choice?_field, TaggedFields.values?,
      TaggedFields.keyMeans?]
  | baseline mode =>
    have htagged := h.tagged?_place room hkind hbaseline (by simp) (.cons (.text hmode (hmodes mode)) .nil)
    simp [read?, datum, Representation.datum, htagged, ofTagged?, single?, choice?_mode, TaggedFields.values?,
      TaggedFields.keyMeans?]
  | bm25Prefilter mode =>
    have htagged := h.tagged?_place room hkind hprefilter (by simp) (.cons (.text hmode (hmodes mode)) .nil)
    simp [read?, datum, Representation.datum, htagged, ofTagged?, single?, choice?_mode, TaggedFields.values?,
      TaggedFields.keyMeans?]

end Configuration

/-- A key comes back. -/
theorem EvaluationKey.read?_place (hwords : ∀ s ∈ Configuration.words, text s) {key : EvaluationKey} (hkey : key.Fits) :
    EvaluationKey.read? (place (room + 2) key.datum) = some key := by
  have hconfiguration := Configuration.read?_place h room hwords hkey.configuration
  obtain ⟨configuration, tuples, k, vote⟩ := key
  unfold EvaluationKey.read? EvaluationKey.datum EvaluationKey.fields
  rw [h.record?_place]
  simp [-bind_pure_comp, FieldReader.bind_named, FieldReader.pure_named, FieldReader.required_named, hconfiguration,
    h.small?_place _ hkey.tuples, h.nat?_place _ hkey.k, h.small?_place _ hkey.vote]

namespace Report

theorem FieldSummary.read?_place {s : FieldSummary Float} (hs : s.count < Nat.pow 2 64)
    (hnumbers : ∀ x ∈ s.doubles, number x) :
    FieldSummary.read? (place (room + 2) s.datum) = s.traverse reread? := by
  obtain ⟨mean, deviation, count, values⟩ := s
  have hmean : ∀ x ∈ mean, number x := by
    intro x hx
    exact hnumbers x (by simp [doubles, Option.mem_def.1 hx])
  have hdeviation : ∀ x ∈ deviation, number x := by
    intro x hx
    exact hnumbers x (by simp [doubles, Option.mem_def.1 hx])
  unfold FieldSummary.read? FieldSummary.datum FieldSummary.fields traverse
  rw [h.record?_place]
  simp [-bind_pure_comp, FieldReader.bind_named, FieldReader.pure_named, FieldReader.required_named,
    FieldReader.optional_named, h.nat?_place _ hs, h.float?_place, h.listOf?_place, h.optional?_place _ hmean,
    h.optional?_place _ hdeviation, Option.bind_map, Option.bind_assoc]

theorem Summary.read?_place {s : Summary} (hs : s.Fits) (hnumbers : ∀ x ∈ s.doubles, number x) :
    record? Summary.fields (place (room + 3) s.datum) = s.traverse reread? := by
  have hmetrics : ∀ m ∈ s.metrics, FieldSummary.read? (place (room + 2) m.datum) = m.traverse reread? := by
    intro m hm
    exact FieldSummary.read?_place h room (hs.metrics m hm) fun x hx => hnumbers x (List.mem_flatMap.2 ⟨m, hm, hx⟩)
  obtain ⟨count, skipped, failed, ndcg, precisionAtK, recallAtK, auc, relevant⟩ := s
  simp only [metrics, List.forall_mem_cons] at hmetrics
  unfold Summary.datum Summary.fields traverse
  rw [h.record?_place]
  simp [-bind_pure_comp, FieldReader.bind_named, FieldReader.pure_named, FieldReader.required_named,
    FieldReader.withDefault_named, h.nat?_place _ hs.count, h.nat?_place _ hs.skipped, h.nat?_place _ hs.failed,
    hmetrics, Option.bind_map, Option.bind_assoc]

theorem QueryRecord.read?_place {r : QueryRecord} (hquery : text r.query) (hr : r.record.Fits)
    (hnumbers : ∀ x ∈ r.record.doubles, number x) :
    record? QueryRecord.fields (place (room + 2) r.datum) = r.traverse reread? := by
  obtain ⟨query, record⟩ := r
  unfold QueryRecord.datum QueryRecord.fields traverse
  rw [h.record?_place]
  simp [-bind_pure_comp, FieldReader.bind_named, FieldReader.pure_named, FieldReader.required_named,
    h.text?_place _ hquery, Metric.Record.read?_place h _ hr hnumbers, Option.bind_map, Option.bind_assoc]

theorem Distribution.read?_place {d : Distribution} (hd : ∀ r ∈ d.records, r.record.Fits)
    (hnumbers : ∀ x ∈ d.doubles, number x) (hnames : ∀ s ∈ d.queries, text s) :
    record? Distribution.fields (place (room + 4) d.datum) = d.traverse reread? := by
  obtain ⟨records, skipped, failed⟩ := d
  simp only [queries, List.forall_mem_append, List.forall_mem_map] at hnames
  obtain ⟨⟨hqueries, hskipped⟩, hfailed⟩ := hnames
  have hrecords : (records.mapM fun r => record? QueryRecord.fields (place (room + 2) r.datum)) =
      records.mapM (QueryRecord.traverse reread?) := by
    refine mapM_congr_mem fun r hr => QueryRecord.read?_place h room (hqueries r hr) (hd r hr) fun x hx => ?_
    exact hnumbers x (List.mem_flatMap.2 ⟨r, hr, hx⟩)
  have htexts : ∀ {names : List String}, (∀ s ∈ names, text s) →
      (names.mapM fun s => Document.text? (place (room + 2) (.text s))) = some names := fun hs =>
    (mapM_congr_mem fun s hmem => h.text?_place _ (hs s hmem)).trans (mapM_some _)
  unfold Distribution.datum Distribution.fields traverse
  rw [h.record?_place]
  simp [-bind_pure_comp, FieldReader.bind_named, FieldReader.pure_named, FieldReader.required_named,
    FieldReader.withDefault_named, h.listOf?_place, htexts hskipped, htexts hfailed, hrecords, Option.bind_map,
    Option.bind_assoc]

theorem Entry.read?_place (hwords : ∀ s ∈ Configuration.words, text s) {e : Entry} (he : e.Fits)
    (hnumbers : ∀ x ∈ e.doubles, number x) (hnames : ∀ s ∈ e.distribution.queries, text s) :
    record? Entry.fields (place (room + 5) e.datum) = e.traverse reread? := by
  have hkey := EvaluationKey.read?_place h (room + 2) hwords he.key
  have hsummary := Summary.read?_place h (room + 1) he.summary fun x hx => hnumbers x (List.mem_append_left _ hx)
  have hdistribution := Distribution.read?_place h room he.records
    (fun x hx => hnumbers x (List.mem_append_right _ hx)) hnames
  obtain ⟨key, summary, distribution⟩ := e
  unfold Entry.datum Entry.fields traverse
  rw [h.record?_place]
  simp [-bind_pure_comp, FieldReader.bind_named, FieldReader.pure_named, FieldReader.required_named, hkey, hsummary,
    hdistribution, Option.bind_map, Option.bind_assoc]

/-- **What a report comes back as**: itself, with every double reread. -/
theorem read?_place (hwords : ∀ s ∈ Configuration.words, text s) {r : Report} (hr : r.Fits)
    (hnumbers : ∀ x ∈ r.doubles, number x) (hnames : ∀ s ∈ r.queries, text s) :
    Report.read? (place (room + 7) r.datum) = r.traverse reread? := by
  have hentries : (r.entries.mapM fun e => record? Entry.fields (place (room + 5) e.datum)) =
      r.entries.mapM (Entry.traverse reread?) := by
    refine mapM_congr_mem fun e he => Entry.read?_place h room hwords (hr e he) (fun x hx => ?_) fun s hs => ?_
    · exact hnumbers x (List.mem_flatMap.2 ⟨e, he, hx⟩)
    · exact hnames s (List.mem_flatMap.2 ⟨e, he, hs⟩)
  obtain ⟨entries⟩ := r
  unfold Report.read? datum fields traverse
  rw [h.record?_place]
  simp [-bind_pure_comp, FieldReader.bind_named, FieldReader.pure_named, FieldReader.required_named,
    h.listOf?_place, hentries, Option.map_eq_bind, Option.bind_assoc]

end Report

end

/-- reading a report printed as JSON -/
theorem Report.decode?_print {r : Report} (hr : r.Fits) (hfin : ∀ x ∈ r.doubles, x.isFinite = true) :
    Json.decode? Report.read? (Json.print r.datum) = r.traverse Json.reread? := by
  rw [Json.decode?, Json.parse?_print, Option.bind_some]
  exact read?_place Json.rereads 120 (fun _ _ => trivial) hr hfin fun _ _ => trivial

end RankEval
