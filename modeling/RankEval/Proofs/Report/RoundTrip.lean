/-
Saving a report as JSON and loading it again.

The file holds the shortest digits of every double, from which the nearest double could be had back; but they are read
quickly, in two steps that each round. A report therefore survives iff every double in it survives on its own: keys,
names, lists, counts and absent values always do.

- `load_of_save`: what comes back, and when it is what was saved.
- `load_of_save_ndcg`: a report that survives, and one of three short decimals that does not because of their mean.
-/
import RankEval.Proofs.Files.Attempts
import RankEval.Proofs.Files.Saving
import RankEval.Proofs.Report.Rereading
import RankEval.Report.File

namespace RankEval.Report

open Json (reread?)

variable {t t' : FileTree} {path : FilePath}

/-- loading what lies at a path that leads to a text file -/
theorem outcome_load {text : String} (hkind : t.kind? path = some .file) (htext : t.text? path = .ok text) :
    Attempt.outcome t (load path) = match (ReportFormat.ofPath path).parse? text with
      | some r => .ok r
      | none => .error .serialization := by
  unfold load
  rw [Attempt.outcome_bind, Attempt.outcome_lift, Attempt.run_pathExists, hkind]
  change Attempt.outcome t (Attempt.text path >>= _) = _
  rw [Attempt.outcome_bind, Attempt.outcome_text, htext]
  change Attempt.outcome t (match (ReportFormat.ofPath path).parse? text with
    | some r => pure r
    | none => throw .serialization) = _
  cases (ReportFormat.ofPath path).parse? text with
  | none => exact Attempt.outcome_throw t _
  | some r => exact Attempt.outcome_pure t r

/-- **Saving and loading.** A report that is saved as JSON and loaded comes back with every double reread, and it is the
same report iff every double in it is the same one when it is reread. -/
theorem load_of_save {r : Report} (hpath : ReportFormat.ofPath path = .json) (hr : r.Fits)
    (hfin : ∀ x ∈ r.doubles, x.isFinite = true) (hsave : t.save path (textFor path r) = (t', none)) :
    Attempt.outcome t' (load path) = (match r.traverse reread? with
      | some reread => .ok reread
      | none => .error .serialization) ∧
    (Attempt.outcome t' (load path) = .ok r ↔ ∀ x ∈ r.doubles, reread? x = some x) := by
  obtain ⟨hkind, htext⟩ := FileTree.text?_of_save hsave
  have hparse : (ReportFormat.ofPath path).parse? (textFor path r) = r.traverse reread? := by
    rw [textFor, hpath]
    exact decode?_print hr hfin
  have hload := outcome_load hkind htext
  rw [hparse] at hload
  refine ⟨hload, ?_⟩
  rw [hload, ← traverse_eq_self_iff]
  cases r.traverse reread? with
  | none => exact ⟨nofun, nofun⟩
  | some reread => simp

/-- a report on one key, the records of which differ in their NDCG -/
def ofNdcg (values : List Float) : Report :=
  let d : Distribution := ⟨values.map fun ndcg => ⟨"wikipage_1", ⟨10, ndcg, 0.5, 0.5, none, 5⟩⟩, [], []⟩
  ⟨[⟨⟨.baseline .types, 1, 10, 3⟩, d.summarize, d⟩]⟩

/-- saving the first file of a file system -/
theorem save_first {name : String} (hparent : Path.parent? name = some "") (hslash : name.endsWith "/" = false)
    (hresolve : (⟨∅, []⟩ : FileTree).resolve name = .ok (.absent [] name)) (text : String) :
    (⟨∅, []⟩ : FileTree).save name text = (.put ⟨∅, []⟩ [name] (.file (some text)), none) := by
  simp [FileTree.save, hparent, FileTree.writeText, hslash, hresolve]

/-- a file system in which nothing but one text was saved -/
def holding (text : String) : FileTree := .put ⟨∅, []⟩ ["run.json"] (.file (some text))

theorem save_holding (text : String) : (⟨∅, []⟩ : FileTree).save "run.json" text = (holding text, none) :=
  save_first (by decide +kernel) (by decide +kernel) (by decide +kernel) text

/-- One half and the negative zero survive, and so does their mean. Three values of one digit survive, but their mean
0.39999999999999997 is reread as 0.4. -/
theorem load_of_save_ndcg :
    Attempt.outcome (holding (textFor "run.json" (ofNdcg [0.5, -0.0]))) (load "run.json") = .ok (ofNdcg [0.5, -0.0]) ∧
    Attempt.outcome (holding (textFor "run.json" (ofNdcg [0.1, 0.4, 0.7]))) (load "run.json") ≠
      .ok (ofNdcg [0.1, 0.4, 0.7]) := by
  have hpath : ReportFormat.ofPath "run.json" = .json := by decide +kernel
  constructor
  · refine (load_of_save hpath ?_ ?_ (save_holding _)).2.2 ?_
    · decide +kernel
    · decide +kernel
    · decide +kernel
  · intro hload
    have hdoubles : ¬ ∀ x ∈ (ofNdcg [0.1, 0.4, 0.7]).doubles, reread? x = some x := by decide +kernel
    refine hdoubles ((load_of_save hpath ?_ ?_ (save_holding _)).2.1 hload)
    · decide +kernel
    · decide +kernel

end RankEval.Report
