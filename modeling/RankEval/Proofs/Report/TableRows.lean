/-
The rows of a report's table. The table has two lines of heading and then one row for each key, in order. A row begins
with the text of its key and goes on with a blank, so that it shows which key it is of; and keys come once, so that no
two rows carry the same name.

- `lines_table`: the lines of a table.
- `carries_text_iff`: a row carries the name of no other key.
- `names_identify`: keys are known by their texts, variants by their labels, and rows by their names.
-/
import RankEval.Proofs.Engine.Labels
import RankEval.Proofs.Report.Ledger
import RankEval.Proofs.Text.Lines
import RankEval.Report.Table

namespace RankEval.Report

open Decimal (fixed natText startsNoDigit_cons)

/-! ## Cells -/

/-- a text that stays on its line -/
def IsInline (cs : List Char) : Prop := '\n' ∉ cs ∧ '\r' ∉ cs

instance : DecidablePred IsInline := fun _ => inferInstanceAs (Decidable (_ ∧ _))

theorem isInline_append {cs ds : List Char} : IsInline (cs ++ ds) ↔ IsInline cs ∧ IsInline ds := by
  simp only [IsInline, List.mem_append, not_or]
  tauto

theorem isInline_natText (n : ℕ) : IsInline (natText n).toList := by
  rw [Decimal.toList_natText]
  exact ⟨Decimal.not_mem_toDigits rfl n, Decimal.not_mem_toDigits rfl n⟩

theorem isInline_fixed (places : ℕ) (x : Float) : IsInline (fixed places x).toList := by
  unfold fixed
  split
  · decide
  · split <;> decide
  · next negative m q _ =>
    have hmagnitude : IsInline (Decimal.placesText places (Decimal.inPlaces places m q)) := by
      simp [IsInline, Decimal.placesText, Decimal.not_mem_toDigits, Decimal.zeros]
    split
    · simpa [IsInline] using hmagnitude
    · simpa using hmagnitude

theorem isInline_statistics (f : FieldSummary Float) : IsInline (statistics f).toList := by
  unfold statistics
  split
  · simp only [String.toList_append, isInline_append, isInline_fixed, true_and, and_true]
    decide
  · decide

theorem isInline_text (key : EvaluationKey) : IsInline key.text.toList := by
  obtain ⟨c, tuples, k, vote⟩ := key
  rcases c with _ | _ | ⟨_ | _, _, _⟩ | ⟨_ | _⟩ | ⟨_ | _⟩ | ⟨_ | _⟩ <;>
    simp [IsInline, EvaluationKey.toList_text, Configuration.label, Configuration.toList_hashLabel, QueryField.name,
      Representation.name, Decimal.not_mem_toDigits]

theorem isInline_padLeft (width : ℕ) {s : String} (h : IsInline s.toList) : IsInline (padLeft width s).toList := by
  simpa [IsInline, padLeft] using h

theorem isInline_padRight (width : ℕ) {s : String} (h : IsInline s.toList) : IsInline (padRight width s).toList := by
  simpa [IsInline, padRight] using h

theorem isInline_rule (width : ℕ) : IsInline (rule width).toList := by
  rw [rule, String.toList_ofList]
  constructor <;> intro h <;> exact absurd (List.eq_of_mem_replicate h) (by decide)

/-! ## Rows -/

/-- whether a line of a table carries a name: it begins with the name, filled up to the width of its column -/
def Carries (row : List Char) (name : String) : Prop := (padRight 44 name ++ " ").toList <+: row

/-- a line of a table carries its name -/
theorem exists_tableLine {name count skipped failed ndcg precision recalled auc : String}
    (hname : IsInline name.toList) (hcells : ∀ cell ∈ [count, skipped, failed, ndcg, precision, recalled, auc],
      IsInline cell.toList) :
    ∃ row, IsInline row ∧ Carries row name ∧
      (tableLine name count skipped failed ndcg precision recalled auc).toList = row ++ ['\n'] := by
  have hblank : IsInline " ".toList := by decide
  simp only [List.forall_mem_cons] at hcells
  refine ⟨(padRight 44 name ++ " ").toList ++ (padLeft 6 count ++ " " ++ padLeft 5 skipped ++ " " ++
    padLeft 5 failed ++ " " ++ padLeft 13 ndcg ++ " " ++ padLeft 13 precision ++ " " ++ padLeft 13 recalled ++ " " ++
    padLeft 13 auc).toList, ?_, List.prefix_append _ _, ?_⟩
  · simp only [String.toList_append, isInline_append, isInline_padRight 44 hname, isInline_padLeft, hcells, hblank,
      and_self]
  · simp [tableLine]

/-- a name that a row carries is known: what follows the text of a key is a blank -/
theorem carries_text_iff {row : List Char} {a : EvaluationKey} (h : Carries row a.text) (b : EvaluationKey) :
    Carries row b.text ↔ a = b := by
  have hfill : ∀ key : EvaluationKey, ∀ rest, ∃ rest', (padRight 44 key.text ++ " ").toList ++ rest =
      key.text.toList ++ ' ' :: rest' := by
    intro key rest
    rw [padRight, String.toList_append, String.toList_append, String.toList_ofList]
    cases 44 - key.text.length with
    | zero => exact ⟨rest, by simp⟩
    | succ n => exact ⟨List.replicate n ' ' ++ ' ' :: rest, by simp [List.replicate_succ]⟩
  refine ⟨fun h' => ?_, fun heq => heq ▸ h⟩
  obtain ⟨rest, rfl⟩ := h
  obtain ⟨rest', heq⟩ := h'
  obtain ⟨restA, hA⟩ := hfill a rest
  obtain ⟨restB, hB⟩ := hfill b rest'
  rw [hA, hB, EvaluationKey.text_append_inj b a (startsNoDigit_cons rfl) (startsNoDigit_cons rfl)] at heq
  exact heq.1.symm

theorem exists_entryLine (e : Entry) :
    ∃ row, IsInline row ∧ Carries row e.key.text ∧ (entryLine e).toList = row ++ ['\n'] :=
  exists_tableLine (isInline_text e.key) (by simp [isInline_natText, isInline_statistics])

/-- **The lines of a table**: two lines of heading, and for each entry one row, which carries its name. -/
theorem lines_table (r : Report) :
    ∃ heading ruling, ∃ row : Entry → List Char, (∀ e, Carries (row e) e.key.text) ∧
      Text.lines (table r).toList = heading :: ruling :: r.entries.map row := by
  obtain ⟨heading, hheading, -, hheadingLine⟩ := @exists_tableLine "configuration" "n" "skip" "fail" "ndcg"
    "precision" "recall" "auc" (by decide) (by decide)
  choose row hrow hcarries hline using exists_entryLine
  have hall : ∀ line ∈ heading :: (rule tableWidth).toList :: r.entries.map row, IsInline line := by
    simp [hheading, isInline_rule, hrow]
  have hbreak : "\n".toList = ['\n'] := rfl
  have htable : (table r).toList =
      (heading :: (rule tableWidth).toList :: r.entries.map row).flatMap fun line => line ++ ['\n'] := by
    rw [table, String.toList_append, String.toList_append, String.toList_append, hheadingLine]
    simp only [hline, hbreak, String.toList_join, List.flatMap_map, List.flatMap_cons, List.append_assoc]
  refine ⟨heading, (rule tableWidth).toList, row, hcarries, ?_⟩
  rw [htable]
  refine Text.lines_flatMap (fun line hmem => (hall line hmem).1) fun line hmem hlast => ?_
  exact (hall line hmem).2 (List.mem_of_getLast? hlast)

/-! ## Names -/

/-- **Names identify.** Two keys have the same text iff they are the same key, and two variants have the same label iff
they are the same variant. So in the table of a report on a ledger, which has a row for each of its keys, in order,
there is no key whose name is carried by two rows. -/
theorem names_identify :
    (∀ a b : EvaluationKey, a.text = b.text ↔ a = b) ∧
    (∀ c d : Configuration, c.label = d.label ↔ c = d) ∧
    ∀ l : Ledger, ∃ heading ruling rows, Text.lines (table (ofLedger l)).toList = heading :: ruling :: rows ∧
      List.Forall₂ (fun key row => Carries row (EvaluationKey.text key)) l.keys rows ∧
      rows.Pairwise fun row row' => ¬ ∃ key : EvaluationKey, Carries row key.text ∧ Carries row' key.text := by
  refine ⟨fun a b => EvaluationKey.text_inj, fun c d => Configuration.label_inj, fun l => ?_⟩
  obtain ⟨heading, ruling, row, hcarries, hlines⟩ := lines_table (ofLedger l)
  refine ⟨heading, ruling, (ofLedger l).entries.map row, hlines, ?_, ?_⟩
  · rw [← keys_ofLedger, List.forall₂_map_left_iff, List.forall₂_map_right_iff, List.forall₂_same]
    exact fun e _ => hcarries e
  · have hnodup : ((ofLedger l).entries.map Entry.key).Nodup :=
      keys_ofLedger l ▸ EvaluationKey.nodup_of_sorted (Ledger.keys_sorted l)
    rw [List.pairwise_map]
    refine (List.pairwise_map.1 hnodup).imp fun {e e'} hne => ?_
    rintro ⟨key, hkey, hkey'⟩
    exact hne (((carries_text_iff (hcarries e) key).1 hkey).trans ((carries_text_iff (hcarries e') key).1 hkey').symm)

end RankEval.Report
