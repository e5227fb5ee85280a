/-
Reading the scores of many queries. A text is read iff each of its lines is blank or a row; otherwise the first line
that is neither is reported. What was read for a query is what its own rows say, wherever they stand between the rows of
other queries.

- `row_eq_ok_iff`, `row_eq_error_iff`: which lines are rows, and which check the others fail.
- `rowsFrom_eq_ok_iff`, `rowsFrom_eq_error_iff`: the same for many lines.
- `lookup_eq_none_iff`, `of_lookup_eq_some`: what the rows of a page say.
- `queryCount_eq_card`: how pages are counted.
- `readFrom_eq`, `lookup_foldl_add`: rows that are grouped while they are read.
- `groups_without_loss`: the whole, with rows of two queries in turns in `groups_without_loss_interleaved`.
-/
import Mathlib.Data.Finset.Card
import Mathlib.Data.Option.Defs
import RankEval.Inputs.RankedGroups
import RankEval.Proofs.Candidates.Stored
import RankEval.Proofs.Decimal.Digits
import RankEval.Proofs.Files.Components

namespace RankEval

/-! ## Texts with and without blanks -/

namespace Text

/-- there is one part more than there are separators -/
theorem length_splitAt (sep : Char) (cs : List Char) : (splitAt sep cs).length = cs.count sep + 1 := by
  induction cs with
  | nil => rfl
  | cons c cs ih =>
    rw [splitAt_cons]
    by_cases hc : c = sep
    · rw [if_pos hc, hc, List.count_cons_self, List.length_cons, ih]
    · have hpos : 0 < (splitAt sep cs).length := List.length_pos_of_ne_nil (splitAt_ne_nil sep cs)
      rw [if_neg hc, List.count_cons_of_ne hc, List.length_cons, List.length_tail]
      omega

/-- nothing remains of a text iff all of it is blank -/
theorem trim_eq_nil_iff (cs : List Char) : trim cs = [] ↔ ∀ c ∈ cs, isBlank c = true := by
  rw [trim, List.reverse_eq_nil_iff, List.dropWhile_eq_nil_iff]
  simp only [List.mem_reverse]
  constructor
  · intro h c hc
    rw [← List.takeWhile_append_dropWhile (p := isBlank) (l := cs), List.mem_append] at hc
    rcases hc with hfront | hrest
    · exact List.mem_takeWhile_imp hfront
    · exact h c hrest
  · intro h c hc
    exact h c ((List.dropWhile_sublist _).subset hc)

end Text

namespace Inputs

/-! ## Lines -/

/-- column `i` of a line, without the blanks around it -/
def cell (line : List Char) (i : Nat) : List Char := Text.trim ((Text.splitAt '\t' line).getD i [])

def IsBlankLine (line : List Char) : Prop := ∀ c ∈ line, Text.isBlank c = true

instance (line : List Char) : Decidable (IsBlankLine line) := inferInstanceAs (Decidable (∀ c ∈ line, _))

/-- a line with five columns, of which the first is a number below 2^64 and the fifth a double -/
structure IsRow (line : List Char) (r : RankedRow) : Prop where
  columns : 4 ≤ line.count '\t'
  page : Text.count? (cell line 0) = some r.page
  score : Decimal.float? (cell line 4) = some r.score
  table : r.table = String.ofList (cell line 2)

/-- the first check that a line fails -/
inductive Fails (line : List Char) : RowFault → Prop where
  | columns (h : line.count '\t' < 4) : Fails line .columns
  | page (h : 4 ≤ line.count '\t') (hpage : Text.count? (cell line 0) = none) : Fails line .page
  | score (h : 4 ≤ line.count '\t') {page : Nat} (hpage : Text.count? (cell line 0) = some page)
      (hscore : Decimal.float? (cell line 4) = none) : Fails line .score

/-- what a reader can pass over or take in -/
def Passes (line : List Char) : Prop := IsBlankLine line ∨ ∃ r, IsRow line r

/-- the line in place `i` is the first one that is neither blank nor a row -/
structure IsFirstFault (lines : List (List Char)) (i : Nat) (fault : RowFault) : Prop where
  line : ∃ line, lines[i]? = some line ∧ ¬ IsBlankLine line ∧ Fails line fault
  before : ∀ j < i, ∀ line, lines[j]? = some line → Passes line

theorem row_eq (line : List Char) :
    row line = if line.count '\t' < 4 then .error .columns
      else match Text.count? (cell line 0), Decimal.float? (cell line 4) with
        | none, _ => .error .page
        | _, none => .error .score
        | some page, some score => .ok ⟨page, String.ofList (cell line 2), score⟩ := by
  have hlength := Text.length_splitAt '\t' line
  unfold row cell
  generalize Text.splitAt '\t' line = parts at hlength ⊢
  split
  · next page query table rank score rest =>
    rw [List.length_cons, List.length_cons, List.length_cons, List.length_cons, List.length_cons] at hlength
    rw [if_neg (by omega)]
    rfl
  · next hshort =>
    rw [if_pos]
    by_contra hmany
    match parts, hlength with
    | page :: query :: table :: rank :: score :: rest, _ => exact hshort page query table rank score rest rfl
    | [], h | [_], h | [_, _], h | [_, _, _], h | [_, _, _, _], h =>
      simp only [List.length_cons, List.length_nil] at h
      omega

theorem row_eq_ok_iff {line : List Char} {r : RankedRow} : row line = .ok r ↔ IsRow line r := by
  rw [row_eq]
  constructor
  · intro h
    split at h
    · cases h
    · next hmany =>
      split at h
      · cases h
      · cases h
      · next page score hpage hscore =>
        cases h
        exact ⟨Nat.not_lt.1 hmany, hpage, hscore, rfl⟩
  · rintro ⟨hmany, hpage, hscore, htable⟩
    rw [if_neg (Nat.not_lt.2 hmany), hpage, hscore, ← htable]

theorem row_eq_error_iff {line : List Char} {fault : RowFault} : row line = .error fault ↔ Fails line fault := by
  rw [row_eq]
  constructor
  · intro h
    split at h
    · next hfew =>
      cases h
      exact .columns hfew
    · next hmany =>
      split at h
      · next hpage =>
        cases h
        exact .page (Nat.not_lt.1 hmany) hpage
      · next hscore hnone =>
        cases h
        obtain ⟨page, hpage⟩ := Option.ne_none_iff_exists'.1 hnone
        exact .score (Nat.not_lt.1 hmany) hpage hscore
      · cases h
  · intro h
    cases h with
    | columns hfew => rw [if_pos hfew]
    | page hmany hpage => rw [if_neg (Nat.not_lt.2 hmany), hpage]
    | score hmany hpage hscore => rw [if_neg (Nat.not_lt.2 hmany), hpage, hscore]

theorem isEmpty_trim_iff (line : List Char) : (Text.trim line).isEmpty = true ↔ IsBlankLine line :=
  List.isEmpty_iff.trans (Text.trim_eq_nil_iff line)

/-! ## Many lines -/

theorem isFirstFault_zero {line : List Char} {rest : List (List Char)} {fault : RowFault} :
    IsFirstFault (line :: rest) 0 fault ↔ ¬ IsBlankLine line ∧ Fails line fault := by
  constructor
  · rintro ⟨⟨l, hl, hfails⟩, -⟩
    cases hl
    exact hfails
  · exact fun h => ⟨⟨line, rfl, h⟩, fun j hj => absurd hj (Nat.not_lt_zero j)⟩

theorem isFirstFault_succ {line : List Char} {rest : List (List Char)} {i : Nat} {fault : RowFault} :
    IsFirstFault (line :: rest) (i + 1) fault ↔ Passes line ∧ IsFirstFault rest i fault := by
  constructor
  · rintro ⟨hline, hbefore⟩
    refine ⟨hbefore 0 (Nat.succ_pos i) line rfl, hline, fun j hj l hl => ?_⟩
    exact hbefore (j + 1) (Nat.succ_lt_succ hj) l hl
  · rintro ⟨hpasses, hline, hbefore⟩
    refine ⟨hline, fun j hj l hl => ?_⟩
    cases j with
    | zero =>
      cases hl
      exact hpasses
    | succ j => exact hbefore j (Nat.lt_of_succ_lt_succ hj) l hl

theorem rowsFrom_cons_of_blank {line : List Char} (h : IsBlankLine line) (n : Nat) (rest : List (List Char)) :
    rowsFrom n (line :: rest) = rowsFrom (n + 1) rest := by
  rw [rowsFrom, if_pos ((isEmpty_trim_iff line).2 h)]

theorem rowsFrom_cons_eq_ok_iff {line : List Char} (h : ¬ IsBlankLine line) {n : Nat} {rest : List (List Char)}
    {rows : List RankedRow} : rowsFrom n (line :: rest) = .ok rows ↔
      ∃ r, IsRow line r ∧ ∃ later, rowsFrom (n + 1) rest = .ok later ∧ rows = r :: later := by
  simp only [← row_eq_ok_iff]
  rw [rowsFrom, if_neg (mt (isEmpty_trim_iff line).1 h)]
  cases row line <;> cases rowsFrom (n + 1) rest <;> simp [Except.map, eq_comm]

theorem rowsFrom_cons_eq_error_iff {line : List Char} (h : ¬ IsBlankLine line) {n m : Nat} {rest : List (List Char)}
    {fault : RowFault} : rowsFrom n (line :: rest) = .error (m, fault) ↔
      (m = n ∧ Fails line fault) ∨ (∃ r, IsRow line r) ∧ rowsFrom (n + 1) rest = .error (m, fault) := by
  simp only [← row_eq_ok_iff, ← row_eq_error_iff]
  rw [rowsFrom, if_neg (mt (isEmpty_trim_iff line).1 h)]
  cases row line <;> cases rowsFrom (n + 1) rest <;> simp [Except.map, eq_comm]

/-- the rows that are read are those that the lines other than blank ones say, in their order -/
theorem rowsFrom_eq_ok_iff {n : Nat} {lines : List (List Char)} {rows : List RankedRow} :
    rowsFrom n lines = .ok rows ↔ List.Forall₂ IsRow (lines.filter fun line => ¬ IsBlankLine line) rows := by
  induction lines generalizing n rows with
  | nil => simp [rowsFrom, eq_comm]
  | cons line rest ih =>
    by_cases hblank : IsBlankLine line
    · rw [rowsFrom_cons_of_blank hblank, ih, List.filter_cons_of_neg (by simpa using hblank)]
    · rw [rowsFrom_cons_eq_ok_iff hblank, List.filter_cons_of_pos (by simpa using hblank),
        List.forall₂_cons_left_iff]
      simp only [ih, exists_and_left]

/-- what is reported is the first line that cannot be read, with its number and the first check that it fails -/
theorem rowsFrom_eq_error_iff {n m : Nat} {lines : List (List Char)} {fault : RowFault} :
    rowsFrom n lines = .error (m, fault) ↔ ∃ i, m = n + i ∧ IsFirstFault lines i fault := by
  induction lines generalizing n with
  | nil =>
    refine iff_of_false (fun h => by cases h) ?_
    rintro ⟨i, -, ⟨line, hline, -⟩, -⟩
    cases hline
  | cons line rest ih =>
    have hsplit : (∃ i, m = n + i ∧ IsFirstFault (line :: rest) i fault) ↔
        (m = n ∧ ¬ IsBlankLine line ∧ Fails line fault) ∨
          Passes line ∧ ∃ i, m = n + 1 + i ∧ IsFirstFault rest i fault := by
      constructor
      · rintro ⟨i, rfl, hfirst⟩
        cases i with
        | zero => exact .inl ⟨rfl, isFirstFault_zero.1 hfirst⟩
        | succ i =>
          obtain ⟨hpasses, hlater⟩ := isFirstFault_succ.1 hfirst
          exact .inr ⟨hpasses, i, by omega, hlater⟩
      · rintro (⟨rfl, hfails⟩ | ⟨hpasses, i, rfl, hlater⟩)
        · exact ⟨0, rfl, isFirstFault_zero.2 hfails⟩
        · exact ⟨i + 1, by omega, isFirstFault_succ.2 ⟨hpasses, hlater⟩⟩
    rw [hsplit, ← ih]
    by_cases hblank : IsBlankLine line
    · simp [rowsFrom_cons_of_blank hblank, Passes, hblank]
    · simp [rowsFrom_cons_eq_error_iff hblank, Passes, hblank]

/-- all lines have their rows iff each line has one -/
theorem exists_forall₂_iff {α β : Type} {R : α → β → Prop} (xs : List α) :
    (∃ ys, List.Forall₂ R xs ys) ↔ ∀ x ∈ xs, ∃ y, R x y := by
  induction xs with
  | nil => simp
  | cons x xs ih =>
    simp only [List.forall₂_cons_left_iff, List.forall_mem_cons, ← ih]
    constructor
    · rintro ⟨_, y, ys, hy, hys, rfl⟩
      exact ⟨⟨y, hy⟩, ys, hys⟩
    · rintro ⟨⟨y, hy⟩, ys, hys⟩
      exact ⟨y :: ys, y, ys, hy, hys, rfl⟩

theorem exists_rowsFrom_eq_ok_iff {n : Nat} {lines : List (List Char)} :
    (∃ rows, rowsFrom n lines = .ok rows) ↔ ∀ line ∈ lines, Passes line := by
  simp only [rowsFrom_eq_ok_iff, exists_forall₂_iff, List.mem_filter, decide_eq_true_eq, and_imp, Passes,
    or_iff_not_imp_left]

/-! ## The rows of a query -/

theorem queryName_inj {m n : Nat} : EvaluationKey.queryName m = EvaluationKey.queryName n ↔ m = n := by
  rw [EvaluationKey.queryName, EvaluationKey.queryName, String.append_right_inj, Decimal.natText_inj]

namespace RankedRows

variable {rows : List RankedRow}

/-- the rows of a page, in file order -/
def ofPage (rows : List RankedRow) (page : Nat) : List RankedRow := rows.filter fun row => row.page = page

/-- the tables and scores in the rows of a query, in file order -/
def returned (rows : List RankedRow) (query : String) : List (TableId × Float) :=
  (rows.filter fun row => EvaluationKey.queryName row.page == query).map fun row => (row.table, row.score)

theorem lookup_eq (rows : List RankedRow) (query : String) : (RankedRows.mk rows).lookup query =
    if (returned rows query).isEmpty then none else some (.ofList (returned rows query)) := by
  rw [lookup, returned, List.isEmpty_map]

theorem returned_queryName (rows : List RankedRow) (page : Nat) :
    returned rows (EvaluationKey.queryName page) = (ofPage rows page).map fun row => (row.table, row.score) := by
  refine congrArg _ (List.filter_congr fun row _ => ?_)
  rw [Bool.eq_iff_iff, beq_iff_eq, decide_eq_true_eq, queryName_inj]

theorem returned_concat (rows : List RankedRow) (r : RankedRow) (query : String) :
    returned (rows ++ [r]) query =
      if EvaluationKey.queryName r.page = query then returned rows query ++ [(r.table, r.score)]
      else returned rows query := by
  rw [returned, List.filter_append, List.map_append]
  split <;> simp [returned, *]

theorem lookup_eq_none_iff {page : Nat} : (RankedRows.mk rows).lookup (EvaluationKey.queryName page) = none ↔
    ∀ row ∈ rows, row.page ≠ page := by
  simp [lookup_eq, returned_queryName, ofPage]

theorem lookup_map_entry (rows : List RankedRow) (t : TableId) :
    (rows.map fun row => (row.table, row.score)).lookup t =
      (rows.find? fun row => row.table = t).map RankedRow.score := by
  induction rows with
  | nil => rfl
  | cons row rows ih =>
    rw [List.map_cons, List.lookup_cons, List.find?_cons]
    by_cases h : row.table = t
    · simp [h]
    · rw [beq_eq_false_iff_ne.2 (Ne.symm h)]
      simpa [h] using ih

/-- the tables of a page's rows in order, each with the score of the first row that names it -/
theorem of_lookup_eq_some {page : Nat} {p : PredictedScores}
    (h : (RankedRows.mk rows).lookup (EvaluationKey.queryName page) = some p) :
    p.tables = ((ofPage rows page).map RankedRow.table).eraseDups ∧
      ∀ t, p.get? t = ((ofPage rows page).find? fun row => row.table = t).map RankedRow.score := by
  rw [lookup_eq, returned_queryName] at h
  split at h
  · cases h
  · cases h
    refine ⟨?_, fun t => ?_⟩
    · rw [PredictedScores.tables_ofList, List.map_map]
      rfl
    · rw [PredictedScores.get?_ofList, lookup_map_entry]

/-- queries are counted by the numbers of their pages -/
theorem queryCount_eq_card (rows : List RankedRow) :
    (RankedRows.mk rows).queryCount = (rows.map RankedRow.page).toFinset.card := by
  have hnames : (Distinct.names (rows.map fun row => EvaluationKey.queryName row.page)).toFinset =
      (rows.map RankedRow.page).toFinset.image EvaluationKey.queryName := by
    ext name
    simp [Distinct.names_eq_eraseDups]
  rw [queryCount, ← List.toFinset_card_of_nodup (Distinct.nodup_names _), hnames,
    Finset.card_image_of_injective _ fun m n => queryName_inj.1]

end RankedRows

/-! ## Grouping while reading -/

namespace RankedGroups

/-- a row that is read is added, and a line that is none is reported as before -/
theorem readFrom_eq (n : Nat) (g : RankedGroups) (lines : List (List Char)) :
    readFrom n g lines = (rowsFrom n lines).map fun rows => rows.foldl add g := by
  induction lines generalizing n g with
  | nil => rfl
  | cons line rest ih =>
    rw [readFrom, rowsFrom]
    split
    · exact ih (n + 1) g
    · cases row line with
      | error fault => rfl
      | ok r =>
        change readFrom (n + 1) (g.add r) rest = ((rowsFrom (n + 1) rest).map (r :: ·)).map fun rows => rows.foldl add g
        rw [ih]
        cases rowsFrom (n + 1) rest <;> rfl

theorem lookup_add (g : RankedGroups) (r : RankedRow) (query : String) :
    (g.add r).lookup query =
      if EvaluationKey.queryName r.page = query then
        some (((g.lookup query).getD .empty).push r.table r.score)
      else g.lookup query := by
  rw [lookup, add, Std.TreeMap.getElem?_insert, Std.TreeMap.getD_eq_getD_getElem?]
  by_cases h : EvaluationKey.queryName r.page = query
  · subst h
    rw [if_pos Std.ReflOrd.compare_self, if_pos rfl]
    rfl
  · rw [if_neg (by rwa [Std.LawfulEqOrd.compare_eq_iff_eq]), if_neg h]
    rfl

/-- rows of other queries leave no trace in the scores of a query -/
theorem lookup_foldl_add (rows : List RankedRow) (query : String) :
    (rows.foldl add empty).lookup query =
      if (RankedRows.returned rows query).isEmpty then none
      else some (.ofPairs (RankedRows.returned rows query)) := by
  induction rows using List.reverseRecOn with
  | nil => simp [lookup, empty, RankedRows.returned]
  | append_singleton rows r ih =>
    rw [List.foldl_concat, lookup_add, ih, RankedRows.returned_concat]
    by_cases h : EvaluationKey.queryName r.page = query
    · rw [if_pos h, if_pos h]
      cases RankedRows.returned rows query with
      | nil => rfl
      | cons first later => simp [Indexed.ofPairs]
    · rw [if_neg h, if_neg h]

theorem contains_foldl_add (rows : List RankedRow) (query : String) :
    (rows.foldl add empty).byQuery.contains query = true ↔
      query ∈ rows.map fun row => EvaluationKey.queryName row.page := by
  rw [Std.TreeMap.contains_eq_isSome_getElem?]
  change ((rows.foldl add empty).lookup query).isSome = true ↔ _
  rw [lookup_foldl_add]
  simp [RankedRows.returned]

/-- a query is counted when its first row comes -/
theorem queryCount_foldl_add (rows : List RankedRow) :
    (rows.foldl add empty).queryCount = (RankedRows.mk rows).queryCount := by
  induction rows using List.reverseRecOn with
  | nil => simp [queryCount, RankedRows.queryCount, empty, Distinct.names, Distinct.firstBy, Distinct.keepFirst]
  | append_singleton rows r ih =>
    have hcontains := contains_foldl_add rows (EvaluationKey.queryName r.page)
    have hnames := Distinct.firstBy_concat id (rows.map fun row => EvaluationKey.queryName row.page)
      (EvaluationKey.queryName r.page)
    rw [List.map_id] at hnames
    rw [queryCount, RankedRows.queryCount, Distinct.names] at ih ⊢
    rw [List.foldl_concat, add, Std.TreeMap.size_insert, if_congr hcontains rfl rfl, ih, List.map_append,
      List.map_singleton, hnames, apply_ite List.length, List.length_append, List.length_singleton]
    rfl

/-- what is found in the groups is what is found in the list of all rows, with an index that is one of its list -/
theorem lookup_keeps (rows : List RankedRow) (query : String) :
    Option.Rel (fun p x => Indexed.Keeps x p.ranked) ((RankedRows.mk rows).lookup query)
      ((rows.foldl add empty).lookup query) := by
  rw [lookup_foldl_add, RankedRows.lookup_eq]
  split
  · exact .none
  · exact .some (Indexed.keeps_ofPairs _)

theorem parse_eq (text : String) : parse text = (RankedRows.parse text).map fun r => r.rows.foldl add empty := by
  rw [parse, readFrom_eq, RankedRows.parse]
  cases rowsFrom 1 (Text.lines text.toList) <;> rfl

end RankedGroups

/-! ## Whole texts -/

namespace RankedRows

theorem parse_eq_ok_iff {text : String} {r : RankedRows} :
    parse text = .ok r ↔ rowsFrom 1 (Text.lines text.toList) = .ok r.rows := by
  rw [parse]
  cases rowsFrom 1 (Text.lines text.toList) with
  | error e => simp [Except.map]
  | ok rows =>
    rw [Except.map, Except.ok.injEq, Except.ok.injEq]
    exact ⟨fun h => h ▸ rfl, fun h => h ▸ rfl⟩

theorem parse_eq_error_iff {text : String} {e : Nat × RowFault} :
    parse text = .error e ↔ rowsFrom 1 (Text.lines text.toList) = .error e := by
  rw [parse]
  cases rowsFrom 1 (Text.lines text.toList) <;> simp [Except.map]

/-- **Nothing is lost.** A text is read iff every line is blank or a row, and otherwise the first line that is neither
is reported, with its number among all lines and the first check that it fails. What was read are the rows of the lines
in their order. A page that no row has is missing; for any other page, the tables of its rows are found in order, each
once and with its first score, and no row of another page makes a difference. Queries are counted by the numbers of
their pages. Rows that are grouped while they are read are found just so. -/
theorem groups_without_loss (text : String) :
    ((∃ r, parse text = .ok r) ↔ ∀ line ∈ Text.lines text.toList, Passes line) ∧
    (∀ n fault, parse text = .error (n, fault) ↔
      ∃ i, n = i + 1 ∧ IsFirstFault (Text.lines text.toList) i fault) ∧
    (∀ e, RankedGroups.parse text = .error e ↔ parse text = .error e) ∧
    ∀ r, parse text = .ok r →
      List.Forall₂ IsRow ((Text.lines text.toList).filter fun line => ¬ IsBlankLine line) r.rows ∧
      (∀ page,
        (r.lookup (EvaluationKey.queryName page) = none ↔ ∀ row ∈ r.rows, row.page ≠ page) ∧
        (∀ p, r.lookup (EvaluationKey.queryName page) = some p →
          p.tables = ((ofPage r.rows page).map RankedRow.table).eraseDups ∧
          ∀ t, p.get? t = ((ofPage r.rows page).find? fun row => row.table = t).map RankedRow.score) ∧
        ∀ r' : RankedRows, ofPage r'.rows page = ofPage r.rows page →
          r'.lookup (EvaluationKey.queryName page) = r.lookup (EvaluationKey.queryName page)) ∧
      r.queryCount = (r.rows.map RankedRow.page).toFinset.card ∧
      ∃ g, RankedGroups.parse text = .ok g ∧ g.queryCount = r.queryCount ∧
        ∀ query, Option.Rel (fun p x => Indexed.Keeps x p.ranked) (r.lookup query) (g.lookup query) := by
  refine ⟨?_, fun n fault => ?_, fun e => ?_, fun r hr => ⟨?_, fun page => ⟨?_, ?_, ?_⟩, ?_, ?_⟩⟩
  · rw [← exists_rowsFrom_eq_ok_iff]
    simp only [parse_eq_ok_iff]
    exact ⟨fun ⟨r, hr⟩ => ⟨r.rows, hr⟩, fun ⟨rows, hrows⟩ => ⟨⟨rows⟩, hrows⟩⟩
  · simp only [parse_eq_error_iff, rowsFrom_eq_error_iff, Nat.add_comm 1]
  · rw [RankedGroups.parse_eq]
    cases parse text <;> simp [Except.map]
  · exact rowsFrom_eq_ok_iff.1 (parse_eq_ok_iff.1 hr)
  · exact lookup_eq_none_iff
  · intro p hp
    exact of_lookup_eq_some hp
  · intro r' hsame
    rw [lookup_eq, lookup_eq, returned_queryName, returned_queryName, hsame]
  · exact queryCount_eq_card r.rows
  · refine ⟨r.rows.foldl RankedGroups.add .empty, ?_, ?_, ?_⟩
    · rw [RankedGroups.parse_eq, hr]
      rfl
    · exact RankedGroups.queryCount_foldl_add r.rows
    · exact RankedGroups.lookup_keeps r.rows

/-- rows of two pages in turns, one page written in two ways, a line of blanks, and a table that comes again -/
def twoPages : String :=
  "12\tq\tt1\t1\t7.5\n13\tq\tt1\t1\t1.0\n \t\n +012 \tq\t t2 \t2\t3\tbody\r\n12\tq\tt1\t9\t9"

/-- a third line in which both the page and the score are wrong, and one with too few columns after it -/
def noPage : String := "12\tq\tt1\t1\t7.5\n\nx\tq\tt\t1\ty\n12"

theorem groups_without_loss_interleaved :
    (∃ r, parse twoPages = .ok r ∧ r.queryCount = 2 ∧
      r.lookup (EvaluationKey.queryName 14) = none ∧
      ∃ p, r.lookup (EvaluationKey.queryName 12) = some p ∧ p.tables = ["t1", "t2"] ∧
        p.get? "t1" = some 7.5 ∧ p.get? "t2" = some 3.0) ∧
    parse noPage = .error (3, .page) ∧ IsFirstFault (Text.lines noPage.toList) 2 .page := by
  let r : RankedRows := ⟨[⟨12, "t1", 7.5⟩, ⟨13, "t1", 1.0⟩, ⟨12, "t2", 3.0⟩, ⟨12, "t1", 9.0⟩]⟩
  have hparse : parse twoPages = .ok r := by decide +kernel
  have hfault : parse noPage = .error (3, .page) := by decide +kernel
  obtain ⟨-, -, -, hread⟩ := groups_without_loss twoPages
  obtain ⟨-, hpages, hcount, -⟩ := hread r hparse
  obtain ⟨p, hp⟩ := Option.ne_none_iff_exists'.1 (mt (hpages 12).1.1 (by decide))
  obtain ⟨htables, hget⟩ := (hpages 12).2.1 p hp
  refine ⟨⟨r, hparse, hcount, (hpages 14).1.2 (by decide), p, hp, ?_, ?_, ?_⟩, hfault, ?_⟩
  · rw [htables]
    decide
  · exact hget "t1"
  · exact hget "t2"
  · obtain ⟨-, hfaults, -⟩ := groups_without_loss noPage
    obtain ⟨i, hi, hfirst⟩ := (hfaults 3 .page).1 hfault
    obtain rfl : i = 2 := by omega
    exact hfirst

end RankedRows

end Inputs

end RankEval
