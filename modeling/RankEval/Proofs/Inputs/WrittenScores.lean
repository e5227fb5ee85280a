/-
The scores of one query, written down in two formats: in a file of their own, and as the rows of a page among the rows
of other pages. Whoever writes them is free in all that is not read: members of other names, how JSON is laid out, the
columns of the query and the rank, blank lines, how the number of the page is written.

Both readers come to the same tables in the same order, but read the text of a score differently: as a number of JSON,
which may be refused, and as the nearest double.

- `float?_score`: a score in a column is read as the nearest double.
- `decode?_of_isScoreFile`: what is read from a file of its own.
- `lookup_of_isRanking`: what is read from the rows of a page.
-/
import RankEval.Proofs.Document.Rereading
import RankEval.Proofs.Inputs.Grouping
import RankEval.Proofs.Inputs.Readers
import RankEval.Proofs.Json.QuickReading

namespace RankEval

namespace Text

/-- a text without blanks has none around it -/
theorem trim_of_no_blank {cs : List Char} (h : ∀ c ∈ cs, isBlank c = false) : trim cs = cs := by
  have hkeep : ∀ ds : List Char, (∀ c ∈ ds, isBlank c = false) → ds.dropWhile isBlank = ds := by
    intro ds hds
    cases ds with
    | nil => rfl
    | cons d ds => rw [List.dropWhile_cons_of_neg (by simp [hds d List.mem_cons_self])]
  rw [trim, hkeep cs h, hkeep cs.reverse fun c hc => h c (List.mem_reverse.1 hc), List.reverse_reverse]

theorem isBlank_of_isNumberChar {c : Char} (h : Json.Lexer.isNumberChar c = true) : isBlank c = false := by
  have hdigits : ∀ d < 10, isBlank (Nat.digitChar d) = false := by decide
  simp only [Json.Lexer.isNumberChar, Bool.or_eq_true, beq_iff_eq] at h
  obtain ((((hdigit | rfl) | rfl) | rfl) | rfl) | rfl := h
  · obtain ⟨d, hd, rfl⟩ := Decimal.exists_digitChar hdigit
    exact hdigits d hd
  all_goals rfl

end Text

namespace Inputs

/-! ## Scores as they are written -/

/-- a table with the text of its score, a number of JSON; in a column between tabs the table is what it is -/
structure WrittenScore where
  table : TableId
  score : String
  number : Json.Number
  isNumber : Json.Number.ofChars? score.toList = some number
  tab : '\t' ∉ table.toList
  lineFeed : '\n' ∉ table.toList
  trimmed : Text.trim table.toList = table.toList

namespace WrittenScore

variable (w : WrittenScore)

/-- the score as a number of JSON, if it is not refused -/
def quick? : Option Float := w.number.toFloat?

/-- the double nearest to the score -/
def nearest : Float := w.number.numeral.toFloat

def quickPair? : Option (TableId × Float) := w.quick?.map fun score => (w.table, score)

def nearestPair : TableId × Float := (w.table, w.nearest)

theorem isNumberChar_score : ∀ c ∈ w.score.toList, Json.Lexer.isNumberChar c = true := by
  obtain ⟨c, rest, hscore, hfirst, hrest⟩ := Json.Number.chars_of_ofChars? w.isNumber
  rw [hscore]
  refine List.forall_mem_cons.2 ⟨?_, hrest⟩
  rcases Bool.or_eq_true_iff.1 hfirst with hminus | hdigit
  · rw [beq_iff_eq.1 hminus]
    rfl
  · exact Json.Number.isNumberChar_of_isDigit hdigit

theorem trim_score : Text.trim w.score.toList = w.score.toList :=
  Text.trim_of_no_blank fun c hc => Text.isBlank_of_isNumberChar (w.isNumberChar_score c hc)

/-- a score in a column is read as the nearest double -/
theorem float?_score : Decimal.float? (Text.trim w.score.toList) = some w.nearest := by
  rw [trim_score, Json.Number.float?_of_ofChars? w.isNumber, nearest]

theorem score_ne_nil : w.score.toList ≠ [] := by
  obtain ⟨c, rest, hscore, -⟩ := Json.Number.chars_of_ofChars? w.isNumber
  rw [hscore]
  exact List.cons_ne_nil _ _

theorem not_mem_score {c : Char} (h : Json.Lexer.isNumberChar c = false) : c ∉ w.score.toList := by
  intro hmem
  rw [w.isNumberChar_score c hmem] at h
  cases h

theorem tab_score : '\t' ∉ w.score.toList := w.not_mem_score rfl

end WrittenScore

/-! ## In a file of their own -/

/-- a member of an object, the only one of its name -/
def HasMember (v : Json.Value) (name : String) (member : Json.Value) : Prop :=
  ∃ members, v.members? = some members ∧ members.filter (fun m => m.1 == name) = [(name, member)]

/-- an object that gives a table and its score -/
structure IsEntry (v : Json.Value) (w : WrittenScore) : Prop where
  table : HasMember v "tableID" (.text (some w.table))
  score : HasMember v "score" (.number w.number)

/-- a JSON text that lists scores -/
def IsScoreFile (json : String) (ws : List WrittenScore) : Prop :=
  ∃ v items, Json.parse? json = some v ∧ HasMember v "scores" (.list items) ∧ List.Forall₂ IsEntry items ws

section
variable {v member : Json.Value} {name : String} {members : List (String × Json.Value)} {room : Nat}

theorem fields?_of_members? (h : v.members? = some members) :
    Document.fields? (Json.Place.mk room v) =
      some (.named (members.map fun m => (m.1, Json.Place.mk (room - 1) m.2))) := by
  cases v with
  | object entries =>
    change (Json.Value.members? _).map _ = _
    rw [h]
    rfl
  | _ => cases h

/-- what is read under the name of a member -/
theorem required_of_filter {α : Type} (read : Json.Place → Option α)
    (h : members.filter (fun m => m.1 == name) = [(name, member)]) :
    FieldReader.required name read (.named (members.map fun m => (m.1, Json.Place.mk room m.2))) =
      (read ⟨room, member⟩).map fun a => (a, .named (members.map fun m => (m.1, Json.Place.mk room m.2))) := by
  have hfilter : (members.map fun m => (m.1, Json.Place.mk room m.2)).filter (fun m => m.1 == name) =
      [(name, ⟨room, member⟩)] := by
    rw [List.filter_map]
    change ((members.filter fun m => m.1 == name).map _) = _
    rw [h]
    rfl
  rw [FieldReader.required_named, hfilter]

end

theorem scoreEntry?_of_isEntry {v : Json.Value} {w : WrittenScore} (h : IsEntry v w) (room : Nat) :
    scoreEntry? ⟨room, v⟩ = w.quickPair? := by
  obtain ⟨⟨members, hmembers, htable⟩, ⟨members', hmembers', hscore⟩⟩ := h
  obtain rfl := Option.some.inj (hmembers.symm.trans hmembers')
  have htext : Document.text? (Json.Place.mk (room - 1) (.text (some w.table))) = some w.table := rfl
  have hfloat : Document.float? (Json.Place.mk (room - 1) (.number w.number)) = w.quick? := rfl
  unfold scoreEntry? Document.record?
  rw [fields?_of_members? hmembers, WrittenScore.quickPair?]
  simp only [Option.bind_eq_bind, Option.bind_some, FieldReader.bind_named, FieldReader.pure_named,
    required_of_filter _ htable, required_of_filter _ hscore, htext, hfloat, Option.map_some]
  cases w.quick? <;> rfl

theorem listOf?_of_forall₂ {items : List Json.Value} {ws : List WrittenScore} (h : List.Forall₂ IsEntry items ws)
    (room : Nat) :
    Document.listOf? scoreEntry? (Json.Place.mk room (.list items)) = ws.mapM WrittenScore.quickPair? := by
  change ((items.map fun v => Json.Place.mk (room - 1) v).mapM scoreEntry?) = _
  induction h with
  | nil => rfl
  | cons hentry _ ih => rw [List.map_cons, List.mapM_cons, List.mapM_cons, scoreEntry?_of_isEntry hentry, ih]

theorem scoreFile?_of_hasMember {v : Json.Value} {items : List Json.Value} {ws : List WrittenScore}
    (hv : HasMember v "scores" (.list items)) (hitems : List.Forall₂ IsEntry items ws) (room : Nat) :
    scoreFile? ⟨room, v⟩ = (ws.mapM WrittenScore.quickPair?).map .ofList := by
  obtain ⟨members, hmembers, hscores⟩ := hv
  unfold scoreFile? Document.record?
  rw [fields?_of_members? hmembers]
  simp only [Option.bind_eq_bind, Option.bind_some, FieldReader.bind_named, FieldReader.pure_named,
    required_of_filter _ hscores, listOf?_of_forall₂ hitems]
  cases ws.mapM WrittenScore.quickPair? <;> rfl

/-- **What is read from a file of its own.** One score that is refused makes the whole file unreadable. -/
theorem decode?_of_isScoreFile {json : String} {ws : List WrittenScore} (h : IsScoreFile json ws) :
    Json.decode? scoreFile? json = (ws.mapM WrittenScore.quickPair?).map .ofList := by
  obtain ⟨v, items, hparse, hv, hitems⟩ := h
  rw [Json.decode?, hparse, Option.bind_some]
  exact scoreFile?_of_hasMember hv hitems _

/-! ## In the rows of a page -/

/-- How a row of a page is written around its table and its score: the number of the page, the columns that are not
read, and what may follow the score. -/
structure RowFrame (number : Nat) where
  page : List Char
  query : List Char
  rank : List Char
  tail : List Char
  isPage : Text.count? (Text.trim page) = some number
  tabs : '\t' ∉ page ∧ '\t' ∉ query ∧ '\t' ∉ rank
  isTail : tail = [] ∨ ∃ more, tail = '\t' :: more

def RowFrame.line {page : Nat} (frame : RowFrame page) (w : WrittenScore) : List Char :=
  frame.page ++ '\t' :: (frame.query ++ '\t' :: (w.table.toList ++ '\t' :: (frame.rank ++ '\t' ::
    (w.score.toList ++ frame.tail))))

/-- lines that hold the scores of a page in their order, among blank lines and the rows of other pages -/
inductive HasRows (page : Nat) : List (List Char) → List WrittenScore → Prop where
  | nil : HasRows page [] []
  | blank {line : List Char} {lines : List (List Char)} {ws : List WrittenScore} (h : IsBlankLine line)
      (rest : HasRows page lines ws) : HasRows page (line :: lines) ws
  | other {line : List Char} {lines : List (List Char)} {ws : List WrittenScore} {r : RankedRow}
      (hblank : ¬ IsBlankLine line) (hrow : IsRow line r) (hpage : r.page ≠ page) (rest : HasRows page lines ws) :
      HasRows page (line :: lines) ws
  | own (frame : RowFrame page) (w : WrittenScore) {lines : List (List Char)} {ws : List WrittenScore}
      (rest : HasRows page lines ws) : HasRows page (frame.line w :: lines) (w :: ws)

/-- a ranking that has the scores of a page -/
def IsRanking (page : Nat) (text : String) (ws : List WrittenScore) : Prop := HasRows page (Text.lines text.toList) ws

section
variable {page : Nat} (frame : RowFrame page) (w : WrittenScore)

/-- the columns of a row, of which the first five are known -/
theorem splitAt_line : ∃ more, Text.splitAt '\t' (frame.line w) =
    frame.page :: frame.query :: w.table.toList :: frame.rank :: w.score.toList :: more := by
  obtain ⟨hpage, hquery, hrank⟩ := frame.tabs
  have hlast : ∃ more, Text.splitAt '\t' (w.score.toList ++ frame.tail) = w.score.toList :: more := by
    rcases frame.isTail with hnil | ⟨more, hmore⟩
    · exact ⟨[], by rw [hnil, List.append_nil, Text.splitAt_of_not_mem w.tab_score]⟩
    · exact ⟨_, by rw [hmore, Text.splitAt_append, Text.splitAt_of_not_mem w.tab_score]; rfl⟩
  obtain ⟨more, hlast⟩ := hlast
  refine ⟨more, ?_⟩
  rw [RowFrame.line, Text.splitAt_append, Text.splitAt_append, Text.splitAt_append, Text.splitAt_append, hlast,
    Text.splitAt_of_not_mem hpage, Text.splitAt_of_not_mem hquery, Text.splitAt_of_not_mem w.tab,
    Text.splitAt_of_not_mem hrank]
  rfl

theorem isRow_line : IsRow (frame.line w) ⟨page, w.table, w.nearest⟩ := by
  obtain ⟨more, hsplit⟩ := splitAt_line frame w
  have hlength := Text.length_splitAt '\t' (frame.line w)
  rw [hsplit] at hlength
  refine ⟨?columns, ?page, ?score, ?table⟩
  case columns =>
    simp only [List.length_cons] at hlength
    omega
  case page =>
    rw [cell, hsplit]
    exact frame.isPage
  case score =>
    rw [cell, hsplit]
    exact w.float?_score
  case table =>
    rw [cell, hsplit]
    change w.table = String.ofList (Text.trim w.table.toList)
    rw [w.trimmed, String.ofList_toList]

theorem not_isBlankLine_line : ¬ IsBlankLine (frame.line w) := by
  intro hblank
  obtain ⟨c, hmem⟩ := List.exists_mem_of_ne_nil _ w.score_ne_nil
  have hline : c ∈ frame.line w := by simp [RowFrame.line, hmem]
  have hnot := Text.isBlank_of_isNumberChar (w.isNumberChar_score c hmem)
  rw [hblank c hline] at hnot
  cases hnot

end

/-- the row of another page is passed over -/
theorem HasRows.pass {page number : ℕ} (frame : RowFrame number) (w : WrittenScore) (hne : number ≠ page)
    {lines : List (List Char)} {ws : List WrittenScore} (rest : HasRows page lines ws) :
    HasRows page (frame.line w :: lines) ws :=
  .other (not_isBlankLine_line frame w) (isRow_line frame w) hne rest

/-- the lines are read, and the rows of the page among them give its tables with the nearest scores -/
theorem rowsFrom_of_hasRows {page : Nat} {lines : List (List Char)} {ws : List WrittenScore}
    (h : HasRows page lines ws) : ∀ n, ∃ rows, rowsFrom n lines = .ok rows ∧
      (RankedRows.ofPage rows page).map (fun r => (r.table, r.score)) = ws.map WrittenScore.nearestPair := by
  induction h with
  | nil => exact fun n => ⟨[], rfl, rfl⟩
  | blank hblank _ ih =>
    intro n
    obtain ⟨rows, hrows, hown⟩ := ih (n + 1)
    exact ⟨rows, by rw [rowsFrom_cons_of_blank hblank, hrows], hown⟩
  | @other _ _ _ r hblank hrow hpage _ ih =>
    intro n
    obtain ⟨rows, hrows, hown⟩ := ih (n + 1)
    refine ⟨r :: rows, (rowsFrom_cons_eq_ok_iff hblank).2 ⟨r, hrow, rows, hrows, rfl⟩, ?_⟩
    rw [RankedRows.ofPage, List.filter_cons_of_neg (by simpa using hpage)]
    exact hown
  | own frame w _ ih =>
    intro n
    obtain ⟨rows, hrows, hown⟩ := ih (n + 1)
    refine ⟨⟨page, w.table, w.nearest⟩ :: rows, (rowsFrom_cons_eq_ok_iff (not_isBlankLine_line frame w)).2
      ⟨_, isRow_line frame w, rows, hrows, rfl⟩, ?_⟩
    rw [RankedRows.ofPage, List.filter_cons_of_pos (by simp), List.map_cons, List.map_cons]
    exact congrArg _ hown

/-- **What is read from the rows of a page.** -/
theorem lookup_of_isRanking {page : Nat} {text : String} {ws : List WrittenScore} (h : IsRanking page text ws)
    (hne : ws ≠ []) : ∃ rows, RankedRows.parse text = .ok rows ∧
      rows.lookup (EvaluationKey.queryName page) = some (.ofList (ws.map WrittenScore.nearestPair)) := by
  obtain ⟨rows, hrows, hown⟩ := rowsFrom_of_hasRows h 1
  refine ⟨⟨rows⟩, RankedRows.parse_eq_ok_iff.2 hrows, ?_⟩
  rw [RankedRows.lookup_eq, RankedRows.returned_queryName, hown, List.isEmpty_map, if_neg]
  simpa using hne

end Inputs

end RankEval
