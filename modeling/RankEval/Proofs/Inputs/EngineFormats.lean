/-
The two formats of an engine. What is written once as a file of scores and once as the rows of a page gives the same
tables in the same order, a repeated one with its first score. The scores are the same iff those texts are accepted as
numbers of JSON and, where a table comes first, read as the nearest double. Short decimals are; a number with 17 digits
may become its neighbour, so that an order turns into a tie.

- `isScoreFile_scoreFileText`, `isRanking_rankingText`: every list can be written in both formats.
- `outcome_eq_iff`: when the two readings of a list come to the same.
- `formats_agree_iff`: the whole, with a tie that is an order in the other format in
  `formats_agree_iff_seventeen_digits`.
-/
import RankEval.Proofs.Candidates.FirstSeen
import RankEval.Proofs.Inputs.WrittenScores
import RankEval.Proofs.Json.Tree

namespace RankEval.Inputs

open Json (Builder Closed Delimited Reads Token)

/-! ## Writing a file of scores -/

/-- building goes on where it has come to -/
theorem build_append {b b' : Builder} {ts : List Token} (h : ts.foldlM Builder.step b = some b') (ts' : List Token) :
    (ts ++ ts').foldlM Builder.step b = ts'.foldlM Builder.step b' := by
  rw [List.foldlM_append, h]
  rfl

theorem tokens?_of_closed {cs : List Char} {ts : List Token} (h : Closed cs ts) :
    Json.tokens? (String.ofList cs) = some ts := by
  rw [Json.tokens?, String.toList_ofList, Json.Lexer.start, h, List.append_nil, Option.bind_some]
  change some ts.reverse.reverse = _
  rw [List.reverse_reverse]

namespace WrittenScore

variable (w : WrittenScore)

/-- an entry as JSON; a line break ends the number -/
def entryText : List Char :=
  ['\x7b'] ++ (Json.quote "tableID" ++ [':', ' ']) ++ Json.quote w.table ++ [','] ++
    (Json.quote "score" ++ [':', ' ']) ++ w.score.toList ++ ['\n', '\x7d']

def entryTokens : List Token :=
  [.beginObject, .text (some "tableID"), .colon, .text (some w.table), .comma, .text (some "score"), .colon,
    .number w.number, .endObject]

def entryValue : Json.Value := .object [(some "tableID", .text (some w.table)), (some "score", .number w.number)]

theorem isEntry_entryValue : IsEntry w.entryValue w := by
  constructor
  · exact ⟨[("tableID", .text (some w.table)), ("score", .number w.number)], rfl, rfl⟩
  · exact ⟨[("tableID", .text (some w.table)), ("score", .number w.number)], rfl, rfl⟩

theorem closed_entryText : Closed w.entryText w.entryTokens := by
  have hbefore := (((Json.closed_beginObject.append (Json.closed_key "tableID")).append
    (Json.closed_quote w.table)).append Json.closed_comma).append (Json.closed_key "score")
  have hscore := hbefore.append_reads (Json.reads_number w.isNumber)
  exact hscore.append_closed (.inr rfl) (Json.closed_lineBreak.append Json.closed_endObject)

theorem build_entryTokens (frames : List Json.Frame) (close : Bool) :
    w.entryTokens.foldlM Builder.step ⟨frames, .value close, none⟩ = some (Builder.place frames w.entryValue) := rfl

end WrittenScore

/-- the entries behind the first -/
def laterText (ws : List WrittenScore) : List Char := ws.flatMap fun w => [','] ++ w.entryText

def laterTokens (ws : List WrittenScore) : List Token := ws.flatMap fun w => [.comma] ++ w.entryTokens

theorem closed_laterText (ws : List WrittenScore) : Closed (laterText ws) (laterTokens ws) := by
  induction ws with
  | nil => exact Json.closed_nil
  | cons w ws ih => exact (Json.closed_comma.append w.closed_entryText).append ih

theorem build_laterTokens (frames : List Json.Frame) (before : List Json.Value) (ws : List WrittenScore) :
    (laterTokens ws).foldlM Builder.step ⟨.list before :: frames, .next, none⟩ =
      some ⟨.list ((ws.map WrittenScore.entryValue).reverse ++ before) :: frames, .next, none⟩ := by
  induction ws generalizing before with
  | nil => rfl
  | cons w ws ih =>
    have hcomma : [Token.comma].foldlM Builder.step ⟨.list before :: frames, .next, none⟩ =
        some ⟨.list before :: frames, .value false, none⟩ := rfl
    have hentry := w.build_entryTokens (.list before :: frames) false
    have hlater := ih (w.entryValue :: before)
    rw [laterTokens, List.flatMap_cons, ← laterTokens, List.append_assoc, build_append hcomma, build_append hentry,
      Builder.place, hlater, List.map_cons, List.reverse_cons, List.append_assoc]
    rfl

theorem isScoreFile_of_parse? {json : String} {ws : List WrittenScore}
    (h : Json.parse? json = some (.object [(some "scores", .list (ws.map WrittenScore.entryValue))])) :
    IsScoreFile json ws := by
  refine ⟨_, ws.map WrittenScore.entryValue, h, ⟨_, rfl, rfl⟩, ?_⟩
  exact List.forall₂_map_left_iff.2 (List.forall₂_same.2 fun w _ => w.isEntry_entryValue)

/-- a file with a first entry and others -/
def scoreFileText (w : WrittenScore) (ws : List WrittenScore) : String :=
  String.ofList (['\x7b'] ++ (Json.quote "scores" ++ [':', ' ']) ++ ['['] ++ w.entryText ++ laterText ws ++ [']'] ++
    ['\x7d'])

/-- every list can be written as a file of scores -/
theorem isScoreFile_scoreFileText (w : WrittenScore) (ws : List WrittenScore) :
    IsScoreFile (scoreFileText w ws) (w :: ws) := by
  have hclosed := (((((Json.closed_beginObject.append (Json.closed_key "scores")).append
    Json.closed_beginList).append w.closed_entryText).append (closed_laterText ws)).append
    Json.closed_endList).append Json.closed_endObject
  have hopen : ([Token.beginObject] ++ [Token.text (some "scores"), .colon] ++ [Token.beginList]).foldlM
      Builder.step .start =
      some ⟨[.list [], .object [] (some "scores")], .value true, none⟩ := rfl
  have hentry := (build_append hopen _).trans (w.build_entryTokens [.list [], .object [] (some "scores")] true)
  have hlater := (build_append hentry _).trans (build_laterTokens [.object [] (some "scores")] [w.entryValue] ws)
  have hlist := (build_append hlater [.endList]).trans (Json.build_endList _ _)
  have hobject := (build_append hlist [.endObject]).trans (Json.build_endObject _ _ _)
  refine isScoreFile_of_parse? ?_
  rw [Json.parse?, scoreFileText, tokens?_of_closed hclosed, Option.bind_some, Json.ofTokens?, hobject,
    List.reverse_append, List.reverse_reverse]
  rfl

/-! ## Writing the rows of a page -/

theorem count?_toDigits {n : ℕ} (h : n < Nat.pow 2 64) : Text.count? (Nat.toDigits 10 n) = some n :=
  Text.count?_eq_some_iff.2
    ⟨_, .inl rfl, Nat.toDigits_ne_nil, Decimal.isDigit_of_mem_toDigits, Decimal.ofDigits_toDigits n, h⟩

/-- a row with nothing in the columns that are not read -/
def plainFrame {page : ℕ} (h : page < Nat.pow 2 64) : RowFrame page where
  page := Nat.toDigits 10 page
  query := []
  rank := []
  tail := []
  isPage := by
    rw [Text.trim_of_no_blank, count?_toDigits h]
    intro c hc
    exact Text.isBlank_of_isNumberChar (Json.Number.isNumberChar_of_isDigit (Decimal.isDigit_of_mem_toDigits c hc))
  tabs := ⟨Decimal.not_mem_toDigits (by decide) page, List.not_mem_nil, List.not_mem_nil⟩
  isTail := .inl rfl

section
variable {page : ℕ} (h : page < Nat.pow 2 64) (w : WrittenScore)

theorem not_mem_plainLine : '\n' ∉ (plainFrame h).line w := by
  have hpage : '\n' ∉ Nat.toDigits 10 page := Decimal.not_mem_toDigits (by decide) page
  have hscore : '\n' ∉ w.score.toList := w.not_mem_score rfl
  simp [RowFrame.line, plainFrame, hpage, hscore, w.lineFeed]

theorem getLast?_plainLine : ((plainFrame h).line w).getLast? ≠ some '\r' := by
  intro hlast
  have hsplit : (plainFrame h).line w =
      Nat.toDigits 10 page ++ '\t' :: '\t' :: (w.table.toList ++ ['\t', '\t']) ++ w.score.toList := by
    simp [RowFrame.line, plainFrame]
  rw [hsplit, List.getLast?_append_of_ne_nil _ w.score_ne_nil] at hlast
  exact w.not_mem_score rfl (List.mem_of_getLast? hlast)

end

def rankingText {page : ℕ} (h : page < Nat.pow 2 64) (ws : List WrittenScore) : String :=
  String.ofList ((ws.map (plainFrame h).line).flatMap fun l => l ++ ['\n'])

/-- every list can be written as the rows of a page -/
theorem isRanking_rankingText {page : ℕ} (h : page < Nat.pow 2 64) (ws : List WrittenScore) :
    IsRanking page (rankingText h ws) ws := by
  have hfeed : ∀ l ∈ ws.map (plainFrame h).line, '\n' ∉ l :=
    List.forall_mem_map.2 fun w _ => not_mem_plainLine h w
  have hreturn : ∀ l ∈ ws.map (plainFrame h).line, l.getLast? ≠ some '\r' :=
    List.forall_mem_map.2 fun w _ => getLast?_plainLine h w
  rw [IsRanking, rankingText, String.toList_ofList, Text.lines_flatMap hfeed hreturn]
  clear hfeed hreturn
  induction ws with
  | nil => exact .nil
  | cons w ws ih => exact .own (plainFrame h) w ih

/-! ## Reading both -/

open Attempt (outcome)

section
variable {ws : List WrittenScore}

/-- the entries of a file of scores, if none of its scores is refused -/
theorem mapM_quickPair? (ws : List WrittenScore) :
    ws.mapM WrittenScore.quickPair? =
      if ∀ w ∈ ws, w.quick?.isSome = true then some (ws.map fun w => (w.table, w.quick?.getD 0.0)) else none := by
  induction ws with
  | nil => rfl
  | cons w ws ih =>
    rw [List.mapM_cons, ih, WrittenScore.quickPair?]
    simp only [List.forall_mem_cons, List.map_cons]
    cases w.quick? with
    | none => rfl
    | some score =>
      simp only [Option.isSome_some, true_and]
      split_ifs <;> rfl

variable {t : FileTree} {scoresPath rankedPath : FilePath} {json text : String}

theorem outcome_scores_of_isScoreFile (htext : t.text? scoresPath = .ok json) (hjson : IsScoreFile json ws) :
    outcome t (scores scoresPath) = (ws.mapM WrittenScore.quickPair?).elim (.error (.malformed scoresPath .shape))
      fun entries => .ok (some (.ofList entries)) := by
  rw [outcome_scores, if_pos (kind?_of_text? t htext), outcome_jsonFile, htext]
  dsimp only
  rw [decode?_of_isScoreFile hjson]
  cases ws.mapM WrittenScore.quickPair? <;> rfl

theorem outcome_rankedRows_of_parse {rows : RankedRows} (htext : t.text? rankedPath = .ok text)
    (hparse : RankedRows.parse text = .ok rows) : outcome t (rankedRows rankedPath) = .ok (some rows) := by
  rw [outcome_rankedRows, if_pos (kind?_of_text? t htext), htext]
  dsimp only
  rw [hparse]

/-- the two readings of a list come to the same iff none of its scores is refused and each that counts is read as the
nearest double -/
theorem outcome_eq_iff (path : FilePath) (ws : List WrittenScore) :
    (ws.mapM WrittenScore.quickPair?).elim (Except.error (Failure.malformed path .shape))
        (fun entries => .ok (some (.ofList entries))) =
      .ok (some (PredictedScores.ofList (ws.map WrittenScore.nearestPair))) ↔
    (∀ w ∈ ws, w.quick?.isSome = true) ∧ ∀ w ∈ Distinct.firstBy WrittenScore.table ws, w.quick? = some w.nearest := by
  rw [mapM_quickPair?]
  by_cases hall : ∀ w ∈ ws, w.quick?.isSome = true
  · rw [if_pos hall, Option.elim_some, Except.ok.injEq, Option.some.injEq]
    refine (PredictedScores.ofList_eq_iff ws).trans ((forall₂_congr fun w hw => ?_).trans (and_iff_right hall).symm)
    obtain ⟨score, hscore⟩ := Option.isSome_iff_exists.1 (hall w (Distinct.mem_of_mem_firstBy _ hw))
    rw [hscore, Option.getD_some, Option.some.injEq]
  · rw [if_neg hall, Option.elim_none]
    refine iff_of_false (fun h => by cases h) fun h => hall h.1

/-- whatever the numbers are read as, the tables are those that were written -/
theorem tables_of_outcome {path : FilePath} {p : PredictedScores}
    (h : (ws.mapM WrittenScore.quickPair?).elim (Except.error (Failure.malformed path .shape))
      (fun entries => .ok (some (.ofList entries))) = .ok (some p)) :
    p.tables = (ws.map WrittenScore.table).eraseDups := by
  rw [mapM_quickPair?] at h
  split_ifs at h
  · cases h
    rw [PredictedScores.tables_ofList, List.map_map]
    rfl
  · cases h

/-- **The two formats are read alike, but for the rounding of numbers.** Every list of scores can be written in both of
them. However that is done, the ranking gives its tables with the nearest scores, and the file of scores the same tables
in the same order, or nothing if one of its numbers is refused. Both give the same iff no number is refused and the
score of each table, where it comes first, is read as the nearest double. Short numbers always are. -/
theorem formats_agree_iff {page : ℕ} (hpage : page < Nat.pow 2 64) {ws : List WrittenScore} (hne : ws ≠ []) :
    (∃ json, IsScoreFile json ws) ∧ (∃ text, IsRanking page text ws) ∧
    ∀ (t : FileTree) (scoresPath rankedPath : FilePath) (json text : String),
      t.text? scoresPath = .ok json → IsScoreFile json ws → t.text? rankedPath = .ok text → IsRanking page text ws →
      ∃ rows ranked, outcome t (rankedRows rankedPath) = .ok (some rows) ∧
        rows.lookup (EvaluationKey.queryName page) = some ranked ∧
        ranked = .ofList (ws.map WrittenScore.nearestPair) ∧
        outcome t (scores scoresPath) =
          ((ws.mapM WrittenScore.quickPair?).elim (.error (.malformed scoresPath .shape))
            fun entries => .ok (some (.ofList entries))) ∧
        (∀ p, outcome t (scores scoresPath) = .ok (some p) → p.tables = ranked.tables) ∧
        (outcome t (scores scoresPath) = .ok (some ranked) ↔ (∀ w ∈ ws, w.quick?.isSome = true) ∧
          ∀ w ∈ Distinct.firstBy WrittenScore.table ws, w.quick? = some w.nearest) ∧
        ((∀ w ∈ ws, w.number.IsShort) → outcome t (scores scoresPath) = .ok (some ranked)) := by
  refine ⟨?_, ⟨_, isRanking_rankingText hpage ws⟩, ?_⟩
  · obtain ⟨first, later, rfl⟩ := List.exists_cons_of_ne_nil hne
    exact ⟨_, isScoreFile_scoreFileText first later⟩
  intro t scoresPath rankedPath json text hscores hjson hranked htext
  obtain ⟨rows, hparse, hlookup⟩ := lookup_of_isRanking htext hne
  have hread := outcome_scores_of_isScoreFile hscores hjson
  have hagree := outcome_eq_iff scoresPath ws
  rw [← hread] at hagree
  refine ⟨rows, _, outcome_rankedRows_of_parse hranked hparse, hlookup, rfl, hread, ?_, hagree, fun hshort => ?_⟩
  · intro p hp
    rw [hread] at hp
    rw [tables_of_outcome hp, PredictedScores.tables_ofList, List.map_map]
    rfl
  · have hquick : ∀ w ∈ ws, w.quick? = some w.nearest := fun w hw => Json.Number.toFloat?_of_isShort (hshort w hw)
    refine hagree.2 ⟨fun w hw => ?_, fun w hw => hquick w (Distinct.mem_of_mem_firstBy _ hw)⟩
    rw [hquick w hw]
    rfl

end

/-- a score of 17 digits, which is a double of its own -/
def seventeenDigits : WrittenScore where
  table := "a"
  score := "0.39999999999999997"
  number := ⟨⟨false, [0], [3, 9, 9, 9, 9, 9, 9, 9, 9, 9, 9, 9, 9, 9, 9, 9, 7], 0⟩, false⟩
  isNumber := by decide +kernel
  tab := by decide
  lineFeed := by decide
  trimmed := by decide

/-- its neighbour, which is shorter -/
def oneDigit : WrittenScore where
  table := "b"
  score := "0.4"
  number := ⟨⟨false, [0], [4], 0⟩, false⟩
  isNumber := by decide +kernel
  tab := by decide
  lineFeed := by decide
  trimmed := by decide

/-- The first table again, with a score that does not count. -/
def again : WrittenScore where
  table := "a"
  score := "-5e-1"
  number := ⟨⟨true, [5], [], -1⟩, false⟩
  isNumber := by decide +kernel
  tab := by decide
  lineFeed := by decide
  trimmed := by decide

/-- a file of scores whose members stand in any order -/
def tiedScores : String :=
  "\x7b\"scores\": [\x7b\"tableID\": \"a\", \"score\": 0.39999999999999997\x7d, " ++
    "\x7b\"score\": 0.4, \"tableID\": \"b\"\x7d]\x7d"

/-- the rows of two pages in turns, one page written in two ways, and a line of blanks -/
def twoPages : String :=
  "7\tq\ta\t1\t0.39999999999999997\n8\tq\ta\t \t-5e-1\n \n+7\t\tb\t2\t0.4\tf\r\n" ++
    "8\tq\tb\t \t0.4\n8\tq\ta\t \t0.39999999999999997"

/-- both formats of the scores of two queries -/
def bothFormats : FileTree where
  entries := .ofList ([
    (["seven.json"], .file (some tiedScores)),
    (["eight.json"], .file (some (scoreFileText again [oneDigit, seventeenDigits]))),
    (["ranking.tsv"], .file (some twoPages))] : List (List String × FileEntry))
  workingDirectory := []

theorem isScoreFile_tiedScores : IsScoreFile tiedScores [seventeenDigits, oneDigit] := by
  have hparse : Json.parse? tiedScores = some (.object [(some "scores", .list [seventeenDigits.entryValue,
      .object [(some "score", .number oneDigit.number), (some "tableID", .text (some "b"))]])]) := rfl
  refine ⟨_, _, hparse, ⟨_, rfl, rfl⟩, .cons seventeenDigits.isEntry_entryValue (.cons ?_ .nil)⟩
  exact ⟨⟨_, rfl, rfl⟩, ⟨_, rfl, rfl⟩⟩

theorem isRanking_twoPages :
    IsRanking 7 twoPages [seventeenDigits, oneDigit] ∧ IsRanking 8 twoPages [again, oneDigit, seventeenDigits] := by
  let first : RowFrame 7 := ⟨['7'], ['q'], ['1'], [], by decide, by decide, .inl rfl⟩
  let second : RowFrame 7 := ⟨['+', '7'], [], ['2'], ['\t', 'f'], by decide, by decide, .inr ⟨_, rfl⟩⟩
  let other : RowFrame 8 := ⟨['8'], ['q'], [' '], [], by decide, by decide, .inl rfl⟩
  have hlines : Text.lines twoPages.toList = [first.line seventeenDigits, other.line again, [' '],
      second.line oneDigit, other.line oneDigit, other.line seventeenDigits] := by decide +kernel
  have hblank : IsBlankLine [' '] := (isEmpty_trim_iff _).1 (by decide)
  rw [IsRanking, IsRanking, hlines]
  constructor
  · refine .own first seventeenDigits (.pass other again (by decide) (.blank hblank (.own second oneDigit ?_)))
    exact .pass other oneDigit (by decide) (.pass other seventeenDigits (by decide) .nil)
  · refine .pass first seventeenDigits (by decide) (.own other again (.blank hblank ?_))
    exact .pass second oneDigit (by decide) (.own other oneDigit (.own other seventeenDigits .nil))

/-- Two scores that differ in the ranking are tied in the file of scores. In the other query the same number comes with
a table that was there before, and both formats give the same. -/
theorem formats_agree_iff_seventeen_digits : ∃ rows seven eight,
    outcome bothFormats (rankedRows "ranking.tsv") = .ok (some rows) ∧
    rows.lookup "wikipage_7" = some seven ∧ seven.ranked = [("a", 0.39999999999999997), ("b", 0.4)] ∧
    outcome bothFormats (scores "seven.json") = .ok (some (.ofList [("a", 0.4), ("b", 0.4)])) ∧
    outcome bothFormats (scores "seven.json") ≠ .ok (some seven) ∧
    rows.lookup "wikipage_8" = some eight ∧ outcome bothFormats (scores "eight.json") = .ok (some eight) := by
  obtain ⟨hranking, hranking'⟩ := isRanking_twoPages
  have hseven : bothFormats.text? "seven.json" = .ok tiedScores := by decide +kernel
  have height : bothFormats.text? "eight.json" = .ok (scoreFileText again [oneDigit, seventeenDigits]) := by
    decide +kernel
  have htext : bothFormats.text? "ranking.tsv" = .ok twoPages := by decide +kernel
  obtain ⟨-, -, hboth⟩ := formats_agree_iff (show 7 < Nat.pow 2 64 by decide)
    (List.cons_ne_nil seventeenDigits [oneDigit])
  obtain ⟨rows, seven, hrows, hlookup, rfl, hscores, -, hagree, -⟩ :=
    hboth _ _ _ _ _ hseven isScoreFile_tiedScores htext hranking
  obtain ⟨-, -, hboth⟩ := formats_agree_iff (show 8 < Nat.pow 2 64 by decide)
    (List.cons_ne_nil again [oneDigit, seventeenDigits])
  obtain ⟨rows', eight, hrows', hlookup', -, -, -, hagree', -⟩ :=
    hboth _ _ _ _ _ height (isScoreFile_scoreFileText again [oneDigit, seventeenDigits]) htext hranking'
  obtain rfl : rows' = rows := by
    rw [hrows] at hrows'
    cases hrows'
    rfl
  refine ⟨rows', _, eight, hrows, hlookup, ?_, ?_, ?_, hlookup', ?_⟩
  · decide +kernel
  · rw [hscores]
    decide +kernel
  · rw [Ne, hagree]
    decide +kernel
  · rw [hagree']
    decide +kernel

end RankEval.Inputs
