/-
Plain data printed as YAML fall into the tokens that they were printed from.

What a value, an item or a member is read as does not depend on what comes before it, as long as the block around it is
known, and what follows begins a line that is not indented further. So the tokens are put together as the text is, by
induction on the data; where a line is indented less, a mapping ends.

- `tokens`: the tokens of data.
- `reaches_value`, `reaches_members`: what is read up to the start of a line.
- `tokens?_print`: the tokens of a printed record.
-/
import RankEval.Proofs.Yaml.PlainData
import RankEval.Proofs.Yaml.Scanning

namespace RankEval.Yaml

open Scan

/-! ## Tokens of data -/

mutual

/-- the tokens of data -/
def tokens : Datum → List Token
  | .list [] => [.flowSequence, .flowSequenceEnd]
  | .list (x :: xs) => .blockEntry :: tokens x ++ itemTokens xs
  | .record xs => .blockMapping :: memberTokens xs ++ [.blockEnd]
  | d => [.scalar (String.ofList (word d)) .plain]

/-- the tokens of the items of a list -/
def itemTokens : List Datum → List Token
  | [] => []
  | x :: xs => .blockEntry :: tokens x ++ itemTokens xs

/-- the tokens of the members of a record -/
def memberTokens : List (String × Datum) → List Token
  | [] => []
  | (key, x) :: xs => .key :: .scalar key .plain :: .value :: tokens x ++ memberTokens xs

end

theorem tokens_eq {d : Datum} (hnested : isNested d = false) :
    tokens d = [.scalar (String.ofList (word d)) .plain] := by
  cases d with
  | list xs => cases hnested
  | record xs => cases hnested
  | _ => simp [tokens]

theorem tokens_list {xs : List Datum} (hxs : xs ≠ []) : tokens (.list xs) = itemTokens xs := by
  cases xs with
  | nil => exact absurd rfl hxs
  | cons x xs => rw [tokens, itemTokens]

theorem reverse_tokens_record (xs : List (String × Datum)) (ts : List Token) :
    (tokens (.record xs)).reverse ++ ts = .blockEnd :: ((memberTokens xs).reverse ++ .blockMapping :: ts) := by
  simp [tokens]

/-! ## Line by line -/

theorem atGap_renderValue (n : Nat) (d : Datum) (text : List Char) : atGap (renderValue n d ++ text) = true := by
  unfold renderValue
  split <;> rfl

/-- a first member on a line of its own and behind a dash -/
theorem renderMembers_fresh (n : Nat) (m : String × Datum) (ms : List (String × Datum)) (text : List Char) :
    renderMembers n false (m :: ms) ++ text = spaces n ++ (renderMembers n true (m :: ms) ++ text) := by
  simp [renderMembers]

theorem renderInline_append (n : Nat) (key : String) (d : Datum) (ms : List (String × Datum)) (text : List Char) :
    renderMembers n true ((key, d) :: ms) ++ text =
      key.toList ++ ':' :: (renderValue n d ++ (renderMembers n false ms ++ text)) := by
  simp [renderMembers]

theorem renderItems_append (n : Nat) (d : Datum) (xs : List Datum) (text : List Char) :
    renderItems n false (d :: xs) ++ text =
      spaces n ++ '-' :: ' ' :: (renderItem n d ++ (renderItems n false xs ++ text)) := by
  simp [renderItems]

theorem dedented_members {ms : List (String × Datum)} (hms : PlainMembers ms) {n : Nat} {text : List Char}
    (htext : Dedented n text) : Dedented n (renderMembers n false ms ++ text) := by
  cases ms with
  | nil => exact htext
  | cons m ms =>
    obtain ⟨key, d⟩ := m
    rw [PlainMembers] at hms
    rw [renderMembers_fresh, renderInline_append]
    exact ⟨n, _, rfl, Nat.le_refl n, hms.1.word.atToken_append _⟩

theorem dedented_items (xs : List Datum) {n : Nat} {text : List Char} (htext : Dedented n text) :
    Dedented n (renderItems n false xs ++ text) := by
  cases xs with
  | nil => exact htext
  | cons d xs =>
    rw [renderItems_append]
    exact ⟨n, _, rfl, Nat.le_refl n, rfl⟩

section
variable {size : Nat}

/-- a word behind its colon -/
theorem reaches_wordValue {d : Datum} (hd : IsPlain d) (hnested : isNested d = false) {n column : Nat} (hn : n ≤ column)
    {text : List Char} (htext : Dedented n text) (ts : List Token) (outer : List Int) (index line : Nat) :
    Reaches size (inBlock ⟨index, line, column, renderValue n d ++ text⟩ ts (Int.ofNat n) outer false none)
      ((tokens d).reverse ++ ts) (Int.ofNat n) outer text := by
  rw [renderValue_append hd hnested, tokens_eq hnested]
  exact (leads_scalar (isWord_word hd hnested) hn htext).reaches (reaches_atLine _ _)

/-- a word behind its dash -/
theorem reaches_wordItem {d : Datum} (hd : IsPlain d) (hnested : isNested d = false) {n : Nat}
    {text : List Char} (htext : Dedented n text) (ts : List Token) (outer : List Int) (index line : Nat) :
    Reaches size (inBlock ⟨index, line, n + 1, ' ' :: (renderItem n d ++ text)⟩ ts (Int.ofNat n) outer true none)
      ((tokens d).reverse ++ ts) (Int.ofNat n) outer text := by
  rw [renderItem_append hd hnested, tokens_eq hnested]
  exact (leads_scalar (isWord_word hd hnested) (Nat.le_succ n) htext).reaches (reaches_atLine _ _)

mutual

/-- a value behind its colon -/
theorem reaches_value : ∀ {d : Datum}, IsPlain d → ∀ {n column : Nat}, n ≤ column → ∀ {text : List Char},
    Dedented n text → ∀ (ts : List Token) (outer : List Int) (index line : Nat),
      Reaches size (inBlock ⟨index, line, column, renderValue n d ++ text⟩ ts (Int.ofNat n) outer false none)
        ((tokens d).reverse ++ ts) (Int.ofNat n) outer text
  | .list [], _, n, column, hn, text, htext, ts, outer, index, line => by
    rw [renderValue, scalar, tokens]
    exact (leads_emptyList hn htext).reaches (reaches_atLine _ _)
    all_goals nofun
  | .list (x :: xs), hd, n, column, _, text, htext, ts, outer, index, line => by
    rw [IsPlain] at hd
    have hitems := reaches_items hd htext ts outer (index + 1) (line + 1)
    rw [renderValue, tokens_list (List.cons_ne_nil x xs)]
    exact (leads_line (dedented_items (x :: xs) htext)).reaches hitems
  | .record [], hd, _, _, _, _, _, _, _, _, _ => by
    rw [IsPlain] at hd
    exact absurd rfl hd.1
  | .record (m :: ms), hd, n, column, _, text, htext, ts, outer, index, line => by
    rw [IsPlain] at hd
    have hmembers : Dedented (n + 2) (renderMembers (n + 2) false (m :: ms) ++ text) :=
      dedented_members hd.2 (htext.mono (Nat.le_add_right n 2))
    have hcolumn : 0 + (n + 2) = n + 2 := Nat.zero_add _
    have hindent : Int.ofNat n < Int.ofNat (0 + (n + 2)) := Int.ofNat_lt.2 (by omega)
    have hmapping := reaches_mapping hd.1 hd.2 0 (n + 2) hindent (htext.mono (by omega)) ts outer (index + 1) (line + 1)
    have hrecord := hmapping.trans fun index line =>
      (leads_pop htext hindent (Int.ofNat n)).reaches (reaches_atLine index line)
    rw [hcolumn, ← renderMembers_fresh] at hrecord
    rw [renderValue, reverse_tokens_record]
    exact (leads_line hmembers).reaches hrecord
  | .null, hd, _, _, hn, _, htext, ts, outer, index, line => reaches_wordValue hd rfl hn htext ts outer index line
  | .flag _, hd, _, _, hn, _, htext, ts, outer, index, line => reaches_wordValue hd rfl hn htext ts outer index line
  | .count _, hd, _, _, hn, _, htext, ts, outer, index, line => reaches_wordValue hd rfl hn htext ts outer index line
  | .number _, hd, _, _, hn, _, htext, ts, outer, index, line => reaches_wordValue hd rfl hn htext ts outer index line
  | .text _, hd, _, _, hn, _, htext, ts, outer, index, line => reaches_wordValue hd rfl hn htext ts outer index line

/-- an item behind its dash -/
theorem reaches_item : ∀ {d : Datum}, isList d = false → IsPlain d → ∀ {n : Nat} {text : List Char},
    Dedented n text → ∀ (ts : List Token) (outer : List Int) (index line : Nat),
      Reaches size (inBlock ⟨index, line, n + 1, ' ' :: (renderItem n d ++ text)⟩ ts (Int.ofNat n) outer true none)
        ((tokens d).reverse ++ ts) (Int.ofNat n) outer text
  | .list _, hlist, _, _, _, _, _, _, _, _ => Bool.noConfusion hlist
  | .record [], _, hd, _, _, _, _, _, _, _ => by
    rw [IsPlain] at hd
    exact absurd rfl hd.1
  | .record (m :: ms), _, hd, n, text, htext, ts, outer, index, line => by
    rw [IsPlain] at hd
    have hindent : Int.ofNat n < Int.ofNat (n + 1 + 1) := Int.ofNat_lt.2 (by omega)
    have hmapping := reaches_mapping hd.1 hd.2 (n + 1) 1 hindent (htext.mono (by omega)) ts outer index line
    have hrecord := hmapping.trans fun index line =>
      (leads_pop htext hindent (Int.ofNat n)).reaches (reaches_atLine index line)
    rw [renderItem, reverse_tokens_record]
    exact hrecord
  | .null, _, hd, _, _, htext, ts, outer, index, line => reaches_wordItem hd rfl htext ts outer index line
  | .flag _, _, hd, _, _, htext, ts, outer, index, line => reaches_wordItem hd rfl htext ts outer index line
  | .count _, _, hd, _, _, htext, ts, outer, index, line => reaches_wordItem hd rfl htext ts outer index line
  | .number _, _, hd, _, _, htext, ts, outer, index, line => reaches_wordItem hd rfl htext ts outer index line
  | .text _, _, hd, _, _, htext, ts, outer, index, line => reaches_wordItem hd rfl htext ts outer index line

theorem reaches_items : ∀ {xs : List Datum}, PlainItems xs → ∀ {n : Nat} {text : List Char}, Dedented n text →
    ∀ (ts : List Token) (outer : List Int) (index line : Nat),
      Reaches size (atLine ts (Int.ofNat n) outer index line (renderItems n false xs ++ text))
        ((itemTokens xs).reverse ++ ts) (Int.ofNat n) outer text
  | [], _, n, text, _, ts, outer, index, line => by
    rw [renderItems, itemTokens]
    exact reaches_atLine index line
  | x :: xs, hxs, n, text, htext, ts, outer, index, line => by
    rw [PlainItems] at hxs
    obtain ⟨hlist, hx, hxs⟩ := hxs
    have hitem := reaches_item hlist hx (dedented_items xs htext) (.blockEntry :: ts) outer (index + n + 1) line
    have hfirst := leads_dash.reaches hitem
    rw [renderItems_append, itemTokens]
    simpa using hfirst.trans (reaches_items hxs htext _ outer)

theorem reaches_members : ∀ {xs : List (String × Datum)}, PlainMembers xs → ∀ {n : Nat} {text : List Char},
    Dedented n text → ∀ (ts : List Token) (outer : List Int) (index line : Nat),
      Reaches size (atLine ts (Int.ofNat n) outer index line (renderMembers n false xs ++ text))
        ((memberTokens xs).reverse ++ ts) (Int.ofNat n) outer text
  | [], _, n, text, _, ts, outer, index, line => by
    rw [renderMembers, memberTokens]
    exact reaches_atLine index line
  | (key, x) :: xs, hxs, n, text, htext, ts, outer, index, line => by
    rw [PlainMembers] at hxs
    obtain ⟨hkey, hx, hxs⟩ := hxs
    have hvalue := reaches_value hx (show n ≤ n + key.toList.length + 1 by omega) (dedented_members hxs htext)
      (.value :: .scalar (String.ofList key.toList) .plain :: .key :: ts) outer (index + n + key.toList.length + 1) line
    have hmember := (leads_nextKey hkey.word hkey.length (atGap_renderValue n x _)).reaches hvalue
    rw [renderMembers_fresh, renderInline_append, memberTokens]
    simpa using hmember.trans (reaches_members hxs htext _ outer)

/-- a mapping from its first key on -/
theorem reaches_mapping : ∀ {xs : List (String × Datum)}, xs ≠ [] → PlainMembers xs → ∀ (column k : Nat) {indent : Int},
    indent < Int.ofNat (column + k) → ∀ {text : List Char}, Dedented (column + k) text →
    ∀ (ts : List Token) (outer : List Int) (index line : Nat),
      Reaches size (inBlock ⟨index, line, column, spaces k ++ (renderMembers (column + k) true xs ++ text)⟩ ts indent
        outer true none) ((memberTokens xs).reverse ++ .blockMapping :: ts) (Int.ofNat (column + k)) (indent :: outer)
        text
  | [], hne, _, _, _, _, _, _, _, _, _, _, _ => absurd rfl hne
  | (key, x) :: xs, _, hxs, column, k, indent, hindent, text, htext, ts, outer, index, line => by
    rw [PlainMembers] at hxs
    obtain ⟨hkey, hx, hxs⟩ := hxs
    have hvalue := reaches_value hx (show column + k ≤ column + k + key.toList.length + 1 by omega)
      (dedented_members hxs htext) (.value :: .scalar (String.ofList key.toList) .plain :: .key :: .blockMapping :: ts)
      (indent :: outer) (index + k + key.toList.length + 1) line
    have hmember := (leads_firstKey hkey.word hkey.length (atGap_renderValue (column + k) x _) hindent).reaches hvalue
    rw [renderInline_append, memberTokens]
    simpa using hmember.trans (reaches_members hxs htext _ (indent :: outer))

end

end

/-- **Printed data fall into the tokens that they were printed from.** -/
theorem tokens?_print {xs : List (String × Datum)} (hd : IsPlain (.record xs)) :
    tokens? (print (.record xs)) = some (tokens (.record xs)) := by
  rw [IsPlain] at hd
  obtain ⟨hne, hxs⟩ := hd
  obtain ⟨m, ms, rfl⟩ := List.exists_cons_of_ne_nil hne
  have htext : (print (.record (m :: ms))).toList = renderMembers 0 false (m :: ms) := String.toList_ofList
  have hend : Dedented (0 + 0) [] := ⟨0, [], rfl, Nat.le_refl 0, rfl⟩
  have hindent : (-1 : Int) < Int.ofNat (0 + 0) := by decide
  have hmapping := @reaches_mapping (renderMembers 0 false (m :: ms)).length _ hne hxs 0 0 _ hindent _ hend [] [] 0 0
  rw [← renderMembers_fresh, List.append_nil] at hmapping
  generalize hcs : renderMembers 0 false (m :: ms) = cs at htext hmapping
  obtain ⟨index, line, hleads⟩ := hmapping
  obtain ⟨n, hn, hrun⟩ := hleads (Nat.le_refl cs.length)
  have hfuel : cs.length + 1 = cs.length - n + n + 1 := by
    rw [Nat.sub_add_cancel]
    exact hn
  have hstart : Scan.start cs = inBlock ⟨0, 0, 0, cs⟩ [] (-1) [] true none := rfl
  rw [tokens?, htext, if_pos (hcs ▸ all_renderMembers hxs 0 false), hstart, hfuel, hrun]
  refine (run_end _).trans ?_
  simp [tokens]

end RankEval.Yaml
