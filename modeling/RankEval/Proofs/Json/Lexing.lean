/-
Printed data fall into the tokens that they were printed from.

The lexer is one step for each character, so what it makes of a text is put together from what it makes of the parts. A
part that ends between tokens may stand before anything; one that ends in a word or a number only before a comma or a
line break, which is what the printer puts there.

- `Closed.append`, `Reads.append`: putting parts together.
- `closed_quote`: a quoted string is one token, whatever characters it holds.
- `tokens?_print`: the tokens of printed data.
-/
import RankEval.Proofs.Json.Numbers

namespace RankEval.Json

open Decimal (digitValue)

/-! ## Putting parts together -/

/-- reading `cs` adds the tokens `ts` and ends between tokens -/
def Closed (cs : List Char) (ts : List Token) : Prop :=
  ∀ before, cs.foldlM Lexer.step ⟨before, .between⟩ = some ⟨ts.reverse ++ before, .between⟩

/-- reading `cs` adds the tokens `ts`, the last of which may not be over yet -/
def Reads (cs : List Char) (ts : List Token) : Prop :=
  ∀ before, ∃ l, cs.foldlM Lexer.step ⟨before, .between⟩ = some l ∧ l.settle = some (ts.reverse ++ before)

/-- nothing, or something that starts with a comma or a line break -/
def Delimited (cs : List Char) : Prop := ∀ c rest, cs = c :: rest → c = ',' ∨ c = '\n'

theorem delimited_nil : Delimited [] := by
  intro c rest h
  cases h

theorem delimited_comma (rest : List Char) : Delimited (',' :: rest) := by
  intro c rest h
  cases h
  exact .inl rfl

theorem delimited_newLine (level : Nat) (rest : List Char) : Delimited (newLine level ++ rest) := by
  intro c rest h
  cases h
  exact .inr rfl

section
variable {cs cs' : List Char} {ts ts' : List Token}

theorem closed_nil : Closed [] [] := fun _ => rfl

theorem Closed.reads (h : Closed cs ts) : Reads cs ts := fun before => ⟨_, h before, rfl⟩

theorem Closed.append (h : Closed cs ts) (h' : Closed cs' ts') : Closed (cs ++ cs') (ts ++ ts') := by
  intro before
  rw [List.foldlM_append, h before]
  change cs'.foldlM Lexer.step ⟨ts.reverse ++ before, .between⟩ = _
  rw [h', List.reverse_append, List.append_assoc]

theorem Closed.append_reads (h : Closed cs ts) (h' : Reads cs' ts') : Reads (cs ++ cs') (ts ++ ts') := by
  intro before
  obtain ⟨l, hl, hsettle⟩ := h' (ts.reverse ++ before)
  refine ⟨l, ?_, ?_⟩
  · rw [List.foldlM_append, h before]
    exact hl
  · rw [hsettle, List.reverse_append, List.append_assoc]

/-- a comma or a line break ends what may be over -/
theorem step_of_settle {l : Lexer} {tokens : List Token} {c : Char} (h : l.settle = some tokens)
    (hc : c = ',' ∨ c = '\n') : l.step c = Lexer.fresh tokens c := by
  have hlower : c.isLower = false := by rcases hc with rfl | rfl <;> rfl
  have hnumber : Lexer.isNumberChar c = false := by rcases hc with rfl | rfl <;> rfl
  obtain ⟨ts, state⟩ := l
  cases state with
  | between => exact congrArg (Lexer.fresh · c) (Option.some.inj h)
  | word letters => simp only [Lexer.step, hlower, h, Bool.false_eq_true, if_false, Option.bind_some]
  | number chars => simp only [Lexer.step, hnumber, h, Bool.false_eq_true, if_false, Option.bind_some]
  | quoted pieces => cases h
  | escaped pieces => cases h
  | hex pieces left value => cases h

theorem Reads.append (h : Reads cs ts) (h' : Reads cs' ts') (hd : Delimited cs') : Reads (cs ++ cs') (ts ++ ts') := by
  intro before
  obtain ⟨l, hl, hsettle⟩ := h before
  obtain ⟨l', hl', hsettle'⟩ := h' (ts.reverse ++ before)
  rw [List.foldlM_append, hl, List.reverse_append, List.append_assoc, ← hsettle']
  cases cs' with
  | nil =>
    cases hl'
    exact ⟨l, rfl, hsettle⟩
  | cons c rest =>
    refine ⟨l', ?_, rfl⟩
    change (c :: rest).foldlM Lexer.step l = some l'
    rw [← hl', List.foldlM_cons, List.foldlM_cons, step_of_settle hsettle (hd c rest rfl)]
    rfl

/-- what is over behind a comma or a line break -/
theorem Reads.append_closed {c : Char} (h : Reads cs ts) (hc : c = ',' ∨ c = '\n') (h' : Closed (c :: cs') ts') :
    Closed (cs ++ c :: cs') (ts ++ ts') := by
  intro before
  obtain ⟨l, hl, hsettle⟩ := h before
  rw [List.foldlM_append, hl, List.reverse_append, List.append_assoc, ← h' (ts.reverse ++ before)]
  change (c :: cs').foldlM Lexer.step l = _
  rw [List.foldlM_cons, List.foldlM_cons, step_of_settle hsettle hc]
  rfl

end

/-! ## Single characters -/

theorem closed_comma : Closed [','] [.comma] := fun _ => rfl

theorem closed_colon : Closed [':', ' '] [.colon] := fun _ => rfl

theorem closed_beginList : Closed ['['] [.beginList] := fun _ => rfl

theorem closed_endList : Closed [']'] [.endList] := fun _ => rfl

theorem closed_beginObject : Closed ['\x7b'] [.beginObject] := fun _ => rfl

theorem closed_endObject : Closed ['\x7d'] [.endObject] := fun _ => rfl

theorem closed_blank : Closed [' '] [] := fun _ => rfl

theorem closed_lineBreak : Closed ['\n'] [] := fun _ => rfl

theorem closed_newLine (level : Nat) : Closed (newLine level) [] := by
  have hblanks : ∀ n, Closed (List.replicate n ' ') [] := by
    intro n
    induction n with
    | zero => exact closed_nil
    | succ n ih => exact closed_blank.append ih
  exact closed_lineBreak.append (hblanks _)

/-! ## Strings -/

theorem join_chars (cs : List Char) : Piece.join (cs.map .char) = some cs := by
  induction cs with
  | nil => rfl
  | cons c cs ih => rw [List.map_cons, Piece.join, ih, Option.map_some]

/-- a control character is named by two hexadecimal digits -/
theorem foldlM_control (tokens : List Token) (pieces : List Piece) : ∀ n, n < 0x20 →
    ['\\', 'u', '0', '0', hexDigit (n / 16), hexDigit (n % 16)].foldlM Lexer.step ⟨tokens, .quoted pieces⟩ =
      some ⟨tokens, .quoted (.ofUnit n :: pieces)⟩ := by
  intro n hn
  have hdigit : ∀ d, d < 16 → Lexer.hexValue? (hexDigit d) = some d := by decide
  have hhigh := hdigit (n / 16) (by omega)
  have hlow := hdigit (n % 16) (by omega)
  have hzero : Lexer.hexValue? '0' = some 0 := rfl
  simp [List.foldlM_cons, Lexer.step, hzero, hhigh, hlow, Nat.div_add_mod']

/-- a character is read back from its escape -/
theorem foldlM_escapeChar (tokens : List Token) (pieces : List Piece) (c : Char) :
    (escapeChar c).foldlM Lexer.step ⟨tokens, .quoted pieces⟩ = some ⟨tokens, .quoted (.char c :: pieces)⟩ := by
  unfold escapeChar
  split_ifs with h1 h2 h3 h4 h5 h6 h7 h8
  · subst h1; rfl
  · subst h2; rfl
  · subst h3; rfl
  · subst h4; rfl
  · subst h5; rfl
  · subst h6; rfl
  · subst h7; rfl
  · rw [foldlM_control tokens pieces c.toNat h8, Piece.ofUnit, if_neg (by omega), Char.ofNat_toNat]
  · simp [List.foldlM_cons, Lexer.step, h1, h2, h8]

theorem foldlM_escape (tokens : List Token) (cs : List Char) :
    ∀ pieces, (cs.flatMap escapeChar).foldlM Lexer.step ⟨tokens, .quoted pieces⟩ =
      some ⟨tokens, .quoted ((cs.map Piece.char).reverse ++ pieces)⟩ := by
  induction cs with
  | nil => intro pieces; rfl
  | cons c cs ih =>
    intro pieces
    rw [List.flatMap_cons, List.foldlM_append, foldlM_escapeChar]
    change (cs.flatMap escapeChar).foldlM Lexer.step ⟨tokens, .quoted (.char c :: pieces)⟩ = _
    rw [ih, List.map_cons, List.reverse_cons, List.append_assoc]
    rfl

/-- A quoted string is one token, whatever characters it holds. -/
theorem closed_quote (s : String) : Closed (quote s) [.text (some s)] := by
  intro before
  have hbody := foldlM_escape before s.toList []
  change (s.toList.flatMap escapeChar ++ ['"']).foldlM Lexer.step ⟨before, .quoted []⟩ = _
  rw [List.foldlM_append, hbody, List.append_nil]
  change some (Lexer.mk (.text ((Piece.join (s.toList.map Piece.char).reverse.reverse).map String.ofList) :: before)
    .between) = _
  rw [List.reverse_reverse, join_chars, Option.map_some, String.ofList_toList]
  rfl

/-! ## Words and numbers -/

theorem reads_null : Reads ['n', 'u', 'l', 'l'] [.null] := fun _ => ⟨_, rfl, rfl⟩

theorem reads_flag (b : Bool) :
    Reads (if b then ['t', 'r', 'u', 'e'] else ['f', 'a', 'l', 's', 'e']) [.bool b] := by
  cases b <;> exact fun _ => ⟨_, rfl, rfl⟩

theorem fresh_of_startsNumber {tokens : List Token} {c : Char} (h : (c == '-' || c.isDigit) = true) :
    Lexer.fresh tokens c = some ⟨tokens, .number [c]⟩ := by
  unfold Lexer.fresh
  split
  case h_12 => exact if_pos h
  all_goals exact Bool.noConfusion h

theorem reads_number {cs : List Char} {n : Number} (h : Number.ofChars? cs = some n) : Reads cs [.number n] := by
  intro before
  obtain ⟨c, rest, rfl, hfirst, hrest⟩ := Number.chars_of_ofChars? h
  have hwalk : ∀ (more read : List Char), (∀ c ∈ more, Lexer.isNumberChar c = true) →
      more.foldlM Lexer.step ⟨before, .number read⟩ = some ⟨before, .number (more.reverse ++ read)⟩ := by
    intro more
    induction more with
    | nil => intro read _; rfl
    | cons d more ih =>
      intro read hmore
      obtain ⟨hd, htail⟩ := List.forall_mem_cons.1 hmore
      have hstep : Lexer.step ⟨before, .number read⟩ d = some ⟨before, .number (d :: read)⟩ := if_pos hd
      rw [List.foldlM_cons, hstep, List.reverse_cons, List.append_assoc]
      exact ih (d :: read) htail
  refine ⟨⟨before, .number (rest.reverse ++ [c])⟩, ?_, ?_⟩
  · have hstep : Lexer.step ⟨before, .between⟩ c = some ⟨before, .number [c]⟩ := fresh_of_startsNumber hfirst
    rw [List.foldlM_cons, hstep]
    exact hwalk rest [c] hrest
  · change (Number.ofChars? (rest.reverse ++ [c]).reverse).map _ = _
    rw [List.reverse_append, List.reverse_reverse]
    change (Number.ofChars? (c :: rest)).map _ = _
    rw [h]
    rfl

/-! ## Data -/

/-- the token of a double -/
def numberToken (x : Float) : Token :=
  match Number.ofChars? (numberLayout.text x).toList with
  | some n => .number n
  | none => .null

theorem reads_double (x : Float) : Reads (numberLayout.text x).toList [numberToken x] := by
  unfold numberToken
  cases hx : x.isFinite with
  | true =>
    obtain ⟨n, hn⟩ := Number.ofChars?_text hx
    rw [hn]
    exact reads_number hn
  | false =>
    rw [Number.text_of_not_isFinite hx]
    exact reads_null

/-- the token of a natural number -/
def countToken (n : Nat) : Token := .number ⟨⟨false, (Nat.toDigits 10 n).map digitValue, [], 0⟩, true⟩

mutual

/-- the tokens of data -/
def tokens : Datum → List Token
  | .null => [.null]
  | .flag b => [.bool b]
  | .count n => [countToken n]
  | .number x => [numberToken x]
  | .text s => [.text (some s)]
  | .list [] => [.beginList, .endList]
  | .list (x :: xs) => .beginList :: tokens x ++ itemTokens xs ++ [.endList]
  | .record [] => [.beginObject, .endObject]
  | .record ((key, x) :: xs) =>
    .beginObject :: .text (some key) :: .colon :: tokens x ++ memberTokens xs ++ [.endObject]

/-- the tokens of the items of a list behind the first -/
def itemTokens : List Datum → List Token
  | [] => []
  | x :: xs => .comma :: tokens x ++ itemTokens xs

/-- the tokens of the members of a record behind the first -/
def memberTokens : List (String × Datum) → List Token
  | [] => []
  | (key, x) :: xs => .comma :: .text (some key) :: .colon :: tokens x ++ memberTokens xs

end

theorem delimited_renderItems (level : Nat) (xs : List Datum) : Delimited (renderItems level xs) := by
  cases xs with
  | nil => exact delimited_nil
  | cons x xs =>
    rw [renderItems]
    exact delimited_comma _

theorem delimited_renderMembers (level : Nat) (xs : List (String × Datum)) : Delimited (renderMembers level xs) := by
  cases xs with
  | nil => exact delimited_nil
  | cons x xs =>
    rw [renderMembers]
    exact delimited_comma _

/-- the key of a member and what stands between it and the value -/
theorem closed_key (key : String) : Closed (quote key ++ [':', ' ']) [.text (some key), .colon] :=
  (closed_quote key).append closed_colon

mutual

theorem reads_render (level : Nat) : ∀ d : Datum, Reads (render level d) (tokens d)
  | .null => by
    rw [render, tokens]
    exact reads_null
  | .flag b => by
    rw [render, tokens]
    exact reads_flag b
  | .count n => by
    rw [render, tokens]
    exact reads_number (Number.ofChars?_toDigits n)
  | .number x => by
    rw [render, tokens]
    exact reads_double x
  | .text s => by
    rw [render, tokens]
    exact (closed_quote s).reads
  | .list [] => by
    rw [render, tokens]
    exact (closed_beginList.append closed_endList).reads
  | .list (x :: xs) => by
    have hopen := (closed_beginList.append (closed_newLine (level + 1))).append_reads (reads_render (level + 1) x)
    have hitems := hopen.append (reads_renderItems (level + 1) xs) (delimited_renderItems _ _)
    have hclose := hitems.append ((closed_newLine level).append closed_endList).reads (delimited_newLine _ _)
    rw [render, tokens]
    simpa only [List.append_assoc, List.cons_append, List.nil_append, List.append_nil] using hclose
  | .record [] => by
    rw [render, tokens]
    exact (closed_beginObject.append closed_endObject).reads
  | .record ((key, x) :: xs) => by
    have hkey := (closed_beginObject.append (closed_newLine (level + 1))).append (closed_key key)
    have hopen := hkey.append_reads (reads_render (level + 1) x)
    have hmembers := hopen.append (reads_renderMembers (level + 1) xs) (delimited_renderMembers _ _)
    have hclose := hmembers.append ((closed_newLine level).append closed_endObject).reads (delimited_newLine _ _)
    rw [render, tokens]
    simpa only [List.append_assoc, List.cons_append, List.nil_append, List.append_nil] using hclose

theorem reads_renderItems (level : Nat) : ∀ xs : List Datum, Reads (renderItems level xs) (itemTokens xs)
  | [] => by
    rw [renderItems, itemTokens]
    exact closed_nil.reads
  | x :: xs => by
    have hitem := (closed_comma.append (closed_newLine level)).append_reads (reads_render level x)
    have hitems := hitem.append (reads_renderItems level xs) (delimited_renderItems _ _)
    rw [renderItems, itemTokens]
    simpa only [List.append_assoc, List.cons_append, List.nil_append, List.append_nil] using hitems

theorem reads_renderMembers (level : Nat) : ∀ xs : List (String × Datum),
    Reads (renderMembers level xs) (memberTokens xs)
  | [] => by
    rw [renderMembers, memberTokens]
    exact closed_nil.reads
  | (key, x) :: xs => by
    have hkey := (closed_comma.append (closed_newLine level)).append (closed_key key)
    have hmember := hkey.append_reads (reads_render level x)
    have hmembers := hmember.append (reads_renderMembers level xs) (delimited_renderMembers _ _)
    rw [renderMembers, memberTokens]
    simpa only [List.append_assoc, List.cons_append, List.nil_append, List.append_nil] using hmembers

end

/-- **Printed data fall into the tokens that they were printed from.** -/
theorem tokens?_print (d : Datum) : tokens? (print d) = some (tokens d) := by
  obtain ⟨l, hl, hsettle⟩ := reads_render 0 d []
  have htext : (print d).toList = render 0 d := String.toList_ofList
  rw [tokens?, htext, Lexer.start, hl, Option.bind_some, hsettle, Option.map_some, List.append_nil,
    List.reverse_reverse]

end RankEval.Json
