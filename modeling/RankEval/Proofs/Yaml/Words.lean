/-
Words: texts that are one plain scalar wherever a scalar may begin. A word has none of the marks that could end it, and
does not begin like anything else.

- `plainWord_append`, `plainScalar_key`, `plainScalar_line`: a word is read to its end, before a colon and at the end of
  a line.
- `token_word`: no other token begins as a word does.
- `skipToToken_spaces`, `skipToToken_line`: the way from one token to the next.
-/
import Mathlib.Tactic
import RankEval.Yaml.Printer
import RankEval.Yaml.Tokens

namespace RankEval.Yaml

/-! ## Words -/

/-- characters that neither end a plain scalar nor lie between tokens -/
def isPlainChar (c : Char) : Bool :=
  isAllowed c && !isBlank c && !isBreak c && c != ':' && c != '#' && c != '\ufeff'

/-- whether a text begins a plain scalar: with no indicator but a minus, and with no part of a document marker -/
def startsWord : List Char → Bool
  | '-' :: c :: _ => c != '-'
  | '.' :: c :: _ => c != '.'
  | c :: _ => !Scan.isIndicator c && c != '.'
  | [] => false

structure IsWord (w : List Char) : Prop where
  chars : ∀ c ∈ w, isPlainChar c = true
  starts : startsWord w = true

instance (w : List Char) : Decidable (IsWord w) :=
  -- through `List.all`: with the bounded `∀`, instance search may decide over every character there is
  decidable_of_iff (w.all isPlainChar = true ∧ startsWord w = true)
    ⟨fun h => ⟨List.all_eq_true.1 h.1, h.2⟩, fun h => ⟨List.all_eq_true.2 h.1, h.2⟩⟩

section
variable {c : Char} (h : isPlainChar c = true)

include h

theorem isAllowed_of_isPlainChar : isAllowed c = true := by
  simp only [isPlainChar, Bool.and_eq_true] at h
  exact h.1.1.1.1.1

theorem isBlank_of_isPlainChar : isBlank c = false := by
  simp only [isPlainChar, Bool.and_eq_true, Bool.not_eq_true'] at h
  exact h.1.1.1.1.2

theorem isBreak_of_isPlainChar : isBreak c = false := by
  simp only [isPlainChar, Bool.and_eq_true, Bool.not_eq_true'] at h
  exact h.1.1.1.2

theorem ne_of_isPlainChar : c ≠ ':' ∧ c ≠ '#' ∧ c ≠ '\ufeff' := by
  simp only [isPlainChar, Bool.and_eq_true, bne_iff_ne] at h
  exact ⟨h.1.1.2, h.1.2, h.2⟩

end

theorem IsWord.exists_cons {w : List Char} (h : IsWord w) : ∃ c w', w = c :: w' ∧ isPlainChar c = true := by
  cases w with
  | nil => exact absurd h.starts Bool.false_ne_true
  | cons c w' => exact ⟨c, w', rfl, h.chars c List.mem_cons_self⟩

/-! ## Between tokens -/

/-- nothing, or something that is a token and not skipped before one -/
def atToken : List Char → Bool
  | [] => true
  | c :: _ => !isBlank c && !isBreak c && c != '#' && c != '\ufeff'

theorem IsWord.atToken_append {w : List Char} (h : IsWord w) (rest : List Char) : atToken (w ++ rest) = true := by
  obtain ⟨c, w', rfl, hc⟩ := h.exists_cons
  obtain ⟨-, hcomment, hmark⟩ := ne_of_isPlainChar hc
  simp [atToken, isBlank_of_isPlainChar hc, isBreak_of_isPlainChar hc, hcomment, hmark]

theorem spaces_succ (n : Nat) : spaces (n + 1) = ' ' :: spaces n := List.replicate_succ

theorem takeWhile_spaces {p : Char → Bool} (hp : p ' ' = true) {rest : List Char}
    (hrest : ∀ c ∈ rest.head?, p c = false) (n : Nat) :
    (spaces n ++ rest).takeWhile p = spaces n ∧ (spaces n ++ rest).dropWhile p = rest := by
  induction n with
  | zero =>
    cases rest with
    | nil => exact ⟨rfl, rfl⟩
    | cons c rest =>
      have hc := hrest c rfl
      simp [spaces, hc]
  | succ n ih => simp [spaces_succ, hp, ih]

namespace Scan

/-- spaces up to a token are skipped, whether or not a key may begin there -/
theorem skipToToken_spaces (flow allowed : Bool) (fuel index line column n : Nat) {rest : List Char}
    (hrest : atToken rest = true) :
    skipToToken flow (fuel + 1) allowed ⟨index, line, column, spaces n ++ rest⟩ =
      (allowed, ⟨index + n, line, column + n, rest⟩) := by
  have hmark : (index == 0 && (spaces n ++ rest).head? == some '\ufeff') = false := by
    rw [Bool.and_eq_false_iff, beq_eq_false_iff_ne, beq_eq_false_iff_ne]
    right
    cases n with
    | zero =>
      cases rest with
      | nil => exact nofun
      | cons c rest =>
        rintro h
        cases h
        exact Bool.noConfusion hrest
    | succ n => exact nofun
  have hstop : ∀ c ∈ rest.head?, (c == ' ' || ((flow || !allowed) && c == '\t')) = false := by
    intro c hc
    cases rest with
    | nil => cases hc
    | cons d rest =>
      cases hc
      simp only [atToken, isBlank, Bool.and_eq_true, Bool.not_eq_true', Bool.or_eq_false_iff] at hrest
      simp [hrest.1.1.1.1, hrest.1.1.1.2]
  obtain ⟨htake, hdrop⟩ := takeWhile_spaces (p := fun c => c == ' ' || ((flow || !allowed) && c == '\t')) rfl hstop n
  have hskip : Cursor.skipWhile (fun c => c == ' ' || ((flow || !allowed) && c == '\t'))
      ⟨index, line, column, spaces n ++ rest⟩ = ⟨index + n, line, column + n, rest⟩ := by
    rw [Cursor.skipWhile, htake, hdrop, spaces, List.length_replicate]
    rfl
  have hcomment : (rest.head? == some '#') = false := by
    rw [beq_eq_false_iff_ne]
    cases rest with
    | nil => exact nofun
    | cons c rest =>
      rintro h
      cases h
      exact Bool.noConfusion hrest
  have hbreak : Cursor.atBreak ⟨index + n, line, column + n, rest⟩ = false := by
    cases rest with
    | nil => rfl
    | cons c rest =>
      simp only [atToken, Bool.and_eq_true, Bool.not_eq_true'] at hrest
      exact hrest.1.1.2
  rw [skipToToken]
  dsimp only
  rw [hmark, if_neg Bool.false_ne_true, hskip, hcomment, if_neg Bool.false_ne_true, hbreak, if_neg Bool.false_ne_true]

/-- at the end of a line the next one begins; a key may begin there -/
theorem skipToToken_line (allowed : Bool) (fuel index line column n : Nat) {rest : List Char}
    (hrest : atToken rest = true) :
    skipToToken false (fuel + 2) allowed ⟨index, line, column, '\n' :: (spaces n ++ rest)⟩ =
      (true, ⟨index + 1 + n, line + 1, n, rest⟩) := by
  rw [skipToToken]
  simp [Cursor.skipWhile, Cursor.past, Cursor.atBreak, Cursor.skipBreak, isBreak,
    skipToToken_spaces _ _ _ _ _ _ _ hrest]

end Scan

/-! ## Plain scalars -/

section
variable {w : List Char}

theorem plainWord_append (h : ∀ c ∈ w, isPlainChar c = true) {rest : List Char}
    (hrest : plainWord false rest = some ([], rest)) : plainWord false (w ++ rest) = some (w, rest) := by
  induction w with
  | nil => exact hrest
  | cons c w ih =>
    obtain ⟨hc, hw⟩ := List.forall_mem_cons.1 h
    obtain ⟨hcolon, -, -⟩ := ne_of_isPlainChar hc
    rw [List.cons_append, plainWord]
    simp [isBlank_of_isPlainChar hc, isBreak_of_isPlainChar hc, hcolon, ih hw]

theorem plainWord_colon {rest : List Char} (h : atGap rest = true) :
    plainWord false (':' :: rest) = some ([], ':' :: rest) := by
  simp [plainWord, isBlank, isBreak, h]

theorem plainWord_break (rest : List Char) : plainWord false ('\n' :: rest) = some ([], '\n' :: rest) := by
  simp [plainWord, isBlank, isBreak]

/-- no document begins or ends with a word -/
theorem atMarker_word (h : IsWord w) (index line column : Nat) (rest : List Char) {mark : Char}
    (hmark : mark = '-' ∨ mark = '.') : Cursor.atMarker ⟨index, line, column, w ++ rest⟩ mark = false := by
  obtain ⟨-, hstarts⟩ := h
  unfold startsWord at hstarts
  split at hstarts
  · next c w =>
    have hc : c ≠ '-' := bne_iff_ne.1 hstarts
    rcases hmark with rfl | rfl <;> cases hrest : w ++ rest <;> simp [Cursor.atMarker, hrest, hc]
  · next c w =>
    have hc : c ≠ '.' := bne_iff_ne.1 hstarts
    rcases hmark with rfl | rfl <;> cases hrest : w ++ rest <;> simp [Cursor.atMarker, hrest, hc]
  · next c w _ _ =>
    simp only [Scan.isIndicator, Bool.and_eq_true, Bool.not_eq_true', bne_iff_ne] at hstarts
    have hne : c ≠ mark := by
      rintro rfl
      rcases hmark with rfl | rfl
      · exact absurd hstarts.1 (by decide)
      · exact hstarts.2 rfl
    unfold Cursor.atMarker
    rw [Bool.and_eq_false_iff]
    right
    split
    · next a b d rest' heq =>
      obtain rfl : c = a := (List.cons.inj heq).1
      simp [hne]
    · rfl
  · exact absurd hstarts Bool.false_ne_true

theorem scanGap_spaces (margin fuel index line : Nat) {rest : List Char} (hrest : atToken rest = true) {g : Gap}
    (hg : g.breaks ≠ []) (n : Nat) : ∀ column, scanGap margin false (fuel + n + 1)
      ⟨index, line, column, spaces n ++ rest⟩ g = some (g, ⟨index + n, line, column + n, rest⟩) := by
  induction n generalizing index with
  | zero =>
    intro column
    rw [scanGap]
    cases rest with
    | nil => rfl
    | cons c rest =>
      simp only [atToken, Bool.and_eq_true, Bool.not_eq_true'] at hrest
      simp [spaces, hrest.1.1.1, hrest.1.1.2]
  | succ n ih =>
    intro column
    have hnext := ih (index + 1) (column + 1)
    have hbreaks : g.breaks.isEmpty = false := by simpa using hg
    rw [scanGap, spaces_succ]
    have hindex : index + 1 + n = index + (n + 1) := by omega
    have hcolumn : column + 1 + n = column + (n + 1) := by omega
    rw [hindex, hcolumn] at hnext
    simpa [isBlank, hbreaks, Cursor.skip, Cursor.past, Nat.add_assoc] using hnext

/-- the end of a line and the spaces that the next one begins with -/
theorem scanGap_line (margin fuel index line column n : Nat) {rest : List Char} (hrest : atToken rest = true) :
    scanGap margin false (fuel + n + 2) ⟨index, line, column, '\n' :: (spaces n ++ rest)⟩ ⟨[], []⟩ =
      some (⟨[], [['\n']]⟩, ⟨index + 1 + n, line + 1, n, rest⟩) := by
  have hspaces := scanGap_spaces margin fuel (index + 1) (line + 1) hrest (g := ⟨[], [['\n']]⟩) (by simp) n 0
  rw [Nat.zero_add] at hspaces
  rw [scanGap]
  simpa [isBlank, isBreak, Cursor.skipBreak, Cursor.breakText] using hspaces

/-- what becomes of a word depends on what follows it -/
theorem plainScalar_word (h : IsWord w) (margin fuel index line column : Nat) {rest : List Char}
    (hrest : plainWord false rest = some ([], rest)) :
    plainScalar false margin (fuel + 1) ⟨index, line, column, w ++ rest⟩ =
      if rest.isEmpty || !atGap rest then some (w, false, ⟨index + w.length, line, column + w.length, rest⟩)
      else (scanGap margin false (fuel + 1) ⟨index + w.length, line, column + w.length, rest⟩ ⟨[], []⟩).bind
        fun (gap, c) => if c.column < margin then some (w, !gap.breaks.isEmpty, c)
          else plainFrom false margin fuel c w.reverse gap := by
  have hmarker : Cursor.atDocumentMarker ⟨index, line, column, w ++ rest⟩ = false := by
    rw [Cursor.atDocumentMarker, atMarker_word h _ _ _ _ (.inl rfl), atMarker_word h _ _ _ _ (.inr rfl)]
    rfl
  have hcomment : ((w ++ rest).head? == some '#') = false := by
    obtain ⟨c, w', hcons, hc⟩ := h.exists_cons
    rw [beq_eq_false_iff_ne, hcons]
    exact fun heq => (ne_of_isPlainChar hc).2.1 (Option.some.inj heq)
  have hword := plainWord_append h.chars hrest
  rw [plainScalar, plainFrom]
  dsimp only
  rw [hmarker, hcomment, hword]
  obtain ⟨c, w', rfl, -⟩ := h.exists_cons
  have hbefore : (c :: w').reverse ++ ((Gap.text ⟨[], []⟩).reverse ++ []) = (c :: w').reverse := List.append_nil _
  rw [Bool.or_self, if_neg Bool.false_ne_true]
  dsimp only
  rw [hbefore, List.reverse_reverse]
  by_cases hend : (rest.isEmpty || !atGap rest) = true
  · rw [if_pos hend, if_pos hend]
    rfl
  · rw [if_neg hend, if_neg hend]
    cases hgap : scanGap margin false (fuel + 1)
        (Cursor.past ⟨index, line, column, c :: w' ++ rest⟩ (c :: w').length rest) ⟨[], []⟩ with
    | none =>
      simp only [Cursor.past] at hgap
      rw [hgap]
      rfl
    | some p =>
      simp only [Cursor.past] at hgap
      rw [hgap]
      simp

/-- a word before a colon is a scalar of its own -/
theorem plainScalar_key (h : IsWord w) (margin fuel index line column : Nat) {rest : List Char}
    (hrest : atGap rest = true) :
    plainScalar false margin (fuel + 1) ⟨index, line, column, w ++ ':' :: rest⟩ =
      some (w, false, ⟨index + w.length, line, column + w.length, ':' :: rest⟩) := by
  have hgap : atGap (':' :: rest) = false := by simp [atGap, isBlank, isBreak]
  rw [plainScalar_word h margin fuel index line column (plainWord_colon hrest), if_pos (by rw [hgap]; rfl)]

/-- A word at the end of a line is a scalar of its own if the next line is not indented further. What is read with it
ends where the next token begins. -/
theorem plainScalar_line (h : IsWord w) {margin fuel n : Nat} (index line column : Nat) {rest : List Char}
    (hrest : atToken rest = true) (hn : n < margin) (hfuel : n < fuel) :
    plainScalar false margin (fuel + 1) ⟨index, line, column, w ++ '\n' :: (spaces n ++ rest)⟩ =
      some (w, true, ⟨index + w.length + 1 + n, line + 1, n, rest⟩) := by
  obtain ⟨more, rfl⟩ : ∃ more, fuel = more + n + 1 := ⟨fuel - n - 1, by omega⟩
  have hgap := scanGap_line margin more (index + w.length) line (column + w.length) n hrest
  have hopen : atGap ('\n' :: (spaces n ++ rest)) = true := by simp [atGap, isBreak]
  rw [plainScalar_word h margin _ index line column (plainWord_break _),
    if_neg (by rw [hopen]; exact Bool.false_ne_true), hgap, Option.bind_some]
  exact if_pos hn

/-- no token but a plain scalar begins as a word does -/
theorem token_word (h : IsWord w) (fuel : Nat) {s : Scan} (hflow : s.inFlow = false) {c : Char} {cs rest : List Char}
    (hrest : s.cursor.rest = w ++ rest) (hcs : w ++ rest = c :: cs) : s.token fuel c cs = s.plain fuel := by
  have hmarker : ∀ mark, mark = '-' ∨ mark = '.' → s.cursor.atMarker mark = false := by
    intro mark hmark
    have hword := atMarker_word h s.cursor.index s.cursor.line s.cursor.column rest hmark
    rwa [← hrest] at hword
  have hdash := hmarker '-' (.inl rfl)
  have hdot := hmarker '.' (.inr rfl)
  obtain ⟨hchars, hstarts⟩ := h
  unfold startsWord at hstarts
  split at hstarts
  · next d w =>
    -- a minus is no dash of a list, because no blank follows
    obtain ⟨-, hd, -⟩ : isPlainChar '-' = true ∧ isPlainChar d = true ∧ ∀ x ∈ w, isPlainChar x = true := by
      simpa only [List.forall_mem_cons] using hchars
    cases hcs
    simp [Scan.token, hdash, hdot, atGap, isBlank_of_isPlainChar hd, isBreak_of_isPlainChar hd]
  · next d w =>
    cases hcs
    simp [Scan.token, hdash, hdot, Scan.isIndicator]
  · next d w _ _ =>
    cases hcs
    have hindicator : Scan.isIndicator c = false := by
      rw [Bool.and_eq_true, Bool.not_eq_true'] at hstarts
      exact hstarts.1
    have hne := hindicator
    simp only [Scan.isIndicator, List.contains_cons, List.contains_nil, Bool.or_false, Bool.or_eq_false_iff] at hne
    obtain ⟨h1, h2, h3, h4, h5, h6, h7, h8, h9, h10, h11, h12, h13, h14, h15, h16, h17, -⟩ := hne
    simp [Scan.token, *]
  · exact absurd hstarts Bool.false_ne_true

end

end RankEval.Yaml
