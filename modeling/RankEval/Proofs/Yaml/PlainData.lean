/-
Data that YAML writes without quotes. Their scalars are words, each at the end of a line, and all of their characters
may stand in a YAML text.

- `IsPlain`: such data.
- `plainAllowed_of_isWord`, `isWord_text`: words that are texts, and words that are numbers.
- `renderValue_append`, `renderItem_append`: what needs no lines of its own is one word.
- `all_renderMembers`: the characters of a record.
-/
import RankEval.Proofs.Decimal.Layouts
import RankEval.Proofs.Yaml.Words

namespace RankEval.Yaml

open Decimal (IsMagnitude IsNumeralChar exists_digitChar)

/-! ## Data that need no quotes -/

/-- a text that is written as it is, and read as nothing else -/
@[mk_iff] structure IsPlainText (s : String) : Prop where
  word : IsWord s.toList
  means : Scalar.isText s = true
  unpadded : Scalar.isPadded s.toList = false

instance (s : String) : Decidable (IsPlainText s) := decidable_of_iff' _ (isPlainText_iff s)

/-- a key that is found again behind its colon -/
@[mk_iff] structure IsKey (key : String) : Prop where
  word : IsWord key.toList
  length : key.toList.length ≤ Scan.keyLimit

instance (key : String) : Decidable (IsKey key) := decidable_of_iff' _ (isKey_iff key)

/-- whether data need lines of their own -/
def isNested : Datum → Bool
  | .list _ => true
  | .record _ => true
  | _ => false

def isList : Datum → Bool
  | .list _ => true
  | _ => false

mutual

/-- Data with texts that need no quotes, in which no record is empty and no list an item of another. -/
def IsPlain : Datum → Prop
  | .text s => IsPlainText s
  | .list xs => PlainItems xs
  | .record xs => xs ≠ [] ∧ PlainMembers xs
  | _ => True

def PlainItems : List Datum → Prop
  | [] => True
  | x :: xs => isList x = false ∧ IsPlain x ∧ PlainItems xs

def PlainMembers : List (String × Datum) → Prop
  | [] => True
  | (key, x) :: xs => IsKey key ∧ IsPlain x ∧ PlainMembers xs

end

theorem plainItems_iff (xs : List Datum) : PlainItems xs ↔ ∀ x ∈ xs, isList x = false ∧ IsPlain x := by
  induction xs with
  | nil => simp [PlainItems]
  | cons x xs ih => rw [PlainItems, List.forall_mem_cons, ih, and_assoc]

theorem plainMembers_iff (xs : List (String × Datum)) : PlainMembers xs ↔ ∀ e ∈ xs, IsKey e.1 ∧ IsPlain e.2 := by
  induction xs with
  | nil => simp [PlainMembers]
  | cons x xs ih =>
    obtain ⟨key, x⟩ := x
    rw [PlainMembers, List.forall_mem_cons, ih, and_assoc]

theorem isPlain_listOf {α : Type} {datum : α → Datum} {xs : List α}
    (h : ∀ x ∈ xs, isList (datum x) = false ∧ IsPlain (datum x)) : IsPlain (.listOf datum xs) := by
  rw [Datum.listOf, IsPlain, plainItems_iff]
  exact List.forall_mem_map.2 h

theorem isPlain_optional (x : Option Float) : IsPlain (.optional .number x) := by
  cases x <;> simp [Datum.optional, IsPlain]

/-! ## Words of data -/

/-- what data are written as that need no lines of their own -/
def word : Datum → List Char
  | .null => ['n', 'u', 'l', 'l']
  | .flag b => if b then ['t', 'r', 'u', 'e'] else ['f', 'a', 'l', 's', 'e']
  | .count n => Nat.toDigits 10 n
  | .number x => (numberLayout.text x).toList
  | .text s => s.toList
  | .list _ => ['[', ']']
  | .record _ => ['\x7b', '\x7d']

theorem isPlainChar_of_isNumeralChar {c : Char} (h : IsNumeralChar c) : isPlainChar c = true := by
  rcases h with h | rfl | rfl | rfl | rfl
  · obtain ⟨d, hd, rfl⟩ := exists_digitChar h
    have hdigit : ∀ d < 10, isPlainChar (Nat.digitChar d) = true := by decide
    exact hdigit d hd
  · decide
  · decide
  · decide
  · decide

theorem startsWord_of_isDigit {c : Char} (h : c.isDigit = true) (rest : List Char) : startsWord (c :: rest) = true := by
  obtain ⟨d, hd, rfl⟩ := exists_digitChar h
  interval_cases d <;> rfl

theorem isWord_of_isMagnitude {cs : List Char} (h : IsMagnitude cs) : IsWord cs := by
  obtain ⟨c, rest, rfl, hc⟩ := h.head
  exact ⟨fun d hd => isPlainChar_of_isNumeralChar (h.chars d hd), startsWord_of_isDigit hc rest⟩

theorem isWord_minus {cs : List Char} (h : IsMagnitude cs) : IsWord ('-' :: cs) := by
  obtain ⟨c, rest, rfl, hc⟩ := h.head
  refine ⟨List.forall_mem_cons.2 ⟨by decide, (isWord_of_isMagnitude h).chars⟩, bne_iff_ne.2 ?_⟩
  rintro rfl
  exact absurd hc (by decide)

theorem isWord_toDigits (n : Nat) : IsWord (Nat.toDigits 10 n) := by
  have hmagnitude := (Decimal.areDigits_toDigits n).isMagnitude_append (List.forall_mem_nil _)
  rw [List.append_nil] at hmagnitude
  exact isWord_of_isMagnitude hmagnitude

/-- what a double is written as, finite or not -/
theorem isWord_text (x : Float) : IsWord (numberLayout.text x).toList := by
  cases hx : Decimal.Binary.ofFloat x with
  | nan =>
    rw [Decimal.Layout.text, hx]
    decide +kernel
  | infinite negative =>
    rw [Decimal.Layout.text, hx]
    cases negative <;> decide +kernel
  | finite negative m q =>
    have hmagnitude := Decimal.Layout.isMagnitude_magnitudeOf (l := numberLayout) (.inl rfl) m q
    rw [Decimal.Layout.toList_text _ hx]
    cases negative with
    | true => exact isWord_minus hmagnitude
    | false => exact isWord_of_isMagnitude hmagnitude

theorem isWord_word {d : Datum} (hd : IsPlain d) (hnested : isNested d = false) : IsWord (word d) := by
  cases d with
  | null =>
    rw [word]
    decide +kernel
  | flag b =>
    rw [word]
    cases b <;> decide +kernel
  | count n => exact isWord_toDigits n
  | number x => exact isWord_text x
  | text s => rw [IsPlain] at hd; exact hd.word
  | list xs => cases hnested
  | record xs => cases hnested

theorem isPrintable_of_isPlainChar {c : Char} (h : isPlainChar c = true) : isPrintable c = true := by
  have hallowed := isAllowed_of_isPlainChar h
  have hblank := isBlank_of_isPlainChar h
  have hbreak := isBreak_of_isPlainChar h
  obtain ⟨-, -, hmark⟩ := ne_of_isPlainChar h
  have hcode : ∀ {d : Char}, c ≠ d → c.toNat ≠ d.toNat := fun hne heq => hne (Char.toNat_inj.1 heq)
  simp only [isBlank, isBreak, Bool.or_eq_false_iff, beq_eq_false_iff_ne] at hblank hbreak
  have htab : c.toNat ≠ 0x9 := hcode hblank.2
  have hreturn : c.toNat ≠ 0xD := hcode hbreak.1.1.1.2
  have hnext : c.toNat ≠ 0x85 := hcode hbreak.1.1.2
  have hbyteOrder : c.toNat ≠ 0xFEFF := hcode hmark
  simp only [isAllowed, isPrintable, Bool.or_eq_true, Bool.and_eq_true, beq_iff_eq, bne_iff_ne, decide_eq_true_eq]
    at hallowed ⊢
  omega

theorem hasInnerMark_of_chars {cs : List Char} (h : ∀ c ∈ cs, isPlainChar c = true) (spaced : Bool) :
    hasInnerMark spaced cs = false := by
  induction cs generalizing spaced with
  | nil => rfl
  | cons c cs ih =>
    obtain ⟨hc, hcs⟩ := List.forall_mem_cons.1 h
    obtain ⟨hcolon, hcomment, -⟩ := ne_of_isPlainChar hc
    simp [hasInnerMark, hcolon, hcomment, ih hcs]

/-- a word may stand as it is -/
theorem plainAllowed_of_isWord {w : List Char} (h : IsWord w) : plainAllowed w = true := by
  have hprintable : w.all isPrintable = true :=
    List.all_eq_true.2 fun c hc => isPrintable_of_isPlainChar (h.chars c hc)
  have hbreak : w.any isBreak = false :=
    List.any_eq_false.2 fun c hc => Bool.eq_false_iff.1 (isBreak_of_isPlainChar (h.chars c hc))
  have hloose : hasLooseEnd w = false := by
    have hnone : ∀ c ∈ w, (isSpace c || isBreak c) = false := by
      intro c hc
      have hblank := isBlank_of_isPlainChar (h.chars c hc)
      rw [isBlank, Bool.or_eq_false_iff] at hblank
      rw [isSpace, hblank.1, isBreak_of_isPlainChar (h.chars c hc)]
      rfl
    rw [hasLooseEnd, Bool.or_eq_false_iff, Option.any_eq_false_iff_get, Option.any_eq_false_iff_get]
    exact ⟨fun _ => hnone _ (List.mem_of_head? (Option.some_get _).symm),
      fun _ => hnone _ (List.mem_of_getLast? (Option.some_get _).symm)⟩
  have hmark : hasMark w = false := by
    obtain ⟨hchars, hstarts⟩ := h
    have hinner := hasInnerMark_of_chars hchars false
    unfold startsWord at hstarts
    split at hstarts
    · next c rest =>
      obtain ⟨-, hc, -⟩ : isPlainChar '-' = true ∧ isPlainChar c = true ∧ ∀ x ∈ rest, isPlainChar x = true := by
        simpa only [List.forall_mem_cons] using hchars
      have hne : c ≠ '-' := bne_iff_ne.1 hstarts
      simp [hasMark, hinner, hne, isStartMark, atGap, isBlank_of_isPlainChar hc, isBreak_of_isPlainChar hc]
    · next c rest =>
      have hne : c ≠ '.' := bne_iff_ne.1 hstarts
      simp [hasMark, hinner, hne, isStartMark]
    · next c rest _ _ =>
      simp only [Scan.isIndicator, List.contains_cons, List.contains_nil, Bool.or_false, Bool.and_eq_true,
        Bool.not_eq_true', Bool.or_eq_false_iff, beq_eq_false_iff_ne, bne_iff_ne] at hstarts
      simp [hasMark, hinner, isStartMark, hstarts]
    · exact absurd hstarts Bool.false_ne_true
  rw [plainAllowed, hprintable, hbreak, hloose, hmark]
  rfl

/-- what needs no lines of its own is written as one word -/
theorem scalar_eq {d : Datum} (hd : IsPlain d) (hnested : isNested d = false) (column : Nat) :
    scalar column d = word d ++ ['\n'] := by
  cases d with
  | text s =>
    rw [IsPlain] at hd
    have hbreak : s.toList.contains '\n' = false := by
      rw [List.contains_eq_mem, decide_eq_false_iff_not]
      exact fun hmem => Bool.noConfusion (isBreak_of_isPlainChar (hd.word.chars _ hmem))
    simp only [scalar, textScalar, hbreak, hd.means, hd.unpadded, plainAllowed_of_isWord hd.word]
    rfl
  | null => rfl
  | flag b => rfl
  | count n => rfl
  | number x => rfl
  | list xs => cases hnested
  | record xs => cases hnested

theorem renderValue_append {d : Datum} (hd : IsPlain d) (hnested : isNested d = false) (column : Nat)
    (text : List Char) : renderValue column d ++ text = ' ' :: (word d ++ '\n' :: text) := by
  have hscalar := scalar_eq hd hnested column
  cases d with
  | list xs => cases hnested
  | record xs => cases hnested
  | _ => simp [renderValue, hscalar]

theorem renderItem_append {d : Datum} (hd : IsPlain d) (hnested : isNested d = false) (column : Nat)
    (text : List Char) : renderItem column d ++ text = word d ++ '\n' :: text := by
  have hscalar := scalar_eq hd hnested column
  cases d with
  | list xs => cases hnested
  | record xs => cases hnested
  | _ => simp [renderItem, hscalar]

/-! ## Texts -/

theorem all_spaces (n : Nat) : (spaces n).all isAllowed = true := by
  rw [List.all_eq_true]
  intro c hc
  rw [List.eq_of_mem_replicate hc]
  rfl

theorem IsWord.all_isAllowed {w : List Char} (h : IsWord w) : w.all isAllowed = true :=
  List.all_eq_true.2 fun c hc => isAllowed_of_isPlainChar (h.chars c hc)

theorem all_marks : isAllowed ' ' = true ∧ isAllowed '\n' = true ∧ isAllowed ':' = true ∧ isAllowed '-' = true ∧
    isAllowed '[' = true ∧ isAllowed ']' = true := by decide

theorem all_word {d : Datum} (hd : IsPlain d) (hnested : isNested d = false) (n : Nat) :
    (renderValue n d).all isAllowed = true ∧ (renderItem n d).all isAllowed = true := by
  have hword := (isWord_word hd hnested).all_isAllowed
  have hvalue := renderValue_append hd hnested n []
  have hitem := renderItem_append hd hnested n []
  rw [List.append_nil] at hvalue hitem
  rw [hvalue, hitem]
  simp [hword, all_marks]

mutual

theorem all_renderValue : ∀ {d : Datum}, IsPlain d → ∀ n, (renderValue n d).all isAllowed = true
  | .list [], _, n => by
    rw [renderValue, scalar]
    · rfl
    all_goals nofun
  | .list (x :: xs), hd, n => by
    rw [IsPlain] at hd
    simp [renderValue, all_marks, all_renderItems hd n]
  | .record [], _, n => by
    rw [renderValue, scalar]
    · rfl
    all_goals nofun
  | .record (m :: ms), hd, n => by
    rw [IsPlain] at hd
    simp [renderValue, all_marks, all_renderMembers hd.2 (n + 2)]
  | .null, hd, n => (all_word hd rfl n).1
  | .flag _, hd, n => (all_word hd rfl n).1
  | .count _, hd, n => (all_word hd rfl n).1
  | .number _, hd, n => (all_word hd rfl n).1
  | .text _, hd, n => (all_word hd rfl n).1

theorem all_renderItem : ∀ {d : Datum}, isList d = false → IsPlain d → ∀ n, (renderItem n d).all isAllowed = true
  | .list _, hlist, _, _ => Bool.noConfusion hlist
  | .record [], _, hd, _ => by
    rw [IsPlain] at hd
    exact absurd rfl hd.1
  | .record (m :: ms), _, hd, n => by
    rw [IsPlain] at hd
    rw [renderItem]
    exact all_renderMembers hd.2 (n + 2) true
  | .null, _, hd, n => (all_word hd rfl n).2
  | .flag _, _, hd, n => (all_word hd rfl n).2
  | .count _, _, hd, n => (all_word hd rfl n).2
  | .number _, _, hd, n => (all_word hd rfl n).2
  | .text _, _, hd, n => (all_word hd rfl n).2

theorem all_renderItems : ∀ {xs : List Datum}, PlainItems xs → ∀ n, (renderItems n false xs).all isAllowed = true
  | [], _, n => by
    rw [renderItems]
    rfl
  | x :: xs, hxs, n => by
    rw [PlainItems] at hxs
    obtain ⟨hlist, hx, hxs⟩ := hxs
    simp [renderItems, all_marks, all_spaces, all_renderItem hlist hx n, all_renderItems hxs n]

theorem all_renderMembers : ∀ {xs : List (String × Datum)}, PlainMembers xs → ∀ n (inline : Bool),
    (renderMembers n inline xs).all isAllowed = true
  | [], _, n, inline => by
    rw [renderMembers]
    rfl
  | (key, x) :: xs, hxs, n, inline => by
    rw [PlainMembers] at hxs
    obtain ⟨hkey, hx, hxs⟩ := hxs
    have hspaces : (if inline then [] else spaces n).all isAllowed = true := by
      cases inline
      · exact all_spaces n
      · rfl
    simp only [renderMembers, List.all_append, List.all_cons, hspaces, hkey.word.all_isAllowed, all_marks,
      all_renderValue hx n, all_renderMembers hxs n false, Bool.and_self]

end

end RankEval.Yaml
