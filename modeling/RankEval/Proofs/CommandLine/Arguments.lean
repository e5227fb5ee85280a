/-
Which arguments give which options. An option with values can be written in several ways: its name and then the values,
or its name and one value in a single argument. The arguments that are nothing but such options, one after the other,
are those from which nothing but options with values is read.

- `Written`: the ways to write one option.
- `Gives`: options one after the other.
- `opened_name`, `opened_equals`, `opened_attached`, `opened_cases`: what a single argument opens.
- `given_of_gives`: options are read as what they give.
- `Takes`, `gives_of_settled`: nothing else is read as options with values alone.
-/
import Mathlib.Data.List.TakeWhile
import RankEval.CommandLine.Arguments

namespace RankEval.CommandLine

/-! ## What is written -/

/-- an argument that is not taken for an option: one that does not start with a dash, or a dash alone -/
def IsValue (arg : String) : Prop := arg.toList.head? ≠ some '-' ∨ arg = "-"

instance (arg : String) : Decidable (IsValue arg) := inferInstanceAs (Decidable (_ ∨ _))

/-- the names of an option: its letter behind one dash and its word behind two -/
def names (letter : Option Char) (word : Option String) : List String :=
  letter.toList.map (fun c => String.ofList ['-', c]) ++ word.toList.map fun w => "--" ++ w

/-- The arguments by which an option is given values: its name with the values behind it, or its name and one value in a
single argument, where only a letter can do without an equals sign. -/
inductive Written (letter : Option Char) (word : Option String) : List String → List String → Prop
  | apart {name : String} {values : List String} (hname : name ∈ names letter word)
    (hvalues : ∀ value ∈ values, IsValue value) : Written letter word values (name :: values)
  | equals {name : String} (hname : name ∈ names letter word) (value : String) :
    Written letter word [value] [name ++ "=" ++ value]
  | attached {c : Char} {value : String} (hletter : letter = some c) (hne : value ≠ "")
    (hequals : value.toList.head? ≠ some '=') : Written letter word [value] [String.ofList ['-', c] ++ value]

theorem mem_names_iff {letter : Option Char} {word : Option String} {name : String} : name ∈ names letter word ↔
    (∃ c, letter = some c ∧ name = String.ofList ['-', c]) ∨ ∃ w, word = some w ∧ name = "--" ++ w := by
  simp [names, eq_comm]

/-! ## The form of an argument -/

theorem formOf_eq_plain_iff (arg : String) : formOf arg.toList = .plain ↔ IsValue arg := by
  have hdash : arg = "-" ↔ arg.toList = ['-'] := by
    rw [← String.toList_inj]
    rfl
  rw [IsValue, hdash]
  unfold formOf
  split
  · simp_all
  · simp_all
  · simp_all
  · simp_all
  · next hplain =>
    refine iff_of_true rfl (.inl fun hhead => ?_)
    obtain ⟨cs, hcs⟩ := List.head?_eq_some_iff.1 hhead
    exact hplain cs hcs

theorem formOf_letters {c : Char} (hc : c ≠ '-') (cs : List Char) : formOf ('-' :: c :: cs) = .letters (c :: cs) := by
  unfold formOf
  split <;> simp_all

theorem formOf_word {cs : List Char} (hne : cs ≠ []) :
    formOf ('-' :: '-' :: cs) = .word (splitEquals cs).1 (splitEquals cs).2 := by
  obtain ⟨c, cs, rfl⟩ := List.exists_cons_of_ne_nil hne
  rfl

theorem splitEquals_of_not_mem {cs : List Char} (h : '=' ∉ cs) : splitEquals cs = (cs, none) := by
  have hdrop : cs.dropWhile (· != '=') = [] := by
    rw [List.dropWhile_eq_nil_iff]
    intro c hc
    exact bne_iff_ne.2 (ne_of_mem_of_not_mem hc h)
  rw [splitEquals, hdrop]

theorem splitEquals_append {cs : List Char} (h : '=' ∉ cs) (value : List Char) :
    splitEquals (cs ++ '=' :: value) = (cs, some value) := by
  have hall : ∀ c ∈ cs, (c != '=') = true := fun c hc => bne_iff_ne.2 (ne_of_mem_of_not_mem hc h)
  rw [splitEquals, List.dropWhile_append_of_pos hall, List.takeWhile_append_of_pos hall]
  simp

/-- what stands before and behind the first equals sign makes up the whole -/
theorem eq_of_splitEquals (cs : List Char) :
    cs = (splitEquals cs).1 ++ (splitEquals cs).2.elim [] fun value => '=' :: value := by
  have happend := List.takeWhile_append_dropWhile (p := (· != '=')) (l := cs)
  have hfirst := List.head?_dropWhile_not (· != '=') cs
  unfold splitEquals
  cases hdrop : cs.dropWhile (· != '=') with
  | nil => simp
  | cons c value =>
    rw [hdrop] at happend hfirst
    obtain rfl : c = '=' := by simpa using hfirst
    exact happend.symm

/-! ## What an argument opens -/

section
variable {ι : Type} {known : List (Switch ι)}

/-- what is given by an argument that is taken for an option, and whether it waits for values -/
def opened (known : List (Switch ι)) (arg : String) : List (Given ι) × Option (Waiting ι) :=
  match formOf arg.toList with
  | .word name value => byWord known name value
  | .letters cs => byLetters known cs
  | _ => ([], none)

theorem givenFrom_option {arg : String} (hplain : formOf arg.toList ≠ .plain) (hdashes : formOf arg.toList ≠ .twoDashes)
    (waiting : Option (Waiting ι)) (rest : List String) : givenFrom known waiting (arg :: rest) =
      closed waiting ++ ((opened known arg).1 ++ givenFrom known (opened known arg).2 rest) := by
  rw [givenFrom.eq_def, opened]
  cases hform : formOf arg.toList with
  | twoDashes => exact absurd hform hdashes
  | plain => exact absurd hform hplain
  | word name value => simp [hform]
  | letters cs => simp [hform]

/-- No two options share a letter or a word, and every name can be told from what is no name. -/
structure Lawful (known : List (Switch ι)) : Prop where
  letters : (known.filterMap Switch.letter).Nodup
  words : (known.filterMap Switch.word).Nodup
  dash : '-' ∉ known.filterMap Switch.letter
  named : ∀ w ∈ known.filterMap Switch.word, w ≠ "" ∧ '=' ∉ w.toList

/-- an option is found by what no other option has -/
theorem find?_eq_some {β : Type} [DecidableEq β] {f : Switch ι → Option β} (hnodup : (known.filterMap f).Nodup)
    {s : Switch ι} (hs : s ∈ known) {b : β} (hb : f s = some b) : (known.find? fun s => f s == some b) = some s := by
  induction known with
  | nil => cases hs
  | cons a known ih =>
    rw [List.find?_cons]
    rcases List.mem_cons.1 hs with rfl | hs
    · simp [hb]
    · have hmem : b ∈ known.filterMap f := List.mem_filterMap.2 ⟨s, hs, hb⟩
      cases ha : f a with
      | none =>
        rw [List.filterMap_cons_none ha] at hnodup
        exact ih hnodup hs
      | some other =>
        rw [List.filterMap_cons_some ha, List.nodup_cons] at hnodup
        have hne : (other == b) = false := beq_false_of_ne fun heq => hnodup.1 (heq ▸ hmem)
        simpa [hne] using ih hnodup.2 hs

section
variable {s : Switch ι} (hlawful : Lawful known) (hs : s ∈ known)
include hlawful hs

theorem find?_letter {c : Char} (hc : s.letter = some c) :
    c ≠ '-' ∧ (known.find? fun s => s.letter == some c) = some s := by
  refine ⟨?_, find?_eq_some hlawful.letters hs hc⟩
  rintro rfl
  exact hlawful.dash (List.mem_filterMap.2 ⟨s, hs, hc⟩)

theorem find?_word {w : String} (hw : s.word = some w) : w.toList ≠ [] ∧ '=' ∉ w.toList ∧
    (known.find? fun s => s.word == some (String.ofList w.toList)) = some s := by
  obtain ⟨hne, hequals⟩ := hlawful.named w (List.mem_filterMap.2 ⟨s, hs, hw⟩)
  refine ⟨by simpa using hne, hequals, ?_⟩
  rw [String.ofList_toList]
  exact find?_eq_some hlawful.words hs hw

variable (harity : s.arity ≠ .none)
include harity

/-- a name alone opens its option, which then waits for values -/
theorem opened_name {name : String} (hname : name ∈ names s.letter s.word) :
    (formOf name.toList ≠ .plain ∧ formOf name.toList ≠ .twoDashes) ∧
      opened known name = ([], some ⟨s.id, s.arity, []⟩) := by
  rcases mem_names_iff.1 hname with ⟨c, hc, rfl⟩ | ⟨w, hw, rfl⟩
  · obtain ⟨hdash, hfind⟩ := find?_letter hlawful hs hc
    have hform : formOf (String.ofList ['-', c]).toList = .letters [c] := by
      rw [String.toList_ofList]
      exact formOf_letters hdash []
    rw [opened, hform]
    refine ⟨by simp, ?_⟩
    simp only [byLetters, hfind, if_neg harity]
  · obtain ⟨hne, hequals, hfind⟩ := find?_word hlawful hs hw
    have hform : formOf ("--" ++ w).toList = .word w.toList none := by
      rw [String.toList_append]
      exact (formOf_word hne).trans (by rw [splitEquals_of_not_mem hequals])
    rw [opened, hform]
    refine ⟨by simp, ?_⟩
    simp only [byWord, hfind, if_neg harity]

/-- so does a name with a value behind an equals sign, and the option has the value -/
theorem opened_equals {name : String} (hname : name ∈ names s.letter s.word) (value : String) :
    (formOf (name ++ "=" ++ value).toList ≠ .plain ∧ formOf (name ++ "=" ++ value).toList ≠ .twoDashes) ∧
      opened known (name ++ "=" ++ value) = ([.option s.id [value]], none) := by
  have hvalue : String.ofList value.toList = value := String.ofList_toList
  rcases mem_names_iff.1 hname with ⟨c, hc, rfl⟩ | ⟨w, hw, rfl⟩
  · obtain ⟨hdash, hfind⟩ := find?_letter hlawful hs hc
    have hform : formOf (String.ofList ['-', c] ++ "=" ++ value).toList = .letters (c :: '=' :: value.toList) := by
      rw [String.toList_append, String.toList_append, String.toList_ofList]
      exact formOf_letters hdash _
    rw [opened, hform]
    refine ⟨by simp, ?_⟩
    simp only [byLetters, hfind, if_neg harity, hvalue]
  · obtain ⟨hne, hequals, hfind⟩ := find?_word hlawful hs hw
    have hform : formOf ("--" ++ w ++ "=" ++ value).toList = .word w.toList (some value.toList) := by
      rw [String.toList_append, String.toList_append, String.toList_append, List.append_assoc]
      refine (formOf_word (List.append_ne_nil_of_left_ne_nil hne _)).trans ?_
      rw [show "=".toList ++ value.toList = '=' :: value.toList from rfl, splitEquals_append hequals]
    rw [opened, hform]
    refine ⟨by simp, ?_⟩
    simp only [byWord, hfind, if_neg harity, hvalue]

/-- and so does a letter with a value right behind it -/
theorem opened_attached {c : Char} (hc : s.letter = some c) {value : String} (hne : value ≠ "")
    (hequals : value.toList.head? ≠ some '=') :
    (formOf (String.ofList ['-', c] ++ value).toList ≠ .plain ∧
      formOf (String.ofList ['-', c] ++ value).toList ≠ .twoDashes) ∧
      opened known (String.ofList ['-', c] ++ value) = ([.option s.id [value]], none) := by
  obtain ⟨hdash, hfind⟩ := find?_letter hlawful hs hc
  have hform : formOf (String.ofList ['-', c] ++ value).toList = .letters (c :: value.toList) := by
    rw [String.toList_append, String.toList_ofList]
    exact formOf_letters hdash _
  rw [opened, hform]
  refine ⟨by simp, ?_⟩
  simp only [byLetters, hfind, if_neg harity]
  split
  · next hnil => exact absurd (String.toList_eq_nil_iff.1 hnil) hne
  · next cs hcs => simp [hcs] at hequals
  · rw [String.ofList_toList]

end

/-! ## Options one after the other -/

/-- Arguments that give options with values, one after the other; two dashes may stand behind them. -/
inductive Gives (known : List (Switch ι)) : List String → List (Given ι) → Prop
  | nil : Gives known [] []
  | dashes : Gives known ["--"] []
  | option {s : Switch ι} {values written args : List String} {gs : List (Given ι)} (hs : s ∈ known)
    (harity : s.arity ≠ .none) (hcount : s.arity = .several ∨ values.length ≤ 1)
    (hwritten : Written s.letter s.word values written) (h : Gives known args gs) :
    Gives known (written ++ args) (.option s.id values :: gs)

/-- an option takes the values behind it, up to an argument that is none -/
theorem givenFrom_values {rest : List String} {gs : List (Given ι)}
    (hrest : ∀ waiting, givenFrom known waiting rest = closed waiting ++ gs) (values : List String) :
    ∀ w : Waiting ι, (∀ value ∈ values, IsValue value) → (w.arity = .several ∨ values.length ≤ 1) →
      givenFrom known (some w) (values ++ rest) = .option w.id (w.values ++ values) :: gs := by
  induction values with
  | nil =>
    intro w _ _
    rw [List.nil_append, hrest, List.append_nil]
    rfl
  | cons value values ih =>
    intro w hvalues hcount
    obtain ⟨hvalue, hvalues⟩ := List.forall_mem_cons.1 hvalues
    rw [List.cons_append, givenFrom.eq_def]
    simp only [(formOf_eq_plain_iff value).2 hvalue]
    by_cases hseveral : w.arity = .several
    · rw [if_pos hseveral]
      refine (ih { w with values := w.values ++ [value] } hvalues (.inl hseveral)).trans ?_
      rw [List.append_assoc]
      rfl
    · obtain rfl : values = [] := by
        simpa [hseveral] using hcount
      rw [if_neg hseveral, List.nil_append, hrest]
      rfl

/-- **Options are read as what they give.** -/
theorem given_of_gives (hlawful : Lawful known) {args : List String} {gs : List (Given ι)} (h : Gives known args gs) :
    ∀ waiting, givenFrom known waiting args = closed waiting ++ gs := by
  induction h with
  | nil =>
    intro waiting
    rw [List.append_nil]
    cases waiting <;> rfl
  | dashes =>
    intro waiting
    cases waiting <;> rfl
  | option hs harity hcount hwritten h ih =>
    intro waiting
    cases hwritten with
    | apart hname hvalues =>
      obtain ⟨⟨hplain, hdashes⟩, hopened⟩ := opened_name hlawful hs harity hname
      rw [List.cons_append, givenFrom_option hplain hdashes, hopened, List.nil_append,
        givenFrom_values ih _ _ hvalues hcount]
      rfl
    | equals hname value =>
      obtain ⟨⟨hplain, hdashes⟩, hopened⟩ := opened_equals hlawful hs harity hname value
      rw [List.singleton_append, givenFrom_option hplain hdashes, hopened, ih]
      rfl
    | attached hletter hne hequals =>
      obtain ⟨⟨hplain, hdashes⟩, hopened⟩ := opened_attached hlawful hs harity hletter hne hequals
      rw [List.singleton_append, givenFrom_option hplain hdashes, hopened, ih]
      rfl

/-! ## Nothing but options -/

theorem eq_of_formOf_word {cs name : List Char} {value : Option (List Char)} (h : formOf cs = .word name value) :
    cs = '-' :: '-' :: (name ++ value.elim [] fun value => '=' :: value) := by
  unfold formOf at h
  split at h
  · cases h
  · next cs _ =>
    cases h
    rw [← eq_of_splitEquals]
  · cases h
  · cases h
  · cases h

theorem eq_of_formOf_letters {cs letters : List Char} (h : formOf cs = .letters letters) :
    letters ≠ [] ∧ cs = '-' :: letters := by
  unfold formOf at h
  split at h
  · cases h
  · cases h
  · cases h
  · next hne =>
    cases h
    exact ⟨hne, rfl⟩
  · cases h

theorem formOf_eq_twoDashes_iff (arg : String) : formOf arg.toList = .twoDashes ↔ arg = "--" := by
  rw [← String.toList_inj]
  change _ ↔ arg.toList = ['-', '-']
  unfold formOf
  split <;> simp_all

/-- something that is read as an option with values -/
def Settled (known : List (Switch ι)) (g : Given ι) : Prop :=
  ∃ id values, g = .option id values ∧ ∀ s ∈ known, s.id = id → s.arity ≠ .none

theorem not_settled_strange : ¬ Settled known .strange := by
  rintro ⟨id, values, h, -⟩
  cases h

theorem not_settled_value (arg : String) : ¬ Settled known (.value arg) := by
  rintro ⟨id, values, h, -⟩
  cases h

theorem arity_ne_none_of_settled {s : Switch ι} (hs : s ∈ known) {values : List String}
    (h : Settled known (.option s.id values)) : s.arity ≠ .none := by
  obtain ⟨id, values, heq, harity⟩ := h
  cases heq
  exact harity s hs rfl

/-- a word that opens nothing but options with values is that of one of them -/
theorem byWord_cases {name : List Char} {value : Option (List Char)}
    (h : ∀ g ∈ (byWord known name value).1, Settled known g) : ∃ s ∈ known, s.arity ≠ .none ∧
      s.word = some (String.ofList name) ∧ (known.find? fun s => s.word == some (String.ofList name)) = some s := by
  unfold byWord at h
  cases hfind : known.find? fun s => s.word == some (String.ofList name) with
  | none =>
    rw [hfind] at h
    exact absurd (h _ (List.mem_singleton_self _)) not_settled_strange
  | some s =>
    rw [hfind] at h
    have hs : s ∈ known := List.mem_of_find?_eq_some hfind
    refine ⟨s, hs, fun harity => ?_, by simpa using List.find?_some hfind, rfl⟩
    cases value with
    | none =>
      dsimp only at h
      rw [if_pos harity] at h
      exact arity_ne_none_of_settled hs (h _ (List.mem_singleton_self _)) harity
    | some value =>
      dsimp only at h
      rw [if_pos harity] at h
      exact not_settled_strange (h _ (List.mem_singleton_self _))

/-- so is a letter -/
theorem byLetters_cases {c : Char} {cs : List Char} (h : ∀ g ∈ (byLetters known (c :: cs)).1, Settled known g) :
    ∃ s ∈ known, s.arity ≠ .none ∧ s.letter = some c ∧ (known.find? fun s => s.letter == some c) = some s := by
  unfold byLetters at h
  cases hfind : known.find? fun s => s.letter == some c with
  | none =>
    rw [hfind] at h
    exact absurd (h _ (List.mem_singleton_self _)) not_settled_strange
  | some s =>
    rw [hfind] at h
    have hs : s ∈ known := List.mem_of_find?_eq_some hfind
    refine ⟨s, hs, fun harity => ?_, by simpa using List.find?_some hfind, rfl⟩
    dsimp only at h
    rw [if_pos harity] at h
    exact arity_ne_none_of_settled hs (h _ List.mem_cons_self) harity

/-- an argument that opens nothing but options with values is written as one of them, or starts one -/
theorem opened_cases {arg : String} (hplain : formOf arg.toList ≠ .plain) (hdashes : formOf arg.toList ≠ .twoDashes)
    (h : ∀ g ∈ (opened known arg).1, Settled known g) : ∃ s ∈ known, s.arity ≠ .none ∧
      ((arg ∈ names s.letter s.word ∧ opened known arg = ([], some ⟨s.id, s.arity, []⟩)) ∨
        ∃ value, Written s.letter s.word [value] [arg] ∧ opened known arg = ([.option s.id [value]], none)) := by
  unfold opened at h ⊢
  cases hform : formOf arg.toList with
  | plain => exact absurd hform hplain
  | twoDashes => exact absurd hform hdashes
  | word name value =>
    rw [hform] at h
    obtain ⟨s, hs, harity, hword, hfind⟩ := byWord_cases h
    have hname : "--" ++ String.ofList name ∈ names s.letter s.word := mem_names_iff.2 (.inr ⟨_, hword, rfl⟩)
    have hcs := eq_of_formOf_word hform
    refine ⟨s, hs, harity, ?_⟩
    simp only [byWord, hfind]
    cases value with
    | none =>
      obtain rfl : arg = "--" ++ String.ofList name := by
        rw [← String.toList_inj, hcs]
        simp
      exact .inl ⟨hname, if_neg harity⟩
    | some value =>
      obtain rfl : arg = "--" ++ String.ofList name ++ "=" ++ String.ofList value := by
        rw [← String.toList_inj, hcs]
        simp
      exact .inr ⟨_, .equals hname _, if_neg harity⟩
  | letters cs =>
    obtain ⟨hne, hcs⟩ := eq_of_formOf_letters hform
    obtain ⟨c, cs, rfl⟩ := List.exists_cons_of_ne_nil hne
    rw [hform] at h
    obtain ⟨s, hs, harity, hletter, hfind⟩ := byLetters_cases h
    have hname : String.ofList ['-', c] ∈ names s.letter s.word := mem_names_iff.2 (.inl ⟨c, hletter, rfl⟩)
    refine ⟨s, hs, harity, ?_⟩
    simp only [byLetters, hfind, if_neg harity]
    split
    · obtain rfl : arg = String.ofList ['-', c] := by
        rw [← String.toList_inj, hcs]
        simp
      exact .inl ⟨hname, rfl⟩
    · next value =>
      obtain rfl : arg = String.ofList ['-', c] ++ "=" ++ String.ofList value := by
        rw [← String.toList_inj, hcs]
        simp
      exact .inr ⟨_, .equals hname _, rfl⟩
    · next hnil hequals =>
      obtain rfl : arg = String.ofList ['-', c] ++ String.ofList cs := by
        rw [← String.toList_inj, hcs]
        simp
      refine .inr ⟨_, .attached hletter (by simpa using hnil) fun hhead => ?_, rfl⟩
      rw [String.toList_ofList] at hhead
      obtain ⟨value, rfl⟩ := List.head?_eq_some_iff.1 hhead
      exact hequals value rfl

/-- an argument that is no value closes an option that waits -/
theorem givenFrom_some_of_ne_plain {arg : String} (hplain : formOf arg.toList ≠ .plain) (w : Waiting ι)
    (args : List String) :
    givenFrom known (some w) (arg :: args) = .option w.id w.values :: given known (arg :: args) := by
  by_cases hdashes : formOf arg.toList = .twoDashes
  · obtain rfl := (formOf_eq_twoDashes_iff arg).1 hdashes
    rfl
  · rw [given, givenFrom_option hplain hdashes, givenFrom_option hplain hdashes]
    rfl

/-- An option that waits takes values from the start of some arguments, and what is behind these is options one after the
other. -/
def Takes (known : List (Switch ι)) (args : List String) (w : Waiting ι) : Prop :=
  ∃ values rest gs, args = values ++ rest ∧ (∀ value ∈ values, IsValue value) ∧
    (w.arity = .several ∨ values.length ≤ 1) ∧ Gives known rest gs ∧
    givenFrom known (some w) args = .option w.id (w.values ++ values) :: gs

/-- an option that waits takes nothing from options one after the other -/
theorem Gives.takes {args : List String} {gs : List (Given ι)} (h : Gives known args gs) {w : Waiting ι}
    (heq : givenFrom known (some w) args = .option w.id w.values :: gs) : Takes known args w := by
  refine ⟨[], args, gs, rfl, by simp, .inr (Nat.zero_le 1), h, ?_⟩
  rw [List.append_nil]
  exact heq

section
variable {arg : String} {args : List String}
  (hnone : (∀ g ∈ given known args, Settled known g) → Gives known args (given known args))
  (hsome : ∀ w : Waiting ι, (∀ g ∈ givenFrom known (some w) args, Settled known g) → Takes known args w)
include hnone hsome

/-- an option that waits takes a value -/
theorem takes_cons_of_plain (hplain : formOf arg.toList = .plain) (w : Waiting ι)
    (h : ∀ g ∈ givenFrom known (some w) (arg :: args), Settled known g) : Takes known (arg :: args) w := by
  have hvalue := (formOf_eq_plain_iff arg).1 hplain
  unfold Takes
  rw [givenFrom.eq_def] at h ⊢
  simp only [hplain] at h ⊢
  by_cases hseveral : w.arity = .several
  · rw [if_pos hseveral] at h ⊢
    obtain ⟨values, rest, gs, rfl, hvalues, -, hgives, heq⟩ := hsome _ h
    refine ⟨arg :: values, rest, gs, rfl, List.forall_mem_cons.2 ⟨hvalue, hvalues⟩, .inl hseveral, hgives, ?_⟩
    rw [heq, List.append_assoc]
    rfl
  · rw [if_neg hseveral] at h ⊢
    have hgives := hnone fun g hg => h g (List.mem_append_right _ hg)
    exact ⟨[arg], args, _, rfl, by simpa using hvalue, .inr le_rfl, hgives, rfl⟩

/-- an argument that is no value starts options one after the other, unless it is two dashes with something behind -/
theorem gives_cons_of_ne_plain (hplain : formOf arg.toList ≠ .plain)
    (h : ∀ g ∈ given known (arg :: args), Settled known g) : Gives known (arg :: args) (given known (arg :: args)) := by
  by_cases hdashes : formOf arg.toList = .twoDashes
  · obtain rfl := (formOf_eq_twoDashes_iff arg).1 hdashes
    cases args with
    | nil => exact .dashes
    | cons other args => exact absurd (h (.value other) List.mem_cons_self) (not_settled_value other)
  · rw [given, givenFrom_option hplain hdashes] at h ⊢
    obtain ⟨s, hs, harity, ⟨hname, hopened⟩ | ⟨value, hwritten, hopened⟩⟩ :=
      opened_cases hplain hdashes fun g hg => h g (by simp [closed, hg])
    · rw [hopened] at h ⊢
      obtain ⟨values, rest, gs, rfl, hvalues, hcount, hgives, heq⟩ := hsome _ h
      rw [heq]
      exact .option hs harity hcount (.apart hname hvalues) hgives
    · rw [hopened] at h ⊢
      have hgives := hnone fun g hg => h g (List.mem_cons_of_mem _ hg)
      exact .option hs harity (.inr le_rfl) hwritten hgives

end

/-- **What is read as nothing but options with values is options one after the other**, also behind an option that can
take more values. -/
theorem gives_of_settled (args : List String) :
    ((∀ g ∈ given known args, Settled known g) → Gives known args (given known args)) ∧
    ∀ w : Waiting ι, (∀ g ∈ givenFrom known (some w) args, Settled known g) → Takes known args w := by
  induction args with
  | nil => exact ⟨fun _ => .nil, fun w _ => Gives.nil.takes rfl⟩
  | cons arg args ih =>
    obtain ⟨hnone, hsome⟩ := ih
    by_cases hplain : formOf arg.toList = .plain
    · -- nothing waits for the value, or an option does
      refine ⟨fun h => ?_, takes_cons_of_plain hnone hsome hplain⟩
      rw [given, givenFrom.eq_def] at h
      simp only [hplain] at h
      exact absurd (h _ List.mem_cons_self) (not_settled_value arg)
    · have hgives := gives_cons_of_ne_plain hnone hsome hplain
      refine ⟨hgives, fun w h => ?_⟩
      have heq : givenFrom known (some w) (arg :: args) = .option w.id w.values :: given known (arg :: args) :=
        givenFrom_some_of_ne_plain hplain w args
      rw [heq] at h
      exact (hgives fun g hg => h g (List.mem_cons_of_mem _ hg)).takes heq

end

end RankEval.CommandLine
