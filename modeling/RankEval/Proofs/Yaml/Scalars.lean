/-
Numbers printed as scalars. The digits of a natural number mean that number; a double that is a number, finite or not,
comes back from its text.

- `Scalar.nat?_toDigits`, `Scalar.meaning_toDigits`: natural numbers.
- `reread?_eq_self`: doubles.
-/
import RankEval.Proofs.Yaml.Lexing

namespace RankEval.Yaml

open Decimal (digitValue exists_digitChar isDigit_of_mem_toDigits ofDigits_toDigits toDigits_eq_cons)

namespace Scalar

/-! ## Natural numbers -/

theorem digit?_of_isDigit {c : Char} (h : c.isDigit = true) : digit? 10 c = some (digitValue c) := by
  obtain ⟨d, hd, rfl⟩ := exists_digitChar h
  interval_cases d <;> rfl

theorem inBase?_toDigits (n : Nat) : inBase? 10 (Nat.toDigits 10 n) = some n := by
  have hfold : ∀ (ds : List Char) (m : Nat), (∀ c ∈ ds, c.isDigit = true) →
      ds.foldlM (fun n c => (digit? 10 c).map fun d => 10 * n + d) m =
        some ((ds.map digitValue).foldl (fun n d => 10 * n + d) m) := by
    intro ds
    induction ds with
    | nil => exact fun _ _ => rfl
    | cons c ds ih =>
      intro m hds
      obtain ⟨hc, hds⟩ := List.forall_mem_cons.1 hds
      rw [List.foldlM_cons, digit?_of_isDigit hc]
      exact ih (10 * m + digitValue c) hds
  have hempty : (Nat.toDigits 10 n).isEmpty = false := by
    rw [List.isEmpty_eq_false_iff]
    exact Nat.toDigits_ne_nil
  have hvalue := ofDigits_toDigits n
  rw [Decimal.ofDigits] at hvalue
  rw [inBase?, hempty, if_neg Bool.false_ne_true, hfold _ 0 isDigit_of_mem_toDigits, hvalue]

/-- a number has no zeros before its other digits -/
theorem toDigits_cases (n : Nat) : n = 0 ∨ ∃ c cs, Nat.toDigits 10 n = c :: cs ∧ c ∉ ['0', '+', '-'] := by
  rcases Nat.eq_zero_or_pos n with rfl | hpos
  · exact .inl rfl
  · obtain ⟨c, cs, hcs, hdigit, hvalue⟩ := toDigits_eq_cons n hpos
    refine .inr ⟨c, cs, hcs, ?_⟩
    intro hc
    simp only [List.mem_cons, List.not_mem_nil, or_false] at hc
    rcases hc with rfl | rfl | rfl
    · exact hvalue rfl
    · exact Bool.noConfusion hdigit
    · exact Bool.noConfusion hdigit

theorem nat?_toDigits (n : Nat) : nat? (String.ofList (Nat.toDigits 10 n)) = some n := by
  have hvalue := inBase?_toDigits n
  rcases toDigits_cases n with rfl | ⟨c, cs, hcs, hc⟩
  · decide +kernel
  · rw [hcs] at hvalue ⊢
    simp only [List.mem_cons, List.not_mem_nil, or_false, not_or] at hc
    obtain ⟨hzero, hplus, hminus⟩ := hc
    simp [nat?, isPadded, magnitude?, hzero, hplus, hminus, hvalue]

/-! ## What else a scalar could mean -/

/-- what nothing and the truth values are called -/
def names : List String := ["", "~", "null", "Null", "NULL", "true", "True", "TRUE", "false", "False", "FALSE"]

/-- whether a text begins like a number, or like the name of a double that is none -/
def startsNumber : List Char → Bool
  | c :: _ => c.isDigit || c == '-' || c == '.'
  | [] => false

section
variable {s : String} (h : startsNumber s.toList = true)

include h

theorem beq_name : ∀ t ∈ names, (s == t) = false := by
  have hnames : ∀ t ∈ names, startsNumber t.toList = false := by decide +kernel
  intro t ht
  rw [beq_eq_false_iff_ne]
  rintro rfl
  exact Bool.noConfusion (h.symm.trans (hnames s ht))

/-- a number stands for something -/
theorem isNull_of_startsNumber : s.isEmpty = false ∧ isNull s = false := by
  have hnames := beq_name h
  simp only [names, List.forall_mem_cons] at hnames
  refine ⟨?_, by simp [isNull, hnames]⟩
  rw [String.isEmpty_eq_false_iff]
  exact beq_eq_false_iff_ne.1 hnames.1

theorem bool?_of_startsNumber : bool? s = none := by
  have hnames := beq_name h
  simp only [names, List.forall_mem_cons] at hnames
  simp [bool?, hnames]

end

theorem meaning_toDigits {n : Nat} (hn : n < Nat.pow 2 64) :
    meaning (String.ofList (Nat.toDigits 10 n)) = .whole false n := by
  have hstarts : startsNumber (String.ofList (Nat.toDigits 10 n)).toList = true := by
    obtain ⟨c, cs, hcs⟩ := List.exists_cons_of_ne_nil (Nat.toDigits_ne_nil : Nat.toDigits 10 n ≠ [])
    have hc : c.isDigit = true := isDigit_of_mem_toDigits c (hcs ▸ List.mem_cons_self)
    rw [String.toList_ofList, hcs, startsNumber, hc]
    rfl
  have hwhole : whole? (String.ofList (Nat.toDigits 10 n)) = some (false, n) := by
    have hbound : decide (n < Nat.pow 2 128) = true := decide_eq_true (Nat.lt_trans hn (by decide))
    rw [whole?, nat?_toDigits, Option.filter_some, hbound]
    rfl
  obtain ⟨hempty, hnull⟩ := isNull_of_startsNumber hstarts
  rw [meaning, hempty, hnull, bool?_of_startsNumber hstarts, hwhole]
  rfl

/-! ## Doubles -/

/-- digits, maybe behind a minus -/
def startsNumeral : List Char → Bool
  | '-' :: c :: _ => c.isDigit
  | c :: _ => c.isDigit
  | [] => false

theorem startsNumeral_cons {c : Char} (h : c.isDigit = true) (rest : List Char) : startsNumeral (c :: rest) = true := by
  unfold startsNumeral
  split
  · next heq =>
    cases heq
    exact Bool.noConfusion h
  · next heq =>
    cases heq
    exact h
  · next heq => cases heq

/-- what the doubles are called that are not finite -/
def specials : List String :=
  [".inf", ".Inf", ".INF", "+.inf", "+.Inf", "+.INF", "-.inf", "-.Inf", "-.INF", ".nan", ".NaN", ".NAN"]

theorem float?_of_startsNumeral {s : String} (h : startsNumeral s.toList = true) :
    float? s = (Decimal.float? s.toList).filter Float.isFinite := by
  have hspecials : ∀ t ∈ specials, (s == t) = false := by
    have hstarts : ∀ t ∈ specials, startsNumeral t.toList = false := by decide +kernel
    intro t ht
    rw [beq_eq_false_iff_ne]
    rintro rfl
    exact Bool.noConfusion (h.symm.trans (hstarts s ht))
  simp only [specials, List.forall_mem_cons] at hspecials
  have hplus : ∀ rest, s.toList ≠ '+' :: rest := by
    intro rest heq
    rw [heq] at h
    exact Bool.noConfusion h
  unfold float?
  simp only [hspecials, Bool.or_self, Bool.false_eq_true, if_false]
  split
  · next rest heq => exact absurd heq (hplus _)
  · next rest heq => exact absurd heq (hplus _)
  · next rest _ _ heq => exact absurd heq (hplus _)
  · rfl

/-! ## Texts -/

/-- what begins with a `w` is no number and has no meaning of its own -/
theorem isText_of_head {s : String} {cs : List Char} (hs : s.toList = 'w' :: cs) : isText s = true := by
  have hnames : ∀ t ∈ names ++ specials, (s == t) = false := by
    have hheads : ∀ t ∈ names ++ specials, t.toList.head? ≠ some 'w' := by decide +kernel
    intro t ht
    rw [beq_eq_false_iff_ne]
    rintro rfl
    exact hheads s ht (by rw [hs]; rfl)
  simp only [names, specials, List.cons_append, List.nil_append, List.forall_mem_cons] at hnames
  have hempty : s.isEmpty = false := by
    rw [String.isEmpty_eq_false_iff]
    exact beq_eq_false_iff_ne.1 hnames.1
  have hdigit : digit? 10 'w' = none := by decide
  have hnat : nat? s = none := by simp [nat?, hs, isPadded, magnitude?, inBase?, hdigit]
  have hnegative : negative? s = none := by simp [negative?, hs]
  have hpadded : isPadded s.toList = false := by simp [isPadded, hs]
  have hfloat : float? s = none := by
    have hlower : Char.toLower 'w' = 'w' := by decide
    simp [float?, hnames, hs, Decimal.float?, Decimal.unsigned?, Decimal.numeral?, Decimal.spanDigits, Decimal.named?,
      hlower]
  simp [isText, meaning, hempty, isNull, hnames, bool?, whole?, hnat, hnegative, hpadded, hfloat]

end Scalar

/-- what a double comes back as -/
def reread? (x : Float) : Option Float := Scalar.float? (numberLayout.text x)

theorem numberLayout_plus : numberLayout.plus = "" ∨ numberLayout.plus = "+" := .inl rfl

theorem startsNumber_text (x : Float) : Scalar.startsNumber (numberLayout.text x).toList = true := by
  cases hx : Decimal.Binary.ofFloat x with
  | nan =>
    rw [Decimal.Layout.text, hx]
    rfl
  | infinite negative =>
    rw [Decimal.Layout.text, hx]
    cases negative <;> rfl
  | finite negative m q =>
    obtain ⟨c, rest, hcs, hc⟩ := (Decimal.Layout.isMagnitude_magnitudeOf numberLayout_plus m q).head
    rw [Decimal.Layout.toList_text _ hx, hcs]
    cases negative <;> simp [Scalar.startsNumber, hc]

/-- **A double that is a number comes back**, finite or not. -/
theorem reread?_eq_self {x : Float} (h : x.isNaN = false) : reread? x = some x := by
  have hself := Double.toFloat_ofFloat h
  cases hx : Decimal.Binary.ofFloat x with
  | nan =>
    rw [hx] at hself
    rw [← hself] at h
    exact absurd h (by decide +kernel)
  | infinite negative =>
    rw [hx] at hself
    rw [reread?, Decimal.Layout.text, hx, ← hself]
    cases negative <;> rfl
  | finite negative m q =>
    obtain ⟨c, rest, hcs, hc⟩ := (Decimal.Layout.isMagnitude_magnitudeOf numberLayout_plus m q).head
    have hstarts : Scalar.startsNumeral (numberLayout.text x).toList = true := by
      rw [Decimal.Layout.toList_text _ hx, hcs]
      cases negative with
      | true => exact hc
      | false => exact Scalar.startsNumeral_cons hc rest
    have hfinite : x.isFinite = true := by
      by_contra hne
      rcases Double.ofFloat_of_not_isFinite (Bool.eq_false_iff.2 hne) with hnan | ⟨negative, hinfinite⟩
      · exact Decimal.Binary.noConfusion (hx.symm.trans hnan)
      · exact Decimal.Binary.noConfusion (hx.symm.trans hinfinite)
    rw [reread?, Scalar.float?_of_startsNumeral hstarts, Decimal.Layout.float?_text numberLayout_plus hfinite,
      Option.filter_some, hfinite]
    rfl

end RankEval.Yaml
