/-
Digits: what a number is written with is read back as the number.

- `ofDigits_toDigits`: the value of a number's digits.
- `toDigits_eq_cons`: a positive number starts with a digit other than zero.
- `spanDigits_append`: the digits before anything else are found, all of them.
- `toDigits_append_inj`: so a number is known from any text that starts with it and goes on with no digit.
- `exponent?_intText`: a whole number behind `e`.
- `count?_eq_some_iff`: the texts that stand for a natural number.
-/
import RankEval.Decimal.Layout
import RankEval.Text.Basic

namespace RankEval.Decimal

/-- nothing, or something that starts with no digit -/
def StartsNoDigit (cs : List Char) : Prop := ∀ c rest, cs = c :: rest → c.isDigit = false

theorem startsNoDigit_nil : StartsNoDigit [] := by
  intro c rest h
  cases h

theorem startsNoDigit_cons {c : Char} {rest : List Char} (h : c.isDigit = false) : StartsNoDigit (c :: rest) := by
  intro d rest' heq
  cases heq
  exact h

theorem spanDigits_append {ds rest : List Char} (hds : ∀ c ∈ ds, c.isDigit = true) (hrest : StartsNoDigit rest) :
    spanDigits (ds ++ rest) = (ds.map digitValue, rest) := by
  induction ds with
  | nil =>
    cases rest with
    | nil => rfl
    | cons c rest => simp [spanDigits, hrest c rest rfl]
  | cons d ds ih =>
    have hd := hds d List.mem_cons_self
    have hrec := ih fun c hc => hds c (List.mem_cons_of_mem _ hc)
    simp only [spanDigits, Prod.mk.injEq] at hrec
    simp [spanDigits, hd, hrec]

theorem spanDigits_digits {ds : List Char} (hds : ∀ c ∈ ds, c.isDigit = true) :
    spanDigits ds = (ds.map digitValue, []) := by
  have h := spanDigits_append hds startsNoDigit_nil
  rwa [List.append_nil] at h

theorem spanDigits_eq {cs : List Char} {ds : List Nat} {rest : List Char} (h : spanDigits cs = (ds, rest)) :
    ∃ digits, cs = digits ++ rest ∧ ds = digits.map digitValue ∧ ∀ c ∈ digits, c.isDigit = true := by
  obtain ⟨hds, hrest⟩ := Prod.mk.inj h
  refine ⟨cs.takeWhile Char.isDigit, ?_, hds.symm, fun c hc => List.all_eq_true.1 List.all_takeWhile c hc⟩
  rw [← hrest, List.takeWhile_append_dropWhile]

theorem isDigit_of_mem_toDigits {n : Nat} : ∀ c ∈ Nat.toDigits 10 n, c.isDigit = true := by
  intro c hc
  exact Nat.isDigit_of_mem_toDigits (by decide) (by decide) hc

theorem not_mem_toDigits {c : Char} (h : c.isDigit = false) (n : Nat) : c ∉ Nat.toDigits 10 n := by
  intro hc
  rw [isDigit_of_mem_toDigits c hc] at h
  cases h

theorem ofDigits_toDigits (n : Nat) : ofDigits ((Nat.toDigits 10 n).map digitValue) = n := by
  rw [ofDigits, List.foldl_map]
  have h := @Nat.ofDigitChars_ten_toDigits n
  rw [Nat.ofDigitChars_eq_foldl] at h
  exact h

theorem isDigit_of_mem_zeros {n : Nat} : ∀ c ∈ zeros n, c.isDigit = true := by
  intro c hc
  rw [List.eq_of_mem_replicate hc]
  rfl

theorem exists_digitChar {c : Char} (h : c.isDigit = true) : ∃ d < 10, c = Nat.digitChar d := by
  have hbounds : 48 ≤ c.toNat ∧ c.toNat ≤ 57 := by
    rw [Char.isDigit, Bool.and_eq_true, decide_eq_true_eq, decide_eq_true_eq] at h
    exact ⟨UInt32.le_iff_toNat_le.1 h.1, UInt32.le_iff_toNat_le.1 h.2⟩
  refine ⟨c.toNat - 48, by omega, ?_⟩
  have hdigit : ∀ d < 10, Nat.digitChar d = Char.ofNat (d + 48) := by decide
  rw [hdigit _ (by omega), Nat.sub_add_cancel hbounds.1, Char.ofNat_toNat]

theorem digitValue_digitChar : ∀ d, d < 10 → digitValue d.digitChar = d := by decide

/-- a positive number starts with a digit other than zero -/
theorem toDigits_eq_cons (n : Nat) (h : 0 < n) :
    ∃ c cs, Nat.toDigits 10 n = c :: cs ∧ c.isDigit = true ∧ digitValue c ≠ 0 := by
  induction n using Nat.strongRecOn with
  | ind n ih =>
    rcases Nat.lt_or_ge n 10 with hn | hn
    · have hdigits := Nat.toDigits_of_lt_base hn
      refine ⟨n.digitChar, [], hdigits, isDigit_of_mem_toDigits _ (hdigits ▸ List.mem_singleton_self _), ?_⟩
      rw [digitValue_digitChar n hn]
      exact Nat.pos_iff_ne_zero.1 h
    · obtain ⟨c, cs, heq, hc, hvalue⟩ := ih (n / 10) (Nat.div_lt_self h (by decide)) (by omega)
      refine ⟨c, cs ++ [(n % 10).digitChar], ?_, hc, hvalue⟩
      rw [Nat.toDigits_of_base_le (by decide) hn, heq]
      rfl

theorem toList_natText (n : Nat) : (natText n).toList = Nat.toDigits 10 n := String.toList_ofList

/-- two numbers with the same text are the same number -/
theorem natText_inj {m n : Nat} : natText m = natText n ↔ m = n := by
  refine ⟨fun h => ?_, fun h => h ▸ rfl⟩
  have hdigits := congrArg (fun s : String => ofDigits (s.toList.map digitValue)) h
  simpa only [toList_natText, ofDigits_toDigits] using hdigits

/-- a number in front of what starts with no digit is known, and so is what follows it -/
theorem toDigits_append_inj {m n : Nat} {x y : List Char} (hx : StartsNoDigit x) (hy : StartsNoDigit y) :
    Nat.toDigits 10 m ++ x = Nat.toDigits 10 n ++ y ↔ m = n ∧ x = y := by
  refine ⟨fun h => ?_, fun ⟨hmn, hxy⟩ => hmn ▸ hxy ▸ rfl⟩
  have hspan := congrArg spanDigits h
  rw [spanDigits_append isDigit_of_mem_toDigits hx, spanDigits_append isDigit_of_mem_toDigits hy,
    Prod.mk.injEq] at hspan
  obtain ⟨hdigits, hrest⟩ := hspan
  have hvalue := congrArg ofDigits hdigits
  rw [ofDigits_toDigits, ofDigits_toDigits] at hvalue
  exact ⟨hvalue, hrest⟩

/-- so it is in front of a mark -/
theorem toDigits_append_cons_inj {m n : Nat} {c : Char} {x y : List Char} (hc : c.isDigit = false) :
    Nat.toDigits 10 m ++ c :: x = Nat.toDigits 10 n ++ c :: y ↔ m = n ∧ x = y := by
  rw [toDigits_append_inj (startsNoDigit_cons hc) (startsNoDigit_cons hc), List.cons.injEq, and_iff_right rfl]

theorem toDigits_ne_nil_map (n : Nat) : (Nat.toDigits 10 n).map digitValue ≠ [] := by
  rw [Ne, List.map_eq_nil_iff]
  exact Nat.toDigits_ne_nil

/-- a whole number behind `e`, with a plus or nothing before it unless it is negative -/
theorem exponent?_intText {plus : String} (hplus : plus = "" ∨ plus = "+") (n : Int) :
    exponent? ('e' :: (if n < 0 then intText n else plus ++ intText n).toList) = some n := by
  have hspan := spanDigits_digits (@isDigit_of_mem_toDigits n.natAbs)
  have hvalue := ofDigits_toDigits n.natAbs
  obtain ⟨d, ds, hdigits⟩ := List.exists_cons_of_ne_nil (toDigits_ne_nil_map n.natAbs)
  rw [hdigits] at hspan hvalue
  by_cases h : n < 0
  · rw [if_pos h, intText, if_pos h, String.toList_append, toList_natText]
    change exponent? ('e' :: '-' :: Nat.toDigits 10 n.natAbs) = _
    have hn : -Int.ofNat n.natAbs = n := by rw [Int.ofNat_eq_natCast]; omega
    simp only [exponent?, hspan, hvalue, if_true, true_or, hn]
  · have hn : Int.ofNat n.natAbs = n := by rw [Int.ofNat_eq_natCast]; omega
    rw [if_neg h, intText, if_neg h, String.toList_append, toList_natText]
    rcases hplus with rfl | rfl
    · -- the first digit is no sign
      obtain ⟨c, cs, hcs⟩ := List.exists_cons_of_ne_nil (@Nat.toDigits_ne_nil n.natAbs 10)
      have hc : c.isDigit = true := isDigit_of_mem_toDigits c (hcs ▸ List.mem_cons_self)
      have hplus : c ≠ '+' := by
        rintro rfl
        exact Bool.noConfusion hc
      have hminus : c ≠ '-' := by
        rintro rfl
        exact Bool.noConfusion hc
      change exponent? ('e' :: Nat.toDigits 10 n.natAbs) = _
      rw [hcs] at hspan ⊢
      simp [exponent?, hplus, hminus, hspan, hvalue, Int.natAbs_of_nonneg (Int.not_lt.1 h)]
    · change exponent? ('e' :: '+' :: Nat.toDigits 10 n.natAbs) = _
      simp only [exponent?, hspan, hvalue, if_true, true_or, Bool.false_eq_true, if_false, hn]

/-- digits and nothing else, at least one of them, with their value if it has 64 bits -/
theorem unsigned_eq_some_iff {cs : List Char} {n : Nat} :
    (match spanDigits cs with
      | (d :: rest, []) =>
        let n := ofDigits (d :: rest)
        if n < Nat.pow 2 64 then some n else none
      | _ => none) = some n ↔
      cs ≠ [] ∧ (∀ c ∈ cs, c.isDigit = true) ∧ ofDigits (cs.map digitValue) = n ∧ n < Nat.pow 2 64 := by
  constructor
  · intro h
    split at h
    · next d rest hspan =>
      obtain ⟨digits, hcs, hds, hall⟩ := spanDigits_eq hspan
      rw [List.append_nil] at hcs
      subst hcs
      rw [hds, Option.ite_none_right_eq_some, Option.some.injEq] at h
      obtain ⟨hlt, rfl⟩ := h
      refine ⟨?_, hall, rfl, hlt⟩
      rintro rfl
      cases hds
    · cases h
  · rintro ⟨hne, hall, rfl, hlt⟩
    obtain ⟨c, rest, rfl⟩ := List.exists_cons_of_ne_nil hne
    rw [spanDigits_digits hall]
    exact if_pos hlt

end RankEval.Decimal

namespace RankEval.Text

open Decimal (ofDigits digitValue)

/-- the digits of a number of 64 bits, with a plus before them or not -/
def IsCount (cs : List Char) (n : Nat) : Prop :=
  ∃ ds, (cs = ds ∨ cs = '+' :: ds) ∧ ds ≠ [] ∧ (∀ c ∈ ds, c.isDigit = true) ∧ ofDigits (ds.map digitValue) = n ∧
    n < Nat.pow 2 64

theorem count?_eq_some_iff {cs : List Char} {n : Nat} : count? cs = some n ↔ IsCount cs n := by
  refine Decimal.unsigned_eq_some_iff.trans ?_
  split
  · next ds =>
    constructor
    · exact fun h => ⟨ds, .inr rfl, h⟩
    · rintro ⟨ds', rfl | heq, h⟩
      · cases h.2.1 '+' List.mem_cons_self
      · cases heq
        exact h
  · next hplus =>
    constructor
    · exact fun h => ⟨cs, .inl rfl, h⟩
    · rintro ⟨ds', rfl | rfl, h⟩
      · exact h
      · exact absurd rfl (hplus ds')

end RankEval.Text
