/-
Numbers that are printed are numbers that are read. The text of a natural number or of a finite double follows the
grammar of JSON numbers, whatever the layout makes of its digits.

- `ofChars?_toDigits`, `toNat?_toDigits`: natural numbers come back as they are, if they have 64 bits.
- `ofChars?_text`: the text of a finite double is a number.
- `chars_of_ofChars?`: a text that is a number consists of the characters that the lexer takes for one.
-/
import Mathlib.Tactic
import RankEval.Json.Printer
import RankEval.Json.Token
import RankEval.Proofs.Decimal.Digits
import RankEval.Proofs.Decimal.Shortest
import RankEval.Proofs.Double.Bits

namespace RankEval.Json

open Decimal

namespace Number

/-! ## The grammar -/

/-- digits with a minus before them if they are negative -/
def signed (negative : Bool) (cs : List Char) : List Char := if negative then '-' :: cs else cs

/-- a number after its sign -/
def unsigned? (negative : Bool) (cs : List Char) : Option Number :=
  match spanDigits cs with
  | ([], _) => none
  | (0 :: _ :: _, _) => none
  | (whole, rest) => tail? negative whole rest

theorem ofChars?_minus (cs : List Char) : ofChars? ('-' :: cs) = unsigned? true cs := rfl

theorem ofChars?_of_head_ne {cs : List Char} (h : cs.head? ≠ some '-') : ofChars? cs = unsigned? false cs := by
  unfold ofChars?
  split
  next p negative rest hsign =>
  split at hsign
  · exact absurd rfl h
  · cases hsign
    rfl

/-- digits that may stand before a point: the first of several is not zero -/
structure IsWhole (ds : List Char) : Prop where
  digits : ∀ c ∈ ds, c.isDigit = true
  leading : ∃ d rest, ds = d :: rest ∧ (rest = [] ∨ digitValue d ≠ 0)

section
variable {negative : Bool} {whole fraction tail : List Char}

theorem ofChars?_signed (hw : IsWhole whole) (ht : StartsNoDigit tail) :
    ofChars? (signed negative (whole ++ tail)) = tail? negative (whole.map digitValue) tail := by
  obtain ⟨hdigits, d, rest, rfl, hleading⟩ := hw
  have hd : d.isDigit = true := hdigits d List.mem_cons_self
  have hspan := spanDigits_append hdigits ht
  have hminus : (d :: rest ++ tail).head? ≠ some '-' := by
    intro hhead
    cases Option.some.inj hhead
    exact Bool.noConfusion hd
  have hsplit : ofChars? (signed negative (d :: rest ++ tail)) = unsigned? negative (d :: rest ++ tail) := by
    cases negative with
    | true => exact ofChars?_minus _
    | false => exact ofChars?_of_head_ne hminus
  rw [hsplit, unsigned?, hspan, List.map_cons]
  cases rest with
  | nil => cases digitValue d <;> rfl
  | cons d' rest =>
    obtain ⟨n, hn⟩ := Nat.exists_eq_succ_of_ne_zero (hleading.resolve_left (List.cons_ne_nil _ _))
    rw [hn]
    rfl

theorem ofChars?_pointed (hw : IsWhole whole) (hne : fraction ≠ []) (hf : ∀ c ∈ fraction, c.isDigit = true)
    (ht : StartsNoDigit tail) :
    ofChars? (signed negative (whole ++ '.' :: (fraction ++ tail))) =
      (exponent? tail).map fun e => ⟨⟨negative, whole.map digitValue, fraction.map digitValue, e⟩, false⟩ := by
  rw [ofChars?_signed hw (startsNoDigit_cons rfl), tail?, spanDigits_append hf ht]
  cases fraction with
  | nil => exact absurd rfl hne
  | cons d ds => rfl

theorem ofChars?_unpointed (hw : IsWhole whole) (ht : StartsNoDigit tail) (hpoint : ∀ rest, tail ≠ '.' :: rest) :
    ofChars? (signed negative (whole ++ tail)) =
      (exponent? tail).map fun e => ⟨⟨negative, whole.map digitValue, [], e⟩, tail.isEmpty⟩ := by
  rw [ofChars?_signed hw ht]
  unfold tail?
  split
  · next rest => exact absurd rfl (hpoint rest)
  · rfl

end

/-! ## Natural numbers -/

theorem isWhole_toDigits (n : Nat) : IsWhole (Nat.toDigits 10 n) := by
  refine ⟨isDigit_of_mem_toDigits, ?_⟩
  rcases Nat.eq_zero_or_pos n with rfl | hn
  · exact ⟨'0', [], rfl, .inl rfl⟩
  · obtain ⟨c, cs, heq, -, hvalue⟩ := toDigits_eq_cons n hn
    exact ⟨c, cs, heq, .inr hvalue⟩

theorem ofChars?_toDigits (n : Nat) :
    ofChars? (Nat.toDigits 10 n) = some ⟨⟨false, (Nat.toDigits 10 n).map digitValue, [], 0⟩, true⟩ := by
  have h := @ofChars?_unpointed false _ [] (isWhole_toDigits n) startsNoDigit_nil (by simp)
  rwa [List.append_nil] at h

theorem toNat?_toDigits {n : Nat} (h : n < Nat.pow 2 64) :
    toNat? ⟨⟨false, (Nat.toDigits 10 n).map digitValue, [], 0⟩, true⟩ = some n := by
  have hvalue : Numeral.coefficient ⟨false, (Nat.toDigits 10 n).map digitValue, [], 0⟩ = n := by
    rw [Numeral.coefficient, List.append_nil, ofDigits_toDigits]
  simp only [toNat?, hvalue, Bool.not_false, Bool.and_self, decide_eq_true h, if_true]

/-! ## Doubles -/

theorem isWhole_append {ds more : List Char} (hleading : ∃ d rest, ds = d :: rest ∧ digitValue d ≠ 0)
    (hds : ∀ c ∈ ds, c.isDigit = true) (hmore : ∀ c ∈ more, c.isDigit = true) : IsWhole (ds ++ more) := by
  obtain ⟨d, rest, rfl, hvalue⟩ := hleading
  refine ⟨fun c hc => (List.mem_append.1 hc).elim (hds c) (hmore c), d, rest ++ more, rfl, .inr hvalue⟩

section
variable {ds : List Char} (hleading : ∃ d rest, ds = d :: rest ∧ digitValue d ≠ 0)
  (hds : ∀ c ∈ ds, c.isDigit = true)

include hleading hds

/-- digits that are written positionally -/
theorem ofChars?_positionalText (negative : Bool) (e : Int) :
    ∃ n, ofChars? (signed negative (positionalText true ds e)) = some n := by
  unfold positionalText
  by_cases he : 0 ≤ e
  · -- a whole number, with a point and a zero behind it
    rw [if_pos he]
    have hw := isWhole_append hleading hds (@isDigit_of_mem_zeros e.toNat)
    exact ⟨_, @ofChars?_pointed negative _ ['0'] [] hw (by simp) (by simp) startsNoDigit_nil⟩
  rw [if_neg he]
  dsimp only
  by_cases hplaces : (-e).toNat < ds.length
  · -- the point stands among the digits
    rw [if_pos hplaces]
    obtain ⟨d, rest, rfl, hvalue⟩ := hleading
    obtain ⟨n, hn⟩ : ∃ n, (d :: rest).length - (-e).toNat = n + 1 := ⟨(d :: rest).length - (-e).toNat - 1, by omega⟩
    rw [hn]
    have hw : IsWhole ((d :: rest).take (n + 1)) :=
      ⟨fun c hc => hds c (List.mem_of_mem_take hc), d, rest.take n, rfl, .inr hvalue⟩
    have hne : (d :: rest).drop (n + 1) ≠ [] := by
      rw [Ne, List.drop_eq_nil_iff]
      omega
    have h := @ofChars?_pointed negative _ _ [] hw hne (fun c hc => hds c (List.mem_of_mem_drop hc)) startsNoDigit_nil
    rw [List.append_nil] at h
    exact ⟨_, h⟩
  · -- the point and zeros stand before the digits
    rw [if_neg hplaces]
    have hzero : IsWhole ['0'] := ⟨by simp, '0', [], rfl, .inl rfl⟩
    have hne : zeros ((-e).toNat - ds.length) ++ ds ≠ [] := by
      obtain ⟨d, rest, rfl, -⟩ := hleading
      simp
    have h := @ofChars?_pointed negative _ _ [] hzero hne
      (fun c hc => (List.mem_append.1 hc).elim (isDigit_of_mem_zeros c) (hds c)) startsNoDigit_nil
    rw [List.append_nil] at h
    exact ⟨_, h⟩

/-- digits that are written with an exponent -/
theorem ofChars?_exponentText (negative : Bool) (lead : Int) :
    ∃ n, ofChars? (signed negative (exponentText "+" ds lead)) = some n := by
  obtain ⟨d, rest, rfl, hvalue⟩ := hleading
  have hexponent := exponent?_intText (.inr rfl) lead
  have hfirst : IsWhole [d] := ⟨fun c hc => hds c (List.mem_singleton.1 hc ▸ List.mem_cons_self), d, [], rfl, .inl rfl⟩
  unfold exponentText
  generalize (if lead < 0 then intText lead else "+" ++ intText lead).toList = tail at hexponent ⊢
  cases rest with
  | nil =>
    have h := @ofChars?_unpointed negative _ ('e' :: tail) hfirst (startsNoDigit_cons rfl) (by simp)
    rw [hexponent] at h
    exact ⟨_, h⟩
  | cons d' rest =>
    have h := @ofChars?_pointed negative _ (d' :: rest) ('e' :: tail) hfirst (by simp)
      (fun c hc => hds c (List.mem_cons_of_mem _ hc)) (startsNoDigit_cons rfl)
    rw [hexponent] at h
    exact ⟨_, h⟩

end

/-- **The text of a finite double is a number.** -/
theorem ofChars?_text {x : Float} (h : x.isFinite = true) : ∃ n, ofChars? (numberLayout.text x).toList = some n := by
  obtain ⟨negative, m, q, hx, hm, hq, hq', -⟩ := Double.ofFloat_of_isFinite h
  rw [Layout.text, hx, Layout.binaryText, String.toList_ofList]
  rcases Nat.eq_zero_or_pos m with rfl | hpos
  · cases negative <;> exact ⟨_, rfl⟩
  · rw [if_neg hpos.ne']
    have hd := shortest_pos .toEven hpos hm hq hq'
    have hleading : ∃ d rest, Nat.toDigits 10 (shortest .toEven m q).1 = d :: rest ∧ digitValue d ≠ 0 := by
      obtain ⟨c, cs, heq, -, hvalue⟩ := toDigits_eq_cons _ hd
      exact ⟨c, cs, heq, hvalue⟩
    change ∃ n, ofChars? (signed negative (numberLayout.magnitudeText (shortest .toEven m q).1 _)) = some n
    unfold Layout.magnitudeText
    dsimp only
    split_ifs
    · exact ofChars?_positionalText hleading isDigit_of_mem_toDigits negative _
    · exact ofChars?_exponentText hleading isDigit_of_mem_toDigits negative _

/-- whatever is not finite becomes `null` -/
theorem text_of_not_isFinite {x : Float} (h : x.isFinite = false) : numberLayout.text x = "null" := by
  rcases Double.ofFloat_of_not_isFinite h with hx | ⟨negative, hx⟩
  · rw [Layout.text, hx]
    rfl
  · rw [Layout.text, hx]
    cases negative <;> rfl

/-! ## Characters of numbers -/

open Lexer (isNumberChar)

theorem isNumberChar_of_isDigit {c : Char} (h : c.isDigit = true) : isNumberChar c = true := by
  simp [isNumberChar, h]

/-- the digits of an exponent, whatever its sign -/
theorem chars_of_magnitude {ds : List Char} {negative : Bool} {e : Int} (h : (match spanDigits ds with
      | (d :: rest, []) =>
        some (if negative then -Int.ofNat (ofDigits (d :: rest)) else Int.ofNat (ofDigits (d :: rest)))
      | _ => none) = some e) : ∀ c ∈ ds, isNumberChar c = true := by
  split at h
  · next d rest hspan =>
    obtain ⟨digits, hsplit, -, hall⟩ := spanDigits_eq hspan
    rw [hsplit, List.append_nil]
    exact fun c hc => isNumberChar_of_isDigit (hall c hc)
  · cases h

theorem chars_of_exponent? {cs : List Char} {e : Int} (h : exponent? cs = some e) :
    ∀ c ∈ cs, isNumberChar c = true := by
  cases cs with
  | nil => simp
  | cons c cs =>
    unfold exponent? at h
    dsimp only at h
    by_cases hc : c = 'e' ∨ c = 'E'
    swap
    · rw [if_neg hc] at h
      cases h
    rw [if_pos hc] at h
    have hletter : isNumberChar c = true := by
      rcases hc with rfl | rfl <;> rfl
    refine List.forall_mem_cons.2 ⟨hletter, ?_⟩
    have hds := chars_of_magnitude h
    split at hds
    · exact List.forall_mem_cons.2 ⟨rfl, hds⟩
    · exact List.forall_mem_cons.2 ⟨rfl, hds⟩
    · exact hds

theorem chars_of_tail? {negative : Bool} {whole : List Nat} {cs : List Char} {n : Number}
    (h : tail? negative whole cs = some n) : ∀ c ∈ cs, isNumberChar c = true := by
  unfold tail? at h
  split at h
  · split at h
    · cases h
    · next ds rest hne hspan =>
      obtain ⟨digits, hsplit, -, hall⟩ := spanDigits_eq hspan
      obtain ⟨e, he, -⟩ := Option.map_eq_some_iff.1 h
      refine List.forall_mem_cons.2 ⟨rfl, ?_⟩
      rw [hsplit]
      exact fun c hc => (List.mem_append.1 hc).elim (fun hc => isNumberChar_of_isDigit (hall c hc))
        (chars_of_exponent? he c)
  · obtain ⟨e, he, -⟩ := Option.map_eq_some_iff.1 h
    exact chars_of_exponent? he

theorem chars_of_unsigned? {negative : Bool} {cs : List Char} {n : Number} (h : unsigned? negative cs = some n) :
    ∃ c rest, cs = c :: rest ∧ c.isDigit = true ∧ ∀ c ∈ rest, isNumberChar c = true := by
  unfold unsigned? at h
  split at h
  · cases h
  · cases h
  · next whole rest hempty hzero hspan =>
    obtain ⟨digits, hsplit, hwhole, hall⟩ := spanDigits_eq hspan
    cases digits with
    | nil => exact absurd hwhole hempty
    | cons d digits =>
      refine ⟨d, digits ++ rest, hsplit, hall d List.mem_cons_self, fun c hc => ?_⟩
      exact (List.mem_append.1 hc).elim
        (fun hc => isNumberChar_of_isDigit (hall c (List.mem_cons_of_mem _ hc))) (chars_of_tail? h c)

/-- a number is read by the lexer to its end, and nothing else starts as it does -/
theorem chars_of_ofChars? {cs : List Char} {n : Number} (h : ofChars? cs = some n) :
    ∃ c rest, cs = c :: rest ∧ (c == '-' || c.isDigit) = true ∧ ∀ c ∈ rest, isNumberChar c = true := by
  by_cases hminus : cs.head? = some '-'
  · obtain ⟨cs, rfl⟩ := List.head?_eq_some_iff.1 hminus
    rw [ofChars?_minus] at h
    obtain ⟨c, rest, rfl, hc, hrest⟩ := chars_of_unsigned? h
    exact ⟨_, _, rfl, rfl, List.forall_mem_cons.2 ⟨isNumberChar_of_isDigit hc, hrest⟩⟩
  · rw [ofChars?_of_head_ne hminus] at h
    obtain ⟨c, rest, rfl, hc, hrest⟩ := chars_of_unsigned? h
    exact ⟨c, rest, rfl, by rw [hc, Bool.or_true], hrest⟩

end Number

end RankEval.Json
