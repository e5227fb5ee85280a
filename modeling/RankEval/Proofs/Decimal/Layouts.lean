/-
Doubles as text and back. Whatever a layout makes of the shortest digits (a point among them, zeros before or behind
them, an exponent), the text is a numeral with the value of the digits, and that value is nearest to the double.

- `numeral?_positionalText`, `numeral?_exponentText`: the numeral that digits are set out as, and its value.
- `isMagnitude_magnitudeOf`: the characters that a finite double is written with.
- `float?_text`: a finite double comes back from its text in every layout.
-/
import RankEval.Decimal.Reading
import RankEval.Proofs.Decimal.Digits
import RankEval.Proofs.Decimal.Nearest
import RankEval.Proofs.Double.Bits
import RankEval.Proofs.Double.Order

namespace RankEval.Decimal

/-! ## Values of digits -/

theorem ofDigits_append (a b : List Nat) : ofDigits (a ++ b) = ofDigits a * 10 ^ b.length + ofDigits b := by
  induction b using List.reverseRecOn with
  | nil => simp [ofDigits]
  | append_singleton b d ih =>
    have hstep : ∀ (ds : List Nat) (d : Nat), ofDigits (ds ++ [d]) = 10 * ofDigits ds + d := fun ds d => by
      simp [ofDigits]
    rw [← List.append_assoc, hstep, hstep, ih, List.length_append, List.length_singleton, pow_succ]
    ring

theorem map_zeros (n : Nat) : (zeros n).map digitValue = List.replicate n 0 := by
  rw [zeros, List.map_replicate]
  rfl

theorem ofDigits_replicate_zero (n : Nat) : ofDigits (List.replicate n 0) = 0 := by
  induction n with
  | zero => rfl
  | succ n ih => rw [List.replicate_succ', ofDigits_append, ih]; rfl

/-! ## Numerals -/

/-- the number that a numeral stands for, up to its sign -/
def Numeral.magnitude (n : Numeral) : ℚ := n.coefficient * 10 ^ n.scale

theorem Numeral.toFloat_of_around {n : Numeral} {m : ℕ} {q : ℤ} (hc : Canonical m q) (h : Around m q n.magnitude) :
    n.toFloat = Binary.toFloat (.finite n.negative m q) := by
  rw [toFloat, nearest_of_around hc h]

section
variable (negative : Bool) (whole fraction tail : List Char)

theorem numeral?_pointed (hw : ∀ c ∈ whole, c.isDigit = true) (hne : whole ≠ [])
    (hf : ∀ c ∈ fraction, c.isDigit = true) (ht : StartsNoDigit tail) :
    numeral? negative (whole ++ '.' :: (fraction ++ tail)) =
      (exponent? tail).map fun e => ⟨negative, whole.map digitValue, fraction.map digitValue, e⟩ := by
  have hempty : (whole.map digitValue).isEmpty = false := by simpa using hne
  simp only [numeral?, spanDigits_append hw (startsNoDigit_cons (c := '.') rfl), spanDigits_append hf ht, hempty,
    Bool.false_and, Bool.false_eq_true, if_false]

theorem numeral?_unpointed (hw : ∀ c ∈ whole, c.isDigit = true) (hne : whole ≠ []) (ht : StartsNoDigit tail)
    (hpoint : ∀ rest, tail ≠ '.' :: rest) :
    numeral? negative (whole ++ tail) = (exponent? tail).map fun e => ⟨negative, whole.map digitValue, [], e⟩ := by
  have hempty : (whole.map digitValue).isEmpty = false := by simpa using hne
  unfold numeral?
  rw [spanDigits_append hw ht]
  dsimp only
  split
  · next rest => exact absurd rfl (hpoint rest)
  · rw [hempty, Bool.false_and, if_neg Bool.false_ne_true]

end

/-- digits that are not none -/
structure AreDigits (ds : List Char) : Prop where
  digits : ∀ c ∈ ds, c.isDigit = true
  ne_nil : ds ≠ []

theorem areDigits_toDigits (n : Nat) : AreDigits (Nat.toDigits 10 n) := ⟨isDigit_of_mem_toDigits, Nat.toDigits_ne_nil⟩

section
variable {ds : List Char} (hds : AreDigits ds) (negative : Bool)

include hds

/-- digits that are written positionally -/
theorem numeral?_positionalText (pointed : Bool) (e : ℤ) :
    ∃ n, numeral? negative (positionalText pointed ds e) = some n ∧ n.negative = negative ∧
      n.magnitude = ofDigits (ds.map digitValue) * 10 ^ e := by
  unfold positionalText
  by_cases he : 0 ≤ e
  · -- zeros behind the digits
    rw [if_pos he]
    obtain ⟨k, rfl⟩ := Int.eq_ofNat_of_zero_le he
    have hw : ∀ c ∈ ds ++ zeros k, c.isDigit = true :=
      fun c hc => (List.mem_append.1 hc).elim (hds.digits c) (isDigit_of_mem_zeros c)
    have hne : ds ++ zeros k ≠ [] := List.append_ne_nil_of_left_ne_nil hds.ne_nil _
    have hvalue : ofDigits ((ds ++ zeros k).map digitValue) = ofDigits (ds.map digitValue) * 10 ^ k := by
      rw [List.map_append, map_zeros, ofDigits_append, ofDigits_replicate_zero, List.length_replicate, Nat.add_zero]
    rw [Int.toNat_natCast]
    cases pointed with
    | true =>
      rw [if_pos rfl]
      refine ⟨_, numeral?_pointed negative _ ['0'] [] hw hne (by simp) startsNoDigit_nil, rfl, ?_⟩
      rw [Numeral.magnitude, Numeral.coefficient, Numeral.scale, ofDigits_append, hvalue]
      push_cast
      have hpoint : (10 : ℚ) ^ (0 - ((['0'].map digitValue).length : ℤ)) = 1 / 10 := by norm_num
      have hzero : ofDigits (['0'].map digitValue) = 0 := rfl
      simp only [Int.ofNat_eq_natCast, hpoint, zpow_natCast, hzero]
      norm_num
      ring
    | false =>
      rw [if_neg Bool.false_ne_true]
      have h := numeral?_unpointed negative _ [] hw hne startsNoDigit_nil (by simp)
      refine ⟨_, h, rfl, ?_⟩
      rw [Numeral.magnitude, Numeral.coefficient, Numeral.scale, List.append_nil, hvalue]
      simp
  rw [if_neg he]
  obtain ⟨k, hk⟩ := Int.eq_ofNat_of_zero_le (show 0 ≤ -e by omega)
  obtain rfl : e = -(k : ℤ) := by omega
  rw [neg_neg, Int.toNat_natCast]
  dsimp only
  by_cases hplaces : k < ds.length
  · -- the point among the digits
    rw [if_pos hplaces]
    have hw : ∀ c ∈ ds.take (ds.length - k), c.isDigit = true := fun c hc => hds.digits c (List.mem_of_mem_take hc)
    have hf : ∀ c ∈ ds.drop (ds.length - k), c.isDigit = true := fun c hc => hds.digits c (List.mem_of_mem_drop hc)
    have hne : ds.take (ds.length - k) ≠ [] := by
      rw [Ne, List.take_eq_nil_iff]
      exact fun h => h.elim (by omega) hds.ne_nil
    have h := numeral?_pointed negative _ _ [] hw hne hf startsNoDigit_nil
    rw [List.append_nil] at h
    refine ⟨_, h, rfl, ?_⟩
    have hlength : ds.length - (ds.length - k) = k := by omega
    rw [Numeral.magnitude, Numeral.coefficient, Numeral.scale, ← List.map_append, List.take_append_drop]
    simp only [List.length_map, List.length_drop, hlength, Int.ofNat_eq_natCast, zero_sub]
  · -- zeros before the digits
    rw [if_neg hplaces]
    have hf : ∀ c ∈ zeros (k - ds.length) ++ ds, c.isDigit = true :=
      fun c hc => (List.mem_append.1 hc).elim (isDigit_of_mem_zeros c) (hds.digits c)
    have h := numeral?_pointed negative ['0'] _ [] (by simp) (by simp) hf startsNoDigit_nil
    rw [List.append_nil] at h
    refine ⟨_, h, rfl, ?_⟩
    have hlength : ((zeros (k - ds.length) ++ ds).map digitValue).length = k := by
      rw [List.length_map, List.length_append, zeros, List.length_replicate]
      omega
    have hvalue : ofDigits (['0'].map digitValue ++ (zeros (k - ds.length) ++ ds).map digitValue) =
        ofDigits (ds.map digitValue) := by
      rw [ofDigits_append, List.map_append, map_zeros, ofDigits_append, ofDigits_replicate_zero]
      simp [ofDigits, digitValue]
    rw [Numeral.magnitude, Numeral.coefficient, Numeral.scale, hvalue, hlength]
    simp

/-- digits that are written with an exponent -/
theorem numeral?_exponentText {plus : String} (hplus : plus = "" ∨ plus = "+") (lead : ℤ) :
    ∃ n, numeral? negative (exponentText plus ds lead) = some n ∧ n.negative = negative ∧
      n.magnitude = ofDigits (ds.map digitValue) * 10 ^ (lead + 1 - ds.length) := by
  have hexponent := exponent?_intText hplus lead
  obtain ⟨hdigits, hne⟩ := hds
  unfold exponentText
  generalize (if lead < 0 then intText lead else plus ++ intText lead).toList = tail at hexponent ⊢
  rcases ds with _ | ⟨d, _ | ⟨d', rest⟩⟩
  · exact absurd rfl hne
  · have h := numeral?_unpointed negative _ ('e' :: tail) hdigits (List.cons_ne_nil _ _)
      (startsNoDigit_cons rfl) (by simp)
    rw [hexponent] at h
    refine ⟨_, h, rfl, ?_⟩
    rw [Numeral.magnitude, Numeral.coefficient, Numeral.scale]
    simp
  · have h := numeral?_pointed negative [d] (d' :: rest) ('e' :: tail)
      (fun c hc => hdigits c (List.mem_singleton.1 hc ▸ List.mem_cons_self)) (List.cons_ne_nil _ _)
      (fun c hc => hdigits c (List.mem_cons_of_mem _ hc)) (startsNoDigit_cons rfl)
    rw [hexponent] at h
    refine ⟨_, h, rfl, ?_⟩
    rw [Numeral.magnitude, Numeral.coefficient, Numeral.scale, ← List.map_append]
    have hscale : lead - Int.ofNat ((d' :: rest).map digitValue).length =
        lead + 1 - ((d :: d' :: rest).length : ℤ) := by
      simp only [List.length_map, List.length_cons, Int.ofNat_eq_natCast]
      omega
    rw [hscale]
    rfl

end

/-! ## Characters -/

/-- the characters of numerals -/
def IsNumeralChar (c : Char) : Prop := c.isDigit = true ∨ c = '.' ∨ c = 'e' ∨ c = '+' ∨ c = '-'

/-- a digit, and what may follow it in a numeral -/
structure IsMagnitude (cs : List Char) : Prop where
  head : ∃ c rest, cs = c :: rest ∧ c.isDigit = true
  chars : ∀ c ∈ cs, IsNumeralChar c

section
variable {ds : List Char} (hds : AreDigits ds)

include hds

theorem AreDigits.isMagnitude_append {more : List Char} (hmore : ∀ c ∈ more, IsNumeralChar c) :
    IsMagnitude (ds ++ more) where
  head := by
    obtain ⟨c, rest, rfl⟩ := List.exists_cons_of_ne_nil hds.ne_nil
    exact ⟨c, rest ++ more, rfl, hds.digits c List.mem_cons_self⟩
  chars c hc := (List.mem_append.1 hc).elim (fun hc => .inl (hds.digits c hc)) (hmore c)

theorem isMagnitude_positionalText (pointed : Bool) (e : ℤ) : IsMagnitude (positionalText pointed ds e) := by
  have hzeros : ∀ n, ∀ c ∈ zeros n, IsNumeralChar c := fun n c hc => .inl (isDigit_of_mem_zeros c hc)
  have hdigits : ∀ c ∈ ds, IsNumeralChar c := fun c hc => .inl (hds.digits c hc)
  unfold positionalText
  split
  · rw [List.append_assoc]
    refine hds.isMagnitude_append fun c hc => ?_
    rcases List.mem_append.1 hc with hc | hc
    · exact hzeros _ c hc
    · split at hc
      · rcases List.mem_pair.1 hc with rfl | rfl
        · exact .inr (.inl rfl)
        · exact .inl rfl
      · cases hc
  dsimp only
  split
  · next hplaces =>
    have htake : AreDigits (ds.take (ds.length - (-e).toNat)) := by
      refine ⟨fun c hc => hds.digits c (List.mem_of_mem_take hc), ?_⟩
      rw [Ne, List.take_eq_nil_iff]
      exact fun h => h.elim (by omega) hds.ne_nil
    refine htake.isMagnitude_append (List.forall_mem_cons.2 ⟨.inr (.inl rfl), fun c hc => ?_⟩)
    exact hdigits c (List.mem_of_mem_drop hc)
  · have hzero : AreDigits ['0'] := ⟨by simp, List.cons_ne_nil _ _⟩
    refine hzero.isMagnitude_append (List.forall_mem_cons.2 ⟨.inr (.inl rfl), fun c hc => ?_⟩)
    exact (List.mem_append.1 hc).elim (hzeros _ c) (hdigits c)

theorem isMagnitude_exponentText {plus : String} (hplus : plus = "" ∨ plus = "+") (lead : ℤ) :
    IsMagnitude (exponentText plus ds lead) := by
  have hnat : ∀ n, ∀ c ∈ (natText n).toList, IsNumeralChar c := by
    intro n c hc
    rw [toList_natText] at hc
    exact .inl (isDigit_of_mem_toDigits c hc)
  have hplus' : ∀ c ∈ plus.toList, IsNumeralChar c := by
    rcases hplus with rfl | rfl
    · simp
    · exact fun c hc => .inr (.inr (.inr (.inl (List.mem_singleton.1 hc))))
  have htail : ∀ c ∈ 'e' :: (if lead < 0 then intText lead else plus ++ intText lead).toList, IsNumeralChar c := by
    refine List.forall_mem_cons.2 ⟨.inr (.inr (.inl rfl)), fun c hc => ?_⟩
    by_cases h : lead < 0
    · rw [if_pos h, intText, if_pos h, String.toList_append] at hc
      rcases List.mem_append.1 hc with hc | hc
      · exact .inr (.inr (.inr (.inr (List.mem_singleton.1 hc))))
      · exact hnat _ c hc
    · rw [if_neg h, intText, if_neg h, String.toList_append] at hc
      exact (List.mem_append.1 hc).elim (hplus' c) (hnat _ c)
  obtain ⟨hdigits, hne⟩ := hds
  unfold exponentText
  rcases ds with _ | ⟨d, _ | ⟨d', rest⟩⟩
  · exact absurd rfl hne
  · exact AreDigits.isMagnitude_append ⟨hdigits, List.cons_ne_nil _ _⟩ htail
  · have hfirst : AreDigits [d] :=
      ⟨fun c hc => hdigits c (List.mem_singleton.1 hc ▸ List.mem_cons_self), List.cons_ne_nil _ _⟩
    refine hfirst.isMagnitude_append (List.forall_mem_cons.2 ⟨.inr (.inl rfl), fun c hc => ?_⟩)
    rcases List.mem_append.1 hc with hc | hc
    · exact .inl (hdigits c (List.mem_cons_of_mem _ hc))
    · exact htail c hc

end

/-! ## Texts of doubles -/

namespace Layout

variable (l : Layout)

theorem magnitudeText_eq (d : Nat) (e : ℤ) :
    l.magnitudeText d e = positionalText l.pointed (Nat.toDigits 10 d) e ∨
      l.magnitudeText d e =
        exponentText l.plus (Nat.toDigits 10 d) (e + Int.ofNat (Nat.toDigits 10 d).length - 1) := by
  unfold magnitudeText
  dsimp only
  split_ifs
  · exact .inl rfl
  · exact .inr rfl

/-- the digits of a double and their power of ten; a zero has one digit -/
def magnitudeOf (m : Nat) (q : Int) : List Char :=
  if m = 0 then positionalText l.pointed ['0'] 0
  else l.magnitudeText (shortest l.tie m q).1 (shortest l.tie m q).2

theorem toList_text {x : Float} {negative : Bool} {m : Nat} {q : Int}
    (hx : Binary.ofFloat x = .finite negative m q) :
    (l.text x).toList = if negative then '-' :: l.magnitudeOf m q else l.magnitudeOf m q := by
  rw [text, hx, binaryText, String.toList_ofList]
  rfl

variable {l} (hplus : l.plus = "" ∨ l.plus = "+")

include hplus

theorem isMagnitude_magnitudeOf (m : Nat) (q : Int) : IsMagnitude (l.magnitudeOf m q) := by
  unfold magnitudeOf
  split
  · exact isMagnitude_positionalText ⟨by simp, List.cons_ne_nil _ _⟩ l.pointed 0
  · rcases l.magnitudeText_eq (shortest l.tie m q).1 (shortest l.tie m q).2 with h | h <;> rw [h]
    · exact isMagnitude_positionalText (areDigits_toDigits _) l.pointed _
    · exact isMagnitude_exponentText (areDigits_toDigits _) hplus _

/-- the text of `d · 10^e` is a numeral for it -/
theorem numeral?_magnitudeText (negative : Bool) (d : Nat) (e : ℤ) :
    ∃ n, numeral? negative (l.magnitudeText d e) = some n ∧ n.negative = negative ∧ n.magnitude = d * 10 ^ e := by
  have hds := areDigits_toDigits d
  have hvalue := ofDigits_toDigits d
  rcases l.magnitudeText_eq d e with h | h <;> rw [h]
  · obtain ⟨n, hn, hsign, hmagnitude⟩ := numeral?_positionalText hds negative l.pointed e
    rw [hvalue] at hmagnitude
    exact ⟨n, hn, hsign, hmagnitude⟩
  · obtain ⟨n, hn, hsign, hmagnitude⟩ :=
      numeral?_exponentText hds negative hplus (e + Int.ofNat (Nat.toDigits 10 d).length - 1)
    have hscale : e + Int.ofNat (Nat.toDigits 10 d).length - 1 + 1 - ((Nat.toDigits 10 d).length : ℤ) = e := by
      rw [Int.ofNat_eq_natCast]
      omega
    rw [hvalue, hscale] at hmagnitude
    exact ⟨n, hn, hsign, hmagnitude⟩

/-- the digits of a double are a numeral for it, whichever digits are the shortest -/
theorem unsigned?_magnitudeOf (negative : Bool) {m : Nat} {q : Int} (hm : m < Nat.pow 2 53) (hq : -1074 ≤ q)
    (hq' : q ≤ 971) (hfull : q = -1074 ∨ Nat.pow 2 52 ≤ m) :
    unsigned? negative (l.magnitudeOf m q) = some (Binary.toFloat (.finite negative m q)) := by
  unfold magnitudeOf
  rcases Nat.eq_zero_or_pos m with rfl | hpos
  · rw [if_pos rfl]
    have hdigits : AreDigits ['0'] := ⟨by simp, List.cons_ne_nil _ _⟩
    obtain ⟨n, hn, hsign, hmagnitude⟩ := numeral?_positionalText hdigits negative l.pointed 0
    have hzero : n.coefficient = 0 := by
      have hvalue : n.magnitude = 0 := by
        rw [hmagnitude]
        simp [ofDigits, digitValue]
      rw [Numeral.magnitude, mul_eq_zero] at hvalue
      exact_mod_cast hvalue.resolve_right (by positivity)
    obtain rfl : q = -1074 := hfull.resolve_right (by decide)
    rw [unsigned?, hn]
    dsimp only
    rw [Numeral.toFloat, hzero, hsign]
    rfl
  · rw [if_neg hpos.ne']
    have hcanonical : Canonical m q := ⟨hpos, hm, hq, hq', hfull⟩
    have haround := (holds_iff_around _ _).1 (shortest_holds l.tie hpos hm hq hq')
    obtain ⟨n, hn, hsign, hmagnitude⟩ :=
      numeral?_magnitudeText hplus negative (shortest l.tie m q).1 (shortest l.tie m q).2
    rw [← hmagnitude] at haround
    rw [unsigned?, hn]
    dsimp only
    rw [Numeral.toFloat_of_around hcanonical haround, hsign]

/-- **A finite double comes back from its text.** -/
theorem float?_text {x : Float} (h : x.isFinite = true) : float? (l.text x).toList = some x := by
  obtain ⟨negative, m, q, hx, hm, hq, hq', hfull⟩ := Double.ofFloat_of_isFinite h
  have hread := unsigned?_magnitudeOf hplus negative hm hq hq' hfull
  rw [← hx, Double.toFloat_ofFloat (Double.isNaN_of_isFinite h)] at hread
  rw [l.toList_text hx]
  cases negative with
  | true => exact hread
  | false =>
    obtain ⟨c, rest, hcs, hc⟩ := (isMagnitude_magnitudeOf hplus m q).head
    rw [hcs] at hread
    rw [if_neg Bool.false_ne_true, hcs]
    unfold float?
    split
    · next heq =>
      cases heq
      exact Bool.noConfusion hc
    · next heq =>
      cases heq
      exact Bool.noConfusion hc
    · exact hread

end Layout

end RankEval.Decimal
