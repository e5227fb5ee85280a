/-
What keys are called. Labels of different kinds may start alike (`T` and `TC`, `BM25` and `BM25 prefilter`), but before
the first number there is a character in which they differ, and a number ends where a mark follows it. So a label, and
with it the text of a key, is found again in front of whatever follows.

- `Configuration.label_append_inj`: a variant is known from any text that starts with its label.
- `EvaluationKey.text_append_inj`: a key is known from any text that starts with the text of the key and goes on with no
  digit.
-/
import RankEval.Engine.Key
import RankEval.Proofs.Decimal.Digits

namespace RankEval

open Decimal (StartsNoDigit startsNoDigit_nil toDigits_append_cons_inj toDigits_append_inj toList_natText)

/-! ## Labels -/

namespace Configuration

theorem toList_hashLabel (letter : String) (v b : Nat) :
    (hashLabel letter v b).toList = letter.toList ++ ("(V=".toList ++
      (Nat.toDigits 10 v ++ ',' :: (" BS=".toList ++ (Nat.toDigits 10 b ++ [')'])))) := by
  simp [hashLabel, toList_natText]

/-- **A variant is known from any text that starts with its label**, and so is the rest of that text. -/
theorem label_append_inj (c d : Configuration) (x y : List Char) :
    c.label.toList ++ x = d.label.toList ++ y ↔ c = d ∧ x = y := by
  have hcomma {m n x y} := @toDigits_append_cons_inj m n ',' x y rfl
  have hclose {m n x y} := @toDigits_append_cons_inj m n ')' x y rfl
  -- labels of different shapes differ before their first number
  rcases c with ⟨v, b⟩ | ⟨v, b⟩ | ⟨_ | _, v, b⟩ | ⟨_ | _⟩ | ⟨_ | _⟩ | ⟨_ | _⟩ <;>
    rcases d with ⟨v', b'⟩ | ⟨v', b'⟩ | ⟨_ | _, v', b'⟩ | ⟨_ | _⟩ | ⟨_ | _⟩ | ⟨_ | _⟩ <;>
    simp [label, toList_hashLabel, QueryField.name, Representation.name, hcomma, hclose, and_assoc]

theorem label_inj {c d : Configuration} : c.label = d.label ↔ c = d := by
  rw [← String.toList_inj, ← List.append_nil c.label.toList, ← List.append_nil d.label.toList, label_append_inj,
    and_iff_left rfl]

end Configuration

/-! ## Texts of keys -/

namespace EvaluationKey

theorem toList_text (key : EvaluationKey) :
    key.text.toList = key.configuration.label.toList ++ (" | vote=".toList ++ (Nat.toDigits 10 key.vote ++
      ' ' :: ("tuples=".toList ++ (Nat.toDigits 10 key.tuples ++ ' ' :: ("k=".toList ++ Nat.toDigits 10 key.k))))) := by
  simp [text, toList_natText]

/-- **A key is known from any text that starts with its own** and goes on with no digit. -/
theorem text_append_inj (a b : EvaluationKey) {x y : List Char} (hx : StartsNoDigit x) (hy : StartsNoDigit y) :
    a.text.toList ++ x = b.text.toList ++ y ↔ a = b ∧ x = y := by
  have hblank {m n x y} := @toDigits_append_cons_inj m n ' ' x y rfl
  obtain ⟨ca, ta, ka, va⟩ := a
  obtain ⟨cb, tb, kb, vb⟩ := b
  simp only [toList_text, List.append_assoc, List.cons_append, Configuration.label_append_inj,
    List.append_cancel_left_eq, hblank, toDigits_append_inj hx hy, mk.injEq]
  constructor
  · rintro ⟨hc, hvote, htuples, hk, hxy⟩
    exact ⟨⟨hc, htuples, hk, hvote⟩, hxy⟩
  · rintro ⟨⟨hc, htuples, hk, hvote⟩, hxy⟩
    exact ⟨hc, hvote, htuples, hk, hxy⟩

theorem text_inj {a b : EvaluationKey} : a.text = b.text ↔ a = b := by
  rw [← String.toList_inj, ← List.append_nil a.text.toList, ← List.append_nil b.text.toList,
    text_append_inj a b startsNoDigit_nil startsNoDigit_nil, and_iff_left rfl]

end EvaluationKey

end RankEval
