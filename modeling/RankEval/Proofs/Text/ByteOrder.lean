/-
The order of texts is that of their bytes. In UTF-8 a character has one to four bytes, and characters with larger
numbers have larger bytes at the first place at which they differ; no character's bytes are the start of another one's.
So it is all the same whether texts are compared character by character or byte by byte.

- `encode_append_lt`: one character.
- `bytes_lt_iff`: texts.
-/
import Mathlib.Data.String.Basic
import Mathlib.Tactic

namespace RankEval.Text

/-- the bytes of a text in UTF-8 -/
def bytes (s : String) : List UInt8 := s.toUTF8.data.toList

theorem bytes_eq (s : String) : bytes s = s.toList.flatMap String.utf8EncodeChar := by
  conv_lhs => rw [← @String.ofList_toList s]
  unfold bytes
  rw [String.toUTF8_eq_toByteArray, String.toByteArray_ofList, List.utf8Encode]
  simp

/-! ## One character -/

/-- numbers are compared by all digits but the last one, then by that -/
theorem digit_lt {v w : Nat} (h : v < w) (b : Nat) : v / b < w / b ∨ v / b = w / b ∧ v % b < w % b := by
  rcases (Nat.div_le_div_right h.le : v / b ≤ w / b).lt_or_eq with hlt | heq
  · exact .inl hlt
  · refine .inr ⟨heq, ?_⟩
    have hv := Nat.div_add_mod v b
    have hw := Nat.div_add_mod w b
    rw [heq] at hv
    omega

/-- **A character with a larger number has larger bytes**, whatever follows them. -/
theorem encode_append_lt {c d : Char} (h : c < d) (xs ys : List UInt8) :
    String.utf8EncodeChar c ++ xs < String.utf8EncodeChar d ++ ys := by
  have hlt : c.val.toNat < d.val.toNat := h
  have hmax : d.val.toNat < 1114112 := d.valid.elim (fun h => by omega) fun h => h.2
  unfold String.utf8EncodeChar
  generalize c.val.toNat = v at hlt ⊢
  generalize d.val.toNat = w at hlt hmax ⊢
  -- every byte after the first one holds a digit to base 64
  have hfirst := digit_lt hlt 64
  have hsecond := fun h : v / 64 < w / 64 => digit_lt h 64
  have hthird := fun h : v / 64 / 64 < w / 64 / 64 => digit_lt h 64
  simp only [Nat.div_div_eq_div_mul, Nat.reduceMul] at hsecond hthird
  dsimp only
  split_ifs <;>
    simp (disch := omega) only [List.cons_append, List.cons_lt_cons_iff, UInt8.lt_iff_toNat_lt, ← UInt8.toNat_inj,
      UInt8.toNat_ofNat', Nat.mod_eq_of_lt]
  all_goals omega

/-! ## Texts -/

theorem append_lt_append_left_iff (front xs ys : List UInt8) : front ++ xs < front ++ ys ↔ xs < ys := by
  induction front with
  | nil => rfl
  | cons x front ih => simp [ih]

theorem encode_lt_encode {cs ds : List Char} (h : cs < ds) :
    cs.flatMap String.utf8EncodeChar < ds.flatMap String.utf8EncodeChar := by
  induction cs generalizing ds with
  | nil =>
    cases ds with
    | nil => exact absurd h (List.not_lt_nil _)
    | cons d ds =>
      have hne : String.utf8EncodeChar d ≠ [] := by
        rw [← List.length_pos_iff, String.length_utf8EncodeChar]
        exact d.utf8Size_pos
      obtain ⟨x, xs, hencode⟩ := List.exists_cons_of_ne_nil hne
      rw [List.flatMap_cons, hencode]
      exact List.nil_lt_cons _ _
  | cons c cs ih =>
    cases ds with
    | nil => exact absurd h (List.not_lt_nil _)
    | cons d ds =>
      rw [List.flatMap_cons, List.flatMap_cons]
      rcases List.cons_lt_cons_iff.1 h with hlt | ⟨rfl, hlt⟩
      · exact encode_append_lt hlt _ _
      · exact (append_lt_append_left_iff _ _ _).2 (ih hlt)

/-- **Texts are in the order of their bytes.** -/
theorem bytes_lt_iff (a b : String) : bytes a < bytes b ↔ a < b := by
  rw [bytes_eq, bytes_eq, String.lt_iff_toList_lt]
  refine ⟨fun h => ?_, encode_lt_encode⟩
  rcases lt_trichotomy a.toList b.toList with hlt | heq | hgt
  · exact hlt
  · rw [heq] at h
    exact absurd h (List.lt_irrefl _)
  · exact absurd h (List.lt_asymm (encode_lt_encode hgt))

end RankEval.Text
