/-
The order of doubles. Every double but NaN has a place on one line, and the comparisons of doubles are the comparisons
of places: infinities at the ends, both zeros at the same place in the middle.

- `isNaN_of_lt`: what is no number is not compared.
- `lt_iff_place`, `le_iff_place`, `beq_iff_place`: `<`, `≤` and `==` compare places.
- `beq_iff_not_lt`: numbers are equal if neither is smaller.
- `precedes_iff_place`, `tied_iff_place`: so do the comparisons that a ranking is made with.
-/
import Mathlib
import RankEval.Metric.Ranking

namespace RankEval.Double

open Float.Model (UnpackedFloat)

/-- the place of a value: first its sign and kind, then its exponent, then its significand -/
def placeOf : UnpackedFloat → ℤ ×ₗ ℤ ×ₗ ℤ
  | .infinity .negative => toLex (-2, toLex (0, 0))
  | .finite .negative m e _ => toLex (-1, toLex (-e, -(m : ℤ)))
  | .notANumber => toLex (0, toLex (0, 0))
  | .zero _ => toLex (0, toLex (0, 0))
  | .finite .positive m e _ => toLex (1, toLex (e, (m : ℤ)))
  | .infinity .positive => toLex (2, toLex (0, 0))

/-- the place of a double; NaN has none of its own -/
def place (x : Float) : ℤ ×ₗ ℤ ×ₗ ℤ := placeOf x.toModel.unpack

@[simp] theorem compare_negative_positive : compare UnpackedFloat.Sign.negative .positive = .lt := rfl

@[simp] theorem compare_negative_self : compare UnpackedFloat.Sign.negative .negative = .eq := rfl

@[simp] theorem compare_positive_self : compare UnpackedFloat.Sign.positive .positive = .eq := rfl

theorem isNaN_of_isFinite {x : Float} (h : x.isFinite = true) : x.isNaN = false := by
  change x.toModel.unpack.isFinite = true at h
  change x.toModel.unpack.isNaN = false
  cases hu : x.toModel.unpack <;> rw [hu] at h <;> simp_all [UnpackedFloat.isFinite, UnpackedFloat.isNaN]

theorem unpacked_lt_iff (u v : UnpackedFloat) (hu : u.isNaN = false) (hv : v.isNaN = false) :
    u.lt v = true ↔ placeOf u < placeOf v := by
  rcases u with ⟨_ | _⟩ | _ | ⟨_ | _⟩ | ⟨_ | _, m₁, e₁, h₁⟩ <;>
    rcases v with ⟨_ | _⟩ | _ | ⟨_ | _⟩ | ⟨_ | _, m₂, e₂, h₂⟩ <;>
    simp_all [UnpackedFloat.lt, UnpackedFloat.compare, placeOf, UnpackedFloat.isNaN, Prod.Lex.lt_iff,
      Ordering.swap_eq_lt]
  · rw [Ordering.then_eq_gt, compare_gt_iff_gt, compare_gt_iff_gt, compare_eq_iff_eq]
  · rw [Ordering.then_eq_lt, compare_lt_iff_lt, compare_lt_iff_lt, compare_eq_iff_eq]

theorem unpacked_beq_iff (u v : UnpackedFloat) (hu : u.isNaN = false) (hv : v.isNaN = false) :
    u.beq v = true ↔ placeOf u = placeOf v := by
  rcases u with ⟨_ | _⟩ | _ | ⟨_ | _⟩ | ⟨_ | _, m₁, e₁, h₁⟩ <;>
    rcases v with ⟨_ | _⟩ | _ | ⟨_ | _⟩ | ⟨_ | _, m₂, e₂, h₂⟩ <;>
    simp_all [UnpackedFloat.beq, UnpackedFloat.compare, placeOf, UnpackedFloat.isNaN]

/-! ## Comparisons -/

section
variable {x y : Float}

theorem lt_iff_unpacked_lt : x < y ↔ x.toModel.unpack.lt y.toModel.unpack = true := by
  change decide (x.toModel < y.toModel) = true ↔ _
  rw [decide_eq_true_iff]
  rfl

/-- nothing is below NaN, and NaN is below nothing -/
theorem isNaN_of_lt (h : x < y) : x.isNaN = false ∧ y.isNaN = false := by
  rw [lt_iff_unpacked_lt] at h
  change x.toModel.unpack.isNaN = false ∧ y.toModel.unpack.isNaN = false
  generalize x.toModel.unpack = u at h ⊢
  generalize y.toModel.unpack = v at h ⊢
  cases u <;> cases v <;> simp_all [UnpackedFloat.lt, UnpackedFloat.compare, UnpackedFloat.isNaN]

theorem lt_iff_place (hx : x.isNaN = false) (hy : y.isNaN = false) : x < y ↔ place x < place y := by
  rw [lt_iff_unpacked_lt]
  exact unpacked_lt_iff _ _ hx hy

theorem lt_trans {z : Float} (hxy : x < y) (hyz : y < z) : x < z := by
  obtain ⟨hx, hy⟩ := isNaN_of_lt hxy
  obtain ⟨-, hz⟩ := isNaN_of_lt hyz
  rw [lt_iff_place hx hz]
  exact ((lt_iff_place hx hy).1 hxy).trans ((lt_iff_place hy hz).1 hyz)

theorem not_lt_of_lt (hxy : x < y) : ¬ y < x := by
  obtain ⟨hx, hy⟩ := isNaN_of_lt hxy
  rw [lt_iff_place hy hx]
  exact ((lt_iff_place hx hy).1 hxy).not_gt

theorem le_iff_unpacked_le : x ≤ y ↔ (x.toModel.unpack.compare y.toModel.unpack).any Ordering.isLE = true := by
  change decide (x.toModel ≤ y.toModel) = true ↔ _
  rw [decide_eq_true_iff]
  rfl

theorem le_iff_lt_or_beq : x ≤ y ↔ x < y ∨ (x == y) = true := by
  rw [lt_iff_unpacked_lt, le_iff_unpacked_le]
  change _ ↔ _ ∨ x.toModel.unpack.beq y.toModel.unpack = true
  rw [UnpackedFloat.lt, UnpackedFloat.beq]
  rcases x.toModel.unpack.compare y.toModel.unpack with _ | _ | _ | _ <;> decide

theorem le_of_lt (h : x < y) : x ≤ y := le_iff_lt_or_beq.2 (.inl h)

theorem beq_iff_place (hx : x.isNaN = false) (hy : y.isNaN = false) : (x == y) = true ↔ place x = place y :=
  unpacked_beq_iff _ _ hx hy

theorem le_iff_place (hx : x.isNaN = false) (hy : y.isNaN = false) : x ≤ y ↔ place x ≤ place y := by
  rw [le_iff_lt_or_beq, lt_iff_place hx hy, beq_iff_place hx hy, le_iff_lt_or_eq]

/-- two numbers are equal iff neither is smaller -/
theorem beq_iff_not_lt (hx : x.isNaN = false) (hy : y.isNaN = false) : (x == y) = true ↔ ¬ x < y ∧ ¬ y < x := by
  rw [beq_iff_place hx hy, lt_iff_place hx hy, lt_iff_place hy hx, not_lt, not_lt, le_antisymm_iff, and_comm]

theorem precedes_iff_place (hx : x.isNaN = false) (hy : y.isNaN = false) :
    Metric.precedes x y = true ↔ place y ≤ place x := by
  unfold Metric.precedes
  rw [Bool.not_eq_true', decide_eq_false_iff_not, lt_iff_place hx hy, not_lt]

theorem tied_iff_place (hx : x.isNaN = false) (hy : y.isNaN = false) :
    Metric.tied x y = true ↔ place x = place y := by
  unfold Metric.tied
  rw [Bool.and_eq_true, precedes_iff_place hx hy, precedes_iff_place hy hx, le_antisymm_iff, and_comm]

end

end RankEval.Double
