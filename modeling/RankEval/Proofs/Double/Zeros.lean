/-
Doubles that are the same but for the sign of a zero. The two zeros are equal to every comparison, and no sum or
quotient tells them apart, except that its own zero may have another sign. Division by them does tell them apart, so
that only dividends may differ.

- `sameNumber_of_place`: numbers at one place are the same.
- `SameNumber.add`, `SameNumber.div`, `sameNumber_total`: sums and quotients.
- `SameNumber.eq_of_ne_zero`: only zeros differ.
-/
import RankEval.Proofs.Double.Operations

namespace RankEval.Double

open Arithmetic (total)
open Float.Model (UnpackedFloat)

/-- equal, or zeros of either sign -/
def SameNumber (x y : Float) : Prop := x = y ∨ (x == 0.0) = true ∧ (y == 0.0) = true

section
variable {x y x' y' : Float}

@[simp] theorem SameNumber.refl (x : Float) : SameNumber x x := .inl rfl

theorem beq_zero_iff_unpack : (x == 0.0) = true ↔ ∃ s, x.toModel.unpack = .zero s := by
  change x.toModel.unpack.beq (.zero .positive) = true ↔ _
  rcases x.toModel.unpack with ⟨_ | _⟩ | _ | _ | ⟨_ | _, _, _, _⟩ <;> simp [UnpackedFloat.beq, UnpackedFloat.compare]

theorem beq_zero_pack (s : UnpackedFloat.Sign) : (Float.ofModel (.pack (.zero s)) == 0.0) = true := by
  cases s <;> decide

/-- there are only two zeros -/
theorem eq_zero_or_of_beq_zero (h : (x == 0.0) = true) : x = 0.0 ∨ x = -0.0 := by
  obtain ⟨s, hxu⟩ := beq_zero_iff_unpack.1 h
  cases s with
  | positive => exact .inl (eq_of_unpack hxu)
  | negative => exact .inr (eq_of_unpack hxu)

theorem SameNumber.beq_zero (h : SameNumber x y) : (x == 0.0) = (y == 0.0) := by
  rcases h with rfl | ⟨hx, hy⟩
  · rfl
  · rw [hx, hy]

theorem SameNumber.eq_of_ne_zero (h : SameNumber x y) (hx : (x == 0.0) = false) : x = y :=
  h.resolve_right fun ⟨hzero, _⟩ => Bool.false_ne_true (hx.symm.trans hzero)

/-- a zero is lost in a sum with anything else -/
theorem add_of_zero (hx : (x == 0.0) = true) (hy : (y == 0.0) = false) : x + y = y ∧ y + x = y := by
  obtain ⟨s, hxu⟩ := beq_zero_iff_unpack.1 hx
  have hyu : ∀ t, y.toModel.unpack ≠ .zero t := fun t ht =>
    Bool.false_ne_true (hy.symm.trans (beq_zero_iff_unpack.2 ⟨t, ht⟩))
  have hself : y = .ofModel (.pack y.toModel.unpack) := eq_pack rfl
  rw [add_eq_pack, add_eq_pack, hxu]
  generalize y.toModel.unpack = w at hyu hself ⊢
  subst hself
  rcases w with _ | _ | t | _
  · exact ⟨rfl, rfl⟩
  · exact ⟨rfl, rfl⟩
  · exact absurd rfl (hyu t)
  · exact ⟨rfl, rfl⟩

theorem add_zeros (hx : (x == 0.0) = true) (hy : (y == 0.0) = true) : (x + y == 0.0) = true := by
  obtain ⟨s, hxu⟩ := beq_zero_iff_unpack.1 hx
  obtain ⟨t, hyu⟩ := beq_zero_iff_unpack.1 hy
  rw [add_eq_pack, hxu, hyu]
  cases s <;> cases t <;> exact beq_zero_pack _

theorem SameNumber.add (h : SameNumber x y) (h' : SameNumber x' y') : SameNumber (x + x') (y + y') := by
  rcases h with rfl | ⟨hx, hy⟩
  · rcases h' with rfl | ⟨hx', hy'⟩
    · exact .refl _
    · cases hx : x == 0.0 with
      | true => exact .inr ⟨add_zeros hx hx', add_zeros hx hy'⟩
      | false => exact .inl ((add_of_zero hx' hx).2.trans (add_of_zero hy' hx).2.symm)
  · cases hx' : x' == 0.0 with
    | true => exact .inr ⟨add_zeros hx hx', add_zeros hy (h'.beq_zero ▸ hx')⟩
    | false =>
      obtain rfl := h'.eq_of_ne_zero hx'
      exact .inl ((add_of_zero hx hx').1.trans (add_of_zero hy hx').1.symm)

/-- a zero over anything is zero or no number, whatever its sign -/
theorem SameNumber.div (h : SameNumber x y) (d : Float) : SameNumber (x / d) (y / d) := by
  rcases h with rfl | ⟨hx, hy⟩
  · exact .refl _
  · obtain ⟨s, hxu⟩ := beq_zero_iff_unpack.1 hx
    obtain ⟨t, hyu⟩ := beq_zero_iff_unpack.1 hy
    rw [div_eq_pack, div_eq_pack, hxu, hyu]
    rcases d.toModel.unpack with _ | _ | _ | _
    · exact .inr ⟨beq_zero_pack _, beq_zero_pack _⟩
    · exact .inl rfl
    · exact .inl rfl
    · exact .inr ⟨beq_zero_pack _, beq_zero_pack _⟩

/-- numbers that are compared to be equal are the same but for the sign of a zero -/
theorem sameNumber_of_place (hx : ¬ x < 0.0) (hnum : x.isNaN = false) (hnum' : y.isNaN = false)
    (h : place x = place y) : SameNumber x y := by
  by_cases hpos : 0.0 < x
  · exact .inl (eq_of_place hpos h)
  · have hzero : (x == 0.0) = true := (beq_iff_not_lt hnum rfl).2 ⟨hx, hpos⟩
    refine .inr ⟨hzero, (beq_iff_place hnum' rfl).2 ?_⟩
    rw [← h]
    exact (beq_iff_place hnum rfl).1 hzero

theorem sameNumber_foldl {xs ys : List Float} (h : List.Forall₂ SameNumber xs ys) (hxy : SameNumber x y) :
    SameNumber (xs.foldl (· + ·) x) (ys.foldl (· + ·) y) := by
  induction h generalizing x y with
  | nil => exact hxy
  | cons hhead _ ih => exact ih (hxy.add hhead)

theorem sameNumber_total {xs ys : List Float} (h : List.Forall₂ SameNumber xs ys) :
    SameNumber (total xs) (total ys) := sameNumber_foldl h (.refl _)

end

end RankEval.Double
