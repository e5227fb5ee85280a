/-
Typed reading of written data, whatever the format. What a format has to give back of each kind of datum is stated once;
what records and lists of such data come back as follows for every format.

- `Rereads`: the laws of a format.
- `Rereads.listOf?_place`, `Rereads.record?_place`: items are read one by one, the members of a record by name.
-/
import Mathlib.Data.List.Forall2
import RankEval.Document.Datum
import RankEval.Document.Reading

namespace RankEval

theorem mapM_congr_mem {α β : Type} {f g : α → Option β} {xs : List α} (h : ∀ x ∈ xs, f x = g x) :
    xs.mapM f = xs.mapM g := by
  induction xs with
  | nil => rfl
  | cons x xs ih =>
    obtain ⟨hx, hxs⟩ := List.forall_mem_cons.1 h
    rw [List.mapM_cons, List.mapM_cons, hx, ih hxs]

namespace FieldReader

variable {D α β : Type}

/-! ## Fields with names -/

theorem bind_named (m : FieldReader D α) (f : α → FieldReader D β) (s : Fields D) :
    (m >>= f) s = (m s).bind fun p => f p.1 p.2 := rfl

theorem pure_named (a : α) (s : Fields D) : (pure a : FieldReader D α) s = some (a, s) := rfl

theorem lift_named (o : Option α) (s : Fields D) : (StateT.lift o : FieldReader D α) s = o.map fun a => (a, s) := by
  cases o <;> rfl

theorem required_named (name : String) (read : D → Option α) (ms : List (String × D)) :
    required name read (.named ms) = match ms.filter fun m => m.1 == name with
      | [m] => (read m.2).map fun a => (a, .named ms)
      | _ => none := by
  unfold required
  rw [bind_named, find]
  generalize ms.filter _ = hits
  rcases hits with _ | ⟨m, _ | ⟨m', rest⟩⟩
  · rfl
  · exact lift_named _ _
  · rfl

theorem withDefault_named (a : α) (name : String) (read : D → Option α) (ms : List (String × D)) :
    withDefault a name read (.named ms) = match ms.filter fun m => m.1 == name with
      | [] => some (a, .named ms)
      | [m] => (read m.2).map fun a => (a, .named ms)
      | _ => none := by
  unfold withDefault
  rw [bind_named, find]
  generalize ms.filter _ = hits
  rcases hits with _ | ⟨m, _ | ⟨m', rest⟩⟩
  · rfl
  · exact lift_named _ _
  · rfl

theorem optional_named [Document D] (name : String) (read : D → Option α) (ms : List (String × D)) :
    optional name read (.named ms) = match ms.filter fun m => m.1 == name with
      | [] => some (none, .named ms)
      | [m] => (Document.optional? read m.2).map fun a => (a, .named ms)
      | _ => none := by
  unfold optional
  rw [bind_named, find]
  generalize ms.filter _ = hits
  rcases hits with _ | ⟨m, _ | ⟨m', rest⟩⟩
  · rfl
  · exact lift_named _ _
  · rfl

end FieldReader

namespace Document

/-! ## Laws -/

section
variable (text : String → Prop)

/-- a member of a record, and what is kept of it beside the name of a variant -/
inductive Keeps : String × Datum → Content × Content → Prop
  | count {key : String} {n : Nat} : text key → n < Nat.pow 2 64 → Keeps (key, .count n) (.text key, .nat n)
  | text {key s : String} : text key → text s → Keeps (key, .text s) (.text key, .text s)

/-- What a format gives back of its data. `place room d` is where `d` stands with so much room for nesting, `reread?`
what becomes of a double, `number` which doubles are there at all, and `text` which texts come back. -/
structure Rereads {D : Type} [Document D] (place : Nat → Datum → D) (number : Float → Prop)
    (reread? : Float → Option Float) : Prop where
  nat?_place : ∀ room {n}, n < Nat.pow 2 64 → nat? (place room (.count n)) = some n
  float?_place : ∀ room x, float? (place room (.number x)) = reread? x
  text?_place : ∀ room {s}, text s → text? (place room (.text s)) = some s
  present?_null : ∀ room, present? (place room .null) = some none
  present?_number : ∀ room {x}, number x → present? (place room (.number x)) = some (some (place room (.number x)))
  items?_place : ∀ room xs, items? (place (room + 1) (.list xs)) = some (xs.map (place room))
  fields?_place : ∀ room xs,
    fields? (place (room + 1) (.record xs)) = some (.named (xs.map fun e => (e.1, place room e.2)))
  tagged?_place : ∀ room {key name fields entries}, text key → text name → (∀ e ∈ fields, e.1 ≠ key) →
    List.Forall₂ (Keeps text) fields entries →
      tagged? key (place (room + 1) (.record ((key, .text name) :: fields))) = some ⟨name, .named entries⟩

end

/-! ## Values -/

namespace Rereads

variable {D : Type} [Document D] {place : Nat → Datum → D} {number : Float → Prop} {reread? : Float → Option Float}
  {text : String → Prop} (h : Rereads text place number reread?) (room : Nat)

include h

theorem small?_place {n : Nat} (hn : n < Nat.pow 2 32) : small? (place room (.count n)) = some n := by
  have h64 : n < Nat.pow 2 64 := Nat.lt_trans hn (by decide)
  rw [small?, h.nat?_place room h64]
  exact if_pos (decide_eq_true hn)

theorem optional?_place {x : Option Float} (hx : ∀ y ∈ x, number y) :
    optional? float? (place room (.optional .number x)) = x.mapM reread? := by
  cases x with
  | none =>
    rw [optional?, Datum.optional, h.present?_null]
    rfl
  | some y =>
    rw [optional?, Datum.optional, h.present?_number room (hx y rfl)]
    dsimp only
    rw [h.float?_place]
    rfl

theorem listOf?_place {α β : Type} (read : D → Option β) (datum : α → Datum) (xs : List α) :
    listOf? read (place (room + 1) (.listOf datum xs)) = xs.mapM fun x => read (place room (datum x)) := by
  rw [listOf?, Datum.listOf, h.items?_place, Option.bind_some, List.map_map, List.mapM_map]
  rfl

/-- the members of a record are read by name -/
theorem record?_place {α : Type} (reader : FieldReader D α) (xs : List (String × Datum)) :
    record? reader (place (room + 1) (.record xs)) =
      (reader (.named (xs.map fun e => (e.1, place room e.2)))).bind fun p => match p with
        | (a, .named _) => some a
        | (a, .placed []) => some a
        | _ => none := by
  rw [record?, h.fields?_place, Option.bind_eq_bind, Option.bind_some]
  cases reader (.named (xs.map fun e => (e.1, place room e.2))) with
  | none => rfl
  | some p =>
    obtain ⟨a, fields | items⟩ := p
    · rfl
    · cases items <;> rfl

end Rereads

end Document

end RankEval
