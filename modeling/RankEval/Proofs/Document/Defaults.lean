/-
Records in which every field has a default. Where fields have names, such a record is read field by field: a field has
the value that stands under its name, or its default where nothing does, whatever stands under the other names.

- `gives_withDefault_bind`: one field of a reader, and the fields after it.
- `record?_eq_some_iff`: a record, by what its reader gives.
-/
import RankEval.Proofs.Document.Rereading

namespace RankEval

/-! ## Readers -/

namespace FieldReader

variable {D α β : Type}

/-- whether a reader leaves nothing that it should have read -/
def IsDone : Fields D → Prop
  | .named _ => True
  | .placed items => items = []

/-- what a reader makes of the fields of a record -/
def Gives (reader : FieldReader D α) (fields : Fields D) (value : α) : Prop :=
  ∃ rest, reader fields = some (value, rest) ∧ IsDone rest

/-- whether a name stands at most once -/
def Once (name : String) (members : List (String × D)) : Prop := (members.filter fun m => m.1 == name).length ≤ 1

/-- what stands under a name -/
def first? (name : String) (members : List (String × D)) : Option D :=
  (members.find? fun m => m.1 == name).map Prod.snd

theorem gives_pure (value value' : α) (members : List (String × D)) :
    Gives (pure value) (.named members) value' ↔ value = value' := by
  constructor
  · rintro ⟨rest, hpure, -⟩
    exact congrArg Prod.fst (Option.some.inj hpure)
  · rintro rfl
    exact ⟨_, rfl, trivial⟩

/-- **A field with a default.** It must not stand twice; its value is what stands there, or else the default. -/
theorem gives_withDefault_bind (standard : α) (name : String) (read : D → Option α) (f : α → FieldReader D β)
    (members : List (String × D)) (value : β) :
    Gives (withDefault standard name read >>= f) (.named members) value ↔
      Once name members ∧ ∃ x, (first? name members).elim (some standard) read = some x ∧
        Gives (f x) (.named members) value := by
  unfold Gives Once first?
  rw [bind_named, withDefault_named, ← List.head?_filter]
  generalize members.filter (fun m => m.1 == name) = hits
  rcases hits with _ | ⟨m, _ | ⟨m', rest⟩⟩
  · simp
  · cases h : read m.2 <;> simp [h]
  · simp

end FieldReader

/-! ## Records -/

namespace Document

variable {D α : Type} [Document D]

theorem record?_eq_some_iff (reader : FieldReader D α) (d : D) (value : α) :
    record? reader d = some value ↔ ∃ fields, fields? d = some fields ∧ reader.Gives fields value := by
  unfold record? FieldReader.Gives
  cases fields? d with
  | none => simp
  | some fields =>
    simp only [Option.bind_eq_bind, Option.bind_some, Option.some.injEq, exists_eq_left']
    cases reader fields with
    | none => simp
    | some result =>
      obtain ⟨x, members | items⟩ := result
      · simp [FieldReader.IsDone]
      · cases items <;> simp [FieldReader.IsDone]

/-- what stands under a name, in a record whose fields have names -/
def member? (name : String) (d : D) : Option D :=
  match fields? d with
  | some (.named members) => FieldReader.first? name members
  | _ => none

theorem member?_of_fields? {d : D} {members : List (String × D)} (h : fields? d = some (.named members))
    (name : String) : member? name d = FieldReader.first? name members := by
  simp only [member?, h]

/-- what stands under a name in a record, then under another one in that, and so on -/
def follow : List String → D → Option D
  | [], d => some d
  | name :: names, d => (member? name d).bind (follow names)

theorem follow_singleton (name : String) (d : D) : follow [name] d = member? name d := by
  cases h : member? name d <;> simp [follow, h]

/-- a record whose fields have names, each of some names at most once -/
def IsSection (names : List String) (d : D) : Prop :=
  ∃ members, fields? d = some (.named members) ∧ ∀ name ∈ names, FieldReader.Once name members

end Document

end RankEval
