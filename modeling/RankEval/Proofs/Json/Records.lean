/-
Typed reading of data printed as JSON. Wherever data stand in a file, a reader of the right kind gets back what was
printed: natural numbers, texts, lists and records as they are, and doubles as what the quick reading makes of their
digits.

- `reread?`: what a double comes back as.
- `rereads`: the laws of the format.
-/
import RankEval.Json.Document
import RankEval.Proofs.Document.Rereading
import RankEval.Proofs.Json.Tree

namespace RankEval.Json

open Document (Keeps Rereads float? nat? tagged?)

/-- What a double comes back as: its shortest digits, read quickly. Nothing for a double that is not finite. -/
def reread? (x : Float) : Option Float := (Number.ofChars? (numberLayout.text x).toList).bind Number.toFloat?

/-- where data stand in a file -/
def placed (room : Nat) (d : Datum) : Place := ⟨room, value d⟩

section
variable (room : Nat)

theorem float?_placed (x : Float) : float? (placed room (.number x)) = reread? x := by
  rw [placed, value]
  unfold numberValue reread?
  cases Number.ofChars? (numberLayout.text x).toList <;> rfl

theorem nat?_placed {n : Nat} (h : n < Nat.pow 2 64) : nat? (placed room (.count n)) = some n := by
  rw [placed, value]
  exact Number.toNat?_toDigits h

theorem present?_number {x : Float} (h : x.isFinite = true) :
    Document.present? (placed room (.number x)) = some (some (placed room (.number x))) := by
  obtain ⟨n, hn⟩ := Number.ofChars?_text h
  rw [placed, value, numberValue, hn]
  rfl

theorem members?_value (ms : List (String × Datum)) :
    (value (.record ms)).members? = some (ms.map fun e => (e.1, value e.2)) := by
  rw [value, members_eq_map, Value.members?]
  induction ms with
  | nil => rfl
  | cons m ms ih => rw [List.map_cons, List.mapM_cons, ih, List.map_cons]; rfl

theorem fields?_placed (ms : List (String × Datum)) :
    Document.fields? (placed (room + 1) (.record ms)) = some (.named (ms.map fun e => (e.1, placed room e.2))) := by
  have hfields : Document.fields? (placed (room + 1) (.record ms)) = (value (.record ms)).members?.map fun entries =>
      .named (entries.map fun e => (e.1, Place.inside (placed (room + 1) (.record ms)) e.2)) := by
    rw [placed, value]
    rfl
  rw [hfields, members?_value, Option.map_some, List.map_map]
  rfl

theorem content?_of_keeps {text : String → Prop} {e : String × Datum} {c : Content × Content} (h : Keeps text e c) :
    (content? room (value e.2)).map (fun content => (Content.text e.1, content)) = some c := by
  cases h with
  | count _ hn =>
    rw [value, countValue, content?, Number.toNat?_toDigits hn]
    rfl
  | text _ _ =>
    rw [value, content?]
    rfl

/-- a variant with its name under a key, its fields behind it -/
theorem tagged?_placed {text : String → Prop} {key name : String} {fields : List (String × Datum)}
    {entries : List (Content × Content)} (hkey : ∀ e ∈ fields, e.1 ≠ key)
    (hfields : List.Forall₂ (Keeps text) fields entries) :
    Document.tagged? key (placed (room + 1) (.record ((key, .text name) :: fields))) =
      some ⟨name, .named entries⟩ := by
  have hmembers := members?_value ((key, .text name) :: fields)
  have hhits : ((fields.map fun e => (e.1, value e.2)).filter fun m => m.1 == key) = [] := by
    rw [List.filter_eq_nil_iff]
    intro m hm
    obtain ⟨e, he, rfl⟩ := List.mem_map.1 hm
    exact fun heq => hkey e he (beq_iff_eq.1 heq)
  have hothers : ((fields.map fun e => (e.1, value e.2)).filter fun m => m.1 != key) =
      fields.map fun e => (e.1, value e.2) := by
    rw [List.filter_eq_self]
    intro m hm
    obtain ⟨e, he, rfl⟩ := List.mem_map.1 hm
    exact bne_iff_ne.2 (hkey e he)
  have hkept : (fields.mapM fun e => (content? room (value e.2)).map fun c => (Content.text e.1, c)) =
      some entries := by
    clear hmembers hhits hothers hkey
    induction hfields with
    | nil => rfl
    | cons h _ ih => rw [List.mapM_cons, content?_of_keeps room h, ih]; rfl
  change Json.tagged? key _ = _
  rw [placed]
  rw [value] at hmembers ⊢
  simp only [Json.tagged?, if_neg (Nat.succ_ne_zero room), hmembers, Option.bind_eq_bind, Option.bind_some,
    List.map_cons, List.filter_cons]
  simp [hhits, hothers, value, List.mapM_map, Function.comp_def, hkept]

end

/-- **JSON gives back** every text, and every finite double as its digits are read. -/
theorem rereads : Rereads (fun _ => True) placed (fun x => x.isFinite = true) reread? where
  nat?_place := nat?_placed
  float?_place := float?_placed
  text?_place room s _ := by
    rw [placed, value]
    rfl
  present?_null room := by
    rw [placed, value]
    rfl
  present?_number := present?_number
  items?_place room xs := by
    have hplaced : (xs.map value).map (Place.inside ⟨room + 1, .list (xs.map value)⟩) = xs.map (placed room) := by
      rw [List.map_map]
      rfl
    rw [placed, value, values_eq_map, ← hplaced]
    rfl
  fields?_place := fields?_placed
  tagged?_place room _ _ _ _ _ _ := tagged?_placed room

end RankEval.Json
