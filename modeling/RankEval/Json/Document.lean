/-
Typed reading of JSON. A record is an object or a list of its fields, a variant without fields is its name or an object
with `null` under it.
-/
import RankEval.Json.Value
import RankEval.Document.Reading
import Std.Data.TreeMap.Lemmas

namespace RankEval.Json

/-- a value, and how many levels of nesting are allowed inside -/
structure Place where
  room : Nat
  value : Value

namespace Place

/-- the value of a file -/
def root (v : Value) : Place := ⟨127, v⟩

/-- a value one level further inside -/
def inside (p : Place) (v : Value) : Place := ⟨p.room - 1, v⟩

end Place

mutual

/-- keeps a value -/
def content? (room : Nat) : Value → Option Content
  | .null => some .null
  | .bool _ => some .other
  | .number n =>
    match n.toNat? with
    | some n => some (.nat n)
    | none => n.toFloat?.map fun _ => .other
  | .text s => s.map .text
  | .list items => if room = 0 then none else (contents? (room - 1) items).map .list
  | .object members => if room = 0 then none else (entries? (room - 1) members).map .map

/-- keeps the items of a list -/
def contents? (room : Nat) : List Value → Option (List Content)
  | [] => some []
  | v :: vs => do
    let c ← content? room v
    let cs ← contents? room vs
    return c :: cs

/-- keeps the members of an object -/
def entries? (room : Nat) : List (Option String × Value) → Option (List (Content × Content))
  | [] => some []
  | (key, v) :: vs => do
    let key ← key
    let c ← content? room v
    let cs ← entries? room vs
    return (.text key, c) :: cs

end

/-- the members of an object under their names -/
def Value.members? : Value → Option (List (String × Value))
  | .object members => members.mapM fun (key, v) => key.map fun key => (key, v)
  | _ => none

/-- a variant whose name stands under a key, or first in a list -/
def tagged? (key : String) (p : Place) : Option Tagged :=
  if p.room = 0 then none
  else match p.value with
    | .list (.text (some name) :: items) =>
      (contents? (p.room - 1) items).map fun items => ⟨name, .placed items⟩
    | .object _ => do
      let members ← p.value.members?
      let [(_, .text (some name))] := members.filter fun m => m.1 == key | none
      let rest ← (members.filter fun m => m.1 != key).mapM fun (k, v) =>
        (content? (p.room - 1) v).map fun c => (Content.text k, c)
      return ⟨name, .named rest⟩
    | _ => none

instance : Document Place where
  nat? p := match p.value with
    | .number n => n.toNat?
    | _ => none
  float? p := match p.value with
    | .number n => n.toFloat?
    | _ => none
  text? p := match p.value with
    | .text s => s
    | _ => none
  bool? p := match p.value with
    | .bool b => some b
    | _ => none
  present? p := match p.value with
    | .null => some none
    | _ => some (some p)
  items? p := match p.value with
    | .list items => some (items.map p.inside)
    | _ => none
  fields? p := match p.value with
    | .list items => some (.placed (items.map p.inside))
    | _ => p.value.members?.map fun members => .named (members.map fun (key, v) => (key, p.inside v))
  variant? p := match p.value with
    | .text s => s
    | .object [(key, .null)] => key
    | _ => none
  tagged? := tagged?

/-- An object as a map in the order of its keys. Of the values under one key the last one counts, but all of them have
to be right. -/
def mapOf? {α : Type} (read : Place → Option α) (p : Place) : Option (List (String × α)) := do
  let members ← p.value.members?
  let entries ← members.mapM fun (key, v) => (read (p.inside v)).map fun a => (key, a)
  return (entries.foldl (fun (index : Std.TreeMap String α) (key, a) => index.insert key a) ∅).toList

/-- reads a JSON text -/
def decode? {α : Type} (read : Place → Option α) (s : String) : Option α :=
  (parse? s).bind fun v => read (.root v)

end RankEval.Json
