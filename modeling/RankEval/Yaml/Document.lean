/-
Typed reading of YAML. A record is a mapping, a variant without fields is its name or a local tag on nothing; where a
record or a list is expected, nothing at all stands for the empty one.
-/
import RankEval.Document.Reading
import RankEval.Yaml.Node
import RankEval.Yaml.Scalar
import RankEval.Yaml.Tokens

namespace RankEval.Yaml

/-! ## Tags -/

def boolTag : String := "tag:yaml.org,2002:bool"

def intTag : String := "tag:yaml.org,2002:int"

def floatTag : String := "tag:yaml.org,2002:float"

def nullTag : String := "tag:yaml.org,2002:null"

/-- the name that a local tag gives -/
def localName? (tag : Option String) : Option String :=
  tag.bind fun t => match t.toList with
    | ['!'] => some "!"
    | '!' :: name => some (String.ofList name)
    | _ => none

/-! ## Values of unknown kind -/

/-- a whole number as a kept value; more than 64 bits are refused -/
def wholeContent? (negative : Bool) (n : Nat) : Option Content :=
  if negative then if n ≤ Nat.pow 2 63 then some .other else none
  else if n < Nat.pow 2 64 then some (.nat n) else none

/-- a plain scalar as a kept value -/
def plainContent? (s : String) : Option Content :=
  match Scalar.meaning s with
  | .null => some .null
  | .bool _ => some .other
  | .whole negative n => wholeContent? negative n
  | .float _ => some .other
  | .text => some (.text s)

/-- a scalar as a kept value, as its tag and its quotes say -/
def scalarContent? (tag : Option String) (s : String) (style : Style) : Option Content :=
  match tag with
  | none => if style = .plain then plainContent? s else some (.text s)
  | some t =>
    if (localName? tag).isSome then none
    else if t = boolTag then (Scalar.bool? s).map fun _ => .other
    else if t = intTag then (Scalar.whole? s).bind fun (negative, n) => wholeContent? negative n
    else if t = floatTag then (Scalar.float? s).map fun _ => .other
    else if t = nullTag then if Scalar.isNull s then some .null else none
    else some (.text s)

/-- keeps a node; `room` is how many levels of nesting are allowed -/
def content? (root : Root) : Nat → Node → Option Content
  | room, node =>
    let resolved := match node with
      | .alias n => root.resolve? n
      | node => some node
    match room, resolved with
    | _, some (.scalar tag s style) => scalarContent? tag s style
    | room + 1, some (.list tag items) =>
      if (localName? tag).isSome then none else (items.mapM (content? root room)).map .list
    | room + 1, some (.map tag entries) =>
      if (localName? tag).isSome then none
      else (entries.mapM fun (key, value) => do
        return (← content? root room key, ← content? root room value)).map .map
    | _, _ => none

/-! ## Places -/

/-- A node in its file, or nothing, and how many levels of nesting are allowed. An alias is already followed. -/
structure Place where
  root : Root
  room : Nat
  node : Option Node

namespace Place

/-- follows an alias -/
def ofNode (root : Root) (room : Nat) : Node → Place
  | .alias n => ⟨root, room, root.resolve? n⟩
  | node => ⟨root, room, some node⟩

/-- the root of a file -/
def ofRoot (root : Root) : Place :=
  match root.node with
  | none => ⟨root, 128, none⟩
  | some node => ofNode root 128 node

/-- a node one level further inside -/
def inside (p : Place) (node : Node) : Place := ofNode p.root (p.room - 1) node

/-- the text of a scalar -/
def text? (p : Place) : Option String :=
  match p.node with
  | some (.scalar _ s _) => some s
  | _ => none

/-- the text of a plain scalar, or of a literal one with a certain tag -/
def plain? (p : Place) (expected : String) : Option String :=
  match p.node with
  | some (.scalar tag s style) => if style = .plain ∨ (style = .literal ∧ tag = some expected) then some s else none
  | _ => none

/-- whether there is nothing at all -/
def isEmpty (p : Place) : Bool :=
  match p.node with
  | none => true
  | some (.scalar _ s style) => s.isEmpty && style == .plain
  | _ => false

def items? (p : Place) : Option (List Place) :=
  match p.node with
  | some (.list _ items) => if p.room = 0 then none else some (items.map p.inside)
  | _ => if p.isEmpty then some [] else none

def fields? (p : Place) : Option (Fields Place) :=
  match p.node with
  | some (.map _ entries) =>
    if p.room = 0 then none
    else (entries.mapM fun (key, value) => (p.inside key).text?.map fun key => (key, p.inside value)).map .named
  | _ => if p.isEmpty then some (.named []) else none

/-- a value that may be missing -/
def present? (p : Place) : Option (Option Place) :=
  match p.node with
  | none => some none
  | some (.scalar tag s .plain) =>
    match tag with
    | none => if s.isEmpty || Scalar.isNull s then some none else some (some p)
    | some t => if t = nullTag then if Scalar.isNull s then some none else none else some (some p)
  | some _ => some (some p)

def variant? (p : Place) : Option String :=
  match p.node with
  | some (.scalar tag s style) =>
    match localName? tag with
    | some name => if style = .plain ∧ (s.isEmpty ∨ Scalar.isNull s) then some name else none
    | none => some s
  | _ => none

/-- a variant whose name stands under a key, or first in a list -/
def tagged? (key : String) (p : Place) : Option Tagged :=
  if p.room = 0 then none
  else match p.node with
    | some (.list tag (first :: items)) => do
      if (localName? tag).isSome then failure
      let name ← (p.inside first).text?
      let items ← items.mapM (content? p.root (p.room - 1))
      return ⟨name, .placed items⟩
    | some (.map tag entries) => do
      if (localName? tag).isSome then failure
      let keyed ← entries.mapM fun (k, value) => (content? p.root (p.room - 1) k).map fun k => (k, value)
      let isKey (c : Content) : Bool := match c with
        | .text s => s == key
        | _ => false
      let [(_, name)] := keyed.filter fun e => isKey e.1 | failure
      let name ← (p.inside name).text?
      let rest ← (keyed.filter fun e => !isKey e.1).mapM fun (k, value) =>
        (content? p.root (p.room - 1) value).map fun c => (k, c)
      return ⟨name, .named rest⟩
    | _ => none

end Place

instance : Document Place where
  nat? p := ((p.plain? intTag).bind Scalar.nat?).filter fun n => decide (n < Nat.pow 2 64)
  float? p := (p.plain? floatTag).bind Scalar.float?
  text? := Place.text?
  bool? p := (p.plain? boolTag).bind Scalar.bool?
  present? := Place.present?
  items? := Place.items?
  fields? := Place.fields?
  variant? := Place.variant?
  tagged? := Place.tagged?

/-- reads a YAML text of at most one document -/
def decode? {α : Type} (read : Place → Option α) (s : String) : Option α := do
  let tokens ← tokens? s
  let root ← Root.ofTokens? tokens
  read (.ofRoot root)

end RankEval.Yaml
