/-
JSON texts as trees. Objects keep the order and the repetitions of their members. The tree is built token by token on a
stack of open lists and objects, so that no nesting is too deep.
-/
import RankEval.Json.Token

namespace RankEval.Json

inductive Value where
  | null
  | bool (b : Bool)
  | number (n : Number)
  | text (s : Option String)
  | list (items : List Value)
  | object (members : List (Option String × Value))

/-- an open list or object; what it holds so far is in reverse order -/
inductive Frame where
  | list (items : List Value)
  | object (members : List (Option String × Value)) (key : Option String)

/-- what may come next -/
inductive Expect where
  /-- a value; the end of the list too, iff `close` -/
  | value (close : Bool)
  /-- a key; the end of the object too, iff `close` -/
  | key (close : Bool)
  | colon
  /-- a comma or the end of what is open -/
  | next
  deriving DecidableEq, Repr

/-- the open frames, innermost first, what is expected, and the value when it is complete -/
structure Builder where
  frames : List Frame
  expect : Expect
  result : Option Value

namespace Builder

def start : Builder := ⟨[], .value false, none⟩

/-- puts a complete value in its place -/
def place (frames : List Frame) (v : Value) : Builder :=
  match frames with
  | [] => ⟨[], .next, some v⟩
  | .list items :: rest => ⟨.list (v :: items) :: rest, .next, none⟩
  | .object members key :: rest => ⟨.object ((key, v) :: members) key :: rest, .next, none⟩

/-- closes the innermost list -/
def closeList : List Frame → Option Builder
  | .list items :: rest => some (place rest (.list items.reverse))
  | _ => none

/-- closes the innermost object -/
def closeObject : List Frame → Option Builder
  | .object members _ :: rest => some (place rest (.object members.reverse))
  | _ => none

/-- reads one token -/
def step (b : Builder) (t : Token) : Option Builder :=
  match b.expect, t with
  | .value _, .null => some (place b.frames .null)
  | .value _, .bool v => some (place b.frames (.bool v))
  | .value _, .number n => some (place b.frames (.number n))
  | .value _, .text s => some (place b.frames (.text s))
  | .value _, .beginList => some ⟨.list [] :: b.frames, .value true, none⟩
  | .value _, .beginObject => some ⟨.object [] none :: b.frames, .key true, none⟩
  | .value close, .endList => if close then closeList b.frames else none
  | .key close, .endObject => if close then closeObject b.frames else none
  | .key _, .text s =>
    match b.frames with
    | .object members _ :: rest => some ⟨.object members s :: rest, .colon, none⟩
    | _ => none
  | .colon, .colon => some ⟨b.frames, .value false, none⟩
  | .next, .comma =>
    match b.frames with
    | .list _ :: _ => some ⟨b.frames, .value false, none⟩
    | .object _ _ :: _ => some ⟨b.frames, .key false, none⟩
    | [] => none
  | .next, .endList => closeList b.frames
  | .next, .endObject => closeObject b.frames
  | _, _ => none

end Builder

/-- the value that a list of tokens stands for -/
def ofTokens? (ts : List Token) : Option Value := (ts.foldlM Builder.step Builder.start).bind Builder.result

/-- the value of a JSON text -/
def parse? (s : String) : Option Value := (tokens? s).bind ofTokens?

end RankEval.Json
