/-
YAML documents as trees, and how they are put together from tokens.

An alias is kept as the number of its anchor. What it stands for is looked up when someone asks, because it may lie
around the alias itself.
-/
import RankEval.Yaml.Token

namespace RankEval.Yaml

inductive Node where
  | scalar (tag : Option String) (text : String) (style : Style)
  | list (tag : Option String) (items : List Node)
  | map (tag : Option String) (entries : List (Node × Node))
  | alias (anchor : Nat)

namespace Node

/-- what stands where nothing is written -/
def blank : Node := .scalar none "" .plain

end Node

/-- An anchored node: the number of its anchor, and how many anchors stand before it. -/
structure Anchored where
  number : Nat
  place : Nat
  node : Node

/-- a parsed file; it has no root if there is nothing in it at all -/
structure Root where
  node : Option Node
  anchored : List Anchored

/-- What is not yet read, and what was declared before. -/
structure Reader where
  tokens : List Token
  /-- tag handles and what they stand for -/
  handles : List (String × String)
  /-- the anchor that each name means, the latest first -/
  names : List (String × Nat)
  anchored : List Anchored
  /-- the number of anchors so far -/
  places : Nat

abbrev Parse := StateT Reader Option

namespace Parse

def peek : Parse (Option Token) := return (← get).tokens.head?

def skip : Parse Unit := modify fun r => { r with tokens := r.tokens.tail }

/-- whether the next token is one of some; the end of the text is none -/
def sees (ts : List Token) : Parse Bool := return (← peek).any ts.contains

/-- takes a token if it is the next one -/
def takes (t : Token) : Parse Bool := do
  if ← sees [t] then
    skip
    return true
  else return false

/-- the number of different names that anchors have so far -/
def nameCount (names : List (String × Nat)) : Nat := (names.map Prod.fst).eraseDups.length

/-- Declares an anchor: its number is the number of different names before it. -/
def declare (name : String) : Parse (Nat × Nat) := do
  let r ← get
  let number := nameCount r.names
  set { r with names := (name, number) :: r.names, places := r.places + 1 }
  return (number, r.places)

/-- the full tag that a handle and a suffix stand for -/
def resolveTag (handle suffix : String) : Parse String := do
  if handle.isEmpty then return suffix
  let some start := (← get).handles.lookup handle | failure
  return start ++ suffix

/-- the anchor and the tag before a node, in either order -/
def properties : Parse (Option String × Option String) := do
  match ← peek with
  | some (.anchor name) =>
    skip
    match ← peek with
    | some (.tag handle suffix) =>
      skip
      return (some name, some (← resolveTag handle suffix))
    | _ => return (some name, none)
  | some (.tag handle suffix) =>
    skip
    match ← peek with
    | some (.anchor name) =>
      skip
      return (some name, some (← resolveTag handle suffix))
    | _ => return (none, some (← resolveTag handle suffix))
  | _ => return (none, none)

/-- what follows an anchor name is the node of the anchor -/
def anchoring (name : Option String) (body : Parse Node) : Parse Node := do
  match name with
  | none => body
  | some name =>
    let (number, place) ← declare name
    let node ← body
    modify fun r => { r with anchored := ⟨number, place, node⟩ :: r.anchored }
    return node

mutual

/-- A node. `block`: blocks may begin here; `indentless`: so may a sequence that is not indented. -/
def node (block indentless : Bool) : Nat → Parse Node
  | 0 => failure
  | fuel + 1 => do
    if let some (.alias name) ← peek then
      skip
      let some number := (← get).names.lookup name | failure
      return .alias number
    let (anchor, tag) ← properties
    anchoring anchor do
      match ← peek with
      | some (.scalar text style) =>
        skip
        return .scalar (if tag = some "!" then none else tag) text style
      | some .flowSequence =>
        skip
        return .list tag (← flowItems true fuel)
      | some .flowMapping =>
        skip
        return .map tag (← flowEntries true fuel)
      | t =>
        if indentless && t == some .blockEntry then return .list tag (← indentlessItems fuel)
        else if block && t == some .blockSequence then
          skip
          return .list tag (← blockItems fuel)
        else if block && t == some .blockMapping then
          skip
          return .map tag (← blockEntries fuel)
        else if anchor.isSome || tag.isSome then return .scalar tag "" .plain
        else failure

/-- the items of a block sequence, up to its end -/
def blockItems : Nat → Parse (List Node)
  | 0 => failure
  | fuel + 1 => do
    if ← takes .blockEntry then
      let item ← if ← sees [.blockEntry, .blockEnd] then pure Node.blank else node true false fuel
      return item :: (← blockItems fuel)
    else if ← takes .blockEnd then return []
    else failure

/-- the items of a sequence that is not indented -/
def indentlessItems : Nat → Parse (List Node)
  | 0 => failure
  | fuel + 1 => do
    if ← takes .blockEntry then
      let item ← if ← sees [.blockEntry, .key, .value, .blockEnd] then pure Node.blank else node true false fuel
      return item :: (← indentlessItems fuel)
    else return []

/-- the entries of a block mapping, up to its end -/
def blockEntries : Nat → Parse (List (Node × Node))
  | 0 => failure
  | fuel + 1 => do
    if ← takes .key then
      let key ← if ← sees [.key, .value, .blockEnd] then pure Node.blank else node true true fuel
      let value ← blockValue fuel
      return (key, value) :: (← blockEntries fuel)
    else if ← takes .blockEnd then return []
    else failure

/-- the value of an entry of a block mapping -/
def blockValue : Nat → Parse Node
  | 0 => failure
  | fuel + 1 => do
    if ← takes .value then
      if ← sees [.key, .value, .blockEnd] then return .blank else node true true fuel
    else return .blank

/-- the items of a flow sequence, up to its end; an entry with a colon is a mapping of its own -/
def flowItems (first : Bool) : Nat → Parse (List Node)
  | 0 => failure
  | fuel + 1 => do
    if ← takes .flowSequenceEnd then return []
    if !first then
      if !(← takes .flowEntry) then failure
    if ← takes .key then
      let key ← if ← sees [.value, .flowEntry, .flowSequenceEnd] then do skip; pure Node.blank
        else node false false fuel
      let value ← flowValue .flowSequenceEnd fuel
      return .map none [(key, value)] :: (← flowItems false fuel)
    else if ← takes .flowSequenceEnd then return []
    else
      let item ← node false false fuel
      return item :: (← flowItems false fuel)

/-- the value of an entry of a flow collection that ends with `close` -/
def flowValue (close : Token) : Nat → Parse Node
  | 0 => failure
  | fuel + 1 => do
    if ← takes .value then
      if ← sees [.flowEntry, close] then return .blank else node false false fuel
    else return .blank

/-- the entries of a flow mapping, up to its end -/
def flowEntries (first : Bool) : Nat → Parse (List (Node × Node))
  | 0 => failure
  | fuel + 1 => do
    if ← takes .flowMappingEnd then return []
    if !first then
      if !(← takes .flowEntry) then failure
    if ← takes .key then
      let key ← if ← sees [.value, .flowEntry, .flowMappingEnd] then pure Node.blank else node false false fuel
      let value ← flowValue .flowMappingEnd fuel
      return (key, value) :: (← flowEntries false fuel)
    else if ← takes .flowMappingEnd then return []
    else
      let key ← node false false fuel
      return (key, .blank) :: (← flowEntries false fuel)

end

/-- Directives: at most one version, which is 1.1 or 1.2, and no handle twice. -/
def directives (version : Bool) : Nat → Parse Bool
  | 0 => failure
  | fuel + 1 => do
    match ← peek with
    | some (.version major minor) =>
      if version || major ≠ 1 || (minor ≠ 1 && minor ≠ 2) then failure
      skip
      directives true fuel
    | some (.tagHandle handle start) =>
      if ((← get).handles.lookup handle).isSome then failure
      skip
      modify fun r => { r with handles := r.handles ++ [(handle, start)] }
      directives version fuel
    | _ => return version

/-- the handles that need no directive -/
def standardHandles : List (String × String) := [("!", "!"), ("!!", "tag:yaml.org,2002:")]

/-- the content of a document behind its start -/
def documentContent (fuel : Nat) : Parse Node := do
  match ← peek with
  | none => return .blank
  | some t =>
    match t with
    | .version _ _ | .tagHandle _ _ | .documentStart | .documentEnd => return .blank
    | _ => node true false fuel

/-- drops the ends of documents that follow -/
def skipEnds : Parse Unit := modify fun r => { r with tokens := r.tokens.dropWhile (· == .documentEnd) }

/-- a file of at most one document -/
def file (fuel : Nat) : Parse (Option Node) := do
  match ← peek with
  | none => return none
  | some t =>
    let explicit := match t with
      | .version _ _ | .tagHandle _ _ | .documentStart => true
      | _ => false
    let root ← if explicit then do
        let _ ← directives false fuel
        modify fun r => { r with handles := r.handles ++ standardHandles }
        if !(← takes .documentStart) then failure
        documentContent fuel
      else do
        modify fun r => { r with handles := standardHandles }
        node true false fuel
    skipEnds
    if (← peek).isSome then failure
    return some root

end Parse

/-- The tree of some tokens. No step of the parser leads deeper without a token of its own. -/
def Root.ofTokens? (ts : List Token) : Option Root := do
  let (node, r) ← (Parse.file (4 * ts.length + 4)).run ⟨ts, [], [], [], 0⟩
  return ⟨node, r.anchored⟩

namespace Root

/-- the node that an alias stands for: of the nodes with its number the last one -/
def resolve? (r : Root) (number : Nat) : Option Node :=
  let candidates := r.anchored.filter fun a => a.number == number
  (candidates.foldl (fun best a => match best with
    | none => some a
    | some (b : Anchored) => if b.place < a.place then some a else some b) none).map Anchored.node

end Root

end RankEval.Yaml
