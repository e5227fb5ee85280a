/-
The tokens of plain data stand for one tree. Each step of the parser is one equation, told by the token ahead; a list
that is not indented ends where no dash follows, and everything else ends with its own last token.

- `node`: the tree of data.
- `node_tokens`: wherever a value may come next, the parser makes the tree of the data out of their tokens.
- `ofTokens?_tokens`: the tree of a printed record.
-/
import RankEval.Proofs.Yaml.Lexing
import RankEval.Yaml.Node

namespace RankEval.Yaml

mutual

/-- the tree of data -/
def node : Datum → Node
  | .list xs => .list none (nodes xs)
  | .record xs => .map none (entries xs)
  | d => .scalar none (String.ofList (word d)) .plain

/-- the trees of the items of a list -/
def nodes : List Datum → List Node
  | [] => []
  | x :: xs => node x :: nodes xs

/-- the trees of the members of a record, behind those of their keys -/
def entries : List (String × Datum) → List (Node × Node)
  | [] => []
  | (key, x) :: xs => (.scalar none key .plain, node x) :: entries xs

end

theorem node_eq {d : Datum} (hnested : isNested d = false) : node d = .scalar none (String.ofList (word d)) .plain := by
  cases d with
  | list xs => cases hnested
  | record xs => cases hnested
  | _ => simp [node]

theorem nodes_eq_map (xs : List Datum) : nodes xs = xs.map node := by
  induction xs with
  | nil => rw [nodes, List.map_nil]
  | cons x xs ih => rw [nodes, ih, List.map_cons]

theorem entries_eq_map (xs : List (String × Datum)) :
    entries xs = xs.map fun e => (.scalar none e.1 .plain, node e.2) := by
  induction xs with
  | nil => rw [entries, List.map_nil]
  | cons x xs ih =>
    obtain ⟨key, x⟩ := x
    rw [entries, ih, List.map_cons]

/-! ## Steps of the parser -/

namespace Parse

variable (r : Reader) (fuel : Nat) (ts : List Token)

theorem node_scalar (block indentless : Bool) (s : String) :
    node block indentless (fuel + 1) { r with tokens := .scalar s .plain :: ts } =
      some (.scalar none s .plain, { r with tokens := ts }) := by
  rw [node]
  rfl

theorem node_emptyList (block indentless : Bool) :
    node block indentless (fuel + 2) { r with tokens := .flowSequence :: .flowSequenceEnd :: ts } =
      some (.list none [], { r with tokens := ts }) := by
  rw [node]
  rfl

theorem node_list (block : Bool) :
    node block true (fuel + 1) { r with tokens := .blockEntry :: ts } =
      (indentlessItems fuel { r with tokens := .blockEntry :: ts }).bind fun p => some (.list none p.1, p.2) := by
  rw [node]
  rfl

theorem node_record (indentless : Bool) :
    node true indentless (fuel + 1) { r with tokens := .blockMapping :: ts } =
      (blockEntries fuel { r with tokens := ts }).bind fun p => some (.map none p.1, p.2) := by
  cases indentless <;> rw [node] <;> rfl

theorem bind_run {α β : Type} (m : Parse α) (f : α → Parse β) : (m >>= f) r = (m r).bind fun p => f p.1 p.2 := rfl

theorem takes_self (t : Token) : takes t { r with tokens := t :: ts } = some (true, { r with tokens := ts }) := by
  have hsees : [t].contains t = true := by simp
  rw [takes, bind_run]
  change (some ([t].contains t, _) : Option (Bool × Reader)).bind _ = _
  rw [hsees]
  rfl

theorem sees_cons (expected : List Token) (t : Token) :
    sees expected { r with tokens := t :: ts } = some (expected.contains t, { r with tokens := t :: ts }) := rfl

theorem items_nil (h : ts.head? ≠ some .blockEntry) :
    indentlessItems (fuel + 1) { r with tokens := ts } = some ([], { r with tokens := ts }) := by
  rw [indentlessItems]
  cases ts with
  | nil => rfl
  | cons t ts =>
    have hne : [Token.blockEntry].contains t = false := by simpa using h
    rw [takes, bind_run, bind_run, sees_cons, hne]
    rfl

/-- an item that is written with a token of its own -/
theorem items_cons {t : Token} (ht : t ∉ [Token.blockEntry, .key, .value, .blockEnd]) :
    indentlessItems (fuel + 1) { r with tokens := .blockEntry :: t :: ts } =
      (node true false fuel { r with tokens := t :: ts }).bind fun p =>
        (indentlessItems fuel p.2).bind fun q => some (p.1 :: q.1, q.2) := by
  have hsees : [Token.blockEntry, .key, .value, .blockEnd].contains t = false := by
    rwa [List.contains_eq_mem, decide_eq_false_iff_not]
  rw [indentlessItems, bind_run, takes_self, Option.bind_some, if_pos rfl, bind_run]
  dsimp only
  rw [sees_cons, hsees]
  rfl

theorem entries_nil :
    blockEntries (fuel + 1) { r with tokens := .blockEnd :: ts } = some ([], { r with tokens := ts }) := by
  rw [blockEntries]
  rfl

theorem value_cons {t : Token} (ht : t ∉ [Token.key, .value, .blockEnd]) :
    blockValue (fuel + 1) { r with tokens := .value :: t :: ts } =
      node true true fuel { r with tokens := t :: ts } := by
  have hsees : [Token.key, .value, .blockEnd].contains t = false := by
    rwa [List.contains_eq_mem, decide_eq_false_iff_not]
  rw [blockValue, bind_run, takes_self, Option.bind_some, if_pos rfl, bind_run]
  dsimp only
  rw [sees_cons, hsees]
  rfl

/-- an entry, the value of which is written with a token of its own -/
theorem entries_cons (key : String) {t : Token} (ht : t ∉ [Token.key, .value, .blockEnd]) :
    blockEntries (fuel + 3) { r with tokens := .key :: .scalar key .plain :: .value :: t :: ts } =
      (node true true (fuel + 1) { r with tokens := t :: ts }).bind fun p =>
        (blockEntries (fuel + 2) p.2).bind fun q => some ((.scalar none key .plain, p.1) :: q.1, q.2) := by
  rw [blockEntries, bind_run, takes_self, Option.bind_some, if_pos rfl, bind_run]
  dsimp only
  rw [sees_cons, Option.bind_some, if_neg (by simp), bind_run]
  dsimp only
  rw [node_scalar, Option.bind_some, bind_run]
  dsimp only
  rw [value_cons _ _ _ ht]
  rfl

end Parse

/-! ## Trees of data -/

/-- what the tokens of data begin with -/
theorem exists_head_tokens (d : Datum) :
    ∃ t ts, tokens d = t :: ts ∧ t ∉ [Token.key, .value, .blockEnd] ∧ (isList d = false → t ≠ .blockEntry) := by
  cases d with
  | list xs =>
    cases xs with
    | nil => exact ⟨.flowSequence, _, tokens.eq_1, by simp, by simp⟩
    | cons x xs => exact ⟨.blockEntry, _, tokens.eq_2 .., by simp, nofun⟩
  | record xs => exact ⟨.blockMapping, _, tokens.eq_3 .., by simp, by simp⟩
  | _ => exact ⟨_, _, tokens_eq rfl, by simp, by simp⟩

/-- a sequence that is not indented ends where no dash follows -/
def Ends (d : Datum) (indentless : Bool) (ts : List Token) : Prop :=
  isList d = true → indentless = true ∧ ts.head? ≠ some .blockEntry

theorem head?_memberTokens_append (xs : List (String × Datum)) (ts : List Token) :
    (memberTokens xs ++ .blockEnd :: ts).head? ≠ some .blockEntry := by
  cases xs with
  | nil => rw [memberTokens]; simp
  | cons x xs => obtain ⟨key, x⟩ := x; rw [memberTokens]; simp

theorem node_word {d : Datum} (hnested : isNested d = false) (indentless : Bool) (r : Reader) (ts : List Token)
    {fuel : Nat} (hfuel : 2 * (tokens d).length ≤ fuel) :
    Parse.node true indentless fuel { r with tokens := tokens d ++ ts } = some (node d, { r with tokens := ts }) := by
  rw [tokens_eq hnested] at hfuel ⊢
  obtain ⟨n, rfl⟩ : ∃ n, fuel = n + 1 := ⟨fuel - 1, by simp at hfuel; omega⟩
  rw [node_eq hnested]
  exact Parse.node_scalar r n ts true indentless _

mutual

theorem node_tokens : ∀ {d : Datum}, IsPlain d → ∀ (indentless : Bool) (r : Reader) (ts : List Token) {fuel : Nat},
    2 * (tokens d).length ≤ fuel → Ends d indentless ts →
      Parse.node true indentless fuel { r with tokens := tokens d ++ ts } = some (node d, { r with tokens := ts })
  | .list [], _, indentless, r, ts, fuel, hfuel, _ => by
    rw [tokens] at hfuel ⊢
    rw [node, nodes]
    obtain ⟨n, rfl⟩ : ∃ n, fuel = n + 2 := ⟨fuel - 2, by simp only [List.length_cons] at hfuel; omega⟩
    exact Parse.node_emptyList r n ts true indentless
  | .list (x :: xs), hd, indentless, r, ts, fuel, hfuel, hends => by
    rw [IsPlain] at hd
    obtain ⟨rfl, hts⟩ := hends rfl
    rw [tokens_list (List.cons_ne_nil x xs)] at hfuel ⊢
    have hlength : 2 ≤ (itemTokens (x :: xs)).length := by
      obtain ⟨t, more, hhead, -⟩ := exists_head_tokens x
      simp only [itemTokens, hhead, List.cons_append, List.length_cons]
      omega
    obtain ⟨n, rfl⟩ : ∃ n, fuel = n + 1 := ⟨fuel - 1, by omega⟩
    have hitems := items_tokens hd r ts hfuel (by omega) hts
    rw [itemTokens, List.cons_append, List.cons_append] at hitems ⊢
    rw [Parse.node_list, hitems, node]
    rfl
  | .record xs, hd, indentless, r, ts, fuel, hfuel, _ => by
    rw [IsPlain] at hd
    rw [tokens] at hfuel ⊢
    simp only [List.cons_append, List.length_cons, List.length_append] at hfuel
    obtain ⟨n, rfl⟩ : ∃ n, fuel = n + 1 := ⟨fuel - 1, by omega⟩
    have hentries := entries_tokens hd.2 r ts (show 2 * (memberTokens xs).length < n by omega)
    rw [List.cons_append, List.cons_append, List.append_assoc, Parse.node_record]
    change (Parse.blockEntries n { r with tokens := memberTokens xs ++ .blockEnd :: ts }).bind _ = _
    rw [hentries, node]
    rfl
  | .null, _, indentless, r, ts, _, hfuel, _ => node_word rfl indentless r ts hfuel
  | .flag _, _, indentless, r, ts, _, hfuel, _ => node_word rfl indentless r ts hfuel
  | .count _, _, indentless, r, ts, _, hfuel, _ => node_word rfl indentless r ts hfuel
  | .number _, _, indentless, r, ts, _, hfuel, _ => node_word rfl indentless r ts hfuel
  | .text _, _, indentless, r, ts, _, hfuel, _ => node_word rfl indentless r ts hfuel

theorem items_tokens : ∀ {xs : List Datum}, PlainItems xs → ∀ (r : Reader) (ts : List Token) {fuel : Nat},
    2 * (itemTokens xs).length ≤ fuel + 1 → 0 < fuel → ts.head? ≠ some .blockEntry →
      Parse.indentlessItems fuel { r with tokens := itemTokens xs ++ ts } = some (nodes xs, { r with tokens := ts })
  | [], _, r, ts, fuel, _, hpos, hts => by
    obtain ⟨n, rfl⟩ := Nat.exists_eq_succ_of_ne_zero hpos.ne'
    rw [itemTokens, nodes]
    exact Parse.items_nil r n ts hts
  | x :: xs, hxs, r, ts, fuel, hfuel, hpos, hts => by
    rw [PlainItems] at hxs
    obtain ⟨hlist, hx, hxs⟩ := hxs
    obtain ⟨t, more, hhead, ht, hentry⟩ := exists_head_tokens x
    have ht' : t ∉ [Token.blockEntry, .key, .value, .blockEnd] := List.not_mem_cons_of_ne_of_not_mem (hentry hlist) ht
    rw [itemTokens, List.cons_append, List.length_cons, List.length_append] at hfuel
    have hpos' : 0 < (tokens x).length := by
      rw [hhead]
      exact Nat.succ_pos _
    obtain ⟨n, rfl⟩ := Nat.exists_eq_succ_of_ne_zero hpos.ne'
    have hitem := node_tokens hx false r (itemTokens xs ++ ts) (show 2 * (tokens x).length ≤ n by omega)
      fun h => Bool.noConfusion (hlist.symm.trans h)
    have hitems := items_tokens hxs r ts (show 2 * (itemTokens xs).length ≤ n + 1 by omega) (by omega) hts
    rw [hhead, List.cons_append] at hitem
    rw [itemTokens, hhead, nodes]
    simp only [List.cons_append, List.append_assoc]
    rw [Parse.items_cons _ _ _ ht', hitem, Option.bind_some, hitems]
    rfl

theorem entries_tokens : ∀ {xs : List (String × Datum)}, PlainMembers xs → ∀ (r : Reader) (ts : List Token)
    {fuel : Nat}, 2 * (memberTokens xs).length < fuel →
      Parse.blockEntries fuel { r with tokens := memberTokens xs ++ .blockEnd :: ts } =
        some (entries xs, { r with tokens := ts })
  | [], _, r, ts, fuel, hfuel => by
    obtain ⟨n, rfl⟩ := Nat.exists_eq_succ_of_ne_zero (Nat.ne_zero_of_lt hfuel)
    rw [memberTokens, entries]
    exact Parse.entries_nil r n ts
  | (key, x) :: xs, hxs, r, ts, fuel, hfuel => by
    rw [PlainMembers] at hxs
    obtain ⟨-, hx, hxs⟩ := hxs
    obtain ⟨t, more, hhead, ht, -⟩ := exists_head_tokens x
    simp only [memberTokens, List.cons_append, List.length_cons, List.length_append] at hfuel
    obtain ⟨n, rfl⟩ : ∃ n, fuel = n + 3 := ⟨fuel - 3, by omega⟩
    have hvalue := node_tokens hx true r (memberTokens xs ++ .blockEnd :: ts)
      (show 2 * (tokens x).length ≤ n + 1 by omega) fun _ => ⟨rfl, head?_memberTokens_append xs ts⟩
    have hentries := entries_tokens hxs r ts (show 2 * (memberTokens xs).length < n + 2 by omega)
    rw [hhead, List.cons_append] at hvalue
    rw [memberTokens, hhead, entries]
    simp only [List.cons_append, List.append_assoc]
    rw [Parse.entries_cons _ _ _ _ ht, hvalue, Option.bind_some, hentries]
    rfl

end

/-- **The tokens of printed data stand for one tree.** -/
theorem ofTokens?_tokens {xs : List (String × Datum)} (hd : IsPlain (.record xs)) :
    Root.ofTokens? (tokens (.record xs)) = some ⟨some (node (.record xs)), []⟩ := by
  have hnode := node_tokens hd false ⟨[], Parse.standardHandles, [], [], 0⟩ []
    (show 2 * (tokens (.record xs)).length ≤ 4 * (tokens (.record xs)).length + 4 by omega) nofun
  rw [Root.ofTokens?]
  generalize 4 * (tokens (.record xs)).length + 4 = fuel at hnode ⊢
  rw [List.append_nil, tokens, List.cons_append] at hnode
  rw [tokens, List.cons_append]
  change ((Parse.node true false fuel ⟨.blockMapping :: (memberTokens xs ++ [.blockEnd]), Parse.standardHandles, [], [],
    0⟩).bind _).bind _ = _
  rw [hnode]
  rfl

end RankEval.Yaml
