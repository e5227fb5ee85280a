/-
The tokens of printed data stand for one tree.

- `build_tokens`: wherever a value may come next, the tokens of data put the tree of the data there.
- `parse?_print`: reading printed data gives their tree.
-/
import RankEval.Json.Value
import RankEval.Proofs.Json.Lexing

namespace RankEval.Json

/-- the value of a token that is a number or stands for one that is not finite -/
def numberValue (x : Float) : Value :=
  match Number.ofChars? (numberLayout.text x).toList with
  | some n => .number n
  | none => .null

/-- the value of a natural number -/
def countValue (n : Nat) : Value := .number ⟨⟨false, (Nat.toDigits 10 n).map Decimal.digitValue, [], 0⟩, true⟩

mutual

/-- the tree of data -/
def value : Datum → Value
  | .null => .null
  | .flag b => .bool b
  | .count n => countValue n
  | .number x => numberValue x
  | .text s => .text (some s)
  | .list xs => .list (values xs)
  | .record xs => .object (members xs)

/-- the trees of the items of a list -/
def values : List Datum → List Value
  | [] => []
  | x :: xs => value x :: values xs

/-- the trees of the members of a record, under their keys -/
def members : List (String × Datum) → List (Option String × Value)
  | [] => []
  | (key, x) :: xs => (some key, value x) :: members xs

end

theorem values_eq_map (xs : List Datum) : values xs = xs.map value := by
  induction xs with
  | nil => rfl
  | cons x xs ih => rw [values, ih, List.map_cons]

theorem members_eq_map (xs : List (String × Datum)) : members xs = xs.map fun e => (some e.1, value e.2) := by
  induction xs with
  | nil => rfl
  | cons x xs ih =>
    obtain ⟨key, x⟩ := x
    rw [members, ih, List.map_cons]

/-! ## Building -/

/-- a number takes the place of a value -/
theorem build_double (frames : List Frame) (close : Bool) (x : Float) :
    Builder.step ⟨frames, .value close, none⟩ (numberToken x) = some (Builder.place frames (numberValue x)) := by
  unfold numberToken numberValue
  cases Number.ofChars? (numberLayout.text x).toList <;> rfl

theorem build_endList (frames : List Frame) (items : List Value) :
    [Token.endList].foldlM Builder.step ⟨.list items :: frames, .next, none⟩ =
      some (Builder.place frames (.list items.reverse)) := rfl

theorem build_endObject (frames : List Frame) (entries : List (Option String × Value)) (last : Option String) :
    [Token.endObject].foldlM Builder.step ⟨.object entries last :: frames, .next, none⟩ =
      some (Builder.place frames (.object entries.reverse)) := rfl

mutual

theorem build_tokens (frames : List Frame) (close : Bool) : ∀ d : Datum,
    (tokens d).foldlM Builder.step ⟨frames, .value close, none⟩ = some (Builder.place frames (value d))
  | .null => by
    rw [tokens, value]
    rfl
  | .flag b => by
    rw [tokens, value]
    rfl
  | .count n => by
    rw [tokens, value]
    rfl
  | .number x => by
    rw [tokens, value, List.foldlM_cons, build_double]
    rfl
  | .text s => by
    rw [tokens, value]
    rfl
  | .list [] => by
    rw [tokens, value, values]
    rfl
  | .list (x :: xs) => by
    have hfirst := build_tokens (.list [] :: frames) true x
    have hitems := build_itemTokens frames [value x] xs
    have hopen : Builder.step ⟨frames, .value close, none⟩ .beginList =
        some ⟨.list [] :: frames, .value true, none⟩ := rfl
    rw [tokens, List.cons_append, List.cons_append, List.foldlM_cons, hopen, Option.bind_eq_bind, Option.bind_some,
      List.foldlM_append, List.foldlM_append, hfirst, Option.bind_eq_bind, Option.bind_some]
    change ((itemTokens xs).foldlM Builder.step ⟨.list [value x] :: frames, .next, none⟩ >>= _) = _
    rw [hitems, Option.bind_eq_bind, Option.bind_some, build_endList, List.reverse_append, List.reverse_reverse, value,
      values]
    rfl
  | .record [] => by
    rw [tokens, value, members]
    rfl
  | .record ((key, x) :: xs) => by
    have hfirst := build_tokens (.object [] (some key) :: frames) false x
    obtain ⟨last, hmembers⟩ := build_memberTokens frames [(some key, value x)] (some key) xs
    have hopen : [Token.beginObject, .text (some key), .colon].foldlM Builder.step ⟨frames, .value close, none⟩ =
        some ⟨.object [] (some key) :: frames, .value false, none⟩ := rfl
    have hsplit : tokens (.record ((key, x) :: xs)) = [Token.beginObject, .text (some key), .colon] ++ (tokens x ++
        (memberTokens xs ++ [.endObject])) := by
      rw [tokens]
      simp only [List.cons_append, List.nil_append, List.append_assoc]
    rw [hsplit, List.foldlM_append, hopen, Option.bind_eq_bind, Option.bind_some, List.foldlM_append, hfirst,
      Option.bind_eq_bind, Option.bind_some, List.foldlM_append]
    change ((memberTokens xs).foldlM Builder.step ⟨.object [(some key, value x)] (some key) :: frames, .next, none⟩ >>=
      _) = _
    rw [hmembers, Option.bind_eq_bind, Option.bind_some, build_endObject, List.reverse_append, List.reverse_reverse,
      value, members]
    rfl

theorem build_itemTokens (frames : List Frame) (before : List Value) : ∀ xs : List Datum,
    (itemTokens xs).foldlM Builder.step ⟨.list before :: frames, .next, none⟩ =
      some ⟨.list ((values xs).reverse ++ before) :: frames, .next, none⟩
  | [] => by
    rw [itemTokens, values]
    rfl
  | x :: xs => by
    have hfirst := build_tokens (.list before :: frames) false x
    have hitems := build_itemTokens frames (value x :: before) xs
    have hcomma : Builder.step ⟨.list before :: frames, .next, none⟩ .comma =
        some ⟨.list before :: frames, .value false, none⟩ := rfl
    rw [itemTokens, List.cons_append, List.foldlM_cons, hcomma, Option.bind_eq_bind, Option.bind_some,
      List.foldlM_append, hfirst, Option.bind_eq_bind, Option.bind_some, values, List.reverse_cons, List.append_assoc]
    exact hitems

theorem build_memberTokens (frames : List Frame) (before : List (Option String × Value)) (last : Option String) :
    ∀ xs : List (String × Datum), ∃ key,
      (memberTokens xs).foldlM Builder.step ⟨.object before last :: frames, .next, none⟩ =
        some ⟨.object ((members xs).reverse ++ before) key :: frames, .next, none⟩
  | [] => by
    rw [memberTokens, members]
    exact ⟨last, rfl⟩
  | (key, x) :: xs => by
    have hfirst := build_tokens (.object before (some key) :: frames) false x
    obtain ⟨key', hmembers⟩ := build_memberTokens frames ((some key, value x) :: before) (some key) xs
    have hkey : [Token.comma, .text (some key), .colon].foldlM Builder.step
        ⟨.object before last :: frames, .next, none⟩ =
          some ⟨.object before (some key) :: frames, .value false, none⟩ := rfl
    have hsplit : memberTokens ((key, x) :: xs) = [Token.comma, .text (some key), .colon] ++ (tokens x ++
        memberTokens xs) := by
      rw [memberTokens]
      rfl
    refine ⟨key', ?_⟩
    rw [hsplit, List.foldlM_append, hkey, Option.bind_eq_bind, Option.bind_some, List.foldlM_append, hfirst,
      Option.bind_eq_bind, Option.bind_some, members, List.reverse_cons, List.append_assoc]
    exact hmembers

end

/-- **Reading printed data gives their tree.** -/
theorem parse?_print (d : Datum) : parse? (print d) = some (value d) := by
  rw [parse?, tokens?_print, Option.bind_some, ofTokens?, Builder.start, build_tokens]
  rfl

end RankEval.Json
