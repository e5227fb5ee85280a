/-
Typed reading of data printed as YAML. Wherever data stand in a file, a reader of the right kind gets back what was
printed: natural numbers, texts that need no quotes, lists and records as they are, and doubles as their digits are
read.

- `rereads`: the laws of the format.
- `decode?_print`: a printed record is read from its place in the file.
-/
import RankEval.Proofs.Document.Rereading
import RankEval.Proofs.Yaml.Scalars
import RankEval.Proofs.Yaml.Tree
import RankEval.Yaml.Document

namespace RankEval.Yaml

open Document (Keeps Rereads)

/-- where data stand in a file -/
def placed (root : Root) (room : Nat) (d : Datum) : Place := ⟨root, room, some (node d)⟩

section
variable (root : Root) (room : Nat)

/-- nothing that is printed is an alias -/
theorem ofNode_node (d : Datum) : Place.ofNode root room (node d) = placed root room d := by
  cases hnested : isNested d with
  | false => rw [placed, node_eq hnested]; rfl
  | true =>
    cases d with
    | list xs => rw [placed, node]; rfl
    | record xs => rw [placed, node]; rfl
    | _ => cases hnested

theorem nat?_placed {n : Nat} (h : n < Nat.pow 2 64) : Document.nat? (placed root room (.count n)) = some n := by
  have hnat : Document.nat? (placed root room (.count n)) =
      (Scalar.nat? (String.ofList (Nat.toDigits 10 n))).filter fun n => decide (n < Nat.pow 2 64) := by
    rw [placed, node_eq rfl]
    rfl
  rw [hnat, Scalar.nat?_toDigits]
  exact if_pos (decide_eq_true h)

theorem float?_placed (x : Float) : Document.float? (placed root room (.number x)) = reread? x := by
  rw [placed, node_eq rfl, word, String.ofList_toList]
  rfl

theorem text?_placed (s : String) : Document.text? (placed root room (.text s)) = some s := by
  rw [placed, node_eq rfl, word, String.ofList_toList]
  rfl

theorem present?_null : Document.present? (placed root room .null) = some none := by
  rw [placed, node_eq rfl, word]
  rfl

theorem present?_number (x : Float) :
    Document.present? (placed root room (.number x)) = some (some (placed root room (.number x))) := by
  obtain ⟨hempty, hnull⟩ := Scalar.isNull_of_startsNumber (startsNumber_text x)
  rw [placed, node_eq rfl, word, String.ofList_toList]
  change Place.present? _ = _
  simp [Place.present?, hempty, hnull]

theorem items?_placed (xs : List Datum) :
    Document.items? (placed root (room + 1) (.list xs)) = some (xs.map (placed root room)) := by
  have hplaced : (xs.map node).map (Place.inside ⟨root, room + 1, some (.list none (xs.map node))⟩) =
      xs.map (placed root room) := by
    rw [List.map_map]
    exact List.map_congr_left fun d _ => ofNode_node root room d
  rw [placed, node, nodes_eq_map, ← hplaced]
  rfl

theorem fields?_placed (ms : List (String × Datum)) :
    Document.fields? (placed root (room + 1) (.record ms)) =
      some (.named (ms.map fun e => (e.1, placed root room e.2))) := by
  have hmember : ∀ e ∈ ms, ((Place.inside ⟨root, room + 1, some (.map none (entries ms))⟩
      (.scalar none e.1 .plain)).text?.map fun key =>
        (key, Place.inside ⟨root, room + 1, some (.map none (entries ms))⟩ (node e.2))) =
          some (e.1, placed root room e.2) := fun e _ =>
    congrArg (fun p => some (e.1, p)) (ofNode_node root room e.2)
  rw [placed, node]
  change Place.fields? _ = _
  rw [Place.fields?]
  dsimp only
  rw [if_neg (Nat.succ_ne_zero room)]
  generalize Place.mk root (room + 1) (some (.map none (entries ms))) = p at hmember ⊢
  rw [entries_eq_map, List.mapM_map]
  exact congrArg (Option.map Fields.named) ((mapM_congr_mem hmember).trans List.mapM_pure)

/-! ## Kept values -/

theorem content?_scalar (s : String) : content? root room (.scalar none s .plain) = plainContent? s := by
  rw [content?.eq_def]
  cases room <;> rfl

theorem plainContent?_text {s : String} (h : IsPlainText s) : plainContent? s = some (.text s) := by
  have hmeaning : Scalar.meaning s = .text := by
    have htext := h.means
    unfold Scalar.isText at htext
    split at htext
    · assumption
    · exact Bool.noConfusion htext
  rw [plainContent?, hmeaning]

theorem content?_of_keeps {e : String × Datum} {c : Content × Content} (h : Keeps IsPlainText e c) :
    plainContent? e.1 = some (.text e.1) ∧
      (content? root room (node e.2)).map (fun content => (Content.text e.1, content)) = some c := by
  cases h with
  | count hkey hn =>
    refine ⟨plainContent?_text hkey, ?_⟩
    rw [node_eq rfl, word, content?_scalar, plainContent?, Scalar.meaning_toDigits hn]
    simp [wholeContent?, hn]
  | text hkey hs =>
    refine ⟨plainContent?_text hkey, ?_⟩
    rw [node_eq rfl, word, String.ofList_toList, content?_scalar, plainContent?_text hs]
    rfl

/-- a variant with its name under a key, its fields behind it -/
theorem tagged?_placed {key name : String} (hkeyText : IsPlainText key) {fields : List (String × Datum)}
    {kept : List (Content × Content)} (hkey : ∀ e ∈ fields, e.1 ≠ key)
    (hfields : List.Forall₂ (Keeps IsPlainText) fields kept) :
    Document.tagged? key (placed root (room + 1) (.record ((key, .text name) :: fields))) =
      some ⟨name, .named kept⟩ := by
  have hkeyTexts : ∀ e ∈ fields, plainContent? e.1 = some (.text e.1) := by
    clear hkey
    induction hfields with
    | nil => exact List.forall_mem_nil _
    | cons h _ ih => exact List.forall_mem_cons.2 ⟨(content?_of_keeps root room h).1, ih⟩
  have hkeys : ((entries fields).mapM fun e => (content? root room e.1).map fun k => (k, e.2)) =
      some (fields.map fun e => (Content.text e.1, node e.2)) := by
    rw [entries_eq_map, List.mapM_map]
    refine (mapM_congr_mem fun e he => ?_).trans List.mapM_pure
    change (content? root room (.scalar none e.1 .plain)).map _ = _
    rw [content?_scalar, hkeyTexts e he]
    rfl
  -- whatever says of a kept key whether it is the one
  have hhits : ∀ p : Content × Node → Bool, (∀ s n, p (.text s, n) = (s == key)) →
      (fields.map fun e => (Content.text e.1, node e.2)).filter p = [] := by
    intro p hp
    rw [List.filter_eq_nil_iff]
    intro m hm
    obtain ⟨e, he, rfl⟩ := List.mem_map.1 hm
    rw [hp, beq_iff_eq]
    exact hkey e he
  have hothers : ∀ p : Content × Node → Bool, (∀ s n, p (.text s, n) = (s != key)) →
      (fields.map fun e => (Content.text e.1, node e.2)).filter p =
        fields.map fun e => (Content.text e.1, node e.2) := by
    intro p hp
    rw [List.filter_eq_self]
    intro m hm
    obtain ⟨e, he, rfl⟩ := List.mem_map.1 hm
    rw [hp, bne_iff_ne]
    exact hkey e he
  have hkept : ((fields.map fun e => (Content.text e.1, node e.2)).mapM fun e =>
      (content? root room e.2).map fun c => (e.1, c)) = some kept := by
    rw [List.mapM_map]
    clear hkeys hhits hothers hkey hkeyTexts
    induction hfields with
    | nil => rfl
    | cons h _ ih =>
      have hcontent := (content?_of_keeps root room h).2
      rw [List.mapM_cons, ih]
      change (Option.map _ _ >>= _) = _
      rw [hcontent]
      rfl
  rw [placed, node]
  change Place.tagged? _ _ = _
  rw [entries, Place.tagged?]
  dsimp only
  rw [if_neg (Nat.succ_ne_zero room)]
  simp only [localName?, Option.bind_none, Option.isSome_none, Bool.false_eq_true, if_false, List.mapM_cons,
    content?_scalar, plainContent?_text hkeyText, hkeys, Option.map_some, Option.pure_def, Option.bind_eq_bind,
    Option.bind_some, List.filter_cons, beq_self_eq_true, Bool.not_true, if_true, Nat.add_sub_cancel]
  rw [hhits _ fun _ _ => rfl, hothers _ fun _ _ => rfl]
  dsimp only
  rw [Place.inside, ofNode_node]
  have hname : Place.text? (placed root room (.text name)) = some name := text?_placed root room name
  change (Place.text? (placed root room (.text name))).bind _ = _
  rw [hname, Option.bind_some, hkept]
  rfl

/-- **YAML gives back** every text that needs no quotes, and every double as its digits are read. -/
theorem rereads : Rereads IsPlainText (placed root) (fun _ => True) reread? where
  nat?_place := nat?_placed root
  float?_place := float?_placed root
  text?_place room s _ := text?_placed root room s
  present?_null := present?_null root
  present?_number room x _ := present?_number root room x
  items?_place := items?_placed root
  fields?_place := fields?_placed root
  tagged?_place room _ _ _ _ hkey _ := tagged?_placed root room hkey

end

/-- a printed record is read from its place -/
theorem decode?_print {α : Type} (read : Place → Option α) {ms : List (String × Datum)} (h : IsPlain (.record ms)) :
    decode? read (print (.record ms)) = read (placed ⟨some (node (.record ms)), []⟩ 128 (.record ms)) := by
  rw [decode?, tokens?_print h, Option.bind_eq_bind, Option.bind_some, ofTokens?_tokens h, Option.bind_eq_bind,
    Option.bind_some, Place.ofRoot]
  dsimp only
  rw [ofNode_node]

end RankEval.Yaml
