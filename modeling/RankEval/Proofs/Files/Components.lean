/-
The components of a path. Two texts are the same path iff they have the same components: it does not matter how many
slashes stand between two parts or at the end, nor do dots that stay in a directory, unless the path starts with one.

- `components_join`: a plain name below a path is one more component.
- `components_joinAll`: so are many, one after the other.
-/
import RankEval.Files.Tree
import RankEval.Proofs.Text.Lines

namespace RankEval

/-! ## Components -/

namespace Path

/-- whether a part of a path leads anywhere -/
def leads (part : String) : Bool := part != "" && part != "."

/-- what remains of the parts of a path -/
def named : List String → List String
  | [] => []
  | first :: rest => (if first = "" then if rest = [] then [] else ["/"] else [first]) ++ rest.filter leads

/-- What paths are compared by. The root is the component of a slash at the start. -/
def components (p : FilePath) : List String := named (FileTree.parts p)

/-- a name that is one component wherever it stands -/
def IsPlain (name : String) : Prop := leads name = true ∧ '/' ∉ name.toList

theorem leads_iff (part : String) : leads part = true ↔ part ≠ "" ∧ part ≠ "." := by
  rw [leads, Bool.and_eq_true, bne_iff_ne, bne_iff_ne]

/-- a name without slashes in which not everything is a dot -/
theorem isPlain_of_mem {name : String} {c : Char} (hc : c ∈ name.toList) (hdot : c ≠ '.')
    (hslash : '/' ∉ name.toList) : IsPlain name := by
  refine ⟨(leads_iff name).2 ⟨?_, ?_⟩, hslash⟩
  · rintro rfl
    cases hc
  · rintro rfl
    exact hdot (List.mem_singleton.1 hc)

theorem parts_append (base part : String) :
    FileTree.parts (base ++ "/" ++ part) = FileTree.parts base ++ FileTree.parts part := by
  rw [FileTree.parts, String.toList_append, String.toList_append, List.append_assoc]
  change (Text.splitAt '/' (base.toList ++ '/' :: part.toList)).map String.ofList = _
  rw [Text.splitAt_append, List.map_append]
  rfl

theorem parts_ne_nil (p : FilePath) : FileTree.parts p ≠ [] :=
  mt List.map_eq_nil_iff.1 (Text.splitAt_ne_nil '/' p.toList)

theorem parts_of_isPlain {part : String} (h : IsPlain part) : FileTree.parts part = [part] := by
  rw [FileTree.parts, Text.splitAt_of_not_mem h.2, List.map_cons, List.map_nil, String.ofList_toList]

theorem parts_ne_singleton_empty {p : FilePath} (h : p ≠ "") : FileTree.parts p ≠ [""] := by
  intro heq
  obtain ⟨cs, hcs, hempty⟩ := List.map_eq_singleton_iff.1 heq
  have hnil : cs = [] := String.ofList_injective hempty
  have htext : p.toList ≠ [] := fun htext => h (String.toList_inj.1 htext)
  exact Text.splitAt_ne_singleton_nil htext (hnil ▸ hcs)

/-! ## Names below a path -/

/-- a name behind a slash, compared with nothing behind it -/
theorem named_append {parts : List String} (hne : parts ≠ []) {part : String} (h : leads part = true) :
    named (parts ++ [part]) = named (parts ++ [""]) ++ [part] := by
  obtain ⟨first, rest, rfl⟩ := List.exists_cons_of_ne_nil hne
  have hempty : leads "" = false := rfl
  simp [named, h, hempty]

/-- a slash at the end makes no difference, other than the root's own -/
theorem named_append_empty {parts : List String} (hne : parts ≠ []) (hroot : parts ≠ [""]) :
    named (parts ++ [""]) = named parts := by
  obtain ⟨first, rest, rfl⟩ := List.exists_cons_of_ne_nil hne
  have hempty : leads "" = false := rfl
  have hrest : first = "" → rest ≠ [] := by
    rintro rfl rfl
    exact hroot rfl
  by_cases hfirst : first = ""
  · simp [named, hfirst, hrest hfirst, hempty]
  · simp [named, hfirst, hempty]

theorem endsWith_slash {p : FilePath} (h : p.endsWith "/" = true) : ∃ base, p = base ++ "/" := by
  rw [← String.endsWith_toSlice, String.Slice.endsWith_string_iff, String.copy_toSlice] at h
  obtain ⟨cs, hcs⟩ := h
  refine ⟨String.ofList cs, String.toList_inj.1 ?_⟩
  rw [String.toList_append, String.toList_ofList, hcs]

/-- **A name below a path** is one more component, however the two are put together. -/
theorem components_join (base : FilePath) {part : FilePath} (h : IsPlain part) :
    components (join base part) = components base ++ [part] := by
  have hrelative : ¬ part.startsWith "/" = true := by
    intro hstart
    rw [String.startsWith_string_iff] at hstart
    exact h.2 (hstart.subset (List.mem_singleton_self '/'))
  have hpart := parts_of_isPlain h
  rw [join, if_neg hrelative]
  split
  · next hbase =>
    rcases Bool.or_eq_true_iff.1 hbase with hempty | hslash
    · rw [String.isEmpty_iff.1 hempty, String.empty_append, components, hpart]
      simp [named, components, FileTree.parts, Text.splitAt, ((leads_iff part).1 h.1).1]
    · obtain ⟨base, rfl⟩ := endsWith_slash hslash
      have hbase : FileTree.parts (base ++ "/") = FileTree.parts base ++ [""] := by
        have hparts := parts_append base ""
        rwa [String.append_empty] at hparts
      rw [components, parts_append, hpart, named_append (parts_ne_nil base) h.1, components, hbase]
  · next hbase =>
    have hne : base ≠ "" := by
      rintro rfl
      exact hbase rfl
    rw [components, parts_append, hpart, named_append (parts_ne_nil base) h.1,
      named_append_empty (parts_ne_nil base) (parts_ne_singleton_empty hne)]
    rfl

theorem components_joinAll (base : FilePath) {parts : List FilePath} (h : ∀ part ∈ parts, IsPlain part) :
    components (joinAll base parts) = components base ++ parts := by
  induction parts generalizing base with
  | nil => exact (List.append_nil _).symm
  | cons part parts ih =>
    have hjoin := components_join base (h part List.mem_cons_self)
    have hrest := ih (join base part) fun p hp => h p (List.mem_cons_of_mem _ hp)
    calc components (joinAll base (part :: parts)) = components (join base part) ++ parts := hrest
      _ = components base ++ part :: parts := by rw [hjoin, List.append_assoc, List.singleton_append]

end Path

end RankEval
