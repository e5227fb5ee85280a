/-
What the readers of input files come to in a file tree. Each of them reads one text, and what it gives depends on that
text alone; where there is none, or none of the right form, it fails with the path of the file.

- `outcome_jsonFile`, `outcome_scores`, `outcome_rankedRows`: what a reader gives.
- `IsReading`: the failures that the readers have.
-/
import RankEval.Inputs.Judgments
import RankEval.Inputs.RankedRows
import RankEval.Inputs.ScoreFile
import RankEval.Proofs.Files.Attempts

namespace RankEval.Inputs

open Attempt (outcome outcome_bind outcome_pure outcome_throw outcome_lift outcome_text)

variable (t : FileTree)

/-! ## Results -/

theorem outcome_jsonFile {α : Type} (read : Json.Place → Option α) (path : FilePath) :
    outcome t (jsonFile read path) = match t.text? path with
      | .ok text => (Json.decode? read text).elim (.error (.malformed path .shape)) .ok
      | .error fault => .error (.io path (.plain fault)) := by
  unfold jsonFile
  rw [outcome_bind, outcome_text]
  cases t.text? path with
  | error fault => rfl
  | ok text =>
    dsimp only [Except.bind]
    cases Json.decode? read text with
    | none => exact outcome_throw t _
    | some value => exact outcome_pure t value

/-- what is done depends on the answer to a question -/
theorem outcome_ask {α : Type} {question : Reading Bool} {answer : Prop} [Decidable answer]
    (h : question.run t = true ↔ answer) (yes no : Attempt α) :
    outcome t (do if ← (question : Reading _) then yes else no) =
      if answer then outcome t yes else outcome t no := by
  rw [outcome_bind, outcome_lift]
  dsimp only [Except.bind]
  by_cases hanswer : answer
  · rw [if_pos hanswer, if_pos (h.2 hanswer)]
  · rw [if_neg hanswer, if_neg (mt h.1 hanswer)]

theorem run_isFile_iff (path : FilePath) : (Reading.isFile path).run t = true ↔ t.kind? path = some .file := beq_iff_eq

theorem run_isDirectory_iff (path : FilePath) :
    (Reading.isDirectory path).run t = true ↔ t.kind? path = some .directory := beq_iff_eq

/-- what has a text is a file -/
theorem kind?_of_text? {path : FilePath} {text : String} (h : t.text? path = .ok text) : t.kind? path = some .file := by
  unfold FileTree.text? at h
  unfold FileTree.kind?
  split at h
  · cases h
  · cases h
  · next hfound =>
    split at h
    · next hentry =>
      rw [hfound]
      dsimp only
      rw [hentry]
    · cases h
    · cases h
    · cases h

theorem outcome_scores (path : FilePath) :
    outcome t (scores path) =
      if t.kind? path = some .file then (outcome t (jsonFile scoreFile? path)).map some else .ok none := by
  unfold scores
  rw [outcome_ask t (run_isFile_iff t path), outcome_bind, outcome_pure]
  cases outcome t (jsonFile scoreFile? path) <;> rfl

theorem outcome_rankedRows (path : FilePath) :
    outcome t (rankedRows path) =
      if t.kind? path = some .file then
        match t.text? path with
        | .ok text =>
          match RankedRows.parse text with
          | .ok rows => .ok (some rows)
          | .error (line, fault) => .error (.malformed path (.row line fault))
        | .error fault => .error (.io path (.plain fault))
      else .ok none := by
  unfold rankedRows
  rw [outcome_ask t (run_isFile_iff t path), outcome_bind, outcome_pure, outcome_text]
  cases t.text? path with
  | error fault => rfl
  | ok text =>
    dsimp only [Except.bind]
    cases RankedRows.parse text <;> rfl

/-! ## Failures -/

/-- whether a failure is that of reading a file or of what is in it -/
inductive IsReading : Failure → Prop where
  | io (path : FilePath) (fault : FileFault) : IsReading (.io path fault)
  | malformed (path : FilePath) (why : Malformation) : IsReading (.malformed path why)

variable {t} {path : FilePath} {failure : Failure}

theorem isReading_of_jsonFile {α : Type} {read : Json.Place → Option α}
    (h : outcome t (jsonFile read path) = .error failure) : IsReading failure := by
  rw [outcome_jsonFile] at h
  cases htext : t.text? path with
  | error fault =>
    rw [htext] at h
    cases h
    exact .io _ _
  | ok text =>
    rw [htext] at h
    dsimp only at h
    cases hread : Json.decode? read text with
    | none =>
      rw [hread] at h
      cases h
      exact .malformed _ _
    | some value =>
      rw [hread] at h
      cases h

theorem isReading_of_scores (h : outcome t (scores path) = .error failure) : IsReading failure := by
  rw [outcome_scores] at h
  split at h
  · cases hfile : outcome t (jsonFile scoreFile? path) with
    | ok predicted =>
      rw [hfile] at h
      cases h
    | error failure' =>
      rw [hfile] at h
      cases h
      exact isReading_of_jsonFile hfile
  · cases h

theorem isReading_of_rankedRows (h : outcome t (rankedRows path) = .error failure) : IsReading failure := by
  rw [outcome_rankedRows] at h
  split at h
  · cases htext : t.text? path with
    | error fault =>
      rw [htext] at h
      cases h
      exact .io _ _
    | ok text =>
      rw [htext] at h
      dsimp only at h
      split at h
      · cases h
      · cases h
        exact .malformed _ _
  · cases h

theorem isReading_of_relatedTitles {directory : FilePath} {page : Nat}
    (h : outcome t (relatedTitles directory page) = .error failure) : IsReading failure :=
  isReading_of_jsonFile h

end RankEval.Inputs
