/-
What a computation that reads files and may fail comes to in a file tree. The parts of such a computation are looked at
one after the other, and the first failure is that of the whole.

- `outcome_bind`: one computation after another.
- `outcome_text`: reading a text.
-/
import RankEval.Failure
import RankEval.Files.Tree

namespace RankEval.Attempt

variable {α β : Type} (t : FileTree)

/-- the result of a computation in a file tree -/
def outcome (a : Attempt α) : Except Failure α := a.run.run t

@[simp] theorem outcome_pure (a : α) : outcome t (pure a : Attempt α) = .ok a := rfl

@[simp] theorem outcome_throw (f : Failure) : outcome t (throw f : Attempt α) = .error f := rfl

@[simp] theorem outcome_lift (r : Reading α) : outcome t (liftM r : Attempt α) = .ok (r.run t) := by
  have hrun : (liftM r : Attempt α).run = r.bind fun a => .done (Except.ok a) := rfl
  rw [outcome, hrun]
  exact Reading.run_bind t r _

theorem outcome_bind (a : Attempt α) (f : α → Attempt β) :
    outcome t (a >>= f) = (outcome t a).bind fun x => outcome t (f x) := by
  have hbind : outcome t (a >>= f) = ((ExceptT.bindCont f : Except Failure α → Reading (Except Failure β))
      (outcome t a)).run t := Reading.run_bind t a.run _
  rw [hbind]
  cases outcome t a <;> rfl

theorem outcome_text (path : FilePath) :
    outcome t (text path) = match t.text? path with
      | .ok s => .ok s
      | .error fault => .error (.io path (.plain fault)) := by
  unfold text
  rw [outcome_bind, outcome_lift]
  have hread : (Reading.textOf path).run t = t.text? path := rfl
  rw [hread]
  cases t.text? path with
  | ok s => exact outcome_pure t s
  | error fault => exact outcome_throw t _

@[simp] theorem run_pathExists (path : FilePath) : (Reading.pathExists path).run t = (t.kind? path).isSome := rfl

end RankEval.Attempt
