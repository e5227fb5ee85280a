/-
Scalars without quotes. They end where a mark of the surroundings begins, and may go on over several lines.
-/
import RankEval.Yaml.Cursor

namespace RankEval.Yaml

/-- The characters up to the next gap or to the end of the scalar, and what follows them. A colon ends it before a gap;
the marks of flow collections end it within one, where a colon right before such a mark or a question mark is an error. -/
def plainWord (flow : Bool) : List Char → Option (List Char × List Char)
  | [] => some ([], [])
  | c :: rest =>
    if isBlank c || isBreak c then some ([], c :: rest)
    else if flow && c == ':' && rest.head?.any (fun d => isFlowMark d || d == '?') then none
    else if (c == ':' && atGap rest) || (flow && isFlowMark c) then some ([], c :: rest)
    else (plainWord flow rest).map fun (word, rest) => (c :: word, rest)

/-- A plain scalar from its next word on; `before` is what was read, in reverse order, and `gap` what lies between. The
result says whether the scalar was followed by a break. -/
def plainFrom (flow : Bool) (margin : Nat) : Nat → Cursor → List Char → Gap → Option (List Char × Bool × Cursor)
  | 0, _, _, _ => none
  | fuel + 1, c, before, gap =>
    let done := some (before.reverse, !gap.breaks.isEmpty, c)
    if c.atDocumentMarker || c.rest.head? == some '#' then done
    else match plainWord flow c.rest with
      | none => none
      | some ([], _) => done
      | some (word, rest) =>
        let c := c.past word.length rest
        let before := word.reverse ++ (gap.text.reverse ++ before)
        if rest.isEmpty || !atGap rest then some (before.reverse, false, c)
        else match scanGap margin false (fuel + 1) c ⟨[], []⟩ with
          | none => none
          | some (gap, c) =>
            if !flow && decide (c.column < margin) then some (before.reverse, !gap.breaks.isEmpty, c)
            else plainFrom flow margin fuel c before gap

/-- a plain scalar that starts here -/
def plainScalar (flow : Bool) (margin fuel : Nat) (c : Cursor) : Option (List Char × Bool × Cursor) :=
  plainFrom flow margin fuel c [] ⟨[], []⟩

end RankEval.Yaml
