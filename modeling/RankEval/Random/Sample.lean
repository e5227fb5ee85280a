/-
Distinct positions drawn from `0, …, length - 1`. Three ways of drawing, chosen by the sizes: a partial shuffle of all
positions, growing ranges (one draw per position, none rejected), and drawing until a new position comes up.
-/
import Std.Data.TreeSet.Lemmas
import RankEval.Random.Bounded

namespace RankEval.Random

/-- shuffles the first `count` places of an array, from place `i` on -/
def shuffleFrom (positions : Array Nat) (s : Stream) (i : Nat) : Nat → Array Nat
  | 0 => positions
  | count + 1 =>
    let (offset, s) := below (positions.size - i) s
    shuffleFrom (positions.swapIfInBounds i (i + offset)) s (i + 1) count

/-- the first `amount` places of a partly shuffled array of all positions -/
def sampleShuffled (length amount : Nat) (s : Stream) : List Nat :=
  (shuffleFrom (Array.range length) s 0 amount).toList.take amount

/-- Draws `t` from `0, …, j` for `j`, `j + 1`, …. A `t` that was drawn before stands for `j` itself, which takes the
place before it. -/
def growInserting (s : Stream) (j : Nat) (drawn : List Nat) : Nat → List Nat
  | 0 => drawn
  | count + 1 =>
    let (t, s) := below (j + 1) s
    let drawn := if drawn.contains t then drawn.takeWhile (· != t) ++ j :: drawn.dropWhile (· != t) else drawn ++ [t]
    growInserting s (j + 1) drawn count

/-- Draws as `growInserting` does, but adds every position at the end. -/
def growAppending (s : Stream) (j : Nat) (drawn : Array Nat) : Nat → Array Nat × Stream
  | 0 => (drawn, s)
  | count + 1 =>
    let (t, s) := below (j + 1) s
    growAppending s (j + 1) (drawn.push (if drawn.contains t then j else t)) count

/-- shuffles the places `i, i - 1, …, 1` of an array -/
def shuffleDown (positions : Array Nat) (s : Stream) : Nat → Array Nat
  | 0 => positions
  | i + 1 =>
    let (t, s) := below (i + 2) s
    shuffleDown (positions.swapIfInBounds (i + 1) t) s i

/-- one draw from each of the ranges `0, …, j` for the last `amount` positions `j` -/
def sampleGrowing (length amount : Nat) (s : Stream) : List Nat :=
  if amount < 50 then growInserting s (length - amount) [] amount
  else
    let (drawn, s) := growAppending s (length - amount) #[] amount
    (shuffleDown drawn s (amount - 1)).toList

/-- the least number from `n` on that is not `taken` -/
def leastFree (taken : Std.TreeSet Nat) : Nat → Nat → Nat
  | 0, n => n
  | fuel + 1, n => if taken.contains n then leastFree taken fuel (n + 1) else n

/-- draws positions until one is not `taken`; after `fuel` draws it is the least free one -/
def drawFree (length : Nat) (taken : Std.TreeSet Nat) : Nat → Stream → Nat × Stream
  | 0, s => (leastFree taken length 0, s)
  | fuel + 1, s =>
    let (t, s) := belowExact length s
    if taken.contains t then drawFree length taken fuel s else (t, s)

/-- draws new positions one after the other; `drawn` is in reverse order -/
def sampleFresh (length : Nat) (s : Stream) (taken : Std.TreeSet Nat) (drawn : List Nat) : Nat → List Nat
  | 0 => drawn.reverse
  | count + 1 =>
    let (t, s) := drawFree length taken drawFuel s
    sampleFresh length s (taken.insert t) (t :: drawn) count

/-- Whether a small sample is drawn by a partial shuffle. The limit is computed in single precision. -/
def shufflesSmall (length amount : Nat) : Bool :=
  let n := Float32.ofNat amount
  let large := decide (500000 ≤ length)
  let slope : Float32 := if large then 8.0 / 45.0 else 1.6
  let offset : Float32 := if large then 70.0 / 9.0 else 10.0
  decide (11 < amount) && decide (Float32.ofNat length < (offset + slope * n) * n)

/-- whether a large sample is drawn by a partial shuffle -/
def shufflesLarge (length amount : Nat) : Bool :=
  let slope : Float32 := if 500000 ≤ length then 330.0 / 9.0 else 270.0
  decide (Float32.ofNat length < slope * Float32.ofNat amount)

/-- `amount` distinct positions below `length`, or all of them if there are fewer -/
def sample (length amount : Nat) (s : Stream) : List Nat :=
  let amount := min amount length
  if amount < 163 then
    if shufflesSmall length amount then sampleShuffled length amount s else sampleGrowing length amount s
  else if shufflesLarge length amount then sampleShuffled length amount s
  else sampleFresh length s ∅ [] amount

end RankEval.Random
