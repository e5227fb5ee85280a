/-
The shortest decimal that reads back as a given double.

The reals that read back as `m · 2^q` fill an interval around it, ends included iff `m` is even. Of the powers of ten
that have a multiple in the interval the largest one is taken, and of its multiples there the one nearest to the double:
no decimal in the interval has fewer digits, and none with as few is nearer.
-/
import RankEval.Decimal.Binary

namespace RankEval.Decimal

/-- The reals that round to a double, in quarters of its last place: `2^(q - 2)` times the numbers from `low` to
`high`. -/
structure Interval where
  low : Nat
  high : Nat
  closed : Bool
  deriving DecidableEq, Repr

/-- The interval of `m · 2^q`. It reaches half a place to both sides; only half as far below when the next lower double
has a smaller exponent. -/
def interval (m : Nat) (q : Int) : Interval where
  low := if m = Nat.pow 2 52 ∧ Binary.leastExponent < q then 4 * m - 1 else 4 * m - 2
  high := 4 * m + 2
  closed := m % 2 = 0

/-- `(a, b)` with `10^e / 2^p = a / b` -/
def gridRatio (e p : Int) : Nat × Nat :=
  let top := (if 0 ≤ e then Nat.pow 10 e.toNat else 1) * (if 0 ≤ p then 1 else Nat.pow 2 (-p).toNat)
  let bottom := (if 0 ≤ e then 1 else Nat.pow 10 (-e).toNat) * (if 0 ≤ p then Nat.pow 2 p.toNat else 1)
  (top, bottom)

/-- whether `d · a / b` lies in the interval -/
def Interval.holds (i : Interval) (a b d : Nat) : Bool :=
  if i.closed then decide (i.low * b ≤ d * a) && decide (d * a ≤ i.high * b)
  else decide (i.low * b < d * a) && decide (d * a < i.high * b)

/-- The multiple of `a / b` in the interval nearest to `v`, if there is one. If any multiple lies in the interval, so
does one of the two next to `v`. -/
def Interval.nearestMultiple (i : Interval) (tie : Tie) (v a b : Nat) : Option Nat :=
  let near := roundQuotient tie (v * b) a
  let down := v * b / a
  if i.holds a b near then some near
  else if i.holds a b down then some down
  else if i.holds a b (down + 1) then some (down + 1)
  else none

/-- the first grid `10^e`, `10^(e-1)`, … with a point in the interval -/
def Interval.search (i : Interval) (tie : Tie) (v : Nat) (p : Int) : Nat → Int → Nat × Int
  | 0, e => (0, e)
  | fuel + 1, e =>
    let r := gridRatio e p
    match i.nearestMultiple tie v r.1 r.2 with
    | some d => (d, e)
    | none => i.search tie v p fuel (e - 1)

/-- The shortest decimal `d · 10^e` that reads back as `m · 2^q`, for positive `m`. The search starts above the
double's leading digit, and 17 digits are always enough. -/
def shortest (tie : Tie) (m : Nat) (q : Int) : Nat × Int :=
  let lead := (Int.ofNat m.log2 + q + 1) * 30103 / 100000 + 1
  (interval m q).search tie (4 * m) (q - 2) 20 lead

end RankEval.Decimal
