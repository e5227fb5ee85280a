/-
What the 64 bits of a double stand for, and the whole number and the double nearest to a quotient of natural numbers.

A finite double is `m · 2^q` up to its sign: `2^52 ≤ m < 2^53` for a normal one, and `m < 2^52`, `q = -1074` for a
subnormal one and for zero.
-/

namespace RankEval.Decimal

/-- where a quotient goes that lies halfway between two whole numbers -/
inductive Tie where
  | toEven
  | up
  deriving DecidableEq, Repr

/-- the whole number nearest to `n / d` -/
def roundQuotient (tie : Tie) (n d : Nat) : Nat :=
  let k := n / d
  if 2 * (n % d) < d then k
  else if d < 2 * (n % d) then k + 1
  else match tie with
    | .toEven => k + k % 2
    | .up => k + 1

/-- a double taken apart -/
inductive Binary where
  | nan
  | infinite (negative : Bool)
  | finite (negative : Bool) (m : Nat) (q : Int)
  deriving DecidableEq, Repr

namespace Binary

/-- the exponent of the smallest double -/
def leastExponent : Int := -1074

/-- the exponent of the largest doubles -/
def greatestExponent : Int := 971

def ofBits (bits : Nat) : Binary :=
  let negative := decide (Nat.pow 2 63 ≤ bits)
  let exponent := bits / Nat.pow 2 52 % Nat.pow 2 11
  let fraction := bits % Nat.pow 2 52
  if exponent = 2047 then
    if fraction = 0 then .infinite negative else .nan
  else if exponent = 0 then .finite negative fraction leastExponent
  else .finite negative (Nat.pow 2 52 + fraction) (Int.ofNat exponent - 1075)

def toBits : Binary → Nat
  | .nan => 0x7ff8000000000000
  | .infinite negative => (if negative then Nat.pow 2 63 else 0) + 2047 * Nat.pow 2 52
  | .finite negative m q =>
    (if negative then Nat.pow 2 63 else 0) +
      if m < Nat.pow 2 52 then m else (q + 1075).toNat * Nat.pow 2 52 + (m - Nat.pow 2 52)

def ofFloat (x : Float) : Binary := ofBits x.toBits.toNat

def toFloat (b : Binary) : Float := Float.ofBits (UInt64.ofNat b.toBits)

/-- `n / d · 2^(-q)` as a quotient -/
def scale (n d : Nat) (q : Int) : Nat × Nat :=
  if 0 ≤ q then (n, d * Nat.pow 2 q.toNat) else (n * Nat.pow 2 (-q).toNat, d)

/-- the least `e` with `n / d < 2^(e + 1)`, for positive `n` and `d` -/
def magnitude (n d : Nat) : Int :=
  let e : Int := Int.ofNat n.log2 - Int.ofNat d.log2
  let s := scale n d e
  if s.1 < s.2 then e - 1 else e

/-- The double nearest to `n / d`: the significand has 53 bits, fewer only at the least exponent, and a value halfway
between two doubles goes to the even significand. -/
def nearest (negative : Bool) (n d : Nat) : Binary :=
  if n = 0 then .finite negative 0 leastExponent
  else
    let q := max leastExponent (magnitude n d - 52)
    let s := scale n d q
    let m := roundQuotient .toEven s.1 s.2
    let carried : Nat × Int := if m = Nat.pow 2 53 then (Nat.pow 2 52, q + 1) else (m, q)
    if greatestExponent < carried.2 then .infinite negative else .finite negative carried.1 carried.2

end Binary

end RankEval.Decimal
