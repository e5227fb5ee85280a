/-
Numbers drawn uniformly from a range. A word times the length of the range has the number in its upper half; words
whose lower half lies beyond a limit are rejected, because they would favour some numbers.

- `below_lt`: a drawn number lies in the range, whatever the stream.
-/
import RankEval.Random.ChaCha

namespace RankEval.Random

/-- 2^32 -/
def wordCount : Nat := 4294967296

/-- draws words until the lower half of the product is at most `limit`; after `fuel` rejections the number is 0 -/
def drawWithin (range limit : Nat) : Nat → Stream → Nat × Stream
  | 0, s => (0, s)
  | fuel + 1, s =>
    let (word, s) := s.next
    let product := word.toNat * range
    if product % wordCount ≤ limit then (product / wordCount, s) else drawWithin range limit fuel s

/-- More than half of all words are accepted, so that no stream rejects this many in a row. -/
def drawFuel : Nat := 1000

/-- how often `range` can be doubled before it exceeds 32 bits -/
def spareBits (range : Nat) : Nat := 31 - range.log2

/-- a number below `range`, by the limit that is cheap to compute -/
def below (range : Nat) (s : Stream) : Nat × Stream :=
  drawWithin range (range * Nat.pow 2 (spareBits range) - 1) drawFuel s

/-- a number below `range`, by the largest limit that favours none -/
def belowExact (range : Nat) (s : Stream) : Nat × Stream :=
  drawWithin range (wordCount - 1 - (wordCount - range) % range) drawFuel s

theorem drawWithin_lt (range limit : Nat) (h : 0 < range) (fuel : Nat) (s : Stream) :
    (drawWithin range limit fuel s).1 < range := by
  induction fuel generalizing s with
  | zero => exact h
  | succ fuel ih =>
    unfold drawWithin
    dsimp only
    split
    · rw [Nat.div_lt_iff_lt_mul (by decide), Nat.mul_comm]
      exact (Nat.mul_lt_mul_left h).2 s.next.1.toNat_lt
    · exact ih _

theorem below_lt (range : Nat) (h : 0 < range) (s : Stream) : (below range s).1 < range :=
  drawWithin_lt range _ h _ s

theorem belowExact_lt (range : Nat) (h : 0 < range) (s : Stream) : (belowExact range s).1 < range :=
  drawWithin_lt range _ h _ s

end RankEval.Random
