/-
A deterministic stream of 32-bit words: the ChaCha stream cipher with twelve rounds, a 64-bit block counter that starts
from 0, and stream number 0.
-/

namespace RankEval.Random

/-- one block, or the state it is made from: sixteen words -/
abbrev Block := Vector UInt32 16

namespace Block

def rotl (x : UInt32) (n : UInt32) : UInt32 := (x <<< n) ||| (x >>> (32 - n))

/-- mixes four words of a block -/
def quarterRound (s : Block) (a b c d : Fin 16) : Block :=
  let s := s.set a (s[a] + s[b])
  let s := s.set d (rotl (s[d] ^^^ s[a]) 16)
  let s := s.set c (s[c] + s[d])
  let s := s.set b (rotl (s[b] ^^^ s[c]) 12)
  let s := s.set a (s[a] + s[b])
  let s := s.set d (rotl (s[d] ^^^ s[a]) 8)
  let s := s.set c (s[c] + s[d])
  s.set b (rotl (s[b] ^^^ s[c]) 7)

/-- one round on the columns and one on the diagonals -/
def doubleRound (s : Block) : Block :=
  let s := s.quarterRound 0 4 8 12
  let s := s.quarterRound 1 5 9 13
  let s := s.quarterRound 2 6 10 14
  let s := s.quarterRound 3 7 11 15
  let s := s.quarterRound 0 5 10 15
  let s := s.quarterRound 1 6 11 12
  let s := s.quarterRound 2 7 8 13
  s.quarterRound 3 4 9 14

/-- the words of block number `counter` under a key -/
def ofKey (key : Vector UInt32 8) (counter : UInt64) : Block :=
  let start : Block :=
    #v[0x61707865, 0x3320646e, 0x79622d32, 0x6b206574,
       key[0], key[1], key[2], key[3], key[4], key[5], key[6], key[7],
       counter.toUInt32, (counter >>> 32).toUInt32, 0, 0]
  let mixed := Nat.repeat doubleRound 6 start
  start.zipWith (· + ·) mixed

end Block

/-- the place in a stream: the words left of the current block, and the number of the next one -/
structure Stream where
  key : Vector UInt32 8
  counter : UInt64
  left : List UInt32

namespace Stream

/-- one step of the generator that spreads a seed over a key -/
def seedStep (s : UInt64) : UInt64 := s * 6364136223846793005 + 11634580027462260723

/-- the word that belongs to a state of that generator -/
def seedWord (s : UInt64) : UInt32 :=
  let x := (((s >>> 18) ^^^ s) >>> 27).toUInt32
  let r := (s >>> 59).toUInt32
  (x >>> r) ||| (x <<< ((32 - r) &&& 31))

/-- the stream that belongs to a 64-bit seed -/
def ofSeed (seed : UInt64) : Stream where
  key := .ofFn fun i => seedWord (Nat.repeat seedStep (i.val + 1) seed)
  counter := 0
  left := []

/-- the next word and the stream after it -/
def next (s : Stream) : UInt32 × Stream :=
  match s.left with
  | w :: rest => (w, { s with left := rest })
  | [] =>
    let block := Block.ofKey s.key s.counter
    (block[0], { s with counter := s.counter + 1, left := block.toList.tail })

end Stream

end RankEval.Random
