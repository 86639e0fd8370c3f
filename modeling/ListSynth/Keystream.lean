import ListSynth.Number
/-!
A stream of pseudo-random words: the ChaCha block function with eight rounds, under a key drawn from a
64-bit seed.
-/

namespace ListSynth

abbrev Block := Vector UInt32 16

namespace Block

def rotateLeft (x : UInt32) (n : UInt32) : UInt32 := (x <<< n) ||| (x >>> (32 - n))

def quarterRound (v : Block) (a b c d : Fin 16) : Block :=
  let xa := v[a] + v[b]
  let xd := rotateLeft (v[d] ^^^ xa) 16
  let xc := v[c] + xd
  let xb := rotateLeft (v[b] ^^^ xc) 12
  let xa := xa + xb
  let xd := rotateLeft (xd ^^^ xa) 8
  let xc := xc + xd
  let xb := rotateLeft (xb ^^^ xc) 7
  (((v.set a xa).set b xb).set c xc).set d xd

def doubleRound (v : Block) : Block :=
  let v := quarterRound v 0 4 8 12
  let v := quarterRound v 1 5 9 13
  let v := quarterRound v 2 6 10 14
  let v := quarterRound v 3 7 11 15
  let v := quarterRound v 0 5 10 15
  let v := quarterRound v 1 6 11 12
  let v := quarterRound v 2 7 8 13
  quarterRound v 3 4 9 14

def scramble (v : Block) : Block :=
  let w := doubleRound (doubleRound (doubleRound (doubleRound v)))
  v.zipWith (· + ·) w

end Block

/-- Where a stream stands: its key, the number of the next block and the words left of the last one. -/
structure Keystream where
  key : Vector UInt32 8
  next : UInt64
  pending : List UInt32

namespace Keystream

def multiplier : UInt64 := 6364136223846793005

def increment : UInt64 := 11634580027462260723

/-- One stretched word: high bits folded down and rotated by the highest five. -/
def stretched (s : UInt64) : UInt32 :=
  let x := (((s >>> 18) ^^^ s) >>> 27).toUInt32
  let r := (s >>> 59).toUInt32
  if r = 0 then x else (x >>> r) ||| (x <<< (32 - r))

def seedStates (seed : UInt64) : Nat → UInt64
  | 0 => seed * multiplier + increment
  | n + 1 => seedStates seed n * multiplier + increment

def ofSeed (seed : UInt64) : Keystream where
  key := Vector.ofFn fun i => stretched (seedStates seed i)
  next := 0
  pending := []

/-- The block before scrambling: four constant words, the key, the block number and no nonce. -/
def input (s : Keystream) : Block :=
  let constants : Vector UInt32 4 := #v[0x61707865, 0x3320646e, 0x79622d32, 0x6b206574]
  let position : Vector UInt32 4 := #v[s.next.toUInt32, (s.next >>> 32).toUInt32, 0, 0]
  constants ++ s.key ++ position

def word (s : Keystream) : UInt32 × Keystream :=
  match s.pending with
  | x :: rest => (x, { s with pending := rest })
  | [] =>
    let block := s.input.scramble
    (block[0], { s with next := s.next + 1, pending := block.toList.tail })

def word64 (s : Keystream) : UInt64 × Keystream :=
  let (low, s) := s.word
  let (high, s) := s.word
  (low.toUInt64 ||| (high.toUInt64 <<< 32), s)

/-- The next number between minus one and one, from the high 52 bits of two words. -/
def signedUnit (s : Keystream) : Number × Keystream :=
  let (bits, s) := s.word64
  (.ofFloat ((bits >>> 12).toFloat * Float.ofBits 0x3CB0000000000000 * 2.0 + (-1.0)), s)

def signedUnits (s : Keystream) : Nat → List Number × Keystream
  | 0 => ([], s)
  | n + 1 =>
    let (x, s) := s.signedUnit
    let (xs, s) := signedUnits s n
    (x :: xs, s)

end Keystream

end ListSynth
