/-!
# SipHash with one compression round and three finishing rounds

A keyed hash of a byte string. The bytes are taken in words of eight, least significant first;
the last word holds the remaining bytes and, in its top byte, the length modulo 256.
-/

namespace StackMachine.SipHash

/-- The four words of internal state. -/
structure State where
  /-- First word. -/
  v0 : UInt64
  /-- Second word. -/
  v1 : UInt64
  /-- Third word. -/
  v2 : UInt64
  /-- Fourth word. -/
  v3 : UInt64

/-- Rotates a word to the left. -/
def rotate (x : UInt64) (n : UInt64) : UInt64 := (x <<< n) ||| (x >>> (64 - n))

/-- One mixing round. -/
def round (s : State) : State :=
  let v0 := s.v0 + s.v1
  let v1 := rotate s.v1 13 ^^^ v0
  let v0 := rotate v0 32
  let v2 := s.v2 + s.v3
  let v3 := rotate s.v3 16 ^^^ v2
  let v0 := v0 + v3
  let v3 := rotate v3 21 ^^^ v0
  let v2 := v2 + v1
  let v1 := rotate v1 17 ^^^ v2
  let v2 := rotate v2 32
  ⟨v0, v1, v2, v3⟩

/-- Mixes one word of input in. -/
def absorb (s : State) (word : UInt64) : State :=
  let mixed := round { s with v3 := s.v3 ^^^ word }
  { mixed with v0 := mixed.v0 ^^^ word }

/-- The state for a pair of keys. -/
def init (k0 k1 : UInt64) : State :=
  ⟨k0 ^^^ 0x736f6d6570736575, k1 ^^^ 0x646f72616e646f6d,
    k0 ^^^ 0x6c7967656e657261, k1 ^^^ 0x7465646279746573⟩

/-- The number that bytes denote, least significant first. -/
def littleEndian (bytes : List UInt8) : Nat :=
  bytes.foldr (fun byte rest => byte.toNat + 256 * rest) 0

/-- Absorbs full words, then the last word marked with the length. -/
def absorbAll (length : Nat) (s : State) : List UInt8 → State
  | b0 :: b1 :: b2 :: b3 :: b4 :: b5 :: b6 :: b7 :: rest =>
    let word := littleEndian [b0, b1, b2, b3, b4, b5, b6, b7]
    absorbAll length (absorb s (UInt64.ofNat word)) rest
  | rest => absorb s (UInt64.ofNat (littleEndian rest + length % 256 * 0x100000000000000))

/-- The hash of a byte string under the keys `k0` and `k1`. -/
def hash (k0 k1 : UInt64) (bytes : List UInt8) : UInt64 :=
  let s := absorbAll bytes.length (init k0 k1) bytes
  let s := round (round (round { s with v2 := s.v2 ^^^ 0xff }))
  s.v0 ^^^ s.v1 ^^^ s.v2 ^^^ s.v3

end StackMachine.SipHash
