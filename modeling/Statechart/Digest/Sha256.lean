/-
# SHA-256

The digest behind a machine's two content hashes. A message is padded with a one
bit, zeros and its length in bits to a whole number of 64-byte blocks; each block
is expanded to sixty-four words that are mixed into eight running words.

Content hashes keep the first four bytes of the digest only (`prefix32`), read as a
little-endian word.
-/

import Statechart.Bytes.LittleEndian

namespace Statechart.Digest

/-- The round constants. -/
def roundConstants : List UInt32 :=
  [0x428a2f98, 0x71374491, 0xb5c0fbcf, 0xe9b5dba5, 0x3956c25b, 0x59f111f1, 0x923f82a4,
    0xab1c5ed5, 0xd807aa98, 0x12835b01, 0x243185be, 0x550c7dc3, 0x72be5d74, 0x80deb1fe,
    0x9bdc06a7, 0xc19bf174, 0xe49b69c1, 0xefbe4786, 0x0fc19dc6, 0x240ca1cc, 0x2de92c6f,
    0x4a7484aa, 0x5cb0a9dc, 0x76f988da, 0x983e5152, 0xa831c66d, 0xb00327c8, 0xbf597fc7,
    0xc6e00bf3, 0xd5a79147, 0x06ca6351, 0x14292967, 0x27b70a85, 0x2e1b2138, 0x4d2c6dfc,
    0x53380d13, 0x650a7354, 0x766a0abb, 0x81c2c92e, 0x92722c85, 0xa2bfe8a1, 0xa81a664b,
    0xc24b8b70, 0xc76c51a3, 0xd192e819, 0xd6990624, 0xf40e3585, 0x106aa070, 0x19a4c116,
    0x1e376c08, 0x2748774c, 0x34b0bcb5, 0x391c0cb3, 0x4ed8aa4a, 0x5b9cca4f, 0x682e6ff3,
    0x748f82ee, 0x78a5636f, 0x84c87814, 0x8cc70208, 0x90befffa, 0xa4506ceb, 0xbef9a3f7,
    0xc67178f2]

/-- The eight running words. -/
structure State where
  a : UInt32
  b : UInt32
  c : UInt32
  d : UInt32
  e : UInt32
  f : UInt32
  g : UInt32
  h : UInt32

namespace State

/-- The running words before the first block. -/
def start : State where
  a := 0x6a09e667
  b := 0xbb67ae85
  c := 0x3c6ef372
  d := 0xa54ff53a
  e := 0x510e527f
  f := 0x9b05688c
  g := 0x1f83d9ab
  h := 0x5be0cd19

/-- Word by word sum. -/
def add (x y : State) : State where
  a := x.a + y.a
  b := x.b + y.b
  c := x.c + y.c
  d := x.d + y.d
  e := x.e + y.e
  f := x.f + y.f
  g := x.g + y.g
  h := x.h + y.h

end State

/-- `word` rotated right by `count` bits, for `0 < count < 32`. -/
def rotateRight (word count : UInt32) : UInt32 :=
  (word >>> count) ||| (word <<< (32 - count))

/-- One round with the round constant and message word already added up. -/
def round (s : State) (input : UInt32) : State :=
  let mixE := rotateRight s.e 6 ^^^ rotateRight s.e 11 ^^^ rotateRight s.e 25
  let choice := (s.e &&& s.f) ^^^ ((s.e ^^^ 0xFFFFFFFF) &&& s.g)
  let first := s.h + mixE + choice + input
  let mixA := rotateRight s.a 2 ^^^ rotateRight s.a 13 ^^^ rotateRight s.a 22
  let majority := (s.a &&& s.b) ^^^ (s.a &&& s.c) ^^^ (s.b &&& s.c)
  { a := first + (mixA + majority), b := s.a, c := s.b, d := s.c,
    e := s.d + first, f := s.e, g := s.f, h := s.g }

/-- The message word sixteen places after the head of `window`. -/
def nextWord (window : List UInt32) : UInt32 :=
  let w0 := window.getD 0 0
  let w1 := window.getD 1 0
  let w9 := window.getD 9 0
  let w14 := window.getD 14 0
  let small := rotateRight w1 7 ^^^ rotateRight w1 18 ^^^ (w1 >>> 3)
  let large := rotateRight w14 17 ^^^ rotateRight w14 19 ^^^ (w14 >>> 10)
  w0 + small + w9 + large

/-- Run the rounds of `constants`, the window holding the next sixteen message words. -/
def rounds : List UInt32 → List UInt32 → State → State
  | [], _, s => s
  | constant :: constants, window, s =>
      rounds constants (window.tail ++ [nextWord window])
        (round s (constant + window.getD 0 0))

/-- The big-endian words of a block, four bytes each. -/
def blockWords : Bytes → List UInt32
  | b0 :: b1 :: b2 :: b3 :: rest => Bytes.word32 b3 b2 b1 b0 :: blockWords rest
  | _ => []

/-- Mix one 64-byte block into the running words. -/
def absorb (s : State) (block : Bytes) : State :=
  s.add (rounds roundConstants (blockWords block) s)

/-- What is appended to a message of `length` bytes: a one bit, zeros up to eight
bytes short of a block, the length in bits. -/
def padding (length : Nat) : Bytes :=
  0x80 :: List.replicate ((119 - length % 64) % 64) 0 ++
    [7, 6, 5, 4, 3, 2, 1, 0].map (Bytes.digit (8 * length))

/-- Mix `count` blocks from the front of `bytes`. -/
def absorbBlocks : Nat → Bytes → State → State
  | 0, _, s => s
  | count + 1, bytes, s => absorbBlocks count (bytes.drop 64) (absorb s (bytes.take 64))

/-- The final running words of a message. -/
def sha256 (message : Bytes) : State :=
  let padded := message ++ padding message.length
  absorbBlocks (padded.length / 64) padded State.start

/-- The first four bytes of the digest as a little-endian word. -/
def prefix32 (message : Bytes) : UInt32 :=
  let first := (sha256 message).a.toNat
  Bytes.word32 (Bytes.digit first 3) (Bytes.digit first 2) (Bytes.digit first 1)
    (Bytes.digit first 0)

/-- Padding completes the last block. -/
theorem length_padding (length : Nat) : (length + (padding length).length) % 64 = 0 := by
  simp only [padding, List.cons_append, List.length_cons, List.length_append,
    List.length_replicate, List.length_map, List.length_nil]
  omega

end Statechart.Digest
