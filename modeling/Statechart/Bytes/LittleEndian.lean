/-
# Little-endian words

Every blob, instance, trace record and command page stores its integers with the
least significant byte first. A byte string is a list of bytes; a word is read at
an offset from its start. Reading past the end sees zeros, so callers check the
length first where the difference matters.

The main statements say that a word is what its own bytes say, and that the bytes
of a word that was read are the bytes it was read from.
-/

namespace Statechart

/-- A byte string. -/
abbrev Bytes := List UInt8

namespace Bytes

/-- The 16-bit word whose low byte comes first. -/
def word16 (low high : UInt8) : UInt16 :=
  UInt16.ofNat (low.toNat + 256 * high.toNat)

/-- The 32-bit word whose lowest byte comes first. -/
def word32 (b0 b1 b2 b3 : UInt8) : UInt32 :=
  UInt32.ofNat (b0.toNat + 256 * b1.toNat + 65536 * b2.toNat + 16777216 * b3.toNat)

/-- Byte `place` of a number, counted from the least significant one. -/
def digit (number place : Nat) : UInt8 :=
  UInt8.ofNat (number >>> (8 * place))

/-- The two bytes of a 16-bit word. -/
def ofWord16 (word : UInt16) : Bytes :=
  [digit word.toNat 0, digit word.toNat 1]

/-- The four bytes of a 32-bit word. -/
def ofWord32 (word : UInt32) : Bytes :=
  [digit word.toNat 0, digit word.toNat 1, digit word.toNat 2, digit word.toNat 3]

/-- The byte at `offset`. -/
def byteAt (bytes : Bytes) (offset : Nat) : UInt8 :=
  bytes.getD offset 0

/-- The 16-bit word at `offset`. -/
def word16At (bytes : Bytes) (offset : Nat) : UInt16 :=
  word16 (bytes.byteAt offset) (bytes.byteAt (offset + 1))

/-- The 32-bit word at `offset`. -/
def word32At (bytes : Bytes) (offset : Nat) : UInt32 :=
  word32 (bytes.byteAt offset) (bytes.byteAt (offset + 1)) (bytes.byteAt (offset + 2))
    (bytes.byteAt (offset + 3))

/-- The `count` bytes from `offset` on. -/
def slice (bytes : Bytes) (offset count : Nat) : Bytes :=
  (bytes.drop offset).take count

/-- `bytes` with `patch` written over it from `offset` on. What would fall beyond
the end is dropped. -/
def overwrite (bytes : Bytes) (offset : Nat) (patch : Bytes) : Bytes :=
  bytes.take offset ++ patch.take (bytes.length - offset) ++
    bytes.drop (offset + patch.length)

/-- `bytes` cut or padded with zeros to exactly `size` bytes. -/
def resize (bytes : Bytes) (size : Nat) : Bytes :=
  bytes.take size ++ List.replicate (size - bytes.length) 0

@[simp]
theorem toNat_digit (number place : Nat) :
    (digit number place).toNat = number >>> (8 * place) % 256 := by
  simp [digit]

@[simp]
theorem length_ofWord16 (word : UInt16) : (ofWord16 word).length = 2 := rfl

@[simp]
theorem length_ofWord32 (word : UInt32) : (ofWord32 word).length = 4 := rfl

/-- A 16-bit word is what its two bytes say. -/
@[simp]
theorem word16_digit (word : UInt16) :
    word16 (digit word.toNat 0) (digit word.toNat 1) = word := by
  have bound : word.toNat < 65536 := word.toNat_lt
  apply UInt16.toNat_inj.1
  simp only [word16, toNat_digit, Nat.shiftRight_eq_div_pow, UInt16.toNat_ofNat']
  omega

/-- A 32-bit word is what its four bytes say. -/
@[simp]
theorem word32_digit (word : UInt32) :
    word32 (digit word.toNat 0) (digit word.toNat 1) (digit word.toNat 2)
      (digit word.toNat 3) = word := by
  have bound : word.toNat < 4294967296 := word.toNat_lt
  apply UInt32.toNat_inj.1
  simp only [word32, toNat_digit, Nat.shiftRight_eq_div_pow, UInt32.toNat_ofNat']
  omega

/-- The bytes of a 16-bit word that was read are those it was read from. -/
@[simp]
theorem ofWord16_word16 (low high : UInt8) : ofWord16 (word16 low high) = [low, high] := by
  have lowBound : low.toNat < 256 := low.toNat_lt
  have highBound : high.toNat < 256 := high.toNat_lt
  simp only [ofWord16, List.cons.injEq, and_true, ← UInt8.toNat_inj, toNat_digit,
    Nat.shiftRight_eq_div_pow, word16, UInt16.toNat_ofNat']
  omega

/-- The bytes of a 32-bit word that was read are those it was read from. -/
@[simp]
theorem ofWord32_word32 (b0 b1 b2 b3 : UInt8) :
    ofWord32 (word32 b0 b1 b2 b3) = [b0, b1, b2, b3] := by
  have bound0 : b0.toNat < 256 := b0.toNat_lt
  have bound1 : b1.toNat < 256 := b1.toNat_lt
  have bound2 : b2.toNat < 256 := b2.toNat_lt
  have bound3 : b3.toNat < 256 := b3.toNat_lt
  simp only [ofWord32, List.cons.injEq, and_true, ← UInt8.toNat_inj, toNat_digit,
    Nat.shiftRight_eq_div_pow, word32, UInt32.toNat_ofNat']
  omega

/-- Writing over a byte string keeps its length. -/
@[simp]
theorem length_overwrite (bytes : Bytes) (offset : Nat) (patch : Bytes) :
    (bytes.overwrite offset patch).length = bytes.length := by
  simp only [overwrite, List.length_append, List.length_take, List.length_drop]
  omega

@[simp]
theorem length_resize (bytes : Bytes) (size : Nat) : (bytes.resize size).length = size := by
  simp only [resize, List.length_append, List.length_take, List.length_replicate]
  omega

end Bytes

end Statechart
