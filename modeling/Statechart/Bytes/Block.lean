/-
# Fixed-length byte blocks

Payloads, queue cells and spare memory are runs of bytes whose length never
changes. `Block size` carries that length in its type, so that no operation on an
instance has to check it again.
-/

import Statechart.Bytes.LittleEndian

namespace Statechart

/-- Exactly `size` bytes. -/
structure Block (size : Nat) where
  /-- The bytes themselves. -/
  bytes : Bytes
  length_bytes : bytes.length = size
  deriving DecidableEq, Repr

namespace Block

variable {size : Nat}

/-- `bytes` cut or padded with zeros to the block's size. -/
def ofBytes (size : Nat) (bytes : Bytes) : Block size where
  bytes := bytes.resize size
  length_bytes := Bytes.length_resize bytes size

/-- The block of zeros. -/
def zeros (size : Nat) : Block size :=
  ofBytes size []

/-- The block at `offset` in a longer byte string. -/
def slice (bytes : Bytes) (offset size : Nat) : Block size :=
  ofBytes size (bytes.slice offset size)

instance : Inhabited (Block size) := ⟨zeros size⟩

/-- A byte string of the block's own size is kept whole. -/
theorem bytes_ofBytes {bytes : Bytes} (fits : bytes.length = size) :
    (ofBytes size bytes).bytes = bytes := by
  simp [ofBytes, Bytes.resize, ← fits]

end Block

end Statechart
