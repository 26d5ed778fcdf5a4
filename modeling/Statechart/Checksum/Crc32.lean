/-
# CRC-32

The cyclic redundancy check of a blob's body: the reflected polynomial
`0xEDB88320`, state and result complemented. The state is advanced one bit at a
time, each byte entering at the low end.
-/

import Statechart.Bytes.LittleEndian

namespace Statechart.Checksum

/-- The generator polynomial, bits reversed. -/
def polynomial : UInt32 := 0xEDB88320

/-- Shift one bit out of the register and subtract the polynomial if it was set. -/
def crcBit (register : UInt32) : UInt32 :=
  if register &&& 1 = 1 then (register >>> 1) ^^^ polynomial else register >>> 1

/-- Take one byte into the register. -/
def crcByte (register : UInt32) (byte : UInt8) : UInt32 :=
  crcBit (crcBit (crcBit (crcBit (crcBit (crcBit (crcBit (crcBit
    (register ^^^ byte.toUInt32))))))))

/-- The CRC-32 of a byte string. -/
def crc32 (bytes : Bytes) : UInt32 :=
  bytes.foldl crcByte 0xFFFFFFFF ^^^ 0xFFFFFFFF

/-- The empty byte string has checksum zero. -/
theorem crc32_nil : crc32 [] = 0 := rfl

end Statechart.Checksum
