/-
# Hashed names

Actions, guards and events are known to a definition by 16-bit ids. The compiler
writes ids and the kernel looks callbacks up by id, so both use the function
defined here: FNV-1a over the UTF-8 bytes of the name, cut to its low half.
Id 0 is reserved for "none", so the name whose hash ends in zero bits is given id 1.
-/

namespace Statechart.Name

/-- The state of the hash before any byte. -/
def hashBasis : UInt32 := 0x811c9dc5

/-- The factor by which the state is multiplied after each byte. -/
def hashFactor : UInt32 := 0x01000193

/-- One byte's step of the hash. -/
def hashStep (state : UInt32) (byte : UInt8) : UInt32 :=
  (state ^^^ byte.toUInt32) * hashFactor

/-- The 32-bit hash of a name. -/
def hash32 (name : String) : UInt32 :=
  name.toUTF8.data.foldl hashStep hashBasis

/-- The id that stands for "no action" and "no guard". -/
def noId : UInt16 := 0

/-- The id of an action or guard name. -/
def hash16 (name : String) : UInt16 :=
  let id := (hash32 name).toUInt16
  if id = noId then 1 else id

/-- No name is hashed to the id that means none. -/
theorem hash16_ne_noId (name : String) : hash16 name ≠ noId := by
  unfold hash16
  simp only
  split
  · decide
  · assumption

end Statechart.Name
