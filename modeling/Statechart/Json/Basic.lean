/-
# JSON values

A JSON text as a tree. Strings and object keys keep the spelling between their
quotes, escapes included: a reader that skips a value never asks what its strings
mean, and a key that has to be a number must not be spelt with escapes. What a
spelling means is the business of `Statechart.Json.Quoted`. Numbers keep their
spelling too.

Objects are lists of members in the order of the text, repeated keys included.
-/

namespace Statechart

/-- One JSON value. -/
inductive Json
  | null
  | bool (value : Bool)
  /-- A number as it is spelt. -/
  | number (spelling : List Char)
  /-- A string as it is spelt between its quotes. -/
  | string (spelling : List Char)
  | array (elements : List Json)
  /-- Members in text order, keys as they are spelt between their quotes. -/
  | object (members : List (List Char × Json))

namespace Json

instance : Inhabited Json := ⟨null⟩

/-- The four characters between tokens that mean nothing. -/
def isBlank (c : Char) : Bool :=
  c = ' ' || c = '\n' || c = '\t' || c = '\r'

/-- A decimal digit. -/
def isDigit (c : Char) : Bool :=
  '0' ≤ c && c ≤ '9'

/-- What a hexadecimal digit stands for, in either case. -/
def hexValue? (c : Char) : Option Nat :=
  if '0' ≤ c && c ≤ '9' then some (c.toNat - '0'.toNat)
  else if 'a' ≤ c && c ≤ 'f' then some (c.toNat - 'a'.toNat + 10)
  else if 'A' ≤ c && c ≤ 'F' then some (c.toNat - 'A'.toNat + 10)
  else none

/-- What four hexadecimal digits stand for. -/
def hexQuad? (c3 c2 c1 c0 : Char) : Option Nat := do
  let d3 ← hexValue? c3
  let d2 ← hexValue? c2
  let d1 ← hexValue? c1
  let d0 ← hexValue? c0
  return 4096 * d3 + 256 * d2 + 16 * d1 + d0

end Json

end Statechart
