/-
# Numerals

Numbers as the renderers write them: decimal, hexadecimal and binary digits,
padded with zeros on the left to a least width. A numeral that is wider than the
width asked for is written in full.
-/

namespace Statechart.Text.Numeral

/-- `digits` with zeros before it up to `width` characters. -/
def padZeros (width : Nat) (digits : List Char) : List Char :=
  List.replicate (width - digits.length) '0' ++ digits

/-- Decimal digits, at least `width` of them. -/
def decimal (width value : Nat) : String :=
  String.ofList (padZeros width (Nat.toDigits 10 value))

/-- Lower-case hexadecimal digits, at least `width` of them. -/
def hex (width value : Nat) : String :=
  String.ofList (padZeros width (Nat.toDigits 16 value))

/-- Binary digits, at least `width` of them. -/
def binary (width value : Nat) : String :=
  String.ofList (padZeros width (Nat.toDigits 2 value))

/-- A 16-bit id as it is written in error texts: `0x` and four digits. -/
def id16 (id : UInt16) : String :=
  "0x" ++ hex 4 id.toNat

/-- A 16-bit id as it is written where a name is missing: `#` and four digits. -/
def anonymous (id : UInt16) : String :=
  "#" ++ hex 4 id.toNat

/-- A 32-bit word: `0x` and eight digits. -/
def word32 (word : UInt32) : String :=
  "0x" ++ hex 8 word.toNat

/-- A byte of bit flags: `0b` and eight digits. -/
def bits8 (byte : UInt8) : String :=
  "0b" ++ binary 8 byte.toNat

/-- How many decimal digits the indices below `count` need. -/
def indexWidth (count : Nat) : Nat :=
  (Nat.toDigits 10 (count - 1)).length

/-- A padded numeral is at least as wide as asked. -/
theorem le_length_padZeros (width : Nat) (digits : List Char) :
    width ≤ (padZeros width digits).length := by
  simp only [padZeros, List.length_append, List.length_replicate]
  omega

end Statechart.Text.Numeral
