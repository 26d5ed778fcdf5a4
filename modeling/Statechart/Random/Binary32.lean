/-
# Single-precision fractions

A random draw between zero and one has 24 binary places, and probabilities are given
as single-precision numbers. This module holds what connects the two, in exact
integer arithmetic: the 32 bits of a fraction `numerator / 2^24`, and the comparison
of such a fraction with a number given by its 32 bits.

The 32 bits are a sign, eight bits of exponent and 23 bits of significand.
-/

namespace Statechart.Random

/-- A fraction has 24 binary places. -/
abbrev Fraction.denominator : Nat := 1 <<< 24

/-- A number between zero and one, as the numerator over `Fraction.denominator`. -/
abbrev Fraction := Fin Fraction.denominator

namespace Fraction

/-- The bit above the 23 of a significand. It is set in every number but the smallest
and not written down. -/
def leadingBit : Nat := 1 <<< 23

/-- The 32 bits of a fraction. Every fraction has an exact single-precision form. -/
def bits (fraction : Fraction) : UInt32 :=
  let numerator := fraction.val
  if numerator = 0 then 0
  else
    let magnitude := numerator.log2
    let significand := numerator <<< (23 - magnitude) - leadingBit
    UInt32.ofNat ((103 + magnitude) <<< 23 + significand)

/-- Whether a fraction is less than the number with these 32 bits. Nothing is less
than what is not a number, and no fraction is less than zero. -/
def isBelow (fraction : Fraction) (bound : UInt32) : Bool :=
  let word := bound.toNat
  let negative := word.testBit 31
  let exponent := (word >>> 23) % 256
  let significand := word % leadingBit
  if exponent = 255 then !negative && significand = 0
  else if negative then false
  else if exponent = 0 then fraction.val <<< 125 < significand
  else fraction.val <<< 126 < (leadingBit + significand) <<< exponent

end Fraction

end Statechart.Random
