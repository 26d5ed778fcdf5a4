/-
# Random draws

Instances carry the state of a random generator, a 32-bit word that three shifts and
exclusive ors turn into the next one. The word is draw and next state at once. Zero,
which the shifts would never leave, is replaced first.

Draws are scaled to a range by multiplication: the high half of draw times range. A
range of a single value is not worth a draw and leaves the state as it is.
-/

import Statechart.Random.Binary32

namespace Statechart.Random

/-- What stands in for the state zero. -/
def zeroReplacement : UInt32 := 0x9E3779B9

/-- The next draw, which is the next state too. -/
def next (seed : UInt32) : UInt32 :=
  let start := if seed = 0 then zeroReplacement else seed
  let left := start ^^^ (start <<< 13)
  let right := left ^^^ (left >>> 17)
  right ^^^ (right <<< 5)

/-- A draw scaled to `span` values. -/
def scaled (draw : UInt32) (span : Nat) : Nat :=
  (draw.toNat * span) >>> 32

/-- A number below `bound`, or zero if there is none, and the next state. -/
def below (bound seed : UInt32) : UInt32 × UInt32 :=
  if bound = 0 then (0, seed)
  else (UInt32.ofNat (scaled (next seed) bound.toNat), next seed)

/-- A number from `low` to `high`, or `low` if there is no other, and the next
state. -/
def between (low high : Int32) (seed : UInt32) : Int32 × UInt32 :=
  if high ≤ low then (low, seed)
  else
    let span := (high.toInt - low.toInt + 1).toNat
    (Int32.ofInt (low.toInt + scaled (next seed) span), next seed)

/-- The fraction whose numerator is the high 24 bits of a draw. -/
def fractionOf (draw : UInt32) : Fraction :=
  Fin.ofNat Fraction.denominator (draw.toNat >>> 8)

/-- A number between zero and one, one excluded, and the next state. -/
def fraction (seed : UInt32) : Fraction × UInt32 :=
  (fractionOf (next seed), next seed)

/-- Whether something of this probability, given as 32 bits, happens, and the next
state. -/
def chance (probability seed : UInt32) : Bool × UInt32 :=
  ((fraction seed).1.isBelow probability, next seed)

/-- A scaled draw stays below the span. -/
theorem scaled_lt (draw : UInt32) {span : Nat} (positive : 0 < span) :
    scaled draw span < span := by
  unfold scaled
  rw [Nat.shiftRight_eq_div_pow, Nat.div_lt_iff_lt_mul (by decide), Nat.mul_comm]
  exact Nat.mul_lt_mul_of_pos_left draw.toNat_lt positive

end Statechart.Random
