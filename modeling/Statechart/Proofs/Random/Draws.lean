/-
# Even draws

A word with a shifted copy of itself added by exclusive or tells which word it came from: the
difference of two words with the same result is its own shifted copy, and of a word that is
shifted often enough nothing is left (`xor_shift_injective`). Three such steps are one draw, so
no word but zero leads to zero, the other words are permuted, and however long draws go on, each
of them comes up again (`next_ne_zero`, `bijOn_next`, `mem_periodicPts_next`).

A draw is scaled to a span by the high half of a product. The words that are scaled to one value
stand next to each other, from the first whose product reaches the value (`firstDraw_le_iff`),
and between two such places there is the whole part of the quotient, or one more
(`ncard_scaled`).

The product, the span and its start are computed in words of 64 bits. The `…InWords?` functions
give up where a word cannot hold the number, and they never do.
-/

import Mathlib.Algebra.Order.Floor.Div
import Mathlib.Data.Set.Card
import Mathlib.Dynamics.PeriodicPts.Lemmas
import Mathlib.Order.Interval.Finset.Nat
import Statechart.Random.Xorshift

namespace Statechart.Random

/-! ### Words and shifted copies -/

theorem toNat_iterate_shiftLeft (amount word : UInt32) (times : Nat) :
    ((· <<< amount)^[times] word).toNat =
      word.toNat * 2 ^ (amount.toNat % 32 * times) % 2 ^ 32 := by
  induction times with
  | zero => simp
  | succ times ih =>
    rw [Function.iterate_succ_apply', UInt32.toNat_shiftLeft, ih, Nat.shiftLeft_eq,
      Nat.mod_mul_mod, Nat.mul_assoc, ← pow_add, Nat.mul_succ]

theorem toNat_iterate_shiftRight (amount word : UInt32) (times : Nat) :
    ((· >>> amount)^[times] word).toNat = word.toNat / 2 ^ (amount.toNat % 32 * times) := by
  induction times with
  | zero => simp
  | succ times ih =>
    rw [Function.iterate_succ_apply', UInt32.toNat_shiftRight, ih, Nat.shiftRight_eq_div_pow,
      Nat.div_div_eq_div_mul, ← pow_add, Nat.mul_succ]

/-- A word that is shifted often enough is zero in the end. -/
theorem iterate_shiftLeft_eq_zero {amount : UInt32} (moves : 0 < amount.toNat % 32)
    (word : UInt32) : (· <<< amount)^[32] word = 0 := by
  have far : 2 ^ 32 ∣ word.toNat * 2 ^ (amount.toNat % 32 * 32) :=
    Dvd.dvd.mul_left (pow_dvd_pow 2 (Nat.le_mul_of_pos_left 32 moves)) _
  apply UInt32.toNat_inj.1
  rw [toNat_iterate_shiftLeft, Nat.mod_eq_zero_of_dvd far, UInt32.toNat_zero]

theorem iterate_shiftRight_eq_zero {amount : UInt32} (moves : 0 < amount.toNat % 32)
    (word : UInt32) : (· >>> amount)^[32] word = 0 := by
  have far : 2 ^ 32 ≤ 2 ^ (amount.toNat % 32 * 32) :=
    Nat.pow_le_pow_right (by decide) (Nat.le_mul_of_pos_left 32 moves)
  apply UInt32.toNat_inj.1
  rw [toNat_iterate_shiftRight, Nat.div_eq_of_lt (Nat.lt_of_lt_of_le word.toNat_lt far),
    UInt32.toNat_zero]

/-- A word with a shifted copy added to it tells the word, if the shift is linear and comes to
nothing in the end. -/
theorem xor_shift_injective {shift : UInt32 → UInt32}
    (linear : ∀ first second, shift (first ^^^ second) = shift first ^^^ shift second)
    {times : Nat} (vanishes : ∀ word, shift^[times] word = 0) :
    Function.Injective fun word => word ^^^ shift word := by
  intro first second (same : first ^^^ shift first = second ^^^ shift second)
  -- The difference of the two words is its own shifted copy, so it does not change by shifting.
  have fixed : Function.IsFixedPt shift (first ^^^ second) :=
    calc
      shift (first ^^^ second) = shift first ^^^ shift second := linear first second
      _ = first ^^^ (first ^^^ shift first) ^^^ shift second := by
        rw [← UInt32.xor_assoc, UInt32.xor_self, UInt32.zero_xor]
      _ = first ^^^ (second ^^^ shift second) ^^^ shift second := by rw [same]
      _ = first ^^^ second := by simp [UInt32.xor_assoc]
  have zero : first ^^^ second = 0 := (fixed.iterate times).symm.trans (vanishes _)
  exact UInt32.xor_eq_zero_iff.1 zero

/-! ### The next state -/

/-- What becomes of a state other than zero. -/
def stirred (word : UInt32) : UInt32 :=
  let left := word ^^^ (word <<< 13)
  let right := left ^^^ (left >>> 17)
  right ^^^ (right <<< 5)

theorem next_eq_stirred (seed : UInt32) :
    next seed = stirred (if seed = 0 then zeroReplacement else seed) := rfl

theorem stirred_injective : Function.Injective stirred := by
  have first : Function.Injective fun word : UInt32 => word ^^^ (word <<< 13) :=
    xor_shift_injective (fun _ _ => UInt32.shiftLeft_xor)
      (iterate_shiftLeft_eq_zero (by decide))
  have second : Function.Injective fun word : UInt32 => word ^^^ (word >>> 17) :=
    xor_shift_injective (fun _ _ => UInt32.shiftRight_xor)
      (iterate_shiftRight_eq_zero (by decide))
  have third : Function.Injective fun word : UInt32 => word ^^^ (word <<< 5) :=
    xor_shift_injective (fun _ _ => UInt32.shiftLeft_xor)
      (iterate_shiftLeft_eq_zero (by decide))
  exact third.comp (second.comp first)

theorem stirred_zero : stirred 0 = 0 := by decide

/-- No state leads to zero. -/
theorem next_ne_zero (seed : UInt32) : next seed ≠ 0 := by
  intro zero
  rw [next_eq_stirred] at zero
  have start : (if seed = 0 then zeroReplacement else seed) = 0 :=
    stirred_injective (zero.trans stirred_zero.symm)
  split at start
  · exact absurd start (by decide)
  · contradiction

theorem finite_words : Finite UInt32 :=
  Finite.of_injective UInt32.toFin fun _ _ => UInt32.toFin_inj.1

/-- A draw permutes the states other than zero. -/
theorem bijOn_next : Set.BijOn next {0}ᶜ {0}ᶜ := by
  have := finite_words
  refine (Set.Finite.injOn_iff_bijOn_of_mapsTo (Set.toFinite _)
    fun seed _ => next_ne_zero seed).1 ?_
  intro first (firstSome : first ≠ 0) second (secondSome : second ≠ 0) same
  rw [next_eq_stirred, next_eq_stirred, if_neg firstSome, if_neg secondSome] at same
  exact stirred_injective same

theorem iterate_next {seed : UInt32} (nonzero : seed ≠ 0) (draws : Nat) :
    next^[draws] seed = stirred^[draws] seed ∧ next^[draws] seed ≠ 0 := by
  induction draws with
  | zero => exact ⟨rfl, nonzero⟩
  | succ draws ih =>
    rw [Function.iterate_succ_apply', Function.iterate_succ_apply']
    refine ⟨?_, next_ne_zero _⟩
    rw [next_eq_stirred, if_neg ih.2, ih.1]

/-- After some draws a state other than zero comes up again. -/
theorem mem_periodicPts_next {seed : UInt32} (nonzero : seed ≠ 0) :
    seed ∈ Function.periodicPts next := by
  have := finite_words
  obtain ⟨period, positive, back⟩ := stirred_injective.mem_periodicPts seed
  exact ⟨period, positive, (iterate_next nonzero period).1.trans back⟩

/-! ### Scaling -/

variable {span value : Nat}

/-- The number of the first word whose product with the span reaches a value. -/
def firstDraw (span value : Nat) : Nat :=
  (value * 2 ^ 32) ⌈/⌉ span

theorem firstDraw_le_iff (positive : 0 < span) (draw : UInt32) :
    firstDraw span value ≤ draw.toNat ↔ value ≤ scaled draw span := by
  rw [firstDraw, ceilDiv_le_iff_le_mul positive, scaled, Nat.shiftRight_eq_div_pow,
    Nat.le_div_iff_mul_le (by decide), Nat.mul_comm span]

theorem firstDraw_le (positive : 0 < span) (inside : value ≤ span) :
    firstDraw span value ≤ 2 ^ 32 := by
  rw [firstDraw, ceilDiv_le_iff_le_mul positive]
  exact Nat.mul_le_mul_right _ inside

/-- From one value's first word to the next one's it is the whole part of the quotient, or one
more. -/
theorem firstDraw_succ (positive : 0 < span) (value : Nat) :
    firstDraw span (value + 1) - firstDraw span value = 2 ^ 32 / span ∨
      firstDraw span (value + 1) - firstDraw span value = 2 ^ 32 / span + 1 := by
  have here (number : Nat) : firstDraw span value ≤ number ↔ value * 2 ^ 32 ≤ span * number :=
    ceilDiv_le_iff_le_mul positive
  have there (number : Nat) :
      firstDraw span (value + 1) ≤ number ↔ (value + 1) * 2 ^ 32 ≤ span * number :=
    ceilDiv_le_iff_le_mul positive
  generalize firstDraw span value = low at *
  generalize firstDraw span (value + 1) = high at *
  generalize 2 ^ 32 = words at *
  have whole := Nat.mul_div_le words span
  have more := Nat.lt_mul_div_succ words positive
  generalize words / span = share at *
  have reached := (here low).1 (Nat.le_refl _)
  have passed := (there high).1 (Nat.le_refl _)
  rw [Nat.succ_mul] at passed
  have room : share ≤ high :=
    Nat.le_of_mul_le_mul_left (Nat.le_trans whole (by omega)) positive
  have lower : low ≤ high - share := by
    rw [here, Nat.mul_sub]
    omega
  have upper : high ≤ low + (share + 1) := by
    rw [there, Nat.succ_mul, Nat.mul_add]
    omega
  omega

/-- The words in a range of numbers. -/
theorem ncard_words {low high : Nat} (inside : high ≤ 2 ^ 32) :
    {word : UInt32 | low ≤ word.toNat ∧ word.toNat < high}.ncard = high - low := by
  have numbers : UInt32.toNat '' {word | low ≤ word.toNat ∧ word.toNat < high} =
      Finset.Ico low high := by
    ext number
    simp only [Set.mem_image, Set.mem_ofPred_eq, Finset.coe_Ico, Set.mem_Ico]
    constructor
    · rintro ⟨word, between, rfl⟩
      exact between
    · intro between
      have same := UInt32.toNat_ofNat_of_lt' (Nat.lt_of_lt_of_le between.2 inside)
      exact ⟨UInt32.ofNat number, by rwa [same], same⟩
  rw [← Set.ncard_image_of_injective _ fun _ _ => UInt32.toNat_inj.1, numbers,
    Set.ncard_coe_finset, Nat.card_Ico]

/-- A value below the span is hit by as many words as go into the span evenly, or by one more. -/
theorem ncard_scaled (inside : value < span) :
    {draw : UInt32 | scaled draw span = value}.ncard = 2 ^ 32 / span ∨
      {draw : UInt32 | scaled draw span = value}.ncard = 2 ^ 32 / span + 1 := by
  have positive : 0 < span := Nat.zero_lt_of_lt inside
  have hits : {draw : UInt32 | scaled draw span = value} = {draw : UInt32 |
      firstDraw span value ≤ draw.toNat ∧ draw.toNat < firstDraw span (value + 1)} := by
    ext draw
    simp only [Set.mem_ofPred_eq, ← Nat.not_le, firstDraw_le_iff positive]
    omega
  rw [hits, ncard_words (firstDraw_le positive inside)]
  exact firstDraw_succ positive value

/-! ### Draws in a range -/

theorem toNat_below {bound : UInt32} (positive : 0 < bound) (seed : UInt32) :
    (below bound seed).1.toNat = scaled (next seed) bound.toNat := by
  have inside := scaled_lt (next seed) (UInt32.lt_iff_toNat_lt.1 positive)
  rw [below, if_neg (UInt32.ne_of_lt positive).symm]
  exact UInt32.toNat_ofNat_of_lt' (Nat.lt_trans inside bound.toNat_lt)

/-- How many numbers there are from `low` to `high`. -/
def reach (low high : Int32) : Nat :=
  (high.toInt - low.toInt + 1).toNat

theorem toInt_add_reach {low high : Int32} (ordered : low ≤ high) :
    low.toInt + reach low high = high.toInt + 1 := by
  have order := Int32.le_iff_toInt_le.1 ordered
  rw [reach]
  omega

theorem toInt_between {low high : Int32} (ordered : low ≤ high) (seed : UInt32) :
    (between low high seed).1.toInt = low.toInt + scaled (next seed) (reach low high) := by
  have sum := toInt_add_reach ordered
  have order := Int32.le_iff_toInt_le.1 ordered
  have inside := scaled_lt (next seed) (show 0 < reach low high by omega)
  unfold between
  split
  · rename_i single
    have order' := Int32.le_iff_toInt_le.1 single
    show low.toInt = _
    omega
  · have bottom := low.le_toInt
    have top := high.toInt_lt
    have fits : -2 ^ 31 ≤ low.toInt + scaled (next seed) (reach low high) ∧
        low.toInt + scaled (next seed) (reach low high) < 2 ^ 31 := by omega
    exact Int32.toInt_ofInt_of_le fits.1 fits.2

/-! ### Words of 64 bits -/

/-- A number, if a signed word of this width holds it. -/
def signed? (bits : Nat) (number : Int) : Option Int :=
  if -2 ^ (bits - 1) ≤ number ∧ number < 2 ^ (bits - 1) then some number else none

/-- A number, if an unsigned word of this width holds it. -/
def unsigned? (bits : Nat) (number : Int) : Option Int :=
  if 0 ≤ number ∧ number < 2 ^ bits then some number else none

/-- `below`, with the product in a word of 64 bits. -/
def belowInWords? (bound seed : UInt32) : Option (UInt32 × UInt32) :=
  if bound = 0 then some (0, seed)
  else do
    let product ← unsigned? 64 ((next seed).toNat * bound.toNat : Nat)
    let answer ← unsigned? 32 (product.shiftRight 32)
    return (UInt32.ofNat answer.toNat, next seed)

/-- `between`, with signed words of 64 bits for the range and an unsigned one for the
product. -/
def betweenInWords? (low high : Int32) (seed : UInt32) : Option (Int32 × UInt32) :=
  if high ≤ low then some (low, seed)
  else do
    let distance ← signed? 64 (high.toInt - low.toInt)
    let span ← signed? 64 (distance + 1)
    let factor ← unsigned? 64 span
    let product ← unsigned? 64 ((next seed).toNat * factor)
    let offset ← signed? 64 (product.shiftRight 32)
    let sum ← signed? 64 (low.toInt + offset)
    let answer ← signed? 32 sum
    return (Int32.ofInt answer, next seed)

theorem signed?_eq_some {bits : Nat} {number : Int} (least : -2 ^ (bits - 1) ≤ number)
    (most : number < 2 ^ (bits - 1)) : signed? bits number = some number :=
  if_pos ⟨least, most⟩

theorem unsigned?_eq_some {bits : Nat} {number : Int} (least : 0 ≤ number)
    (most : number < 2 ^ bits) : unsigned? bits number = some number :=
  if_pos ⟨least, most⟩

/-- No span is so wide that the product is. -/
theorem product_lt (draw : UInt32) {span : Nat} (few : span ≤ 2 ^ 32) :
    draw.toNat * span < 2 ^ 64 :=
  calc
    draw.toNat * span ≤ draw.toNat * 2 ^ 32 := Nat.mul_le_mul_left _ few
    _ < 2 ^ 32 * 2 ^ 32 := Nat.mul_lt_mul_of_pos_right draw.toNat_lt (by decide)
    _ = 2 ^ 64 := by decide

theorem natCast_scaled (draw : UInt32) (span : Nat) :
    ((draw.toNat * span : Nat) : Int).shiftRight 32 = (scaled draw span : Nat) := rfl

theorem belowInWords?_eq (bound seed : UInt32) :
    belowInWords? bound seed = some (below bound seed) := by
  unfold belowInWords? below
  split
  · rfl
  · rename_i nonzero
    have positive : 0 < bound.toNat :=
      Nat.pos_of_ne_zero fun zero => nonzero (UInt32.toNat_inj.1 zero)
    have top := bound.toNat_lt
    generalize next seed = draw
    have inside := scaled_lt draw positive
    have product := product_lt draw (Nat.le_of_lt top)
    rw [unsigned?_eq_some (Int.natCast_nonneg _) (by omega), Option.bind_eq_bind,
      Option.bind_some, natCast_scaled, unsigned?_eq_some (Int.natCast_nonneg _) (by omega)]
    rfl

theorem betweenInWords?_eq (low high : Int32) (seed : UInt32) :
    betweenInWords? low high seed = some (between low high seed) := by
  unfold betweenInWords? between
  split
  · rfl
  · rename_i apart
    have ordered : low ≤ high := Int32.le_of_lt (Int32.not_le.1 apart)
    have sum := toInt_add_reach ordered
    have order := Int32.le_iff_toInt_le.1 ordered
    have bottom := low.le_toInt
    have top := high.toInt_lt
    generalize next seed = draw
    have inside := scaled_lt draw (show 0 < reach low high by omega)
    have product := product_lt draw (show reach low high ≤ 2 ^ 32 by omega)
    have span : high.toInt - low.toInt + 1 = reach low high := by omega
    simp only [Option.bind_eq_bind]
    rw [signed?_eq_some (by omega) (by omega), Option.bind_some, span,
      signed?_eq_some (by omega) (by omega), Option.bind_some,
      unsigned?_eq_some (Int.natCast_nonneg _) (by omega), Option.bind_some,
      ← Int.natCast_mul, unsigned?_eq_some (Int.natCast_nonneg _) (by omega), Option.bind_some,
      natCast_scaled, signed?_eq_some (by omega) (by omega), Option.bind_some,
      signed?_eq_some (by omega) (by omega), Option.bind_some,
      signed?_eq_some (by omega) (by omega)]
    rfl

/-! ### All draws -/

/-- Draws stay in range, never stall and are evenly scaled. No state leads to zero, and the states
other than zero are permuted, so that each of them comes up again. A draw below a bound or between two numbers is the next state,
scaled, and leaves the next state behind unless there was no choice; it keeps within its range,
and no word on the way to it overflows. Of all words, each value of a span is hit by the whole
part of the quotient, or by one word more. -/
theorem draws_even :
    (∀ seed, next seed ≠ 0) ∧ Set.BijOn next {0}ᶜ {0}ᶜ ∧
      (∀ seed ≠ 0, seed ∈ Function.periodicPts next) ∧
      (∀ bound seed : UInt32, 0 < bound →
        (below bound seed).1.toNat = scaled (next seed) bound.toNat ∧
          (below bound seed).1 < bound ∧ (below bound seed).2 = next seed ∧
          belowInWords? bound seed = some (below bound seed)) ∧
      (∀ (low high : Int32) (seed : UInt32), low ≤ high →
        (between low high seed).1.toInt = low.toInt + scaled (next seed) (reach low high) ∧
          low ≤ (between low high seed).1 ∧ (between low high seed).1 ≤ high ∧
          (between low high seed).2 = (if low = high then seed else next seed) ∧
          betweenInWords? low high seed = some (between low high seed)) ∧
      ∀ span ∈ Set.Icc 1 (2 ^ 32),
        (∀ draw, scaled draw span < span) ∧
          ∀ value < span, {draw : UInt32 | scaled draw span = value}.ncard = 2 ^ 32 / span ∨
            {draw : UInt32 | scaled draw span = value}.ncard = 2 ^ 32 / span + 1 := by
  refine ⟨next_ne_zero, bijOn_next, fun seed nonzero => mem_periodicPts_next nonzero,
    fun bound seed positive => ?_, fun low high seed ordered => ?_, fun span possible => ?_⟩
  · have answer := toNat_below positive seed
    have inside := scaled_lt (next seed) (UInt32.lt_iff_toNat_lt.1 positive)
    refine ⟨answer, UInt32.lt_iff_toNat_lt.2 (by omega), ?_, belowInWords?_eq bound seed⟩
    rw [below, if_neg (UInt32.ne_of_lt positive).symm]
  · have answer := toInt_between ordered seed
    have sum := toInt_add_reach ordered
    have order := Int32.le_iff_toInt_le.1 ordered
    have inside := scaled_lt (next seed) (show 0 < reach low high by omega)
    refine ⟨answer, Int32.le_iff_toInt_le.2 (by omega), Int32.le_iff_toInt_le.2 (by omega), ?_,
      betweenInWords?_eq low high seed⟩
    have choiceless : high ≤ low ↔ low = high := by
      rw [Int32.le_iff_toInt_le, ← Int32.toInt_inj]
      omega
    simp only [between, choiceless]
    split <;> rfl
  · exact ⟨fun draw => scaled_lt draw possible.1, fun value inside => ncard_scaled inside⟩

/-- A bound of ten, all signed words, whose span no unsigned word of 32 bits holds, and a span of
three, which does not divide the number of words. -/
theorem draws_even_widest :
    (0 < (10 : UInt32) ∧ (below 10 12345).1 < 10) ∧
      (Int32.minValue ≤ Int32.maxValue ∧ reach Int32.minValue Int32.maxValue = 2 ^ 32 ∧
        Int32.minValue ≤ (between Int32.minValue Int32.maxValue 3).1 ∧
        (between Int32.minValue Int32.maxValue 3).1 ≤ Int32.maxValue ∧
        betweenInWords? Int32.minValue Int32.maxValue 3 =
          some (between Int32.minValue Int32.maxValue 3)) ∧
      3 ∈ Set.Icc 1 (2 ^ 32) ∧ 2 < 3 ∧
        ({draw : UInt32 | scaled draw 3 = 2}.ncard = 1431655765 ∨
          {draw : UInt32 | scaled draw 3 = 2}.ncard = 1431655766) := by
  have ten : 0 < (10 : UInt32) := by decide
  have ordered : Int32.minValue ≤ Int32.maxValue := by decide
  have three : 3 ∈ Set.Icc 1 (2 ^ 32) := by simp
  obtain ⟨-, -, -, bounded, ranged, even⟩ := draws_even
  obtain ⟨-, least, most, -, words⟩ := ranged Int32.minValue Int32.maxValue 3 ordered
  have share := (even 3 three).2 2 (by decide)
  exact ⟨⟨ten, (bounded 10 12345 ten).2.1⟩, ⟨ordered, by decide, least, most, words⟩, three,
    by decide, share⟩

end Statechart.Random
