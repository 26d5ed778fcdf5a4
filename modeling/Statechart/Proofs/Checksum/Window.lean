/-
# Checksums and short windows

Shifting a bit out of the register is linear in exclusive or, and takes no register to zero but
zero itself (`crcBit_xor`, `crcBit_injective`). So two registers that differ still differ after
the same bytes. Up to four bytes enter the register without overlapping: together they are one
word, which is added before anything is shifted (`foldl_crcByte_window`). So different bytes in
such a window leave different registers behind, and whatever stands before and behind the window,
the checksums differ (`eq_of_crc32_eq`).
-/

import Mathlib.Data.Nat.Bitwise
import Mathlib.Data.Nat.Digits.Lemmas
import Mathlib.Logic.Function.Iterate
import Statechart.Checksum.Crc32

namespace Statechart.Checksum

/-! ### One bit -/

theorem toNat_shiftRight_one (register : UInt32) :
    (register >>> 1).toNat = register.toNat / 2 := by
  simp [Nat.shiftRight_eq_div_pow]

/-- What is added to a register from which a bit was shifted out. -/
def tap (register : UInt32) : UInt32 :=
  if register.toNat % 2 = 1 then polynomial else 0

theorem crcBit_eq (register : UInt32) : crcBit register = (register >>> 1) ^^^ tap register := by
  have low : register &&& 1 = 1 ↔ register.toNat % 2 = 1 := by
    simp [← UInt32.toNat_inj, Nat.and_one_is_mod]
  simp only [crcBit, tap, low]
  split <;> simp

theorem tap_xor (first second : UInt32) : tap (first ^^^ second) = tap first ^^^ tap second := by
  simp only [tap, UInt32.toNat_xor, Nat.xor_mod_two_eq, Nat.add_mod first.toNat]
  rcases Nat.mod_two_eq_zero_or_one first.toNat with even | odd <;>
    rcases Nat.mod_two_eq_zero_or_one second.toNat with even' | odd' <;> simp [*]

theorem crcBit_xor (first second : UInt32) :
    crcBit (first ^^^ second) = crcBit first ^^^ crcBit second := by
  simp only [crcBit_eq, tap_xor, UInt32.shiftRight_xor]
  ac_rfl

/-- The polynomial has its highest bit set, and no register that was shifted has. -/
theorem crcBit_eq_zero {register : UInt32} (zero : crcBit register = 0) : register = 0 := by
  have bound := register.toNat_lt
  rw [crcBit_eq] at zero
  have same := congrArg UInt32.toNat (UInt32.xor_eq_zero_iff.1 zero)
  rw [toNat_shiftRight_one, tap] at same
  apply UInt32.toNat_inj.1
  rw [UInt32.toNat_zero]
  split at same
  · have value : polynomial.toNat = 3988292384 := rfl
    omega
  · rw [UInt32.toNat_zero] at same
    omega

theorem crcBit_injective : Function.Injective crcBit := by
  intro first second same
  have zero : crcBit (first ^^^ second) = 0 := by rw [crcBit_xor, same, UInt32.xor_self]
  exact UInt32.xor_eq_zero_iff.1 (crcBit_eq_zero zero)

/-! ### Runs of bits -/

theorem iterate_crcBit_xor (places : Nat) (first second : UInt32) :
    crcBit^[places] (first ^^^ second) = crcBit^[places] first ^^^ crcBit^[places] second := by
  induction places generalizing first second with
  | zero => rfl
  | succ places ih => rw [Function.iterate_succ_apply, crcBit_xor, ih]; rfl

/-- A zero that is shifted out leaves no trace. -/
theorem crcBit_double {word : Nat} (small : 2 * word < 2 ^ 32) :
    crcBit (UInt32.ofNat (2 * word)) = UInt32.ofNat word := by
  have fits : (UInt32.ofNat (2 * word)).toNat = 2 * word := UInt32.toNat_ofNat_of_lt' small
  have even : 2 * word % 2 ≠ 1 := by omega
  rw [crcBit_eq, tap, fits, if_neg even, UInt32.xor_zero]
  apply UInt32.toNat_inj.1
  rw [toNat_shiftRight_one, fits, UInt32.toNat_ofNat_of_lt' (Nat.lt_of_le_of_lt (by omega) small)]
  omega

theorem iterate_crcBit_mul {places word : Nat} (small : 2 ^ places * word < 2 ^ 32) :
    crcBit^[places] (UInt32.ofNat (2 ^ places * word)) = UInt32.ofNat word := by
  induction places with
  | zero => simp
  | succ places ih =>
    have double : 2 ^ (places + 1) * word = 2 * (2 ^ places * word) := by ring
    rw [double] at small
    rw [Function.iterate_succ_apply, double, crcBit_double small, ih (by omega)]

theorem crcByte_eq (register : UInt32) (byte : UInt8) :
    crcByte register byte = crcBit^[8] (register ^^^ byte.toUInt32) := rfl

theorem crcByte_injective (byte : UInt8) : Function.Injective (crcByte · byte) := by
  intro first second same
  have entered := crcBit_injective.iterate 8 same
  exact (UInt32.xor_left_inj _).1 entered

theorem foldl_crcByte_injective (bytes : Bytes) :
    Function.Injective fun register => bytes.foldl crcByte register := by
  induction bytes with
  | nil => exact fun _ _ => id
  | cons byte rest ih => exact ih.comp (crcByte_injective byte)

/-! ### Windows -/

/-- The number that a few bytes make up, the lowest one first. -/
def wordOf (window : Bytes) : Nat :=
  Nat.ofDigits 256 (window.map UInt8.toNat)

theorem wordOf_cons (byte : UInt8) (rest : Bytes) :
    wordOf (byte :: rest) = byte.toNat + 256 * wordOf rest := by
  simp [wordOf, Nat.ofDigits_cons]

theorem wordOf_lt (window : Bytes) : wordOf window < 256 ^ window.length := by
  have below : ∀ digit ∈ window.map UInt8.toNat, digit < 256 := by
    simp only [List.mem_map]
    rintro _ ⟨byte, _, rfl⟩
    exact byte.toNat_lt
  simpa [wordOf] using Nat.ofDigits_lt_base_pow_length (by decide) below

theorem wordOf_injective {window changed : Bytes} (long : changed.length = window.length)
    (same : wordOf changed = wordOf window) : changed = window := by
  induction window generalizing changed with
  | nil => exact List.eq_nil_of_length_eq_zero long
  | cons byte rest ih =>
    obtain ⟨other, others, rfl⟩ := List.exists_cons_of_length_eq_add_one long
    simp only [wordOf_cons] at same
    have low := byte.toNat_lt
    have low' := other.toNat_lt
    have first : other = byte := UInt8.toNat_inj.1 (by omega)
    rw [first, ih (Nat.succ_inj.1 long) (by omega)]

/-- A low byte and what stands above it do not overlap. -/
theorem xor_mul_eq_add {low high : Nat} (small : low < 256) :
    low ^^^ 256 * high = low + 256 * high := by
  apply Nat.eq_of_testBit_eq
  intro place
  have above : (256 * high).testBit place = (decide (8 ≤ place) && high.testBit (place - 8)) :=
    Nat.testBit_two_pow_mul (i := 8)
  have whole : (low + 256 * high).testBit place =
      if place < 8 then low.testBit place else high.testBit (place - 8) := by
    rw [Nat.add_comm]
    exact Nat.testBit_two_pow_mul_add (i := 8) high small place
  rw [Nat.testBit_xor, above, whole]
  by_cases under : place < 8
  · simp [under, Nat.not_le.2 under]
  · have empty : low.testBit place = false :=
      Nat.testBit_lt_two_pow (Nat.lt_of_lt_of_le small
        (Nat.pow_le_pow_right (n := 2) (by decide) (Nat.not_lt.1 under)))
    simp [under, empty, Nat.not_lt.1 under]

/-- Up to four bytes are added to the register as one word, and then it is shifted. -/
theorem foldl_crcByte_window {window : Bytes} (short : window.length ≤ 4) (register : UInt32) :
    window.foldl crcByte register =
      crcBit^[8 * window.length] (register ^^^ UInt32.ofNat (wordOf window)) := by
  induction window generalizing register with
  | nil => simp [wordOf]
  | cons byte rest ih =>
    have fewer : rest.length ≤ 3 := Nat.le_of_succ_le_succ short
    have small : 256 * wordOf rest < 2 ^ 32 := by
      have room : 256 ^ rest.length ≤ 256 ^ 3 := Nat.pow_le_pow_right (by decide) fewer
      have bound := wordOf_lt rest
      omega
    -- What the other bytes add is as if it had been added eight places further up at first.
    have later : crcBit^[8] (UInt32.ofNat (256 * wordOf rest)) = UInt32.ofNat (wordOf rest) :=
      iterate_crcBit_mul (show 2 ^ 8 * wordOf rest < 2 ^ 32 from small)
    have joined : byte.toUInt32 ^^^ UInt32.ofNat (256 * wordOf rest) =
        UInt32.ofNat (wordOf (byte :: rest)) := by
      have low := byte.toNat_lt
      apply UInt32.toNat_inj.1
      rw [wordOf_cons, ← xor_mul_eq_add low]
      simp
    rw [List.foldl_cons, ih (by omega), crcByte_eq, ← later, ← iterate_crcBit_xor,
      ← Function.iterate_add_apply, UInt32.xor_assoc, joined, List.length_cons, Nat.mul_succ]

/-- Byte strings that differ in up to four bytes next to each other, and nowhere else, have
different checksums. -/
theorem eq_of_crc32_eq {front window changed back : Bytes} (short : window.length ≤ 4)
    (long : changed.length = window.length)
    (same : crc32 (front ++ changed ++ back) = crc32 (front ++ window ++ back)) :
    changed = window := by
  have registers := (UInt32.xor_left_inj _).1 same
  simp only [List.foldl_append] at registers
  have entered := foldl_crcByte_injective back registers
  simp only [foldl_crcByte_window short, foldl_crcByte_window (long ▸ short), long] at entered
  have words := (UInt32.xor_right_inj _).1 (crcBit_injective.iterate _ entered)
  have bound (bytes : Bytes) (few : bytes.length ≤ 4) : wordOf bytes < 2 ^ 32 :=
    Nat.lt_of_lt_of_le (wordOf_lt bytes) (Nat.pow_le_pow_right (n := 256) (by decide) few)
  apply wordOf_injective long
  rw [← UInt32.toNat_ofNat_of_lt' (bound changed (long ▸ short)), words,
    UInt32.toNat_ofNat_of_lt' (bound window short)]

end Statechart.Checksum
