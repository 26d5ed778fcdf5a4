/-
# String spellings

Between the quotes of a JSON string, quote and backslash are written with a
backslash before them, five control characters have a letter of their own, and the
remaining ones below the blank are written `\u00xx`. Everything else stands for
itself. A reader accepts more: an escaped slash, and any character as one or, above
the basic plane, two `\uXXXX` units. A unit of a pair on its own is refused.

The main statement is that reading what was written gives the text back.
-/

import Statechart.Json.Basic

namespace Statechart.Json.Quoted

/-- A hexadecimal digit in lower case. -/
def hexDigit (value : Nat) : Char :=
  if value < 10 then Char.ofNat ('0'.toNat + value) else Char.ofNat ('a'.toNat + (value - 10))

/-- How one character is spelt. -/
def encodeChar (c : Char) : List Char :=
  if c = '\x22' then ['\\', '\x22']
  else if c = '\\' then ['\\', '\\']
  else if c = '\x08' then ['\\', 'b']
  else if c = '\x09' then ['\\', 't']
  else if c = '\x0a' then ['\\', 'n']
  else if c = '\x0c' then ['\\', 'f']
  else if c = '\x0d' then ['\\', 'r']
  else if c.toNat < 0x20 then
    ['\\', 'u', '0', '0', hexDigit (c.toNat / 16), hexDigit (c.toNat % 16)]
  else [c]

/-- How a text is spelt. -/
def encode (text : List Char) : List Char :=
  text.flatMap encodeChar

/-- What a letter after a backslash stands for, `u` apart. -/
def letter? (c : Char) : Option Char :=
  if c = '\x22' then some '\x22'
  else if c = '\\' then some '\\'
  else if c = '/' then some '/'
  else if c = 'b' then some '\x08'
  else if c = 'f' then some '\x0c'
  else if c = 'n' then some '\x0a'
  else if c = 'r' then some '\x0d'
  else if c = 't' then some '\x09'
  else none

/-- What a spelling stands for. A unit from the range reserved for pairs has to be
the first of a pair, with the second right behind it. -/
def decode : List Char → Option (List Char)
  | [] => some []
  | '\\' :: 'u' :: c3 :: c2 :: c1 :: c0 :: rest => do
      let unit ← hexQuad? c3 c2 c1 c0
      if unit < 0xD800 ∨ 0xE000 ≤ unit then
        return Char.ofNat unit :: (← decode rest)
      else if unit < 0xDC00 then
        match rest with
        | '\\' :: 'u' :: e3 :: e2 :: e1 :: e0 :: rest => do
            let second ← hexQuad? e3 e2 e1 e0
            if 0xDC00 ≤ second ∧ second < 0xE000 then
              let point := 0x10000 + 1024 * (unit - 0xD800) + (second - 0xDC00)
              return Char.ofNat point :: (← decode rest)
            else none
        | _ => none
      else none
  | '\\' :: c :: rest => do
      let meant ← letter? c
      return meant :: (← decode rest)
  | c :: rest => do
      if c = '\\' then none else return c :: (← decode rest)

/-- The text that a spelling stands for. -/
def decodeString? (spelling : List Char) : Option String :=
  (decode spelling).map String.ofList

/-- The control characters that have no letter of their own are read back from their
four digits. -/
theorem hexQuad?_control :
    ∀ code : Fin 32,
      hexQuad? '0' '0' (hexDigit (code.val / 16)) (hexDigit (code.val % 16)) =
        some code.val := by
  decide

/-- A character is spelt by a letter behind a backslash, by four digits, or by itself. -/
theorem encodeChar_cases (c : Char) :
    (∃ letter ∈ ['\x22', '\\', 'b', 'f', 'n', 'r', 't'],
        letter? letter = some c ∧ encodeChar c = ['\\', letter]) ∨
      (c.toNat < 0x20 ∧ encodeChar c =
        ['\\', 'u', '0', '0', hexDigit (c.toNat / 16), hexDigit (c.toNat % 16)]) ∨
      c ≠ '\x22' ∧ c ≠ '\\' ∧ 0x20 ≤ c.toNat ∧ encodeChar c = [c] := by
  by_cases known : c ∈ ['\x22', '\\', '\x08', '\x09', '\x0a', '\x0c', '\x0d']
  · left
    simp only [List.mem_cons, List.not_mem_nil, or_false] at known
    rcases known with rfl | rfl | rfl | rfl | rfl | rfl | rfl <;>
      refine ⟨_, ?_, ?_, rfl⟩ <;> decide
  · right
    simp only [List.mem_cons, List.not_mem_nil, or_false, not_or] at known
    by_cases control : c.toNat < 0x20
    · exact .inl ⟨control, by simp [encodeChar, known, control]⟩
    · exact .inr ⟨known.1, known.2.1, Nat.not_lt.1 control, by simp [encodeChar, known, control]⟩

/-- Reading one character's spelling gives the character. -/
theorem decode_encodeChar_append (c : Char) (rest : List Char) :
    decode (encodeChar c ++ rest) = (decode rest).map (c :: ·) := by
  rcases encodeChar_cases c with ⟨letter, known, meant, spelt⟩ | ⟨control, spelt⟩ |
    ⟨-, noEscape, -, spelt⟩
  · have noUnit : letter ≠ 'u' := by
      rintro rfl
      simp at known
    rw [spelt]
    cases found : decode rest <;> simp [decode, noUnit, meant, found]
  · have unit := hexQuad?_control ⟨c.toNat, control⟩
    have below : c.toNat < 0xD800 := Nat.lt_trans control (by decide)
    rw [spelt]
    cases found : decode rest <;> simp [decode, unit, below, found]
  · rw [spelt]
    cases found : decode rest <;> simp [decode, noEscape, found]

/-- Reading what was written gives the text back. -/
theorem decode_encode (text : List Char) : decode (encode text) = some text := by
  induction text with
  | nil => rfl
  | cons c text ih =>
    have split : encode (c :: text) = encodeChar c ++ encode text := rfl
    rw [split, decode_encodeChar_append, ih]
    rfl

end Statechart.Json.Quoted
