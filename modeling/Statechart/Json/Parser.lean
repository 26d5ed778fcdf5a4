/-
# Reading JSON

A strict reader of the grammar: no comments, no comma behind the last element, no
leading zeros, nothing but blanks behind the value. Each reader takes the
characters left and gives back what it read and the rest.

Nested values are read under a bound on the number of steps. Every second step
consumes a character, so twice the length of the text is enough for any text.
-/

import Statechart.Json.Basic

namespace Statechart.Json

/-- What is left behind leading blanks. -/
def skipBlanks (chars : List Char) : List Char :=
  chars.dropWhile isBlank

/-- The spelling of a string whose opening quote has been read. Control characters
have to be escaped, and an escape has to be one of the known forms. -/
def readString : List Char → Option (List Char × List Char)
  | [] => none
  | '\\' :: 'u' :: c3 :: c2 :: c1 :: c0 :: rest => do
      let _ ← hexQuad? c3 c2 c1 c0
      let (spelling, rest) ← readString rest
      return ('\\' :: 'u' :: c3 :: c2 :: c1 :: c0 :: spelling, rest)
  | '\\' :: c :: rest => do
      if c ∈ ['\x22', '\\', '/', 'b', 'f', 'n', 'r', 't'] then
        let (spelling, rest) ← readString rest
        return ('\\' :: c :: spelling, rest)
      else none
  | c :: rest =>
      if c = '\x22' then some ([], rest)
      else if c = '\\' ∨ c.toNat < 0x20 then none
      else do
        let (spelling, rest) ← readString rest
        return (c :: spelling, rest)

/-- One or more digits. -/
def readDigits (chars : List Char) : Option (List Char × List Char) :=
  match chars.span isDigit with
  | ([], _) => none
  | (digits, rest) => some (digits, rest)

/-- The digits before the point: a zero alone, or digits that do not begin with one. -/
def readWhole : List Char → Option (List Char × List Char)
  | '0' :: rest => some (['0'], rest)
  | chars => readDigits chars

/-- A point and digits, or nothing. -/
def readFraction : List Char → Option (List Char × List Char)
  | '.' :: rest => do
      let (digits, rest) ← readDigits rest
      return ('.' :: digits, rest)
  | chars => some ([], chars)

/-- A sign, or nothing. -/
def readSign : List Char → List Char × List Char
  | '+' :: rest => (['+'], rest)
  | '-' :: rest => (['-'], rest)
  | chars => ([], chars)

/-- The letter of an exponent, a sign and digits, or nothing. -/
def readExponent : List Char → Option (List Char × List Char)
  | c :: rest =>
      if c = 'e' ∨ c = 'E' then do
        let (sign, rest) := readSign rest
        let (digits, rest) ← readDigits rest
        return (c :: sign ++ digits, rest)
      else some ([], c :: rest)
  | [] => some ([], [])

/-- The spelling of a number. -/
def readNumber (chars : List Char) : Option (List Char × List Char) := do
  let (minus, rest) :=
    match chars with
    | '-' :: rest => (['-'], rest)
    | _ => ([], chars)
  let (whole, rest) ← readWhole rest
  let (fraction, rest) ← readFraction rest
  let (exponent, rest) ← readExponent rest
  return (minus ++ whole ++ fraction ++ exponent, rest)

/-- The rest behind a keyword. -/
def readKeyword (keyword chars : List Char) : Option (List Char) :=
  if keyword.isPrefixOf chars then some (chars.drop keyword.length) else none

mutual

/-- One value, blanks before it skipped. -/
def readValue : Nat → List Char → Option (Json × List Char)
  | 0, _ => none
  | steps + 1, chars =>
      match skipBlanks chars with
      | [] => none
      | c :: rest =>
          if c = 'n' then
            (readKeyword ['u', 'l', 'l'] rest).map fun rest => (null, rest)
          else if c = 't' then
            (readKeyword ['r', 'u', 'e'] rest).map fun rest => (bool true, rest)
          else if c = 'f' then
            (readKeyword ['a', 'l', 's', 'e'] rest).map fun rest => (bool false, rest)
          else if c = '\x22' then
            (readString rest).map fun (spelling, rest) => (string spelling, rest)
          else if c = '[' then
            match skipBlanks rest with
            | ']' :: rest => some (array [], rest)
            | rest => (readElements steps rest).map fun (elements, rest) => (array elements, rest)
          else if c = '\x7b' then
            match skipBlanks rest with
            | '\x7d' :: rest => some (object [], rest)
            | rest => (readMembers steps rest).map fun (members, rest) => (object members, rest)
          else
            (readNumber (c :: rest)).map fun (spelling, rest) => (number spelling, rest)

/-- The elements of an array up to its closing bracket, at least one. -/
def readElements : Nat → List Char → Option (List Json × List Char)
  | 0, _ => none
  | steps + 1, chars => do
      let (element, rest) ← readValue steps chars
      match skipBlanks rest with
      | ',' :: rest =>
          let (elements, rest) ← readElements steps rest
          return (element :: elements, rest)
      | ']' :: rest => return ([element], rest)
      | _ => none

/-- The members of an object up to its closing brace, at least one. -/
def readMembers : Nat → List Char → Option (List (List Char × Json) × List Char)
  | 0, _ => none
  | steps + 1, chars => do
      match skipBlanks chars with
      | '\x22' :: rest =>
          let (key, rest) ← readString rest
          match skipBlanks rest with
          | ':' :: rest =>
              let (value, rest) ← readValue steps rest
              match skipBlanks rest with
              | ',' :: rest =>
                  let (members, rest) ← readMembers steps rest
                  return ((key, value) :: members, rest)
              | '\x7d' :: rest => return ([(key, value)], rest)
              | _ => none
          | _ => none
      | _ => none

end

/-- The value that a whole text spells, if it spells one. -/
def parse (text : String) : Option Json := do
  let chars := text.toList
  let (value, rest) ← readValue (2 * chars.length + 2) chars
  if (skipBlanks rest).isEmpty then some value else none

end Statechart.Json
