/-
# Printing and reading values

A value whose strings, keys and numbers are spelt as a reader expects them (`WellSpelt`) survives
the way into a text and back (`parse_pretty`).

A value is read wherever its text stands: behind any blanks, and in front of anything that does
not go on with a number (`Reads`). Elements and members are read one after the other, each with a
step less than the one before, and each is at least a character long, so twice the length of the
text is steps enough.
-/

import Mathlib.Data.List.TakeDrop
import Mathlib.Data.List.TakeWhile
import Statechart.Json.Parser
import Statechart.Json.Printer
import Statechart.Json.Quoted

namespace Statechart.Json

/-! ### Blanks -/

theorem skipBlanks_cons {c : Char} (token : isBlank c = false) (rest : List Char) :
    skipBlanks (c :: rest) = c :: rest := by
  simp [skipBlanks, token]

theorem skipBlanks_newline (depth : Nat) (rest : List Char) :
    skipBlanks (newline depth ++ rest) = skipBlanks rest := by
  have blank : ∀ c ∈ newline depth, isBlank c := by
    simp [newline, isBlank]
  rw [skipBlanks, List.dropWhile_append, List.dropWhile_eq_nil_iff.2 blank]
  rfl

/-! ### Strings -/

/-- A spelling that a reader takes for a string, and up to the closing quote. -/
def IsString (spelling : List Char) : Prop :=
  ∀ rest, readString (spelling ++ '\x22' :: rest) = some (spelling, rest)

theorem readString_encodeChar (c : Char) (rest : List Char) :
    readString (Quoted.encodeChar c ++ rest) =
      (readString rest).map fun (spelling, rest) => (Quoted.encodeChar c ++ spelling, rest) := by
  rcases Quoted.encodeChar_cases c with ⟨letter, known, -, spelt⟩ | ⟨control, spelt⟩ |
    ⟨noQuote, noEscape, noControl, spelt⟩
  · have noUnit : letter ≠ 'u' := by
      rintro rfl
      simp at known
    -- A reader also knows the slash behind a backslash, which is never written so.
    have taken := (show ['\x22', '\\', 'b', 'f', 'n', 'r', 't'] ⊆
      ['\x22', '\\', '/', 'b', 'f', 'n', 'r', 't'] by decide) known
    rw [spelt]
    cases found : readString rest <;> simp_all [readString]
  · have unit := Quoted.hexQuad?_control ⟨c.toNat, control⟩
    rw [spelt]
    cases found : readString rest <;> simp [readString, unit, found]
  · rw [spelt]
    cases found : readString rest <;> simp [readString, noQuote, noEscape, noControl, found]

theorem isString_encode (text : List Char) : IsString (Quoted.encode text) := by
  intro rest
  induction text with
  | nil => simp [Quoted.encode, readString]
  | cons c text ih =>
    have split : Quoted.encode (c :: text) = Quoted.encodeChar c ++ Quoted.encode text := rfl
    rw [split, List.append_assoc, readString_encodeChar, ih]
    rfl

/-! ### Numbers -/

/-- A text that goes on with no number. -/
def Stops (rest : List Char) : Prop :=
  ∀ c ∈ rest.head?, isDigit c = false ∧ c ≠ '.' ∧ c ≠ 'e' ∧ c ≠ 'E'

/-- A reader takes the same when something is added behind that goes on with no number. -/
structure Settled (read : List Char → Option (List Char × List Char)) : Prop where
  append : ∀ {chars taken left rest}, Stops rest → read chars = some (taken, left) →
    read (chars ++ rest) = some (taken, left ++ rest)

/-- A spelling that a reader takes for a number, and to its end. -/
def IsNumber (spelling : List Char) : Prop :=
  readNumber spelling = some (spelling, [])

theorem span_append {rest : List Char} (stops : Stops rest) (chars : List Char) :
    (chars ++ rest).span isDigit =
      ((chars.span isDigit).1, (chars.span isDigit).2 ++ rest) := by
  simp only [List.span_eq_takeWhile_dropWhile]
  induction chars with
  | nil =>
    cases rest with
    | nil => rfl
    | cons c rest => simp [(stops c rfl).1]
  | cons c chars ih => cases digit : isDigit c <;> simp_all

theorem settled_readDigits : Settled readDigits where
  append := by
    intro chars taken left rest stops read
    have further := span_append stops chars
    unfold readDigits at read ⊢
    split at read
    · contradiction
    · simp_all

theorem settled_readWhole : Settled readWhole where
  append := by
    intro chars taken left rest stops read
    cases chars with
    | nil => simp [readWhole, readDigits] at read
    | cons c chars =>
      by_cases zero : c = '0'
      · simp_all [readWhole]
      · have whole (chars : List Char) : readWhole (c :: chars) = readDigits (c :: chars) := by
          simp [readWhole, zero]
        rw [whole] at read
        rw [List.cons_append, whole]
        exact settled_readDigits.append stops read

theorem readFraction_cons (c : Char) (chars : List Char) :
    readFraction (c :: chars) =
      if c = '.' then (readDigits chars).map fun (digits, rest) => ('.' :: digits, rest)
      else some ([], c :: chars) := by
  split
  · rename_i point
    subst point
    cases found : readDigits chars <;> simp [readFraction, found]
  · simp_all [readFraction]

theorem settled_readFraction : Settled readFraction where
  append := by
    intro chars taken left rest stops read
    cases chars with
    | nil =>
      obtain ⟨rfl, rfl⟩ : [] = taken ∧ [] = left := by simpa [readFraction] using read
      cases rest with
      | nil => rfl
      | cons c rest => simp [readFraction, (stops c rfl).2.1]
    | cons c chars =>
      rw [readFraction_cons] at read
      rw [List.cons_append, readFraction_cons]
      split at read
      · obtain ⟨⟨digits, further⟩, found, same⟩ := Option.map_eq_some_iff.1 read
        simp_all [settled_readDigits.append stops found]
      · rename_i other
        obtain ⟨rfl, rfl⟩ : [] = taken ∧ c :: chars = left := by simpa using read
        rw [if_neg other]
        rfl

theorem readSign_append {chars : List Char} (present : chars ≠ []) (rest : List Char) :
    readSign (chars ++ rest) = ((readSign chars).1, (readSign chars).2 ++ rest) := by
  cases chars with
  | nil => contradiction
  | cons c chars =>
    by_cases plus : c = '+'
    · simp [plus, readSign]
    · by_cases minus : c = '-' <;> simp [plus, minus, readSign]

theorem settled_readExponent : Settled readExponent where
  append := by
    intro chars taken left rest stops read
    cases chars with
    | nil =>
      obtain ⟨rfl, rfl⟩ : [] = taken ∧ [] = left := by simpa [readExponent] using read
      cases rest with
      | nil => rfl
      | cons c rest => simp [readExponent, (stops c rfl).2.2]
    | cons c chars =>
      rw [List.cons_append]
      simp only [readExponent] at read ⊢
      split at read
      · have present : chars ≠ [] := by
          rintro rfl
          simp [readSign, readDigits] at read
        cases found : readDigits (readSign chars).2 with
        | none => simp [found] at read
        | some pair =>
          simp_all [readSign_append present rest, settled_readDigits.append stops found]
      · rename_i other
        obtain ⟨rfl, rfl⟩ : [] = taken ∧ c :: chars = left := by simpa using read
        rw [if_neg other]
        rfl

/-- One reader and then another one. -/
def chained (first second : List Char → Option (List Char × List Char)) (chars : List Char) :
    Option (List Char × List Char) := do
  let (front, rest) ← first chars
  let (back, rest) ← second rest
  return (front ++ back, rest)

theorem Settled.chained {first second : List Char → Option (List Char × List Char)}
    (before : Settled first) (after : Settled second) : Settled (chained first second) where
  append := by
    intro chars taken left rest stops read
    cases front : first chars with
    | none => simp [Json.chained, front] at read
    | some pair =>
      cases back : second pair.2 with
      | none => simp [Json.chained, front, back] at read
      | some pair' =>
        simp_all [Json.chained, before.append stops front, after.append stops back]

/-- The spelling of a number without a sign. -/
def readMagnitude : List Char → Option (List Char × List Char) :=
  chained (chained readWhole readFraction) readExponent

theorem settled_readMagnitude : Settled readMagnitude :=
  (settled_readWhole.chained settled_readFraction).chained settled_readExponent

theorem readNumber_cons (c : Char) (chars : List Char) :
    readNumber (c :: chars) =
      if c = '-' then (readMagnitude chars).map fun (digits, rest) => ('-' :: digits, rest)
      else readMagnitude (c :: chars) := by
  split
  · rename_i minus
    subst minus
    simp [readNumber, readMagnitude, chained, Option.bind_assoc, Option.map_eq_bind]
  · rename_i unsigned
    simp [readNumber, readMagnitude, chained, unsigned, Option.bind_assoc]

theorem settled_readNumber : Settled readNumber where
  append := by
    intro chars taken left rest stops read
    cases chars with
    | nil => simp [readNumber, readWhole, readDigits] at read
    | cons c chars =>
      rw [readNumber_cons] at read
      rw [List.cons_append, readNumber_cons]
      split at read
      · obtain ⟨⟨digits, further⟩, found, same⟩ := Option.map_eq_some_iff.1 read
        simp_all [settled_readMagnitude.append stops found]
      · rw [if_neg ‹_›]
        exact settled_readMagnitude.append stops read

/-- A number begins with a sign or with a digit. -/
theorem IsNumber.exists_head {spelling : List Char} (whole : IsNumber spelling) :
    ∃ c rest, spelling = c :: rest ∧ (c = '-' ∨ isDigit c) := by
  cases spelling with
  | nil => simp [IsNumber, readNumber, readWhole, readDigits] at whole
  | cons c rest =>
    refine ⟨c, rest, rfl, ?_⟩
    by_contra neither
    obtain ⟨unsigned, noDigit⟩ := not_or.1 neither
    have noZero : c ≠ '0' := by
      rintro rfl
      exact noDigit (by decide)
    simp [IsNumber, readNumber, unsigned, readWhole, noZero, readDigits,
      List.span_eq_takeWhile_dropWhile, noDigit] at whole

theorem ne_of_starts_number {c : Char} (starts : c = '-' ∨ isDigit c) (other : Char)
    (differs : ¬(other = '-' ∨ isDigit other)) : c ≠ other :=
  fun same => differs (same ▸ starts)

/-! ### Values -/

/-- A value whose strings, keys and numbers are spelt as a reader expects them. -/
inductive WellSpelt : Json → Prop
  | null : WellSpelt null
  | bool (value : Bool) : WellSpelt (bool value)
  | number {spelling : List Char} (whole : IsNumber spelling) : WellSpelt (number spelling)
  | string {spelling : List Char} (whole : IsString spelling) : WellSpelt (string spelling)
  | array {elements : List Json} (each : ∀ element ∈ elements, WellSpelt element) :
      WellSpelt (array elements)
  | object {members : List (List Char × Json)} (keys : ∀ member ∈ members, IsString member.1)
      (values : ∀ member ∈ members, WellSpelt member.2) : WellSpelt (object members)

/-- A value's text begins with a character that is no blank and closes no array. -/
theorem WellSpelt.exists_head {value : Json} (spelt : WellSpelt value) (depth : Nat) :
    ∃ c rest, print depth value = c :: rest ∧ isBlank c = false ∧ c ≠ ']' := by
  cases spelt with
  | null => exact ⟨_, _, rfl, by decide, by decide⟩
  | bool value => cases value <;> exact ⟨_, _, rfl, by decide, by decide⟩
  | number whole =>
    obtain ⟨c, rest, rfl, starts⟩ := whole.exists_head
    have other := ne_of_starts_number starts
    refine ⟨c, rest, rfl, ?_, other _ (by decide)⟩
    simp [isBlank, other ' ' (by decide), other '\n' (by decide), other '\t' (by decide),
      other '\r' (by decide)]
  | string whole => exact ⟨_, _, rfl, by decide, by decide⟩
  | @array elements each => cases elements <;> exact ⟨_, _, rfl, by decide, by decide⟩
  | @object members keys values => cases members <;> exact ⟨_, _, rfl, by decide, by decide⟩

theorem WellSpelt.skipBlanks_print {value : Json} (spelt : WellSpelt value) (depth : Nat)
    (rest : List Char) : skipBlanks (print depth value ++ rest) = print depth value ++ rest := by
  obtain ⟨c, further, printed, token, -⟩ := spelt.exists_head depth
  rw [printed, List.cons_append, skipBlanks_cons token]

/-- A value is read from its text, whatever blanks stand before it, in front of anything that
goes on with no number. -/
def Reads (value : Json) : Prop :=
  ∀ depth steps chars rest, skipBlanks chars = print depth value ++ rest → Stops rest →
    2 * (print depth value).length ≤ steps → readValue (steps + 1) chars = some (value, rest)

theorem reads_null : Reads null := by
  intro depth steps chars rest before _ _
  rw [readValue, before]
  simp [print, readKeyword]

theorem reads_bool (value : Bool) : Reads (bool value) := by
  intro depth steps chars rest before _ _
  rw [readValue, before]
  cases value <;> simp [print, readKeyword]

theorem reads_string {spelling : List Char} (whole : IsString spelling) :
    Reads (string spelling) := by
  intro depth steps chars rest before _ _
  rw [readValue, before]
  simp [print, quoted, whole rest]

theorem reads_number {spelling : List Char} (whole : IsNumber spelling) :
    Reads (number spelling) := by
  intro depth steps chars rest before stops _
  have read := settled_readNumber.append stops whole
  obtain ⟨c, spelling, rfl, starts⟩ := whole.exists_head
  have other := ne_of_starts_number starts
  rw [readValue, before]
  simp_all [print, other 'n' (by decide), other 't' (by decide), other 'f' (by decide),
    other '\x22' (by decide), other '[' (by decide), other '\x7b' (by decide)]

theorem stops_newline (depth : Nat) (rest : List Char) : Stops (newline depth ++ rest) := by
  intro c first
  obtain rfl : '\n' = c := by simpa [newline] using first
  decide

theorem stops_comma (rest : List Char) : Stops (',' :: rest) := by
  intro c first
  obtain rfl : ',' = c := by simpa using first
  decide

/-- The elements of an array are read up to its bracket. -/
theorem readElements_print {depth outer steps : Nat} {element : Json} {elements : List Json}
    {chars rest : List Char} (spelt : ∀ each ∈ element :: elements, WellSpelt each)
    (reads : ∀ each ∈ element :: elements, Reads each)
    (before : skipBlanks chars = print depth element ++ (printElements depth elements ++
      (newline outer ++ ']' :: rest)))
    (enough : 2 * (print depth element ++ printElements depth elements).length ≤ steps) :
    readElements (steps + 2) chars = some (element :: elements, rest) := by
  rw [List.length_append] at enough
  induction elements generalizing element steps chars with
  | nil =>
    have read := reads element List.mem_cons_self depth steps chars _ before
      (stops_newline outer _) (by omega)
    rw [readElements, read]
    simp [printElements, skipBlanks_newline, skipBlanks_cons, isBlank]
  | cons next elements ih =>
    have read := reads element List.mem_cons_self depth steps chars _ before
      (stops_comma _) (by omega)
    have longer : (printElements depth (next :: elements)).length = 1 + (newline depth).length +
        ((print depth next).length + (printElements depth elements).length) := by
      simp only [printElements, List.cons_append, List.append_assoc, List.length_cons,
        List.length_append]
      omega
    obtain ⟨steps, rfl⟩ : ∃ fewer, steps = fewer + 1 := ⟨steps - 1, by omega⟩
    have others := (List.forall_mem_cons.1 spelt).2
    have later : readElements (steps + 2) (newline depth ++ (print depth next ++
        (printElements depth elements ++ (newline outer ++ ']' :: rest)))) =
          some (next :: elements, rest) := by
      refine ih others (List.forall_mem_cons.1 reads).2 ?_ (by omega)
      rw [skipBlanks_newline, (others next List.mem_cons_self).skipBlanks_print]
    rw [readElements, read]
    simp [printElements, skipBlanks_cons, isBlank, later]

/-- A member's text, in front of a rest. -/
def memberBefore (depth : Nat) (member : List Char × Json) (rest : List Char) : List Char :=
  quoted member.1 ++ (':' :: ' ' :: (print depth member.2 ++ rest))

theorem skipBlanks_memberBefore (depth : Nat) (member : List Char × Json) (rest : List Char) :
    skipBlanks (memberBefore depth member rest) = memberBefore depth member rest := rfl

/-- One member is read, and then the ones behind it, or the closing brace. -/
theorem readMembers_behind {depth steps : Nat} {member : List Char × Json}
    {chars rest : List Char} (key : IsString member.1) (spelt : WellSpelt member.2)
    (reads : Reads member.2) (stops : Stops rest)
    (before : skipBlanks chars = memberBefore depth member rest)
    (enough : 2 * (print depth member.2).length ≤ steps) :
    (∀ {later members left}, skipBlanks rest = ',' :: later →
        readMembers (steps + 1) later = some (members, left) →
          readMembers (steps + 2) chars = some (member :: members, left)) ∧
      ∀ {left}, skipBlanks rest = '\x7d' :: left →
        readMembers (steps + 2) chars = some ([member], left) := by
  have blank : skipBlanks (' ' :: (print depth member.2 ++ rest)) = print depth member.2 ++ rest :=
    spelt.skipBlanks_print depth rest
  have read := reads depth steps _ rest blank stops enough
  constructor
  · intro later members left further others
    rw [readMembers, before]
    simp [memberBefore, quoted, key _, skipBlanks_cons, isBlank, read, further, others]
  · intro left closed
    rw [readMembers, before]
    simp [memberBefore, quoted, key _, skipBlanks_cons, isBlank, read, closed]

/-- The members of an object are read up to its brace. -/
theorem readMembers_print {depth outer steps : Nat} {member : List Char × Json}
    {members : List (List Char × Json)} {chars rest : List Char}
    (keys : ∀ each ∈ member :: members, IsString each.1)
    (spelt : ∀ each ∈ member :: members, WellSpelt each.2)
    (reads : ∀ each ∈ member :: members, Reads each.2)
    (before : skipBlanks chars = memberBefore depth member
      (printMembers depth members ++ (newline outer ++ '\x7d' :: rest)))
    (enough : 2 * (print depth member.2 ++ printMembers depth members).length ≤ steps) :
    readMembers (steps + 2) chars = some (member :: members, rest) := by
  rw [List.length_append] at enough
  induction members generalizing member steps chars with
  | nil =>
    have closed : skipBlanks (newline outer ++ '\x7d' :: rest) = '\x7d' :: rest :=
      skipBlanks_newline outer _
    exact (readMembers_behind (keys member List.mem_cons_self) (spelt member List.mem_cons_self)
      (reads member List.mem_cons_self) (stops_newline outer _) before (by omega)).2 closed
  | cons next members ih =>
    have longer : (printMembers depth (next :: members)).length = 5 + (newline depth).length +
        next.1.length + ((print depth next.2).length + (printMembers depth members).length) := by
      simp [printMembers, quoted]
      omega
    have written : printMembers depth (next :: members) ++ (newline outer ++ '\x7d' :: rest) =
        ',' :: (newline depth ++ memberBefore depth next
          (printMembers depth members ++ (newline outer ++ '\x7d' :: rest))) := by
      simp [printMembers, memberBefore]
    obtain ⟨steps, rfl⟩ : ∃ fewer, steps = fewer + 1 := ⟨steps - 1, by omega⟩
    have later : readMembers (steps + 2) (newline depth ++ memberBefore depth next
        (printMembers depth members ++ (newline outer ++ '\x7d' :: rest))) =
          some (next :: members, rest) := by
      refine ih (List.forall_mem_cons.1 keys).2 (List.forall_mem_cons.1 spelt).2
        (List.forall_mem_cons.1 reads).2 ?_ (by omega)
      rw [skipBlanks_newline, skipBlanks_memberBefore]
    rw [written] at before
    exact (readMembers_behind (keys member List.mem_cons_self) (spelt member List.mem_cons_self)
      (reads member List.mem_cons_self) (stops_comma _) before (by omega)).1
        (skipBlanks_cons (by decide) _) later

theorem reads_array {elements : List Json} (spelt : ∀ each ∈ elements, WellSpelt each)
    (reads : ∀ each ∈ elements, Reads each) : Reads (array elements) := by
  intro depth steps chars rest before _ enough
  rw [readValue, before]
  cases elements with
  | nil => simp [print, skipBlanks_cons, isBlank]
  | cons element elements =>
    obtain ⟨c, further, printed, token, noBracket⟩ :=
      (spelt element List.mem_cons_self).exists_head (depth + 1)
    have longer : (print depth (array (element :: elements))).length =
        2 + (newline (depth + 1)).length + (newline depth).length +
          (print (depth + 1) element ++ printElements (depth + 1) elements).length := by
      simp [print]
      omega
    obtain ⟨steps, rfl⟩ : ∃ fewer, steps = fewer + 2 := ⟨steps - 2, by omega⟩
    have later : readElements (steps + 2) (print (depth + 1) element ++
        (printElements (depth + 1) elements ++ (newline depth ++ ']' :: rest))) =
          some (element :: elements, rest) :=
      readElements_print spelt reads
        ((spelt element List.mem_cons_self).skipBlanks_print (depth + 1) _) (by omega)
    rw [printed, List.cons_append] at later
    simp [print, printed, skipBlanks_newline, skipBlanks_cons token, noBracket, later]

theorem reads_object {members : List (List Char × Json)}
    (keys : ∀ each ∈ members, IsString each.1) (spelt : ∀ each ∈ members, WellSpelt each.2)
    (reads : ∀ each ∈ members, Reads each.2) : Reads (object members) := by
  intro depth steps chars rest before _ enough
  rw [readValue, before]
  cases members with
  | nil => simp [print, skipBlanks_cons, isBlank]
  | cons member members =>
    have longer : (print depth (object (member :: members))).length =
        4 + (quoted member.1).length + (newline (depth + 1)).length + (newline depth).length +
          (print (depth + 1) member.2 ++ printMembers (depth + 1) members).length := by
      simp [print]
      omega
    obtain ⟨steps, rfl⟩ : ∃ fewer, steps = fewer + 2 := ⟨steps - 2, by omega⟩
    have later : readMembers (steps + 2) (memberBefore (depth + 1) member
        (printMembers (depth + 1) members ++ (newline depth ++ '\x7d' :: rest))) =
          some (member :: members, rest) :=
      readMembers_print keys spelt reads (skipBlanks_memberBefore ..) (by omega)
    have written : print depth (object (member :: members)) ++ rest =
        '\x7b' :: (newline (depth + 1) ++ memberBefore (depth + 1) member
          (printMembers (depth + 1) members ++ (newline depth ++ '\x7d' :: rest))) := by
      simp [print, memberBefore]
    rw [written]
    simp only [skipBlanks_newline, skipBlanks_memberBefore]
    exact congrArg (Option.map fun read => (object read.1, read.2)) later

/-- A value that is well spelt is read wherever its text stands. -/
theorem WellSpelt.reads {value : Json} (spelt : WellSpelt value) : Reads value := by
  induction spelt with
  | null => exact reads_null
  | bool value => exact reads_bool value
  | number whole => exact reads_number whole
  | string whole => exact reads_string whole
  | array each ih => exact reads_array each ih
  | object keys values ih => exact reads_object keys values ih

/-- A value that is well spelt is read back from its text. -/
theorem parse_pretty {value : Json} (spelt : WellSpelt value) :
    parse (pretty value) = some value := by
  have start : skipBlanks (print 0 value) = print 0 value ++ [] := by
    simpa using spelt.skipBlanks_print 0 []
  have read := spelt.reads 0 (2 * (print 0 value).length + 1) (print 0 value) [] start
    (by simp [Stops]) (Nat.le_succ _)
  rw [parse, pretty, String.toList_ofList]
  simp only [read, Option.bind_eq_bind, Option.bind_some]
  rfl

end Statechart.Json
