/-
# Names and their file

Metadata that is written to its file is read back from it, whatever the names are and whichever
ids have one (`names_restored`).

A name is spelt with escapes and read back character by character. An id is spelt in decimal,
and its digits give it back (`idOfKey?_toDigits`). The entries of a map ascend, so putting them
back into a map, from the last to the first, puts each one in front (`ofList_entries`).
-/

import Statechart.Metadata
import Statechart.Proofs.Json.RoundTrip

namespace Statechart

/-- What is written entry by entry is read entry by entry. -/
theorem mapM_map_eq_some {Entry Written : Type} {write : Entry → Written}
    {read : Written → Option Entry} (inverse : ∀ entry, read (write entry) = some entry)
    (entries : List Entry) : (entries.map write).mapM read = some entries := by
  induction entries with
  | nil => rfl
  | cons entry entries ih => simp [inverse, ih]

/-! ### Ids as keys -/

namespace Metadata

/-- No number but zero begins with a zero. -/
theorem head?_toDigits_ne_zero {number : Nat} (positive : 0 < number) :
    (Nat.toDigits 10 number).head? ≠ some '0' := by
  induction number using Nat.strongRecOn with
  | ind number ih =>
    rcases Nat.lt_or_ge number 10 with small | large
    · have digit : ∀ digit < 10, 0 < digit → Nat.digitChar digit ≠ '0' := by decide
      rw [Nat.toDigits_of_lt_base small]
      simpa using digit number small positive
    · have front : 0 < number / 10 := Nat.div_pos large (by decide)
      have digits : (Nat.toDigits 10 number).head? = (Nat.toDigits 10 (number / 10)).head? := by
        rw [Nat.toDigits_of_base_le (by decide) large, List.head?_append,
          List.head?_eq_some_head Nat.toDigits_ne_nil, Option.some_or]
      rw [digits]
      exact ih _ (by omega) front

theorem idOfKey?_toDigits (id : UInt16) : idOfKey? (Nat.toDigits 10 id.toNat) = some id := by
  have digits : (Nat.toDigits 10 id.toNat).all Json.isDigit :=
    List.all_eq_true.2 fun c member => Nat.isDigit_of_mem_toDigits (by decide) (by decide) member
  have value : (Nat.toDigits 10 id.toNat).foldl
      (fun value c => 10 * value + (c.toNat - '0'.toNat)) 0 = id.toNat :=
    Nat.ofDigitChars_toDigits (by decide) (by decide)
  have small : id.toNat < 65536 := id.toNat_lt
  rcases Nat.eq_zero_or_pos id.toNat with zero | positive
  · obtain rfl : id = 0 := UInt16.toNat_inj.1 zero
    rfl
  · have leading := head?_toDigits_ne_zero positive
    cases spelt : Nat.toDigits 10 id.toNat with
    | nil => exact absurd spelt Nat.toDigits_ne_nil
    | cons first rest =>
      rw [spelt] at digits value leading
      have nonzero : first ≠ '0' := by simpa using leading
      simp only [idOfKey?, digits, nonzero, value, small]
      simp

end Metadata

/-! ### Names by id -/

namespace NameMap

theorem place_eq_cons {id : UInt16} {name : String} {entries : List (UInt16 × String)}
    (first : ∀ entry ∈ entries, id < entry.1) :
    place id name entries = (id, name) :: entries := by
  cases entries with
  | nil => rfl
  | cons entry entries => exact if_pos (first entry List.mem_cons_self)

theorem entries_ofList {entries : List (UInt16 × String)}
    (ascending : entries.Pairwise (fun first second => first.1 < second.1)) :
    (ofList entries).entries = entries := by
  induction entries with
  | nil => rfl
  | cons entry entries ih =>
    obtain ⟨first, others⟩ := List.pairwise_cons.1 ascending
    show place entry.1 entry.2 (ofList entries).entries = entry :: entries
    rw [ih others, place_eq_cons first]

theorem eq_of_entries_eq {first second : NameMap} (same : first.entries = second.entries) :
    first = second := by
  cases first
  cases second
  cases same
  rfl

theorem ofList_entries (map : NameMap) : ofList map.entries = map :=
  eq_of_entries_eq (entries_ofList map.ascending)

end NameMap

namespace Metadata

/-! ### Values -/

theorem nameOfJson?_jsonOfName (name : String) : nameOfJson? (jsonOfName name) = some name := by
  simp [nameOfJson?, jsonOfName, Json.Quoted.decodeString?, Json.Quoted.decode_encode]

theorem statesOfJson?_map (states : Array String) :
    statesOfJson? (.array (states.toList.map jsonOfName)) = some states := by
  rw [statesOfJson?, mapM_map_eq_some nameOfJson?_jsonOfName]
  simp

theorem mapOfJson?_jsonOfMap (map : NameMap) : mapOfJson? (jsonOfMap map) = some map := by
  rw [jsonOfMap, mapOfJson?, mapM_map_eq_some fun entry => by
    simp [idOfKey?_toDigits, nameOfJson?_jsonOfName]]
  simp [NameMap.ofList_entries]

/-! ### Fields -/

/-- The fields of an object under their names. -/
def fields (metadata : Metadata) : List (String × Json) :=
  [("name", jsonOfName metadata.name),
    ("states", .array (metadata.states.toList.map jsonOfName)),
    ("events", jsonOfMap metadata.events),
    ("actions", jsonOfMap metadata.actions),
    ("guards", jsonOfMap metadata.guards)]

/-- The names of the fields need no escapes. -/
theorem toJson_eq (metadata : Metadata) :
    metadata.toJson = .object (metadata.fields.map fun field =>
      (Json.Quoted.encode field.1.toList, field.2)) := by
  have plain : ∀ key ∈ metadata.fields.map Prod.fst,
      Json.Quoted.encode key.toList = key.toList := by
    show ∀ key ∈ ["name", "states", "events", "actions", "guards"], _
    decide
  have spelt : metadata.toJson =
      .object (metadata.fields.map fun field => (field.1.toList, field.2)) := rfl
  rw [spelt]
  congr 1
  refine List.map_congr_left fun field member => ?_
  rw [plain _ (List.mem_map_of_mem member)]

theorem ofJson?_toJson (metadata : Metadata) : ofJson? metadata.toJson = some metadata := by
  rw [toJson_eq, ofJson?, mapM_map_eq_some fun field => by
    simp [Json.Quoted.decodeString?, Json.Quoted.decode_encode]]
  show ofFields? (some (jsonOfName metadata.name))
    (some (.array (metadata.states.toList.map jsonOfName))) (some (jsonOfMap metadata.events))
    (some (jsonOfMap metadata.actions)) (some (jsonOfMap metadata.guards)) = some metadata
  simp [ofFields?, mapOfField?, nameOfJson?_jsonOfName, statesOfJson?_map, mapOfJson?_jsonOfMap]

/-! ### Spellings -/

theorem wellSpelt_jsonOfName (name : String) : (jsonOfName name).WellSpelt :=
  .string (Json.isString_encode _)

theorem encodeChar_of_isDigit {c : Char} (digit : c.isDigit) :
    Json.Quoted.encodeChar c = [c] := by
  have other (token : Char) (differs : token.isDigit = false) : c ≠ token := by
    rintro rfl
    simp [digit] at differs
  have high : ¬c.toNat < 0x20 := by
    simp only [Char.isDigit, ge_iff_le, Bool.and_eq_true, decide_eq_true_eq,
      UInt32.le_iff_toNat_le] at digit
    have least : 48 ≤ c.toNat := digit.1
    omega
  simp [Json.Quoted.encodeChar, other '\x22' (by decide), other '\\' (by decide),
    other '\x08' (by decide), other '\x09' (by decide), other '\x0a' (by decide),
    other '\x0c' (by decide), other '\x0d' (by decide), high]

theorem isString_of_isDigit {digits : List Char} (each : ∀ c ∈ digits, c.isDigit) :
    Json.IsString digits := by
  have plain : Json.Quoted.encode digits = digits := by
    induction digits with
    | nil => rfl
    | cons c digits ih =>
      obtain ⟨first, others⟩ := List.forall_mem_cons.1 each
      show Json.Quoted.encodeChar c ++ Json.Quoted.encode digits = c :: digits
      rw [encodeChar_of_isDigit first, ih others]
      rfl
  exact plain ▸ Json.isString_encode digits

theorem wellSpelt_jsonOfMap (map : NameMap) : (jsonOfMap map).WellSpelt := by
  refine .object ?_ ?_
  · simp only [List.forall_mem_map]
    exact fun entry _ => isString_of_isDigit fun c member =>
      Nat.isDigit_of_mem_toDigits (by decide) (by decide) member
  · simp only [List.forall_mem_map]
    exact fun entry _ => wellSpelt_jsonOfName _

theorem wellSpelt_toJson (metadata : Metadata) : metadata.toJson.WellSpelt := by
  have states : (Json.array (metadata.states.toList.map jsonOfName)).WellSpelt := by
    refine .array ?_
    simp only [List.forall_mem_map]
    exact fun name _ => wellSpelt_jsonOfName name
  rw [toJson_eq]
  refine .object ?_ ?_
  · simp only [List.forall_mem_map]
    exact fun field _ => Json.isString_encode _
  · simp [fields, wellSpelt_jsonOfName, wellSpelt_jsonOfMap, states]

/-- Metadata is read back from the text of its file, whatever its names are, however many states
there are and whichever ids have a name. So each look-up by index, id or name answers as it did
before. -/
theorem names_restored (metadata : Metadata) : ofText? metadata.toText = some metadata := by
  rw [ofText?, toText, Json.parse_pretty metadata.wellSpelt_toJson]
  exact metadata.ofJson?_toJson

end Metadata

end Statechart
