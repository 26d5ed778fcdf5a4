/-
# Metadata

A definition knows its states, events, actions and guards by number. The metadata
beside it gives the names back: the machine's name, one name per state in index
order, and names by id for the rest. It is kept in a JSON file.

`NameMap` is a finite map from ids to names whose entries ascend, so that two maps
with the same names are equal. Where a text repeats an id, its last name counts.

Reading accepts an object with the five fields, of which only `name` and `states`
are required and none may be repeated, other fields being skipped; or an array with
the same values in field order, cut off anywhere behind the second. Ids are written
in decimal, without sign, blanks, escapes or leading zeros.
-/

import Statechart.Json.Parser
import Statechart.Json.Printer
import Statechart.Json.Quoted

namespace Statechart

/-- Names by id, in ascending order of ids. -/
structure NameMap where
  entries : List (UInt16 × String)
  ascending : entries.Pairwise (fun first second => first.1 < second.1)

namespace NameMap

/-- The map without entries. -/
def empty : NameMap where
  entries := []
  ascending := List.Pairwise.nil

instance : Inhabited NameMap := ⟨empty⟩

instance : DecidableEq NameMap := fun first second =>
  decidable_of_iff (first.entries = second.entries)
    ⟨fun same => by cases first; cases second; cases same; rfl, fun same => same ▸ rfl⟩

/-- Put an entry where it belongs among ascending ones. An id that is there keeps
its name. -/
def place (id : UInt16) (name : String) :
    List (UInt16 × String) → List (UInt16 × String)
  | [] => [(id, name)]
  | entry :: entries =>
      if id < entry.1 then (id, name) :: entry :: entries
      else if id = entry.1 then entry :: entries
      else entry :: place id name entries

theorem mem_place {id : UInt16} {name : String} {entries : List (UInt16 × String)}
    {entry : UInt16 × String} (member : entry ∈ place id name entries) :
    entry = (id, name) ∨ entry ∈ entries := by
  induction entries with
  | nil => simpa [place] using member
  | cons head tail ih =>
    unfold place at member
    split at member
    · simpa using member
    · split at member
      · exact Or.inr member
      · rcases List.mem_cons.1 member with same | inTail
        · exact Or.inr (same ▸ List.mem_cons_self)
        · exact (ih inTail).imp_right (List.mem_cons_of_mem head)

theorem ascending_place {id : UInt16} {name : String} {entries : List (UInt16 × String)}
    (ascending : entries.Pairwise (fun first second => first.1 < second.1)) :
    (place id name entries).Pairwise (fun first second => first.1 < second.1) := by
  induction entries with
  | nil => simp [place]
  | cons head tail ih =>
    obtain ⟨headBelow, tailAscending⟩ := List.pairwise_cons.1 ascending
    unfold place
    split
    · rename_i below
      refine List.pairwise_cons.2 ⟨fun entry member => ?_, ascending⟩
      rcases List.mem_cons.1 member with same | inTail
      · exact same ▸ below
      · exact UInt16.lt_trans below (headBelow entry inTail)
    · split
      · exact ascending
      · rename_i notBelow different
        refine List.pairwise_cons.2 ⟨fun entry member => ?_, ih tailAscending⟩
        rcases mem_place member with same | inTail
        · rw [same]
          exact UInt16.lt_of_le_of_ne (UInt16.not_lt.1 notBelow) (Ne.symm different)
        · exact headBelow entry inTail

/-- The map with an entry more, unless the id is there already. -/
def insertIfNew (map : NameMap) (id : UInt16) (name : String) : NameMap where
  entries := place id name map.entries
  ascending := ascending_place map.ascending

/-- The map of these entries. Of entries with the same id the last one counts. -/
def ofList (entries : List (UInt16 × String)) : NameMap :=
  entries.foldr (fun entry map => map.insertIfNew entry.1 entry.2) empty

/-- The name of an id. -/
def name? (map : NameMap) (id : UInt16) : Option String :=
  (map.entries.find? (fun entry => entry.1 == id)).map Prod.snd

/-- The smallest id of a name. -/
def id? (map : NameMap) (name : String) : Option UInt16 :=
  (map.entries.find? (fun entry => entry.2 == name)).map Prod.fst

end NameMap

/-- The names of one machine. -/
structure Metadata where
  name : String
  /-- State names by index; the root comes first. -/
  states : Array String
  events : NameMap
  actions : NameMap
  guards : NameMap
  deriving DecidableEq

namespace Metadata

instance : Inhabited Metadata := ⟨⟨"", #[], .empty, .empty, .empty⟩⟩

/-- The name of the state at an index. -/
def stateName? (metadata : Metadata) (index : UInt16) : Option String :=
  metadata.states[index.toNat]?

/-- The name of an event. -/
def eventName? (metadata : Metadata) (id : UInt16) : Option String :=
  metadata.events.name? id

/-- The name of an action. -/
def actionName? (metadata : Metadata) (id : UInt16) : Option String :=
  metadata.actions.name? id

/-- The name of a guard. -/
def guardName? (metadata : Metadata) (id : UInt16) : Option String :=
  metadata.guards.name? id

/-- The index of the first state with this name. -/
def stateIndex? (metadata : Metadata) (name : String) : Option UInt16 :=
  (metadata.states.findIdx? (fun state => state == name)).map UInt16.ofNat

/-- The id of the event with this name. -/
def eventId? (metadata : Metadata) (name : String) : Option UInt16 :=
  metadata.events.id? name

/-- A name as a JSON string. -/
def jsonOfName (name : String) : Json :=
  .string (Json.Quoted.encode name.toList)

/-- Names by id as a JSON object. -/
def jsonOfMap (map : NameMap) : Json :=
  .object (map.entries.map fun entry =>
    (Nat.toDigits 10 entry.1.toNat, jsonOfName entry.2))

/-- The metadata as a JSON object. -/
def toJson (metadata : Metadata) : Json :=
  .object [
    ("name".toList, jsonOfName metadata.name),
    ("states".toList, .array (metadata.states.toList.map jsonOfName)),
    ("events".toList, jsonOfMap metadata.events),
    ("actions".toList, jsonOfMap metadata.actions),
    ("guards".toList, jsonOfMap metadata.guards)]

/-- The metadata as the text of its file. -/
def toText (metadata : Metadata) : String :=
  metadata.toJson.pretty

/-- A name from a JSON string. -/
def nameOfJson? : Json → Option String
  | .string spelling => Json.Quoted.decodeString? spelling
  | _ => none

/-- State names from a JSON array. -/
def statesOfJson? : Json → Option (Array String)
  | .array elements => (elements.mapM nameOfJson?).map List.toArray
  | _ => none

/-- An id from the spelling of a key. -/
def idOfKey? (spelling : List Char) : Option UInt16 :=
  match spelling with
  | [] => none
  | first :: rest =>
      if !spelling.all Json.isDigit || (first = '0' && !rest.isEmpty) then none
      else
        let id := spelling.foldl (fun value c => 10 * value + (c.toNat - '0'.toNat)) 0
        if id < 65536 then some (UInt16.ofNat id) else none

/-- Names by id from a JSON object. -/
def mapOfJson? : Json → Option NameMap
  | .object members => do
      let entries ← members.mapM fun (key, value) => do
        return (← idOfKey? key, ← nameOfJson? value)
      return NameMap.ofList entries
  | _ => none

/-- The value of a field: `none` when the field is repeated, `some none` when it is
missing. -/
def field? (key : String) (members : List (String × Json)) : Option (Option Json) :=
  match members.filter (fun member => member.1 == key) with
  | [] => some none
  | [member] => some (some member.2)
  | _ => none

/-- Names by id from a field that may be missing. -/
def mapOfField? : Option Json → Option NameMap
  | none => some .empty
  | some value => mapOfJson? value

/-- The metadata of these field values. -/
def ofFields? (name states events actions guards : Option Json) : Option Metadata := do
  return {
    name := ← nameOfJson? (← name)
    states := ← statesOfJson? (← states)
    events := ← mapOfField? events
    actions := ← mapOfField? actions
    guards := ← mapOfField? guards }

/-- The metadata that a JSON value holds, if it holds one. -/
def ofJson? : Json → Option Metadata
  | .object members => do
      let members ← members.mapM fun (key, value) => do
        return (← Json.Quoted.decodeString? key, value)
      ofFields? (← field? "name" members) (← field? "states" members)
        (← field? "events" members) (← field? "actions" members) (← field? "guards" members)
  | .array elements =>
      if elements.length ≤ 5 then
        ofFields? elements[0]? elements[1]? elements[2]? elements[3]? elements[4]?
      else none
  | _ => none

/-- The metadata that a file's text holds, if it holds one. -/
def ofText? (text : String) : Option Metadata := do
  ofJson? (← Json.parse text)

end Metadata

end Statechart
