/-
# Rosters

A roster is a set of names that remembers the order in which they came. States,
events, actions and guards of a graph are kept in one. Names are looked up through
an index from name to position, and the roster carries the proof that index and
names agree; a name is therefore listed once.

The main statements say at which position a name is found and what adding a name
does to the list.
-/

import Std.Data.HashMap

namespace Statechart.Name

/-- Names in the order in which they were added. -/
structure Roster where
  names : Array String
  index : Std.HashMap String Nat
  index_eq_some_iff :
    ∀ (name : String) (position : Nat),
      index[name]? = some position ↔ names[position]? = some name

namespace Roster

/-- The roster without names. -/
def empty : Roster where
  names := #[]
  index := ∅
  index_eq_some_iff := by simp

instance : Inhabited Roster := ⟨empty⟩

/-- How many names there are. -/
def size (roster : Roster) : Nat :=
  roster.names.size

/-- The position of a name. -/
def position? (roster : Roster) (name : String) : Option Nat :=
  roster.index[name]?

/-- Whether a name is listed. -/
def contains (roster : Roster) (name : String) : Bool :=
  (roster.position? name).isSome

/-- The roster with a name more, unless it is listed already. -/
def insert (roster : Roster) (name : String) : Roster :=
  if listed : roster.index[name]? = none then
    let position := roster.names.size
    { names := roster.names.push name
      index := roster.index.insert name position
      index_eq_some_iff := by
        intro other position
        have agree := roster.index_eq_some_iff
        rw [Std.HashMap.getElem?_insert, Array.getElem?_push]
        by_cases same : name = other
        · subst same
          simp only [beq_self_eq_true, if_true, Option.some.injEq]
          constructor
          · intro atEnd
            rw [if_pos atEnd.symm]
          · intro found
            by_cases atEnd : position = roster.names.size
            · exact atEnd.symm
            · rw [if_neg atEnd] at found
              rw [(agree name position).2 found] at listed
              exact absurd listed (by simp)
        · have different : (name == other) = false := by simpa using same
          simp only [different, Bool.false_eq_true, if_false]
          rw [agree other position]
          by_cases atEnd : position = roster.names.size
          · subst atEnd
            simp [same]
          · rw [if_neg atEnd] }
  else roster

theorem position?_eq_some_iff {roster : Roster} {name : String} {position : Nat} :
    roster.position? name = some position ↔ roster.names[position]? = some name :=
  roster.index_eq_some_iff name position

/-- A name is listed exactly when it is among the names. -/
theorem contains_iff {roster : Roster} {name : String} :
    roster.contains name = true ↔ name ∈ roster.names := by
  unfold contains
  rw [Option.isSome_iff_exists, Array.mem_iff_getElem?]
  exact exists_congr fun position => position?_eq_some_iff

/-- Adding a name appends it unless it is listed. -/
theorem names_insert (roster : Roster) (name : String) :
    (roster.insert name).names =
      if roster.contains name then roster.names else roster.names.push name := by
  unfold insert contains position?
  split
  · rename_i absent
    simp [absent]
  · rename_i present
    have listed : (roster.index[name]?).isSome = true := by
      simpa [Option.isSome_iff_ne_none] using present
    simp [listed]

theorem not_mem_names_insert {roster : Roster} {name other : String}
    (absent : name ∉ roster.names) (differ : name ≠ other) :
    name ∉ (roster.insert other).names := by
  rw [names_insert]
  split
  · exact absent
  · exact fun listed => (Array.mem_push.1 listed).elim absent differ

end Roster

end Statechart.Name
