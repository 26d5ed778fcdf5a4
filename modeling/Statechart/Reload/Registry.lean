/-
# Registries and loading

A registry holds definitions by their structure hash, which is the machine id that
instances carry, so that the definition of any instance can be found. A manager
remembers the current definition of each machine by name, and keeps a registry up to
date if it is asked to: every definition it loads is put there, and a machine that
had to be reset is taken out.
-/

import Std.Data.HashMap
import Std.Data.TreeMap
import Statechart.Reload.Outcome

namespace Statechart.Reload

open Rom (Definition)

/-- Definitions by structure hash. -/
structure Registry where
  definitions : Std.TreeMap UInt32 Definition
  structureHash_eq :
    ∀ (id : UInt32) (definition : Definition),
      definitions[id]? = some definition → definition.structureHash = id

namespace Registry

/-- The registry without definitions. -/
def empty : Registry where
  definitions := ∅
  structureHash_eq := by simp

instance : Inhabited Registry := ⟨empty⟩

/-- The definition of a machine. -/
def definition? (registry : Registry) (id : UInt32) : Option Definition :=
  registry.definitions[id]?

/-- Whether a machine is known. -/
def contains (registry : Registry) (id : UInt32) : Bool :=
  (registry.definition? id).isSome

/-- How many machines are known. -/
def size (registry : Registry) : Nat :=
  registry.definitions.size

/-- The machines that are known, in ascending order. -/
def ids (registry : Registry) : List UInt32 :=
  registry.definitions.keys

/-- The registry with a definition more, in place of another one of the same
topology. -/
def insert (registry : Registry) (definition : Definition) : Registry where
  definitions := registry.definitions.insert definition.structureHash definition
  structureHash_eq := by
    intro id other found
    rw [Std.TreeMap.getElem?_insert] at found
    split at found
    · rename_i same
      cases found
      exact Std.LawfulEqCmp.eq_of_compare same
    · exact registry.structureHash_eq id other found

/-- The registry without a machine. -/
def remove (registry : Registry) (id : UInt32) : Registry where
  definitions := registry.definitions.erase id
  structureHash_eq := by
    intro other definition found
    rw [Std.TreeMap.getElem?_erase] at found
    split at found
    · cases found
    · exact registry.structureHash_eq other definition found

/-- Keep up with a definition that was loaded with some outcome. -/
def follow (registry : Registry) (outcome : Outcome) (definition : Definition) : Registry :=
  match outcome with
  | .noChange => registry
  | .hardReset old _ => (registry.remove old).insert definition
  | _ => registry.insert definition

/-- What a registry answers after an insertion. -/
theorem definition?_insert (registry : Registry) (definition : Definition) (id : UInt32) :
    (registry.insert definition).definition? id =
      if definition.structureHash = id then some definition
      else registry.definition? id := by
  simp [definition?, insert, Std.TreeMap.getElem?_insert]

/-- What a registry answers after a removal. -/
theorem definition?_remove (registry : Registry) (gone id : UInt32) :
    (registry.remove gone).definition? id =
      if gone = id then none else registry.definition? id := by
  simp [definition?, remove, Std.TreeMap.getElem?_erase]

end Registry

/-- The current definitions of machines. -/
structure Manager where
  /-- Definitions by the name they were loaded under. -/
  current : Std.HashMap String Definition
  registry : Registry
  /-- Whether the registry is kept up to date. -/
  publishes : Bool

namespace Manager

/-- No machine yet. -/
def empty (publishes : Bool) : Manager where
  current := ∅
  registry := .empty
  publishes := publishes

/-- The current definition under a name. -/
def current? (manager : Manager) (name : String) : Option Definition :=
  manager.current[name]?

/-- Load a definition under a name. A definition that changes nothing is not taken
over. -/
def load (manager : Manager) (name : String) (definition : Definition) :
    Outcome × Manager :=
  let outcome := Outcome.classify (manager.current? name) definition
  if outcome = .noChange then (outcome, manager)
  else
    (outcome,
      { manager with
        current := manager.current.insert name definition
        registry :=
          if manager.publishes then manager.registry.follow outcome definition
          else manager.registry })

end Manager

end Statechart.Reload
