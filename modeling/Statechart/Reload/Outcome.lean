/-
# Reloading a machine

When a new definition takes the place of an old one, the hashes of the two decide
what happens to running instances. Equal structure hashes mean that the topology is
the same and instances can go on. A different structure hash, or a definition that
needs more room than the old one, means that instances have to start over.
-/

import Statechart.Instance.Basic
import Statechart.Rom.Definition

namespace Statechart.Reload

open Rom (Definition)

/-- What loading a definition means for running instances. -/
inductive Outcome
  /-- There was no definition before. -/
  | newMachine
  | noChange
  /-- Same topology, other wiring. Instances go on. -/
  | softReload
  /-- Instances of the old machine have to be reset and given to the new one. -/
  | hardReset (old new : UInt32)
  deriving DecidableEq, Repr

namespace Outcome

/-- Compare a definition with the one before. -/
def classify (previous : Option Definition) (next : Definition) : Outcome :=
  match previous with
  | none => newMachine
  | some previous =>
      if previous.structureHash ≠ next.structureHash ∨ previous.tier < next.tier then
        hardReset previous.structureHash next.structureHash
      else if previous.parameterHash ≠ next.parameterHash then softReload
      else noChange

/-- Whether instances have to be reset. -/
def requiresReset : Outcome → Bool
  | hardReset .. => true
  | _ => false

/-- Reset an instance if it belongs to a machine that is gone. The answer says
whether it did. -/
def apply (outcome : Outcome) (inst : Instance) : Bool × Instance :=
  match outcome with
  | hardReset old new =>
      if inst.machineId = old then (true, inst.hardReset new) else (false, inst)
  | _ => (false, inst)

/-- Reset those instances that belong to a machine that is gone. The answer says how
many did. -/
def applyAll (outcome : Outcome) (instances : List Instance) : Nat × List Instance :=
  let applied := instances.map outcome.apply
  (applied.countP Prod.fst, applied.map Prod.snd)

/-- A definition compared with itself is no change. -/
theorem classify_self (definition : Definition) :
    classify (some definition) definition = noChange := by
  have irrefl : ¬ definition.tier < definition.tier := by
    cases definition.tier <;> decide
  simp [classify, irrefl]

end Outcome

end Statechart.Reload
