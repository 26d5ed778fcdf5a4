/-
# Callbacks

The host registers actions and guards under their names before the first tick. A
definition names them by id only, so a table looks callbacks up by id, and two names
with the same id cannot both be registered.

An action works on a scene: the instance, a value of the host's own, and the page
that commands are written on. A guard sees the instance, the host's value and the id
of the current event, and may change the first two, for instance by a random draw.

An action that is not registered does nothing and a guard that is not registered
passes. The main statements say which callback an id is answered with.
-/

import Statechart.Command.Page
import Statechart.Instance.Basic
import Statechart.Name.Hash
import Statechart.Text.Numeral

namespace Statechart.Kernel

/-- What a callback can see and change. -/
structure Scene (User : Type) where
  inst : Instance
  /-- The host's own value. -/
  user : User
  commands : Command.Writer

/-- What happens when a state is entered or left, a transition is taken, a timer
runs out or an activity goes on. -/
abbrev Action (User : Type) := Scene User → Except Fault (Scene User)

/-- The condition of a transition on an event. -/
abbrev Guard (User : Type) := UInt16 → Instance → User → Except Fault (Bool × Instance × User)

/-- A callback under its name. -/
structure Registration (Callback : Type) where
  name : String
  id : UInt16
  callback : Callback
  id_eq : id = Name.hash16 name

/-- A callback with the id of its name. -/
def Registration.of {Callback : Type} (name : String) (callback : Callback) :
    Registration Callback :=
  ⟨name, Name.hash16 name, callback, rfl⟩

/-- Why a callback is not registered. -/
inductive RegistrationError
  /-- Another name has the same id. -/
  | idCollision (name existing : String) (id : UInt16)
  | duplicate (name : String)
  deriving DecidableEq, Repr

namespace RegistrationError

/-- The error as it is shown to the user. -/
def message : RegistrationError → String
  | idCollision name existing id =>
      s!"`{name}` hashes to {Text.Numeral.id16 id}, already taken by `{existing}`"
  | duplicate name => s!"`{name}` is already registered"

end RegistrationError

/-- Callbacks of one kind, no two of them under the same id. -/
structure CallbackTable (Callback : Type) where
  /-- The latest registration comes first. -/
  registrations : List (Registration Callback)
  distinct : registrations.Pairwise (fun first second => first.id ≠ second.id)

namespace CallbackTable

variable {Callback : Type}

/-- The table without callbacks. -/
def empty : CallbackTable Callback where
  registrations := []
  distinct := List.Pairwise.nil

instance : Inhabited (CallbackTable Callback) := ⟨empty⟩

/-- How many callbacks there are. -/
def size (table : CallbackTable Callback) : Nat :=
  table.registrations.length

/-- What is registered under an id. -/
def find? (table : CallbackTable Callback) (id : UInt16) :
    Option (Registration Callback) :=
  table.registrations.find? (fun registration => registration.id == id)

/-- The callback of an id. -/
def callback? (table : CallbackTable Callback) (id : UInt16) : Option Callback :=
  (table.find? id).map Registration.callback

/-- The name behind an id. -/
def name? (table : CallbackTable Callback) (id : UInt16) : Option String :=
  (table.find? id).map Registration.name

/-- Register a callback under its name, and answer its id. -/
def register (table : CallbackTable Callback) (name : String) (callback : Callback) :
    Except RegistrationError (UInt16 × CallbackTable Callback) :=
  match unused : table.find? (Name.hash16 name) with
  | some existing =>
      if existing.name = name then .error (.duplicate name)
      else .error (.idCollision name existing.name (Name.hash16 name))
  | none =>
      .ok (Name.hash16 name,
        { registrations := ⟨name, Name.hash16 name, callback, rfl⟩ :: table.registrations
          distinct := by
            refine List.pairwise_cons.2 ⟨fun other member => ?_, table.distinct⟩
            have differs := List.find?_eq_none.1 unused other member
            exact fun same => differs (beq_iff_eq.2 same.symm) })

end CallbackTable

/-- All callbacks of a host. -/
structure Dispatch (User : Type) where
  actions : CallbackTable (Action User)
  guards : CallbackTable (Guard User)

namespace Dispatch

variable {User : Type}

/-- No callbacks at all. -/
def empty : Dispatch User where
  actions := .empty
  guards := .empty

instance : Inhabited (Dispatch User) := ⟨empty⟩

/-- Run the action of an id. -/
def invoke (dispatch : Dispatch User) (id : UInt16) (scene : Scene User) :
    Except Fault (Scene User) :=
  match dispatch.actions.callback? id with
  | some action => action scene
  | none => .ok scene

/-- Ask the guard of an id about an event. -/
def check (dispatch : Dispatch User) (id event : UInt16) (inst : Instance)
    (user : User) : Except Fault (Bool × Instance × User) :=
  match dispatch.guards.callback? id with
  | some guard => guard event inst user
  | none => .ok (true, inst, user)

/-- Running the action of an id is running one that is registered, or doing nothing. -/
theorem invoke_cases (dispatch : Dispatch User) (id : UInt16) :
    (∃ registration ∈ dispatch.actions.registrations,
      dispatch.invoke id = registration.callback) ∨ dispatch.invoke id = .ok := by
  cases found : dispatch.actions.find? id with
  | none =>
    right
    funext scene
    rw [invoke, CallbackTable.callback?, found]
    rfl
  | some registration =>
    refine .inl ⟨registration, List.mem_of_find?_eq_some found, ?_⟩
    funext scene
    rw [invoke, CallbackTable.callback?, found]
    rfl

/-- Asking the guard of an id is asking one that is registered, or passing. -/
theorem check_cases (dispatch : Dispatch User) (id : UInt16) :
    (∃ registration ∈ dispatch.guards.registrations,
      dispatch.check id = registration.callback) ∨
      dispatch.check id = fun _ inst user => .ok (true, inst, user) := by
  cases found : dispatch.guards.find? id with
  | none =>
    right
    funext event inst user
    rw [check, CallbackTable.callback?, found]
    rfl
  | some registration =>
    refine .inl ⟨registration, List.mem_of_find?_eq_some found, ?_⟩
    funext event inst user
    rw [check, CallbackTable.callback?, found]
    rfl

/-- Nothing is registered under the id that means none. -/
theorem find?_noId {Callback : Type} (table : CallbackTable Callback) :
    table.find? Name.noId = none := by
  refine List.find?_eq_none.2 fun registration _ => ?_
  have ne := Name.hash16_ne_noId registration.name
  rw [← registration.id_eq] at ne
  simpa using ne

end Dispatch

end Statechart.Kernel
