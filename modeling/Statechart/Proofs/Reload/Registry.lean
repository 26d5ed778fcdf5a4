/-
# What a registry knows after a run of loads

A manager that publishes keeps its registry up to date load by load. Names and topologies
are different keys, though: a definition is loaded under a name and registered under its
structure hash, and several names can hold definitions of one topology. A name that is reset
away from a topology takes the topology out of the registry, whether or not another name
still has it.

The main statement says exactly what is registered after any run of loads (`mem_ids_run`):
the topologies of the current definitions, except those that were abandoned, which means that
some name was reset away from them and nothing of that topology was taken over since. If
every topology that is abandoned was held by one name only, the registry knows precisely the
current definitions (`mem_ids_run_of_unshared`). Otherwise it can lose one
(`shared_topology_unregistered`).
-/

import Mathlib.Data.List.Induction
import Statechart.Proofs.Rom.RoundTrip
import Statechart.Reload.Registry

namespace Statechart.Reload

open Rom (Definition Sections StateRecord)

namespace Outcome

variable {previous : Option Definition} {next : Definition}

/-- A reset leads from the topology before to the one after. -/
theorem exists_of_hardReset {old new : UInt32}
    (reset : classify previous next = .hardReset old new) :
    new = next.structureHash ∧ ∃ before, previous = some before ∧ before.structureHash = old := by
  unfold classify at reset
  grind

/-- A definition of another topology is a reset. -/
theorem classify_of_ne {before : Definition}
    (differs : before.structureHash ≠ next.structureHash) :
    classify (some before) next = .hardReset before.structureHash next.structureHash :=
  if_pos (.inl differs)

end Outcome

/-- One call that loads a definition under a name. -/
structure Request where
  name : String
  definition : Definition

namespace Registry

theorem mem_ids {registry : Registry} {id : UInt32} :
    id ∈ registry.ids ↔ registry.contains id = true := by
  simp [ids, contains, definition?, Std.TreeMap.mem_keys]

end Registry

namespace Manager

variable {manager : Manager} {request : Request} {id : UInt32} {name : String}
  {definition : Definition}

/-- What a request means for running instances. -/
def outcome (manager : Manager) (request : Request) : Outcome :=
  (manager.load request.name request.definition).1

/-- The manager after one more request. -/
def after (manager : Manager) (request : Request) : Manager :=
  (manager.load request.name request.definition).2

/-- The manager after a run of requests. -/
def run (manager : Manager) (requests : List Request) : Manager :=
  requests.foldl after manager

/-- Some name has a current definition of this topology. -/
def Holds (manager : Manager) (id : UInt32) : Prop :=
  ∃ name definition, manager.current? name = some definition ∧ definition.structureHash = id

/-- The request is taken over, and its definition has this topology. -/
def Renews (manager : Manager) (request : Request) (id : UInt32) : Prop :=
  manager.outcome request ≠ .noChange ∧ request.definition.structureHash = id

/-- The request resets its name away from this topology, to another one. -/
def Leaves (manager : Manager) (request : Request) (id : UInt32) : Prop :=
  ∃ new, manager.outcome request = .hardReset id new ∧ new ≠ id

/-- In the course of these requests, some name was reset away from this topology, and nothing
of this topology was taken over after that. -/
def Abandoned (manager : Manager) (requests : List Request) (id : UInt32) : Prop :=
  ∃ before request later, requests = before ++ request :: later ∧
    (manager.run before).Leaves request id ∧
    ∀ between next rest, later = between ++ next :: rest →
      ¬ (manager.run (before ++ request :: between)).Renews next id

@[simp]
theorem current?_empty (publishes : Bool) (name : String) :
    (empty publishes).current? name = none := by
  simp [current?, empty]

@[simp]
theorem publishes_empty (publishes : Bool) : (empty publishes).publishes = publishes := rfl

@[simp]
theorem run_nil (manager : Manager) : manager.run [] = manager := rfl

@[simp]
theorem run_concat (manager : Manager) (requests : List Request) (request : Request) :
    manager.run (requests ++ [request]) = (manager.run requests).after request := by
  simp [run]

theorem outcome_eq (manager : Manager) (request : Request) :
    manager.outcome request =
      .classify (manager.current? request.name) request.definition := by
  simp only [outcome, load]
  split <;> rfl

/-! ### One request -/

@[simp]
theorem publishes_after (manager : Manager) (request : Request) :
    (manager.after request).publishes = manager.publishes := by
  simp only [after, load]
  split <;> rfl

@[simp]
theorem publishes_run (manager : Manager) (requests : List Request) :
    (manager.run requests).publishes = manager.publishes := by
  induction requests using List.reverseRecOn with
  | nil => rfl
  | append_singleton requests request ih => simp [ih]

theorem after_of_noChange (same : manager.outcome request = .noChange) :
    manager.after request = manager := by
  rw [outcome_eq] at same
  simp [after, load, same]

theorem after_of_taken (taken : manager.outcome request ≠ .noChange) :
    manager.after request =
      { manager with
        current := manager.current.insert request.name request.definition
        registry :=
          if manager.publishes then
            manager.registry.follow (manager.outcome request) request.definition
          else manager.registry } := by
  rw [outcome_eq] at taken ⊢
  rw [after, load, if_neg taken]

theorem current?_after (taken : manager.outcome request ≠ .noChange) (name : String) :
    (manager.after request).current? name =
      if request.name = name then some request.definition else manager.current? name := by
  simp [after_of_taken taken, current?, Std.HashMap.getElem?_insert]

theorem definition?_after (publishes : manager.publishes = true)
    (taken : manager.outcome request ≠ .noChange) (id : UInt32) :
    (manager.after request).registry.definition? id =
      (manager.registry.follow (manager.outcome request) request.definition).definition? id := by
  simp [after_of_taken taken, publishes]

/-- A topology that is renewed is registered, as the definition of the request. -/
theorem definition?_of_renews (publishes : manager.publishes = true)
    (renews : manager.Renews request id) :
    (manager.after request).registry.definition? id = some request.definition := by
  obtain ⟨taken, rfl⟩ := renews
  rw [definition?_after publishes taken]
  cases known : manager.outcome request with
  | noChange => exact absurd known taken
  | _ => simp [Registry.follow, Registry.definition?_insert]

/-- A topology that is left is not registered. -/
theorem definition?_of_leaves (publishes : manager.publishes = true)
    (leaves : manager.Leaves request id) :
    (manager.after request).registry.definition? id = none := by
  obtain ⟨new, reset, differs⟩ := leaves
  have taken : manager.outcome request ≠ .noChange := by simp [reset]
  have next : request.definition.structureHash = new := by
    rw [outcome_eq] at reset
    exact (Outcome.exists_of_hardReset reset).1.symm
  rw [definition?_after publishes taken, reset]
  simp [Registry.follow, Registry.definition?_insert, Registry.definition?_remove, next, differs]

/-- Any other topology is registered as it was. -/
theorem definition?_of_apart (publishes : manager.publishes = true)
    (fresh : ¬ manager.Renews request id) (stays : ¬ manager.Leaves request id) :
    (manager.after request).registry.definition? id = manager.registry.definition? id := by
  by_cases same : manager.outcome request = .noChange
  · rw [after_of_noChange same]
  · have other : request.definition.structureHash ≠ id := fun is => fresh ⟨same, is⟩
    rw [definition?_after publishes same]
    cases known : manager.outcome request with
    | noChange => exact absurd known same
    | hardReset old new =>
      have next : new = request.definition.structureHash := by
        rw [outcome_eq] at known
        exact (Outcome.exists_of_hardReset known).1
      have kept : old ≠ id := by
        rintro rfl
        exact stays ⟨new, known, next ▸ other⟩
      simp [Registry.follow, Registry.definition?_insert, Registry.definition?_remove, other, kept]
    | _ => simp [Registry.follow, Registry.definition?_insert, other]

theorem holds_of_renews (renews : manager.Renews request id) :
    (manager.after request).Holds id :=
  ⟨request.name, request.definition, by simp [current?_after renews.1], renews.2⟩

/-- A request that is taken over, but neither renews a topology nor leaves it, is made under a
name that had another topology before. -/
theorem structureHash_ne (taken : manager.outcome request ≠ .noChange)
    (fresh : ¬ manager.Renews request id) (stays : ¬ manager.Leaves request id)
    (current : manager.current? request.name = some definition) :
    definition.structureHash ≠ id := by
  rintro rfl
  have other : request.definition.structureHash ≠ definition.structureHash :=
    fun is => fresh ⟨taken, is⟩
  refine stays ⟨request.definition.structureHash, ?_, other⟩
  rw [outcome_eq, current, Outcome.classify_of_ne other.symm]

theorem holds_after_iff (fresh : ¬ manager.Renews request id)
    (stays : ¬ manager.Leaves request id) :
    (manager.after request).Holds id ↔ manager.Holds id := by
  by_cases same : manager.outcome request = .noChange
  · rw [after_of_noChange same]
  · have other : request.definition.structureHash ≠ id := fun is => fresh ⟨same, is⟩
    have had (definition : Definition)
        (current : manager.current? request.name = some definition) :
        definition.structureHash ≠ id := structureHash_ne same fresh stays current
    simp only [Holds, current?_after same]
    grind

/-- A topology that is still held after a name has left it is shared with another name. -/
theorem exists_other_of_leaves (leaves : manager.Leaves request id)
    (held : (manager.after request).Holds id) :
    ∃ name definition, name ≠ request.name ∧ manager.current? name = some definition ∧
      definition.structureHash = id := by
  obtain ⟨new, reset, differs⟩ := leaves
  have taken : manager.outcome request ≠ .noChange := by simp [reset]
  have next : new = request.definition.structureHash := by
    rw [outcome_eq] at reset
    exact (Outcome.exists_of_hardReset reset).1
  obtain ⟨name, definition, current, is⟩ := held
  rw [current?_after taken] at current
  split at current
  · cases current
    exact absurd (next.trans is) differs
  · exact ⟨name, definition, fun same => by simp_all, current, is⟩

/-! ### A run of requests -/

@[simp]
theorem not_abandoned_nil (manager : Manager) (id : UInt32) : ¬ manager.Abandoned [] id := by
  rintro ⟨before, request, later, cut, -⟩
  simp at cut

/-- What one more request does to the topologies that are abandoned. -/
theorem abandoned_concat (manager : Manager) (requests : List Request) (request : Request)
    (id : UInt32) :
    manager.Abandoned (requests ++ [request]) id ↔
      (manager.run requests).Leaves request id ∨
        manager.Abandoned requests id ∧ ¬ (manager.run requests).Renews request id := by
  constructor
  · rintro ⟨before, leaving, later, cut, leaves, never⟩
    rcases List.eq_nil_or_concat later with rfl | ⟨between, last, rfl⟩
    · obtain ⟨rfl, rest⟩ := List.append_inj' cut rfl
      cases rest
      exact .inl leaves
    · rw [List.concat_eq_append, ← List.cons_append, ← List.append_assoc] at cut
      obtain ⟨rfl, rest⟩ := List.append_inj' cut rfl
      cases rest
      refine .inr ⟨⟨before, leaving, between, rfl, leaves, ?_⟩, never between request [] (by simp)⟩
      intro inside next rest cut
      exact never inside next (rest ++ [request]) (by simp [cut])
  · rintro (leaves | ⟨⟨before, leaving, later, rfl, leaves, never⟩, fresh⟩)
    · exact ⟨requests, request, [], rfl, leaves, by simp⟩
    · refine ⟨before, leaving, later ++ [request], by simp, leaves, ?_⟩
      intro between next rest cut
      rcases List.eq_nil_or_concat rest with rfl | ⟨inside, last, rfl⟩
      · obtain ⟨rfl, rest⟩ := List.append_inj' cut rfl
        cases rest
        exact fresh
      · rw [List.concat_eq_append, ← List.cons_append, ← List.append_assoc] at cut
        exact never between next inside (List.append_inj' cut rfl).1

theorem contains_run_iff (requests : List Request) (id : UInt32) :
    ((empty true).run requests).registry.contains id = true ↔
      ((empty true).run requests).Holds id ∧ ¬ (empty true).Abandoned requests id := by
  induction requests using List.reverseRecOn with
  | nil =>
    have unknown : (empty true).registry.definition? id = none := by
      simp [empty, Registry.definition?, Registry.empty]
    simp [Holds, Registry.contains, unknown]
  | append_singleton requests request ih =>
    have publishes : ((empty true).run requests).publishes = true := by simp
    rw [run_concat, abandoned_concat, Registry.contains]
    by_cases renews : ((empty true).run requests).Renews request id
    · have stays : ¬ ((empty true).run requests).Leaves request id := by
        rintro ⟨new, reset, differs⟩
        rw [outcome_eq] at reset
        exact differs ((Outcome.exists_of_hardReset reset).1.trans renews.2)
      simp [definition?_of_renews publishes renews, holds_of_renews renews, stays, renews]
    · by_cases leaves : ((empty true).run requests).Leaves request id
      · simp [definition?_of_leaves publishes leaves, leaves]
      · rw [definition?_of_apart publishes renews leaves, holds_after_iff renews leaves,
          ← Registry.contains, ih]
        simp [renews, leaves]

/-- What the registry answers is the current definition of some name. -/
theorem exists_current_of_registered {requests : List Request}
    (registered : ((empty true).run requests).registry.definition? id = some definition) :
    ∃ name, ((empty true).run requests).current? name = some definition := by
  induction requests using List.reverseRecOn with
  | nil => simp [empty, Registry.definition?, Registry.empty] at registered
  | append_singleton requests request ih =>
    have publishes : ((empty true).run requests).publishes = true := by simp
    rw [run_concat] at registered ⊢
    by_cases renews : ((empty true).run requests).Renews request id
    · rw [definition?_of_renews publishes renews] at registered
      exact ⟨request.name, by simpa [current?_after renews.1] using registered⟩
    · by_cases leaves : ((empty true).run requests).Leaves request id
      · simp [definition?_of_leaves publishes leaves] at registered
      · rw [definition?_of_apart publishes renews leaves] at registered
        obtain ⟨name, current⟩ := ih registered
        by_cases same : ((empty true).run requests).outcome request = .noChange
        · exact ⟨name, by rwa [after_of_noChange same]⟩
        · have topology := Registry.structureHash_eq _ id definition registered
          have other : request.name ≠ name := by
            rintro rfl
            exact structureHash_ne same renews leaves current topology
          exact ⟨name, by rwa [current?_after same, if_neg other]⟩

/-- After any run of loads, the registry knows the topologies of the current definitions,
except those that some name was reset away from and that no load has renewed since. -/
theorem mem_ids_run (requests : List Request) (id : UInt32) :
    id ∈ ((empty true).run requests).registry.ids ↔
      ((empty true).run requests).Holds id ∧ ¬ (empty true).Abandoned requests id := by
  rw [Registry.mem_ids, contains_run_iff]

/-- If no topology is left that another name still holds, the registry knows precisely the
topologies of the current definitions. -/
theorem mem_ids_run_of_unshared (requests : List Request)
    (unshared : ∀ before request later, requests = before ++ request :: later →
      ∀ id, ((empty true).run before).Leaves request id →
        ∀ name definition, name ≠ request.name →
          ((empty true).run before).current? name = some definition →
            definition.structureHash ≠ id) (id : UInt32) :
    id ∈ ((empty true).run requests).registry.ids ↔ ((empty true).run requests).Holds id := by
  suffices gone : (empty true).Abandoned requests id → ¬ ((empty true).run requests).Holds id by
    rw [Registry.mem_ids, contains_run_iff]
    exact ⟨And.left, fun held => ⟨held, fun abandoned => gone abandoned held⟩⟩
  induction requests using List.reverseRecOn with
  | nil => simp
  | append_singleton requests request ih =>
    rw [abandoned_concat, run_concat]
    rintro (leaves | ⟨abandoned, fresh⟩) held
    · obtain ⟨name, definition, other, current, is⟩ := exists_other_of_leaves leaves held
      exact unshared requests request [] rfl id leaves name definition other current is
    · by_cases leaves : ((empty true).run requests).Leaves request id
      · obtain ⟨name, definition, other, current, is⟩ := exists_other_of_leaves leaves held
        exact unshared requests request [] rfl id leaves name definition other current is
      · refine ih (fun before earlier later cut => ?_) abandoned
          ((holds_after_iff fresh leaves).1 held)
        exact unshared before earlier (later ++ [request]) (by simp [cut])

/-- Two names hold a topology, and one of them is reset: the other one's current definition is
not registered any more. -/
theorem contains_of_shared {first second : Definition} {left right : String}
    (apart : left ≠ right) (differ : first.structureHash ≠ second.structureHash) :
    let manager := (empty true).run [⟨left, first⟩, ⟨right, first⟩, ⟨left, second⟩]
    manager.current? right = some first ∧
      manager.registry.contains first.structureHash = false := by
  let opened := (empty true).after ⟨left, first⟩
  let joined := opened.after ⟨right, first⟩
  have new : (empty true).outcome ⟨left, first⟩ = .newMachine := by
    simp [outcome_eq, Outcome.classify]
  have alone (name : String) : opened.current? name = if left = name then some first else none := by
    simp [opened, current?_after, new]
  have alsoNew : opened.outcome ⟨right, first⟩ = .newMachine := by
    simp [outcome_eq, Outcome.classify, alone, apart]
  have both (name : String) : joined.current? name =
      if right = name then some first else if left = name then some first else none := by
    simp [joined, current?_after, alsoNew, alone]
  have reset : joined.outcome ⟨left, second⟩ =
      .hardReset first.structureHash second.structureHash := by
    simp [outcome_eq, both, Outcome.classify_of_ne differ]
  have leaves : joined.Leaves ⟨left, second⟩ first.structureHash := ⟨_, reset, differ.symm⟩
  have publishes : joined.publishes = true := by simp [joined, opened]
  show (joined.after ⟨left, second⟩).current? right = some first ∧
    (joined.after ⟨left, second⟩).registry.contains first.structureHash = false
  rw [Registry.contains, definition?_of_leaves publishes leaves]
  simp [current?_after, reset, both, apart]

/-- The tables of a machine with nothing but its root. -/
def single : Sections :=
  { Sections.empty with states := #[StateRecord.blank] }

/-- A registry that loses a current definition, with definitions that blobs load as. -/
theorem shared_topology_unregistered :
    ∃ first second : Definition,
      (∃ bytes, single.Survives 1 1 bytes first) ∧ (∃ bytes, single.Survives 2 1 bytes second) ∧
      let manager := (empty true).run [⟨"left", first⟩, ⟨"right", first⟩, ⟨"left", second⟩]
      manager.current? "right" = some first ∧ first.structureHash ∉ manager.registry.ids ∧
        ¬ ∀ id, id ∈ manager.registry.ids ↔ manager.Holds id := by
  have encodable : single.Encodable := by constructor <;> decide
  have own : single.OwnChildren := by constructor <;> decide
  obtain ⟨shape, shaped, -⟩ := own.ofSections_returns (by decide)
  have survives (structureHash : UInt32) :=
    encodable.survives (by decide) shaped structureHash 1
  have differ : (1 : UInt32) ≠ 2 := by decide
  rw [← (survives 1).structureHash_eq, ← (survives 2).structureHash_eq] at differ
  have apart : "left" ≠ "right" := by decide
  obtain ⟨current, lost⟩ := contains_of_shared apart differ
  rw [← Bool.not_eq_true, ← Registry.mem_ids] at lost
  exact ⟨_, _, ⟨_, survives 1⟩, ⟨_, survives 2⟩, current, lost,
    fun same => lost ((same _).2 ⟨"right", _, current, rfl⟩)⟩

end Manager

end Statechart.Reload
