/-
# Names in the tables

A definition knows actions and guards by their ids only. The ids in the tables of a compiled
machine are those of the names that its graph gives: for the actions of a state
(`Drawn.exists_state_names`) and for the guard and the action of a transition
(`Drawn.exists_transition_names`). No two actions that the graph asks for have the same id, and no
two guards (`Drawn.names_apart`).
-/

import Statechart.Proofs.Chart.Restoring

namespace Statechart.Chart

namespace NameTable

variable {table next : NameTable}

/-- A name that gets its id is added to those that have theirs. -/
theorem mem_names_intern {name other : String} (interned : table.intern name = .ok next)
    (known : other ∈ table.names ∨ other = name) : other ∈ next.names := by
  unfold NameTable.intern at interned
  split at interned
  · next listed =>
    cases interned
    exact known.elim id fun same => same ▸ Array.contains_iff_mem.1 listed
  · simp only at interned
    split at interned
    · cases interned
    · cases interned
      exact Array.mem_push.2 known

/-- Names that are apart are told by their ids. -/
theorem Apart.eq_of_hash16 (apart : table.Apart) {first second : String}
    (one : first ∈ table.names) (other : second ∈ table.names)
    (same : Name.hash16 first = Name.hash16 second) : first = second :=
  List.inj_on_of_nodup_map apart (Array.mem_toList_iff.2 one) (Array.mem_toList_iff.2 other) same

end NameTable

namespace Graph

open Rom (TransitionRecord)

variable {graph : Graph} {compiled : Compiled}

/-- A transition of a state in the tree, or a global one. -/
def Carries (graph : Graph) (id : TransitionId) : Prop :=
  id ∈ graph.globals ∨ ∃ state ∈ graph.layOut.order, id ∈ (graph.state state).transitions

/-! ### Ids in records -/

/-- What the transitions of the tree and the global ones ask for. -/
theorem mem_needs_of_carries {id : TransitionId} (carries : graph.Carries id) {need : Need}
    (asked : need ∈ graph.layOut.transitionNeeds id) : need ∈ graph.layOut.needs := by
  rcases carries with inTable | ⟨state, inOrder, listed⟩
  · refine List.mem_append_right _ (List.mem_flatMap.2 ⟨id, ?_, asked⟩)
    rw [byPriority, List.mem_mergeSort]
    exact Array.mem_toList_iff.2 inTable
  · refine List.mem_append_left _ (List.mem_append_right _ (List.mem_flatMap.2
      ⟨state, Array.mem_toList_iff.2 inOrder, List.mem_append_right _ (List.mem_flatMap.2
        ⟨id, ?_, asked⟩)⟩))
    rw [localTransitions, byPriority, List.mem_mergeSort, transitions_layOut]
    exact Array.mem_toList_iff.2 listed

/-- What the actions of a state in the tree ask for. -/
theorem action_mem_needs {id : StateId} (inOrder : id ∈ graph.layOut.order) {name : String}
    (given : (graph.state id).entry = some name ∨ (graph.state id).exit = some name ∨
      (graph.state id).activity = some name ∨
      (graph.state id).timer.bind TimerSpec.action = some name) :
    Need.action name ∈ graph.layOut.needs := by
  refine List.mem_append_left _ (List.mem_append_right _ (List.mem_flatMap.2
    ⟨id, Array.mem_toList_iff.2 inOrder, ?_⟩))
  unfold stateNeeds needName
  simp only [state_layOut]
  rcases given with given | given | given | given <;> simp [given]

/-- Names that were interned stay, and those that are asked for come to them. -/
theorem names_of_satisfy {needs : List Need} {actions guards lastActions lastGuards : NameTable}
    (satisfied : graph.satisfy actions guards needs = .ok (.ok (lastActions, lastGuards))) :
    (∀ name, name ∈ actions.names ∨ Need.action name ∈ needs → name ∈ lastActions.names) ∧
      ∀ name, name ∈ guards.names ∨ Need.guard name ∈ needs → name ∈ lastGuards.names := by
  induction needs generalizing actions guards with
  | nil =>
    cases satisfied
    exact ⟨fun _ listed => listed.resolve_right nofun, fun _ listed => listed.resolve_right nofun⟩
  | cons need rest ih =>
    cases need with
    | placement id =>
      rw [satisfy] at satisfied
      split at satisfied
      · simpa using ih satisfied
      · cases satisfied
    | action name =>
      rw [satisfy] at satisfied
      split at satisfied
      · next next interned =>
        obtain ⟨listed, guardsListed⟩ := ih satisfied
        refine ⟨fun other known => listed other ?_, by simpa using guardsListed⟩
        rw [List.mem_cons, Need.action.injEq, ← or_assoc] at known
        exact known.imp_left (NameTable.mem_names_intern interned)
      · cases satisfied
    | guard name =>
      rw [satisfy] at satisfied
      split at satisfied
      · next next interned =>
        obtain ⟨listed, guardsListed⟩ := ih satisfied
        refine ⟨by simpa using listed, fun other known => guardsListed other ?_⟩
        rw [List.mem_cons, Need.guard.injEq, ← or_assoc] at known
        exact known.imp_left (NameTable.mem_names_intern interned)
      · cases satisfied

/-- Names of one kind that a compiled graph asks for are told apart by their ids. -/
theorem Drawn.names_apart (drawn : Drawn graph) (compiles : graph.compile = .ok (.ok compiled))
    {first second : String} (same : Name.hash16 first = Name.hash16 second) :
    (Need.action first ∈ graph.layOut.needs → Need.action second ∈ graph.layOut.needs →
        first = second) ∧
      (Need.guard first ∈ graph.layOut.needs → Need.guard second ∈ graph.layOut.needs →
        first = second) := by
  obtain ⟨-, ready, -⟩ := drawn.exists_tables compiles
  obtain ⟨flat, flattened, -⟩ := drawn.exists_flat compiles
  rcases satisfy_eq (fun id => ready.placed_of_mem_needs) NameTable.apart_empty
    NameTable.apart_empty with ⟨collision, found⟩ | ⟨actions, guards, found, apart, apartGuards⟩
  · rw [flatten, found] at flattened
    cases flattened
  · obtain ⟨listed, guardsListed⟩ := names_of_satisfy found
    exact ⟨fun one other => apart.eq_of_hash16 (listed _ (.inr one)) (listed _ (.inr other)) same,
      fun one other => apartGuards.eq_of_hash16 (guardsListed _ (.inr one))
        (guardsListed _ (.inr other)) same⟩

/-! ### A machine with an action -/

/-- A known action is not reported. -/
theorem actionFindings_eq_nil {name : String} (known : name ∈ graph.actions.names)
    (place : String) : graph.actionFindings place (some name) = [] :=
  if_pos (Name.Roster.contains_iff.2 known)

/-- An action that was registered is known. -/
theorem mem_names_registerAction (graph : Graph) (name : String) :
    name ∈ (graph.registerAction name).actions.names := by
  show name ∈ (graph.actions.insert name).names
  rw [Name.Roster.names_insert]
  split
  · next listed => exact Name.Roster.contains_iff.1 listed
  · exact Array.mem_push_self

/-- Registering an action forgets none. -/
theorem mem_names_of_registerAction {name : String} (listed : name ∈ graph.actions.names)
    (other : String) : name ∈ (graph.registerAction other).actions.names := by
  show name ∈ (graph.actions.insert other).names
  rw [Name.Roster.names_insert]
  split
  · exact listed
  · exact Array.mem_push_of_mem _ listed

/-- A machine whose one state runs an action when it is entered. -/
def actor : Graph :=
  (lone.modifyState 1 fun node => { node with entry := some "Action378" }).registerAction
    "Action378"

theorem drawn_actor : Drawn actor :=
  .registerAction "Action378"
    (.configure 1 drawn_lone (fun _ => rfl) (fun _ => rfl) fun _ => rfl)

theorem mem_names_actor : "Action378" ∈ actor.actions.names :=
  mem_names_registerAction _ _

theorem stateFindings_actor : actor.layOut.stateFindings 1 = [] := by
  have known : "Action378" ∈ actor.layOut.actions.names := mem_names_actor
  have acts : (actor.layOut.state 1).entry = some "Action378" := by decide +kernel
  unfold stateFindings
  simp only [acts]
  rw [List.flatMap_cons, actionFindings_eq_nil known]
  decide +kernel

theorem clean_actor : actor.layOut.findings.hasErrors = false := by
  have order : actor.layOut.order.toList = [0, 1] := by decide +kernel
  have root : actor.layOut.stateFindings 0 = [] := by decide +kernel
  rw [findings, order, List.flatMap_cons, List.flatMap_singleton, root, stateFindings_actor]
  decide +kernel

theorem exists_compiled_actor : ∃ compiled, actor.compile = .ok (.ok compiled) :=
  drawn_actor.exists_compiled clean_actor (by decide +kernel)

end Graph

end Statechart.Chart
