/-
# Drawn graphs

A graph is drawn when it was made by adding states, hanging states other than the root
below others, changing what states and transitions say about themselves, and adding
transitions, names and events. Who is whose parent and child, and which state a
transition leaves, is then never written by hand, and the graph keeps books that agree:
a state lists a child, once, exactly when that child names it as its parent, and the
root has no parent (`LinksAgree`). The same goes for transitions and the states that
they leave (`TransitionsAgree`).

The main statements say that every drawn graph keeps these books, and that its events
do not run out of ids.
-/

import Mathlib.Data.List.Nodup
import Statechart.Chart.Layout

namespace Statechart.Chart

namespace Graph

variable {graph : Graph}

/-! ### What the operations do to a state -/

theorem state_eq_default {id : StateId} (outside : graph.stateCount ≤ id) :
    graph.state id = default := by
  simp [state, Array.getD_eq_getD_getElem?, Array.getElem?_eq_none outside]

theorem lt_stateCount_of_parent {id parent : StateId}
    (linked : (graph.state id).parent = some parent) : id < graph.stateCount := by
  by_contra outside
  rw [state_eq_default (Nat.le_of_not_lt outside)] at linked
  simp [default, StateNode.named] at linked

theorem lt_stateCount_of_child {id child : StateId}
    (listed : child ∈ (graph.state id).children) : id < graph.stateCount := by
  by_contra outside
  rw [state_eq_default (Nat.le_of_not_lt outside)] at listed
  simp [default, StateNode.named] at listed

@[simp]
theorem stateCount_modifyState (id : StateId) (change : StateNode → StateNode) :
    (graph.modifyState id change).stateCount = graph.stateCount := by
  simp [modifyState, stateCount]

theorem state_modifyState (id other : StateId) (change : StateNode → StateNode) :
    (graph.modifyState id change).state other =
      if id = other ∧ id < graph.stateCount then change (graph.state other)
      else graph.state other := by
  simp only [state, modifyState, stateCount, Array.getD_eq_getD_getElem?, Array.getElem?_modify]
  by_cases same : id = other
  · subst same
    by_cases inside : id < graph.states.size
    · simp [inside]
    · simp [inside]
  · simp [same]

@[simp]
theorem stateCount_insertDetached (name : String) :
    (graph.insertDetached name).2.stateCount = graph.stateCount + 1 := by
  simp [insertDetached, stateCount]

@[simp]
theorem stateCount_attach (child parent : StateId) :
    (graph.attach child parent).stateCount = graph.stateCount := by
  simp [attach]

/-- A state that has just been added says nothing but its name and identity. -/
theorem state_insertDetached (name : String) (id : StateId) :
    (graph.insertDetached name).2.state id =
      if id = graph.stateCount then StateNode.named name graph.nextStableId
      else graph.state id := by
  simp only [insertDetached, state, stateCount, Array.getD_eq_getD_getElem?,
    Array.getElem?_push]
  by_cases last : id = graph.states.size
  · simp [last]
  · simp [last]

/-- Only the child's parent changes. -/
theorem parent_attach {child parent : StateId} (inside : child < graph.stateCount)
    (id : StateId) :
    ((graph.attach child parent).state id).parent =
      if id = child then some parent else (graph.state id).parent := by
  simp only [attach, state_modifyState, stateCount_modifyState]
  by_cases same : id = child
  · subst same
    by_cases own : parent = id <;> simp [inside, own]
  · have other : child ≠ id := fun equal => same equal.symm
    by_cases own : parent = id
    · simp only [own, other, false_and, if_false, same]
      split <;> rfl
    · simp [same, other, own]

/-- Only the parent's list of children changes. -/
theorem children_attach {child parent : StateId} (inside : parent < graph.stateCount)
    (id : StateId) :
    ((graph.attach child parent).state id).children =
      if id = parent then (graph.state id).children.push child
      else (graph.state id).children := by
  simp only [attach, state_modifyState, stateCount_modifyState]
  by_cases same : id = parent
  · subst same
    by_cases own : child = id <;> simp [inside, own]
  · have other : parent ≠ id := fun equal => same equal.symm
    by_cases own : child = id
    · simp only [own, other, false_and, if_false, same]
      split <;> rfl
    · simp [same, other, own]

theorem transitions_attach (child parent id : StateId) :
    ((graph.attach child parent).state id).transitions = (graph.state id).transitions := by
  simp only [attach, state_modifyState]
  split <;> split <;> rfl

/-! ### Books that agree -/

/-- Child lists and parent links say the same, except that nothing is said about the
parent of `moving`, which is in no child list. -/
structure AgreeBesides (graph : Graph) (moving : StateId) : Prop where
  mem_children {child parent : StateId} : child ≠ moving →
    (child ∈ (graph.state parent).children ↔ (graph.state child).parent = some parent)
  notMem_children (parent : StateId) : moving ∉ (graph.state parent).children
  nodup_children (id : StateId) : (graph.state id).children.toList.Nodup
  parent_root : (graph.state rootId).parent = none

/-- Child lists and parent links say the same, no child is listed twice, and the root
has no parent. -/
structure LinksAgree (graph : Graph) : Prop where
  mem_children {child parent : StateId} :
    child ∈ (graph.state parent).children ↔ (graph.state child).parent = some parent
  nodup_children (id : StateId) : (graph.state id).children.toList.Nodup
  parent_root : (graph.state rootId).parent = none

/-- A state lists the transitions that leave it, each one once, and the global ones are
listed likewise and leave the root. -/
structure TransitionsAgree (graph : Graph) : Prop where
  mem_transitions {id : StateId} {transition : TransitionId} :
    transition ∈ (graph.state id).transitions ↔
      transition < graph.transitions.size ∧ (graph.transition transition).source = id ∧
        (graph.transition transition).isGlobal = false
  nodup_transitions (id : StateId) : (graph.state id).transitions.toList.Nodup
  mem_globals {transition : TransitionId} :
    transition ∈ graph.globals ↔
      transition < graph.transitions.size ∧ (graph.transition transition).isGlobal = true
  nodup_globals : graph.globals.toList.Nodup
  source_global {transition : TransitionId} : transition < graph.transitions.size →
    (graph.transition transition).isGlobal = true →
    (graph.transition transition).source = rootId

/-- A state that nothing was said about can be hung below any other one. -/
theorem AgreeBesides.attach {child parent : StateId} (agree : graph.AgreeBesides child)
    (moved : child ≠ rootId) (childInside : child < graph.stateCount)
    (parentInside : parent < graph.stateCount) :
    (graph.attach child parent).LinksAgree where
  mem_children {other listing} := by
    rw [parent_attach childInside, children_attach parentInside]
    by_cases same : other = child
    · subst same
      have unlisted := agree.notMem_children listing
      by_cases own : listing = parent
      · simp [own]
      · have differs : parent ≠ listing := fun equal => own equal.symm
        simp [own, differs, unlisted]
    · have elsewhere : other ∈ (graph.state listing).children ↔
          (graph.state other).parent = some listing := agree.mem_children same
      by_cases own : listing = parent
      · subst own
        simp [same, elsewhere]
      · simp [own, same, elsewhere]
  nodup_children id := by
    rw [children_attach parentInside]
    have apart := agree.nodup_children id
    by_cases own : id = parent
    · have unlisted := agree.notMem_children id
      simp only [own, if_true, Array.toList_push] at apart unlisted ⊢
      exact apart.append (List.nodup_singleton child)
        (List.disjoint_singleton.2 (fun member => unlisted (Array.mem_toList_iff.1 member)))
    · simpa [own] using apart
  parent_root := by
    have differs : rootId ≠ child := fun equal => moved equal.symm
    rw [parent_attach childInside, if_neg differs]
    exact agree.parent_root

/-! ### Moving a state -/

/-- The graph with a state taken from the children of its parent, which it still
names. -/
def detach (graph : Graph) (id : StateId) : Graph :=
  match (graph.state id).parent with
  | some old =>
      graph.modifyState old fun node =>
        { node with children := node.children.filter (fun child => child != id) }
  | none => graph

theorem reparent_eq (id parent : StateId) :
    graph.reparent id parent = (graph.detach id).attach id parent := rfl

@[simp]
theorem stateCount_detach (id : StateId) : (graph.detach id).stateCount = graph.stateCount := by
  unfold detach
  split <;> simp

theorem parent_detach (id other : StateId) :
    ((graph.detach id).state other).parent = (graph.state other).parent := by
  unfold detach
  split
  · rw [state_modifyState]
    split <;> rfl
  · rfl

theorem transitions_detach (id other : StateId) :
    ((graph.detach id).state other).transitions = (graph.state other).transitions := by
  unfold detach
  split
  · rw [state_modifyState]
    split <;> rfl
  · rfl

theorem children_detach (id other : StateId) :
    ((graph.detach id).state other).children =
      if (graph.state id).parent = some other then
        (graph.state other).children.filter (fun child => child != id)
      else (graph.state other).children := by
  unfold detach
  cases linked : (graph.state id).parent with
  | none => simp
  | some old =>
    simp only [state_modifyState, Option.some.injEq]
    by_cases same : old = other
    · subst same
      by_cases inside : old < graph.stateCount
      · simp [inside]
      · have absent := state_eq_default (Nat.le_of_not_lt inside)
        simp [inside, absent, default, StateNode.named]
    · simp [same]

theorem LinksAgree.detach (agree : graph.LinksAgree) (id : StateId) :
    (graph.detach id).AgreeBesides id where
  mem_children {child parent} other := by
    rw [parent_detach, children_detach]
    split
    · simp [agree.mem_children, other]
    · exact agree.mem_children
  notMem_children parent := by
    rw [children_detach]
    split
    · simp
    · rename_i elsewhere
      exact fun listed => elsewhere (agree.mem_children.1 listed)
  nodup_children other := by
    rw [children_detach]
    split
    · rw [Array.toList_filter]
      exact (agree.nodup_children other).filter _
    · exact agree.nodup_children other
  parent_root := by
    rw [parent_detach]
    exact agree.parent_root

/-! ### Drawing -/

/-- A graph that was made by the operations on graphs. States are hung below others and
never the root; a state that is changed keeps its parent, its children and its
transitions, and a transition that is changed keeps its source and its table. -/
inductive Drawn : Graph → Prop
  | named (name : String) : Drawn (.named name)
  | rename {graph : Graph} (name : String) : Drawn graph → Drawn { graph with name }
  | addState {graph next : Graph} {name : String} {parent id : StateId} :
      Drawn graph → parent < graph.stateCount →
      graph.addState name parent = .ok (id, next) → Drawn next
  | addDetached {graph next : Graph} {name : String} {id : StateId} :
      Drawn graph → graph.addDetached name = .ok (id, next) → Drawn next
  | reparent {graph : Graph} {id parent : StateId} :
      Drawn graph → id ≠ rootId → id < graph.stateCount → parent < graph.stateCount →
      Drawn (graph.reparent id parent)
  | configure {graph : Graph} (id : StateId) {change : StateNode → StateNode} :
      Drawn graph → (∀ node, (change node).parent = node.parent) →
      (∀ node, (change node).children = node.children) →
      (∀ node, (change node).transitions = node.transitions) →
      Drawn (graph.modifyState id change)
  | addTransition {graph : Graph} {source : StateId} (target : Option StateId)
      (trigger : Trigger) :
      Drawn graph → source < graph.stateCount →
      Drawn (graph.addTransition source target trigger).2
  | addGlobalTransition {graph : Graph} (target : StateId) (trigger : Trigger) :
      Drawn graph → Drawn (graph.addGlobalTransition target trigger).2
  | configureTransition {graph : Graph} (id : TransitionId)
      {change : TransitionNode → TransitionNode} :
      Drawn graph → (∀ node, (change node).source = node.source) →
      (∀ node, (change node).isGlobal = node.isGlobal) →
      Drawn (graph.modifyTransition id change)
  | registerAction {graph : Graph} (name : String) :
      Drawn graph → Drawn (graph.registerAction name)
  | registerGuard {graph : Graph} (name : String) :
      Drawn graph → Drawn (graph.registerGuard name)
  | declareEvent {graph next : Graph} {name : String} {options : EventDecl} {id : UInt16} :
      Drawn graph → graph.declareEvent name options = .ok (id, next) → Drawn next
  | layOut {graph : Graph} : Drawn graph → Drawn graph.layOut

/-! ### Layout changes placements only -/

theorem size_placements (order : Array StateId) :
    (graph.placements order).size = graph.stateCount := by
  unfold placements
  generalize order.toList.zipIdx = entries
  have grows : ∀ table : Array (Option Placement), table.size = graph.stateCount →
      ∀ place : Array (Option Placement) → StateId × Nat → Array (Option Placement),
      (∀ table entry, (place table entry).size = table.size) →
      (entries.foldl place table).size = graph.stateCount := by
    intro table size place keeps
    induction entries generalizing table with
    | nil => exact size
    | cons entry rest ih => exact ih _ ((keeps table entry).trans size)
  exact grows _ Array.size_replicate _ fun table entry => by simp

theorem state_layOut (id : StateId) :
    graph.layOut.state id =
      { graph.state id with
        placement := (graph.placements graph.breadthFirst).getD id none } := by
  simp only [layOut, state, Array.getD_eq_getD_getElem?, Array.getElem?_mapIdx]
  by_cases inside : id < graph.states.size
  · simp [inside]
  · have outside : (graph.placements graph.breadthFirst)[id]? = none :=
      Array.getElem?_eq_none (by rw [size_placements]; exact Nat.le_of_not_lt inside)
    rw [outside, Array.getElem?_eq_none (Nat.le_of_not_lt inside)]
    rfl

@[simp]
theorem stateCount_layOut : graph.layOut.stateCount = graph.stateCount := by
  simp [layOut, stateCount]

@[simp]
theorem parent_layOut (id : StateId) :
    (graph.layOut.state id).parent = (graph.state id).parent := by
  rw [state_layOut]

@[simp]
theorem children_layOut (id : StateId) :
    (graph.layOut.state id).children = (graph.state id).children := by
  rw [state_layOut]

@[simp]
theorem transitions_layOut (id : StateId) :
    (graph.layOut.state id).transitions = (graph.state id).transitions := by
  rw [state_layOut]

/-! ### Every drawn graph keeps its books -/

/-- Changes that leave parents and children alone leave the books alone. -/
theorem LinksAgree.congr {next : Graph} (agree : graph.LinksAgree)
    (parents : ∀ id, (next.state id).parent = (graph.state id).parent)
    (children : ∀ id, (next.state id).children = (graph.state id).children) :
    next.LinksAgree where
  mem_children {child parent} := by
    rw [children, parents]
    exact agree.mem_children
  nodup_children id := by
    rw [children]
    exact agree.nodup_children id
  parent_root := by
    rw [parents]
    exact agree.parent_root

/-- A detached state enters the books as one that nothing was said about. -/
theorem LinksAgree.insertDetached (agree : graph.LinksAgree) (name : String) :
    (graph.insertDetached name).2.LinksAgree := by
  have fresh : graph.state graph.stateCount = default := state_eq_default (Nat.le_refl _)
  refine agree.congr (fun id => ?_) (fun id => ?_)
  all_goals
    rw [state_insertDetached]
    split
    · subst id
      rw [fresh]
      rfl
    · rfl

/-- A state without a parent is in no list. -/
theorem LinksAgree.besides {id : StateId} (agree : graph.LinksAgree)
    (parentless : (graph.state id).parent = none) : graph.AgreeBesides id where
  mem_children _ := agree.mem_children
  notMem_children _ listed := by
    rw [agree.mem_children, parentless] at listed
    cases listed
  nodup_children := agree.nodup_children
  parent_root := agree.parent_root

theorem linksAgree_named (name : String) : (Graph.named name).LinksAgree := by
  have alone : ∀ id, ((Graph.named name).state id).parent = none ∧
      ((Graph.named name).state id).children = #[] := by
    intro id
    cases id <;> exact ⟨rfl, rfl⟩
  exact {
    mem_children := by simp [alone]
    nodup_children := by simp [alone]
    parent_root := (alone rootId).1 }

theorem addState_eq_ok {name : String} {parent id : StateId} {next : Graph}
    (added : graph.addState name parent = .ok (id, next)) :
    next = (graph.insertDetached name).2.attach graph.stateCount parent := by
  unfold addState at added
  split at added
  · cases added
  · cases added
    rfl

theorem addDetached_eq_ok {name : String} {id : StateId} {next : Graph}
    (added : graph.addDetached name = .ok (id, next)) :
    next = (graph.insertDetached name).2 := by
  unfold addDetached at added
  split at added
  · cases added
  · cases added
    rfl

theorem declareEvent_eq_ok {name : String} {options : EventDecl} {id : UInt16} {next : Graph}
    (declared : graph.declareEvent name options = .ok (id, next)) :
    graph.events.size + Event.firstUserId < 65536 ∧ next = (graph.insertEvent name options).2 := by
  unfold declareEvent eventProblem? at declared
  split at declared
  · cases declared
  · rename_i fine
    cases declared
    refine ⟨?_, rfl⟩
    split at fine
    · cases fine
    · split at fine
      · cases fine
      · omega

/-- A graph never loses its root. -/
theorem Drawn.stateCount_pos (drawn : Drawn graph) : 0 < graph.stateCount := by
  induction drawn with
  | named name => exact Nat.one_pos
  | rename name _ ih => exact ih
  | addState _ _ added ih =>
    rw [addState_eq_ok added]
    simp
  | addDetached _ added ih =>
    rw [addDetached_eq_ok added]
    simp
  | reparent _ _ _ _ ih => simpa [reparent_eq] using ih
  | configure id _ _ _ _ ih => simpa using ih
  | addTransition target trigger _ _ ih =>
    simp only [Graph.addTransition, stateCount_modifyState]
    exact ih
  | addGlobalTransition target trigger _ ih => exact ih
  | configureTransition id _ _ _ ih => exact ih
  | registerAction name _ ih => exact ih
  | registerGuard name _ ih => exact ih
  | declareEvent _ declared ih =>
    rw [(declareEvent_eq_ok declared).2]
    exact ih
  | layOut _ ih => simpa using ih

/-- In a drawn graph child lists and parent links say the same. -/
theorem Drawn.linksAgree (drawn : Drawn graph) : graph.LinksAgree := by
  induction drawn with
  | named name => exact linksAgree_named name
  | rename name _ ih => exact ih.congr (fun _ => rfl) (fun _ => rfl)
  | @addState graph next name parent id drawn inside added ih =>
    rw [addState_eq_ok added]
    have parentless : ((graph.insertDetached name).2.state graph.stateCount).parent = none := by
      rw [state_insertDetached, if_pos rfl]
      rfl
    have later : graph.stateCount ≠ rootId := Nat.ne_of_gt drawn.stateCount_pos
    refine ((ih.insertDetached name).besides parentless).attach later ?_ ?_
    · simp
    · rw [stateCount_insertDetached]
      exact Nat.lt_succ_of_lt inside
  | addDetached _ added ih =>
    rw [addDetached_eq_ok added]
    exact ih.insertDetached _
  | reparent _ moved inside parentInside ih =>
    exact (ih.detach _).attach moved (by simpa using inside) (by simpa using parentInside)
  | configure id _ parents children _ ih =>
    refine ih.congr (fun other => ?_) (fun other => ?_)
    all_goals
      rw [state_modifyState]
      split
      · simp only [parents, children]
      · rfl
  | addTransition target trigger _ _ ih =>
    refine ih.congr (fun other => ?_) (fun other => ?_)
    all_goals
      simp only [Graph.addTransition]
      rw [state_modifyState]
      split <;> rfl
  | addGlobalTransition target trigger _ ih => exact ih.congr (fun _ => rfl) (fun _ => rfl)
  | configureTransition id _ _ _ ih => exact ih.congr (fun _ => rfl) (fun _ => rfl)
  | registerAction name _ ih => exact ih.congr (fun _ => rfl) (fun _ => rfl)
  | registerGuard name _ ih => exact ih.congr (fun _ => rfl) (fun _ => rfl)
  | declareEvent _ declared ih =>
    rw [(declareEvent_eq_ok declared).2]
    exact ih.congr (fun _ => rfl) (fun _ => rfl)
  | layOut _ ih => exact ih.congr parent_layOut children_layOut

/-! ### Transitions -/

/-- Changes that leave transitions alone leave the books about them alone. -/
theorem TransitionsAgree.congr {next : Graph} (agree : graph.TransitionsAgree)
    (lists : ∀ id, (next.state id).transitions = (graph.state id).transitions)
    (size : next.transitions.size = graph.transitions.size)
    (sources : ∀ id, (next.transition id).source = (graph.transition id).source)
    (tables : ∀ id, (next.transition id).isGlobal = (graph.transition id).isGlobal)
    (globals : next.globals = graph.globals) : next.TransitionsAgree where
  mem_transitions {id transition} := by
    rw [lists, size, sources, tables]
    exact agree.mem_transitions
  nodup_transitions id := by
    rw [lists]
    exact agree.nodup_transitions id
  mem_globals {transition} := by
    rw [globals, size, tables]
    exact agree.mem_globals
  nodup_globals := by
    rw [globals]
    exact agree.nodup_globals
  source_global {transition} := by
    rw [size, sources, tables]
    exact agree.source_global

theorem lt_succ_iff_of_ne {entry count : Nat} (differs : entry ≠ count) :
    entry < count + 1 ↔ entry < count := by
  omega

/-- Appending a number that is larger than all others repeats none. -/
theorem nodup_push_size {listed : Array Nat} {count : Nat} (apart : listed.toList.Nodup)
    (below : ∀ entry ∈ listed, entry < count) : (listed.push count).toList.Nodup := by
  rw [Array.toList_push]
  refine apart.append (List.nodup_singleton count) (List.disjoint_singleton.2 fun member => ?_)
  exact Nat.lt_irrefl count (below count (Array.mem_toList_iff.1 member))

theorem transition_push (node : TransitionNode) (id : TransitionId) :
    ({ graph with transitions := graph.transitions.push node } : Graph).transition id =
      if id = graph.transitions.size then node else graph.transition id := by
  simp only [transition, Array.getD_eq_getD_getElem?, Array.getElem?_push]
  split <;> rfl

/-- Writing a transition down keeps the agreement if it is entered in the one list that it
belongs to. -/
theorem TransitionsAgree.push {next : Graph} {added : TransitionNode}
    (agree : graph.TransitionsAgree) (transitions : next.transitions = graph.transitions.push added)
    (lists : ∀ id, (next.state id).transitions =
      if added.source = id ∧ added.isGlobal = false then
        (graph.state id).transitions.push graph.transitions.size
      else (graph.state id).transitions)
    (globals : next.globals =
      if added.isGlobal = true then graph.globals.push graph.transitions.size else graph.globals)
    (rooted : added.isGlobal = true → added.source = rootId) : next.TransitionsAgree := by
  have node (id : TransitionId) : next.transition id =
      if id = graph.transitions.size then added else graph.transition id := by
    rw [← transition_push added id, transition, transitions]
    rfl
  have size : next.transitions.size = graph.transitions.size + 1 := by
    rw [transitions, Array.size_push]
  have listed {id : StateId} {entry : TransitionId}
      (member : entry ∈ (graph.state id).transitions) : entry < graph.transitions.size :=
    (agree.mem_transitions.1 member).1
  have tabled {entry : TransitionId} (member : entry ∈ graph.globals) :
      entry < graph.transitions.size :=
    (agree.mem_globals.1 member).1
  exact {
    mem_transitions := by
      intro id entry
      rw [lists, size, node]
      by_cases last : entry = graph.transitions.size
      · subst last
        have fresh : graph.transitions.size ∉ (graph.state id).transitions := fun member =>
          Nat.lt_irrefl _ (listed member)
        by_cases own : added.source = id ∧ added.isGlobal = false
        · simp [own]
        · simp [own, fresh]
      · rw [lt_succ_iff_of_ne last, if_neg last, ← agree.mem_transitions]
        split
        · simp [last]
        · rfl
    nodup_transitions := by
      intro id
      rw [lists]
      split
      · exact nodup_push_size (agree.nodup_transitions id) fun _ => listed
      · exact agree.nodup_transitions id
    mem_globals := by
      intro entry
      rw [globals, size, node]
      by_cases last : entry = graph.transitions.size
      · subst last
        have fresh : graph.transitions.size ∉ graph.globals := fun member =>
          Nat.lt_irrefl _ (tabled member)
        by_cases everywhere : added.isGlobal = true
        · simp [everywhere]
        · simp [everywhere, fresh]
      · rw [lt_succ_iff_of_ne last, if_neg last, ← agree.mem_globals]
        split
        · simp [last]
        · rfl
    nodup_globals := by
      rw [globals]
      split
      · exact nodup_push_size agree.nodup_globals fun _ => tabled
      · exact agree.nodup_globals
    source_global := by
      intro entry
      rw [size, node]
      by_cases last : entry = graph.transitions.size
      · rw [if_pos last]
        exact fun _ => rooted
      · rw [lt_succ_iff_of_ne last, if_neg last]
        exact agree.source_global }

theorem TransitionsAgree.addTransition {source : StateId} (agree : graph.TransitionsAgree)
    (inside : source < graph.stateCount) (target : Option StateId) (trigger : Trigger) :
    (graph.addTransition source target trigger).2.TransitionsAgree := by
  apply agree.push (rfl : _ = graph.transitions.push (.plain source target trigger))
  · intro id
    simp only [Graph.addTransition]
    rw [state_modifyState]
    by_cases own : source = id
    · subst own
      rw [if_pos ⟨rfl, inside⟩, if_pos ⟨rfl, rfl⟩]
      rfl
    · rw [if_neg fun both => own both.1, if_neg fun both => own both.1]
      rfl
  · rfl
  · nofun

theorem TransitionsAgree.addGlobalTransition (agree : graph.TransitionsAgree)
    (target : StateId) (trigger : Trigger) :
    (graph.addGlobalTransition target trigger).2.TransitionsAgree := by
  apply agree.push (rfl : _ = graph.transitions.push
    { TransitionNode.plain rootId (some target) trigger with isGlobal := true })
  · intro id
    rw [if_neg fun both => Bool.noConfusion both.2]
    rfl
  · rfl
  · intro _
    rfl

theorem transition_modifyTransition (id other : TransitionId)
    (change : TransitionNode → TransitionNode) :
    (graph.modifyTransition id change).transition other =
      if id = other ∧ id < graph.transitions.size then change (graph.transition other)
      else graph.transition other := by
  simp only [transition, modifyTransition, Array.getD_eq_getD_getElem?, Array.getElem?_modify]
  by_cases same : id = other
  · subst same
    by_cases inside : id < graph.transitions.size <;> simp [inside]
  · simp [same]

theorem transitionsAgree_named (name : String) : (Graph.named name).TransitionsAgree := by
  have alone : ∀ id, ((Graph.named name).state id).transitions = #[] := by
    intro id
    cases id <;> rfl
  have none : (Graph.named name).transitions.size = 0 := rfl
  exact {
    mem_transitions := by simp [alone, none]
    nodup_transitions := by simp [alone]
    mem_globals := by simp [Graph.named]
    nodup_globals := by simp [Graph.named]
    source_global := by simp [none] }

theorem transitions_insertDetached (name : String) (id : StateId) :
    ((graph.insertDetached name).2.state id).transitions = (graph.state id).transitions := by
  rw [state_insertDetached]
  split
  · subst id
    rw [state_eq_default (Nat.le_refl graph.stateCount)]
    rfl
  · rfl

/-- In a drawn graph states and transitions agree on which transition leaves which
state. -/
theorem Drawn.transitionsAgree (drawn : Drawn graph) : graph.TransitionsAgree := by
  induction drawn with
  | named name => exact transitionsAgree_named name
  | rename name _ ih =>
    exact ih.congr (fun _ => rfl) rfl (fun _ => rfl) (fun _ => rfl) rfl
  | addState _ _ added ih =>
    rw [addState_eq_ok added]
    refine ih.congr (fun id => ?_) rfl (fun _ => rfl) (fun _ => rfl) rfl
    rw [transitions_attach, transitions_insertDetached]
  | addDetached _ added ih =>
    rw [addDetached_eq_ok added]
    exact ih.congr (transitions_insertDetached _) rfl (fun _ => rfl) (fun _ => rfl) rfl
  | @reparent graph id parent _ _ _ _ ih =>
    have table : (graph.reparent id parent).transitions = graph.transitions ∧
        (graph.reparent id parent).globals = graph.globals := by
      rw [reparent_eq, Graph.detach]
      split <;> exact ⟨rfl, rfl⟩
    have node : ∀ entry, (graph.reparent id parent).transition entry = graph.transition entry := by
      intro entry
      rw [transition, transition, table.1]
    refine ih.congr (fun other => ?_) (by rw [table.1]) (by simp [node]) (by simp [node]) table.2
    rw [reparent_eq, transitions_attach, transitions_detach]
  | configure id _ _ _ transitions ih =>
    refine ih.congr (fun other => ?_) rfl (fun _ => rfl) (fun _ => rfl) rfl
    rw [state_modifyState]
    split
    · exact transitions _
    · rfl
  | addTransition target trigger _ inside ih => exact ih.addTransition inside target trigger
  | addGlobalTransition target trigger _ ih => exact ih.addGlobalTransition target trigger
  | configureTransition id _ sources tables ih =>
    refine ih.congr (fun _ => rfl) Array.size_modify (fun other => ?_) (fun other => ?_) rfl
    all_goals
      rw [transition_modifyTransition]
      split
      · simp only [sources, tables]
      · rfl
  | registerAction name _ ih =>
    exact ih.congr (fun _ => rfl) rfl (fun _ => rfl) (fun _ => rfl) rfl
  | registerGuard name _ ih =>
    exact ih.congr (fun _ => rfl) rfl (fun _ => rfl) (fun _ => rfl) rfl
  | declareEvent _ declared ih =>
    rw [(declareEvent_eq_ok declared).2]
    exact ih.congr (fun _ => rfl) rfl (fun _ => rfl) (fun _ => rfl) rfl
  | layOut _ ih => exact ih.congr transitions_layOut rfl (fun _ => rfl) (fun _ => rfl) rfl

/-! ### Events -/

/-- Every event of a drawn graph has an id of its own. -/
theorem Drawn.size_events_le (drawn : Drawn graph) :
    graph.events.size + Event.firstUserId ≤ 65536 := by
  induction drawn with
  | named name => exact Nat.le_of_ble_eq_true rfl
  | rename name _ ih => exact ih
  | addState _ _ added ih =>
    rw [addState_eq_ok added]
    exact ih
  | addDetached _ added ih =>
    rw [addDetached_eq_ok added]
    exact ih
  | @reparent graph id parent _ _ _ _ ih =>
    have kept : (graph.reparent id parent).events = graph.events := by
      rw [reparent_eq, Graph.detach]
      split <;> rfl
    rw [kept]
    exact ih
  | configure id _ _ _ _ ih => exact ih
  | addTransition target trigger _ _ ih => exact ih
  | addGlobalTransition target trigger _ ih => exact ih
  | configureTransition id _ _ _ ih => exact ih
  | registerAction name _ ih => exact ih
  | registerGuard name _ ih => exact ih
  | declareEvent _ declared ih =>
    obtain ⟨free, rfl⟩ := declareEvent_eq_ok declared
    simp only [insertEvent, Array.size_push]
    omega
  | layOut _ ih => exact ih

end Graph

end Statechart.Chart
