/-
# Graphs without errors

A graph is accepted when none of the nine families of findings holds an error. Findings
are lists that are put together by appending and by going through the states and the
transitions, and an error is in such a list exactly when it is in one of its parts
(`hasErrors_append`, `hasErrors_flatMap`).
-/

import Statechart.Chart.Findings
import Statechart.Proofs.Folds

namespace Statechart.Chart

/-! ### Errors in lists of findings -/

namespace Diagnostics

@[simp]
theorem hasErrors_nil : hasErrors [] = false := rfl

@[simp]
theorem hasErrors_append (first second : Diagnostics) :
    hasErrors (first ++ second) = false ↔ hasErrors first = false ∧ hasErrors second = false := by
  rw [hasErrors, List.any_append, Bool.or_eq_false_iff]
  rfl

theorem hasErrors_flatMap {α : Type} (entries : List α) (found : α → Diagnostics) :
    hasErrors (entries.flatMap found) = false ↔
      ∀ entry ∈ entries, hasErrors (found entry) = false := by
  simp only [hasErrors, List.any_flatMap]
  simp

/-- A lone finding that is an error. -/
theorem hasErrors_report {kind : DiagnosticKind} (severe : kind.severity = .error)
    (detail state : Option String) : hasErrors [.report kind detail state] = true := by
  simp [hasErrors, Diagnostic.isError, Diagnostic.severity, Diagnostic.report, severe]

/-- An error that is reported on a condition is not there when the condition fails. -/
theorem hasErrors_ite {condition : Prop} [Decidable condition] {kind : DiagnosticKind}
    (severe : kind.severity = .error) (detail state : Option String) :
    hasErrors (if condition then [.report kind detail state] else []) = false ↔
      ¬condition := by
  split
  · rename_i holds
    simp [hasErrors_report severe, holds]
  · rename_i fails
    simp [fails]

end Diagnostics

namespace Graph

variable {graph : Graph}

/-! ### The nine families -/

/-- No family of findings holds an error. -/
structure Accepted (graph : Graph) : Prop where
  root : graph.rootFindings.hasErrors = false
  tree : graph.treeFindings.hasErrors = false
  states : ∀ id ∈ graph.order, (graph.stateFindings id).hasErrors = false
  limits : graph.limitFindings.hasErrors = false
  transitions : graph.transitionFindings.hasErrors = false
  events : graph.eventFindings.hasErrors = false
  stableIds : graph.stableIdFindings.hasErrors = false
  slots : graph.slotFindings.hasErrors = false
  capacity : graph.capacityFindings.hasErrors = false

theorem accepted_iff : graph.Accepted ↔ graph.findings.hasErrors = false := by
  simp only [findings, Diagnostics.hasErrors_append, Diagnostics.hasErrors_flatMap,
    Array.mem_toList_iff, and_assoc]
  constructor
  · rintro ⟨root, tree, states, limits, transitions, events, stableIds, slots, capacity⟩
    exact ⟨root, tree, states, limits, transitions, events, stableIds, slots, capacity⟩
  · rintro ⟨root, tree, states, limits, transitions, events, stableIds, slots, capacity⟩
    exact ⟨root, tree, states, limits, transitions, events, stableIds, slots, capacity⟩

/-- A graph without any state is not accepted. -/
theorem Accepted.children_root_ne (accepted : graph.Accepted) :
    (graph.state rootId).children ≠ #[] := by
  have clean := accepted.root
  rw [rootFindings, Diagnostics.hasErrors_ite rfl] at clean
  simpa using clean

theorem getD_marks (ids : List StateId) (marks : Array Bool) (id : StateId) :
    (ids.foldl (fun marks id => marks.set! id true) marks).getD id false =
      (marks.getD id false || (decide (id < marks.size) && decide (id ∈ ids))) := by
  induction ids generalizing marks with
  | nil => simp
  | cons first rest ih =>
    rw [List.foldl_cons, ih]
    simp only [Array.getD_eq_getD_getElem?, Array.set!_eq_setIfInBounds,
      Array.getElem?_setIfInBounds, Array.size_setIfInBounds, List.mem_cons]
    by_cases same : first = id
    · subst same
      by_cases inside : first < marks.size <;> simp [inside]
    · have differs : id ≠ first := fun equal => same equal.symm
      simp [same, differs]

/-- The marked states are those that have a place in the order. -/
theorem getD_inTree (id : StateId) :
    graph.inTree.getD id false = true ↔ id < graph.stateCount ∧ id ∈ graph.order := by
  have unmarked : (Array.replicate graph.stateCount false).getD id false = false := by
    rw [Array.getD_eq_getD_getElem?, Array.getElem?_replicate]
    split <;> rfl
  rw [inTree, ← Array.foldl_toList, getD_marks, unmarked]
  simp

/-- No state outside the order but the root is reported. -/
theorem Accepted.stray (accepted : graph.Accepted) {id : StateId}
    (inside : id < graph.stateCount) (other : id ≠ rootId) (lost : id ∉ graph.order) :
    (graph.strayFindings id).hasErrors = false := by
  have clean := accepted.tree
  rw [treeFindings, Diagnostics.hasErrors_flatMap] at clean
  have here := clean id (List.mem_range.2 inside)
  rwa [if_neg] at here
  rintro (top | marked)
  · exact other top
  · exact lost ((getD_inTree id).1 marked).2

/-! ### What the other families grant -/

theorem Accepted.size_order_le (accepted : graph.Accepted) :
    graph.order.size ≤ Rom.maxStates := by
  have clean := accepted.limits
  rw [limitFindings, Diagnostics.hasErrors_append, Diagnostics.hasErrors_append,
    Diagnostics.hasErrors_ite rfl] at clean
  exact Nat.not_lt.1 clean.1.1

theorem Accepted.size_transitions_le (accepted : graph.Accepted) :
    graph.transitions.size ≤ Rom.maxTransitions := by
  have clean := accepted.limits
  rw [limitFindings, Diagnostics.hasErrors_append, Diagnostics.hasErrors_append] at clean
  exact Nat.not_lt.1 ((Diagnostics.hasErrors_ite rfl _ _).1 clean.1.2)

/-- The deeper of two states is at least as deep as both. -/
theorem le_deeper (first second : Nat × StateId) :
    first.1 ≤ (deeper first second).1 ∧ second.1 ≤ (deeper first second).1 := by
  unfold deeper
  split <;> omega

/-- The deepest state is at least as deep as any state of the order. -/
theorem exists_deepest {id : StateId} {placement : Placement} (listed : id ∈ graph.order)
    (placed : (graph.state id).placement = some placement) :
    ∃ depth other, graph.deepest? = some (depth, other) ∧ placement.depth ≤ depth := by
  rw [deepest?, ← Array.foldl_toList]
  refine foldl_of_mem (fun best => ∃ depth other, best = some (depth, other) ∧
    placement.depth ≤ depth) (Array.mem_toList_iff.2 listed) ?_ ?_ none
  · intro best
    rw [placed]
    cases best with
    | none => exact ⟨placement.depth, id, rfl, Nat.le_refl _⟩
    | some best => exact ⟨_, _, rfl, (le_deeper best (placement.depth, id)).2⟩
  · rintro _ other ⟨depth, deepest, rfl, below⟩
    cases (graph.state other).placement with
    | none => exact ⟨depth, deepest, rfl, below⟩
    | some next =>
      exact ⟨_, _, rfl, Nat.le_trans below (le_deeper (depth, deepest) (next.depth, other)).1⟩

theorem Accepted.depth_le (accepted : graph.Accepted) {id : StateId} {placement : Placement}
    (listed : id ∈ graph.order) (placed : (graph.state id).placement = some placement) :
    placement.depth ≤ Rom.maxDepth := by
  obtain ⟨depth, other, deepest, below⟩ := exists_deepest listed placed
  have clean := accepted.limits
  rw [limitFindings, Diagnostics.hasErrors_append] at clean
  have shallow := clean.2
  rw [deepest] at shallow
  exact Nat.le_trans below (Nat.not_lt.1 ((Diagnostics.hasErrors_ite rfl _ _).1 shallow))

/-- A state with history has children and enters one of them. -/
theorem Accepted.history (accepted : graph.Accepted) {id : StateId} (listed : id ∈ graph.order)
    (keeps : (graph.state id).history ≠ .none) :
    (graph.state id).children ≠ #[] ∧ (graph.state id).parallel = false := by
  have clean := accepted.states id listed
  simp only [stateFindings, Diagnostics.hasErrors_append, if_neg keeps] at clean
  have history := clean.1.1.2
  split at history
  · rw [Diagnostics.hasErrors_report rfl] at history
    cases history
  · rename_i branch
    refine ⟨fun leaf => branch (by simp [leaf]), ?_⟩
    exact Bool.eq_false_iff.2 ((Diagnostics.hasErrors_ite rfl _ _).1 history)

/-- What an accepted transition is like. -/
structure Wired (graph : Graph) (transition : TransitionNode) : Prop where
  priority_le : transition.priority.toNat ≤ Rom.maxPriority
  isInternal_of_none : transition.target = none → transition.isInternal = true
  target_ne {target : StateId} : transition.target = some target → target ≠ rootId
  target_lt {target : StateId} : transition.target = some target → target < graph.stateCount
  target_mem {target : StateId} : transition.target = some target → target ∈ graph.order

theorem wired_of_clean {transition : TransitionNode} {place : String}
    (clean : (graph.wiringFindings graph.inTree transition place).hasErrors = false) :
    graph.Wired transition := by
  simp only [wiringFindings, Diagnostics.hasErrors_append] at clean
  obtain ⟨⟨-, priority⟩, target⟩ := clean
  have reached {id : StateId} (leads : transition.target = some id) :
      id ≠ rootId ∧ id < graph.stateCount ∧ id ∈ graph.order := by
    rw [leads] at target
    simp only at target
    split at target
    · rw [Diagnostics.hasErrors_report rfl] at target
      cases target
    · rename_i other
      split at target
      · rename_i marked
        exact ⟨other, (getD_inTree id).1 marked⟩
      · rw [Diagnostics.hasErrors_report rfl] at target
        cases target
  exact {
    priority_le := Nat.not_lt.1 ((Diagnostics.hasErrors_ite rfl _ _).1 priority)
    isInternal_of_none := by
      intro missing
      rw [missing] at target
      simp only at target
      split at target
      · assumption
      · rw [Diagnostics.hasErrors_report rfl] at target
        cases target
    target_ne := fun leads => (reached leads).1
    target_lt := fun leads => (reached leads).2.1
    target_mem := fun leads => (reached leads).2.2 }

/-- Global transitions and those of states in the order are checked. -/
theorem Accepted.wired (accepted : graph.Accepted) {id : TransitionId}
    (inside : id < graph.transitions.size)
    (looked : (graph.transition id).isGlobal = true ∨
      (graph.transition id).source < graph.stateCount ∧
        (graph.transition id).source ∈ graph.order) :
    graph.Wired (graph.transition id) := by
  have clean := accepted.transitions
  rw [transitionFindings, Diagnostics.hasErrors_flatMap] at clean
  have node : graph.transition id = graph.transitions[id] := by
    rw [transition, Array.getD_eq_getD_getElem?, Array.getElem?_eq_getElem inside]
    rfl
  have here := clean _ (Array.mem_toList_iff.2 (node ▸ Array.getElem_mem inside))
  rcases looked with isGlobal | ⟨sourceInside, listed⟩
  · rw [if_pos isGlobal] at here
    exact wired_of_clean here
  · split at here
    · exact wired_of_clean here
    · rw [if_pos ((getD_inTree _).2 ⟨sourceInside, listed⟩)] at here
      exact wired_of_clean here

/-! ### Capacity -/

theorem Accepted.capacity_le (accepted : graph.Accepted) :
    graph.maxLeaves ≤ Tier.tier256.leafCapacity ∧
      graph.slotCount Placement.timerSlot ≤ Tier.tier256.timerCapacity ∧
      graph.slotCount Placement.historySlot ≤ Tier.tier256.historyCapacity := by
  have clean := accepted.capacity
  simp only [capacityFindings, Diagnostics.hasErrors_append] at clean
  obtain ⟨⟨leaves, timers⟩, histories⟩ := clean
  exact ⟨Nat.not_lt.1 ((Diagnostics.hasErrors_ite rfl _ _).1 leaves),
    Nat.not_lt.1 ((Diagnostics.hasErrors_ite rfl _ _).1 timers),
    Nat.not_lt.1 ((Diagnostics.hasErrors_ite rfl _ _).1 histories)⟩

/-- Every slot in use is counted. -/
theorem lt_slotCount {slot : Placement → Option UInt16} {id : StateId} {number : UInt16}
    (listed : id ∈ graph.order)
    (used : (graph.state id).placement.bind slot = some number) :
    number.toNat < graph.slotCount slot := by
  rw [slotCount, ← Array.foldl_toList]
  apply foldl_of_mem (number.toNat < ·) (Array.mem_toList_iff.2 listed)
  · intro count
    rw [used]
    exact Nat.lt_of_succ_le (Nat.le_max_right ..)
  · intro count other already
    cases (graph.state other).placement.bind slot with
    | none => exact already
    | some slot => exact Nat.lt_of_lt_of_le already (Nat.le_max_left ..)

end Graph

end Statechart.Chart
