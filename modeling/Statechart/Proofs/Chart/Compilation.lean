/-
# Compiling a drawn graph

The leaf counts of graph and tables are the same numbers, worked out along the order
from its end (`Ready.maxLeaves_eq`), so what was accepted has room in the largest tier.
Together with the tables being well-formed and encodable this leaves three ways in which
compiling a drawn graph can end: with findings, with a collision of ids, or with a
definition that keeps all its promises (`Drawn.compile_eq`).
-/

import Statechart.Chart.Compile
import Statechart.Proofs.Chart.Flattening
import Statechart.Proofs.Returns
import Statechart.Proofs.Rom.Capacity

namespace Statechart.Chart

open Statechart.Rom

namespace Graph

variable {graph : Graph}

/-! ### Leaf counts -/

/-- Count the leaves below the next state. -/
def countNext (graph : Graph) (counts : Array (Option Nat)) (id : StateId) :
    Array (Option Nat) :=
  counts.set! id (some (graph.leafCount counts id))

namespace Ready

variable (actions guards : NameTable)

theorem states_getD {place : Nat} {id : StateId} (here : graph.order[place]? = some id) :
    (graph.sections actions guards).states.getD place .blank =
      graph.stateRecord id (graph.transitionsBefore place) (graph.regionsBefore place) := by
  rw [Array.getD_eq_getD_getElem?, getElem?_states actions guards here]
  rfl

/-- The children of a state are the states at the places that its record names. -/
theorem toList_children_eq (ready : graph.Ready) {place : Nat} {id : StateId}
    (here : graph.order[place]? = some id) :
    (graph.state id).children.toList =
      (List.range' (graph.childrenBefore place + 1) (graph.state id).children.size).map
        fun index => graph.order.getD index rootId := by
  apply List.ext_getElem
  · simp
  · intro offset inChildren inRange
    have inside : offset < (graph.state id).children.size := by simpa using inChildren
    have found := ready.getElem?_children here inside
    rw [Array.getElem?_eq_getElem inside] at found
    simp [Array.getD_eq_getD_getElem?, found]

theorem isLeaf_stateRecord (ready : graph.Ready) {id : StateId} (inside : id < graph.stateCount)
    (transitions regions : Nat) :
    (graph.stateRecord id transitions regions).isLeaf = (graph.state id).children.isEmpty := by
  obtain ⟨place, here⟩ := ready.exists_place inside
  have fits := ready.childrenBefore_add_le here
  have few : graph.order.size ≤ 65535 := ready.accepted.size_order_le
  have count : (UInt16.ofNat (graph.state id).children.size).toNat =
      (graph.state id).children.size :=
    toNat_ofNat_of_le (show _ ≤ 65535 by omega)
  show (UInt16.ofNat (graph.state id).children.size == 0) = _
  rw [Bool.eq_iff_iff, beq_iff_eq, ← UInt16.toNat_inj, count, Array.isEmpty_iff_size_eq_zero]
  rfl

/-- A state is counted as its record is, once its children are. -/
theorem leafCount_eq (ready : graph.Ready) {place : Nat} {id : StateId}
    (here : graph.order[place]? = some id) {table : Array (Option Nat)} {counts : Array Nat}
    (known : ∀ index, place < index → ∀ child, graph.order[index]? = some child →
      table.getD child none = some (counts.getD index 0)) :
    graph.leafCount table id =
      ((graph.sections actions guards).states.getD place .blank).weigh counts := by
  have wellFormed := ready.wellFormed actions guards
  have inside := ready.lt_stateCount here
  have record := states_getD actions guards here
  have placeInside : place < (graph.sections actions guards).states.size := by
    show place < graph.stateRecords.size
    rw [size_stateRecords]
    exact (Array.getElem?_eq_some_iff.1 here).1
  have range :=
    ready.toList_children here (graph.transitionsBefore place) (graph.regionsBefore place)
  have later {index : Nat} (listed : index ∈
      List.range' (graph.childrenBefore place + 1) (graph.state id).children.size) :
      place < index ∧ index < graph.order.size := by
    rw [← range, ← record] at listed
    obtain ⟨behind, bound⟩ := wellFormed.index_lt placeInside listed
    refine ⟨behind, ?_⟩
    rw [← size_stateRecords]
    exact bound
  have children : (graph.state id).children.toList.filterMap (fun child => table.getD child none) =
      (List.range' (graph.childrenBefore place + 1) (graph.state id).children.size).map
        fun index => counts.getD index 0 := by
    rw [ready.toList_children_eq here, List.filterMap_map, ← List.filterMap_eq_map]
    apply List.filterMap_congr
    intro index listed
    obtain ⟨behind, bound⟩ := later listed
    have there := Array.getElem?_eq_getElem bound
    have child : graph.order.getD index rootId = graph.order[index] := by
      rw [Array.getD_eq_getD_getElem?, there, Option.getD_some]
    rw [Function.comp_apply, child, known index behind _ there]
    rfl
  unfold leafCount StateRecord.weigh
  rw [record, range, ready.isLeaf_stateRecord inside]
  simp only [children]
  by_cases leaf : (graph.state id).children.isEmpty = true
  · rw [if_pos leaf, if_pos leaf]
  · rw [if_neg leaf, if_neg leaf]
    show _ = if (graph.state id).parallel = true then _ else _
    by_cases parallel : (graph.state id).parallel = true
    · rw [if_pos parallel, if_pos parallel]
    · rw [if_neg parallel, if_neg parallel]
      have some : (graph.state id).children.size ≠ 0 := fun none =>
        leaf (Array.isEmpty_iff_size_eq_zero.2 none)
      obtain ⟨count, size⟩ := Nat.exists_eq_succ_of_ne_zero some
      rw [size, List.range'_succ, List.map_cons, List.foldl_cons, Nat.zero_max]

/-- Once the states from `left` on are counted, so are the others. -/
theorem foldl_countNext (ready : graph.Ready) {counts : Array Nat}
    (counted : (graph.sections actions guards).Counted counts) {left : Nat}
    (table : Array (Option Nat)) (within : left ≤ graph.order.size)
    (size : table.size = graph.stateCount)
    (known : ∀ index, left ≤ index → ∀ child, graph.order[index]? = some child →
      table.getD child none = some (counts.getD index 0)) :
    ∀ index child, graph.order[index]? = some child →
      ((graph.order.toList.take left).reverse.foldl graph.countNext table).getD child none =
        some (counts.getD index 0) := by
  induction left generalizing table with
  | zero => exact fun index child => known index (Nat.zero_le index) child
  | succ left ih =>
    have inside : left < graph.order.size := within
    have here := Array.getElem?_eq_getElem inside
    have stateInside := ready.lt_stateCount here
    have next : graph.order.toList.take (left + 1) =
        graph.order.toList.take left ++ [graph.order[left]] := by
      rw [List.take_add_one, Array.getElem?_toList, here]
      rfl
    rw [next, List.reverse_append, List.reverse_singleton, List.singleton_append, List.foldl_cons]
    refine ih _ (Nat.le_of_lt inside) ?_ fun index late child there => ?_
    · rw [countNext, Array.set!_eq_setIfInBounds, Array.size_setIfInBounds, size]
    · rw [countNext, getD_set]
      by_cases same : left = index
      · subst same
        obtain rfl := Option.some.inj (here.symm.trans there)
        rw [if_pos ⟨rfl, size ▸ stateInside⟩, ready.leafCount_eq actions guards here known]
        have written : left < (graph.sections actions guards).states.size := by
          show left < graph.stateRecords.size
          rw [size_stateRecords]
          exact inside
        rw [counted.count_eq written]
      · have differs : graph.order[left] ≠ child := fun equal =>
          same (ready.place_inj here (equal ▸ there))
        rw [if_neg fun both => differs both.1]
        exact known index (Nat.lt_of_le_of_ne late same) child there

/-- Graph and tables have room for the same leaves. -/
theorem maxLeaves_eq (ready : graph.Ready) {counts : Array Nat}
    (counted : (graph.sections actions guards).Counted counts) :
    graph.maxLeaves = counts.getD 0 0 := by
  have all := ready.foldl_countNext actions guards counted
    (Array.replicate graph.stateCount none) (Nat.le_refl _) Array.size_replicate
    (fun index late child there =>
      absurd (Array.getElem?_eq_some_iff.1 there).1 (Nat.not_lt.2 late)) 0 rootId ready.first
  have whole : graph.order.toList.take graph.order.size = graph.order.toList :=
    List.take_of_length_le (Nat.le_of_eq Array.length_toList)
  rw [whole] at all
  show (Array.getD (graph.order.toList.reverse.foldl graph.countNext _) rootId none).getD 0 = _
  rw [all]
  rfl

/-! ### Compiling -/

/-- The tables of a ready graph have a shape that some tier has room for. -/
theorem exists_shape (ready : graph.Ready) :
    ∃ shape, Shape.ofSections (graph.sections actions guards) = .ok shape ∧ shape.Modest := by
  have wellFormed := ready.wellFormed actions guards
  obtain ⟨counts, shape, counted, shaped, leaves⟩ := wellFormed.exists_shape
  obtain ⟨historyCount, timerCount⟩ := Sections.slots_of_shape shaped
  have states {record : StateRecord}
      (listed : record ∈ (graph.sections actions guards).states.toList) :
      ∃ id ∈ graph.order, ∃ transitions regions,
        record = graph.stateRecord id transitions regions := by
    obtain ⟨place, there⟩ := List.mem_iff_getElem?.1 listed
    rw [Array.getElem?_toList] at there
    have bound := (Array.getElem?_eq_some_iff.1 there).1
    have inside : place < graph.order.size := by
      rw [← size_stateRecords]
      exact bound
    have here := Array.getElem?_eq_getElem inside
    rw [getElem?_states actions guards here] at there
    exact ⟨_, Array.getElem_mem inside, _, _, (Option.some.inj there).symm⟩
  refine ⟨shape, shaped, ?_, ?_, ?_⟩
  · rw [leaves, ← ready.maxLeaves_eq actions guards counted]
    exact Nat.max_le.2 ⟨ready.accepted.capacity_le.1, by decide⟩
  · rw [timerCount]
    apply Shape.slotCount_le
    intro slot listed
    obtain ⟨record, inTable, rfl⟩ := List.mem_map.1 listed
    obtain ⟨member, runs⟩ := List.mem_filter.1 inTable
    obtain ⟨id, inOrder, transitions, regions, rfl⟩ := states member
    have runsTimer : (graph.state id).timer.isSome = true := (Bool.and_eq_true_iff.1 runs).1
    obtain ⟨slot, claimed⟩ := ready.exists_timerSlot (ready.mem_order_iff.1 inOrder) runsTimer
    show (if (graph.state id).timer.isSome then
      ((graph.state id).placement.bind Placement.timerSlot).getD noIndex else noIndex).toNat < _
    rw [if_pos runsTimer, claimed, Option.getD_some]
    exact Nat.lt_of_lt_of_le (lt_slotCount inOrder claimed) ready.accepted.capacity_le.2.1
  · rw [historyCount]
    apply Shape.slotCount_le
    intro slot listed
    obtain ⟨inTable, used⟩ := List.mem_filter.1 listed
    obtain ⟨record, member, rfl⟩ := List.mem_map.1 inTable
    obtain ⟨id, inOrder, transitions, regions, rfl⟩ := states member
    have slotOf : (graph.stateRecord id transitions regions).historySlot =
        ((graph.state id).placement.bind Placement.historySlot).getD noIndex := rfl
    rw [slotOf] at used ⊢
    cases claimed : (graph.state id).placement.bind Placement.historySlot with
    | none =>
      rw [claimed] at used
      cases used
    | some slot =>
      exact Nat.lt_of_lt_of_le (lt_slotCount inOrder claimed) ready.accepted.capacity_le.2.2

end Ready

/-- A graph with errors is rejected with all that was found. -/
theorem compileLaidOut_of_hasErrors (rejected : graph.findings.hasErrors = true) :
    graph.compileLaidOut = .ok (.error (.validationFailed graph.findings)) := by
  unfold compileLaidOut
  rw [if_pos rejected]
  rfl

theorem compileLaidOut_of_collision {collision : IdCollision}
    (clean : graph.findings.hasErrors = false)
    (collided : graph.flatten = .ok (.error collision)) :
    graph.compileLaidOut = .ok (.error (.idCollision collision)) := by
  unfold compileLaidOut
  simp only [clean, collided]
  rfl

theorem compileLaidOut_eq {flat : Flat} {blob : Bytes} {definition : Definition}
    (clean : graph.findings.hasErrors = false) (flattened : graph.flatten = .ok (.ok flat))
    (emitted : flat.sections.emit = .ok blob)
    (loaded : Definition.load blob = .ok (.ok definition)) :
    graph.compileLaidOut = .ok (.ok {
      definition := definition
      metadata := graph.metadata flat
      warnings := graph.findings.warnings }) := by
  unfold compileLaidOut
  simp only [clean, flattened, emitted, loaded, Bool.false_eq_true, if_false, ok_bind]
  rfl

/-- A ready graph compiles to a definition that keeps its promises, unless two names have
one id. -/
theorem Ready.compileLaidOut_eq (ready : graph.Ready) :
    (∃ collision, graph.flatten = .ok (.error collision) ∧
        graph.compileLaidOut = .ok (.error (.idCollision collision))) ∨
      ∃ compiled actions guards, graph.compileLaidOut = .ok (.ok compiled) ∧
        compiled.definition.Sound ∧
        compiled.definition.sections = graph.sections actions guards ∧
        compiled.definition.structureHash = compiled.definition.sections.structureHash := by
  have clean := accepted_iff.1 ready.accepted
  rcases ready.flatten_eq with ⟨collision, flattened⟩ |
    ⟨actions, guards, apart, apartGuards, flattened⟩
  · exact .inl ⟨collision, flattened, compileLaidOut_of_collision clean flattened⟩
  · have encodable := ready.encodable apart apartGuards
    have wellFormed := ready.wellFormed actions guards
    obtain ⟨shape, shaped, modest⟩ := ready.exists_shape actions guards
    generalize kept : graph.sections actions guards = sections at *
    have loaded := encodable.load_eq wellFormed.inhabited shaped sections.structureHash
      sections.parameterHash
    have emitted := encodable.encode_eq_ok sections.structureHash sections.parameterHash
    exact .inr ⟨_, actions, guards, Graph.compileLaidOut_eq clean flattened emitted loaded,
      ⟨wellFormed, shaped, modest⟩, kept.symm, rfl⟩

/-- Compiling a drawn graph ends with findings, with a collision of ids, or with a
definition that keeps its promises. -/
theorem Drawn.compile_eq (drawn : Drawn graph) :
    (∃ diagnostics, graph.compile = .ok (.error (.validationFailed diagnostics))) ∨
      (∃ collision, graph.compile = .ok (.error (.idCollision collision))) ∨
      ∃ compiled actions guards, graph.compile = .ok (.ok compiled) ∧
        compiled.definition.Sound ∧
        compiled.definition.sections = graph.layOut.sections actions guards ∧
        compiled.definition.structureHash = compiled.definition.sections.structureHash := by
  cases rejected : graph.layOut.findings.hasErrors with
  | true =>
    exact .inl ⟨graph.layOut.findings, compileLaidOut_of_hasErrors rejected⟩
  | false =>
    have ready := drawn.ready (accepted_iff.2 rejected)
    rcases ready.compileLaidOut_eq with ⟨collision, _, collided⟩ | done
    · exact .inr (.inl ⟨collision, collided⟩)
    · exact .inr (.inr done)

/-- What a drawn graph compiles to keeps its promises, and has the tables of the graph in its
final order. -/
theorem Drawn.exists_tables (drawn : Drawn graph) {compiled : Compiled}
    (compiles : graph.compile = .ok (.ok compiled)) :
    compiled.definition.Sound ∧ graph.layOut.Ready ∧ ∃ actions guards,
      compiled.definition.sections = graph.layOut.sections actions guards := by
  have clean : graph.layOut.findings.hasErrors = false := by
    apply Bool.eq_false_iff.2
    intro rejected
    cases compiles.symm.trans (compileLaidOut_of_hasErrors rejected)
  have ready := drawn.ready (accepted_iff.2 clean)
  rcases ready.compileLaidOut_eq with ⟨_, _, collided⟩ |
    ⟨_, actions, guards, done, sound, tables, _⟩
  · cases compiles.symm.trans collided
  · cases compiles.symm.trans done
    exact ⟨sound, ready, actions, guards, tables⟩

/-- What a drawn graph compiles to keeps its promises, and its root is parallel if the
graph's is. -/
theorem Drawn.sound (drawn : Drawn graph) {compiled : Compiled}
    (compiles : graph.compile = .ok (.ok compiled)) :
    compiled.definition.Sound ∧
      (compiled.definition.sections.record rootIndex).flags.parallel =
        (graph.state rootId).parallel := by
  obtain ⟨sound, _, actions, guards, tables⟩ := drawn.exists_tables compiles
  refine ⟨sound, ?_⟩
  have here : graph.layOut.order[rootIndex.toNat]? = some rootId :=
    getElem?_breadthFirst_zero drawn.stateCount_pos
  rw [tables, Ready.record_eq actions guards here]
  show (graph.layOut.state rootId).parallel = _
  rw [state_layOut]

/-- The transitions that may be taken from anywhere have no source. -/
theorem Drawn.source_of_global (drawn : Drawn graph) {compiled : Compiled}
    (compiles : graph.compile = .ok (.ok compiled)) {transition : TransitionRecord}
    (listed : transition ∈ compiled.definition.sections.globals) :
    transition.source = noIndex := by
  obtain ⟨_, ready, actions, guards, tables⟩ := drawn.exists_tables compiles
  rw [tables] at listed
  obtain ⟨id, inTable, rfl⟩ := Ready.mem_sections_globals actions guards listed
  exact if_pos (ready.wires.mem_globals.1 inTable).2

/-- The transitions in the runs of states are not global. -/
theorem Drawn.isGlobal_of_local (drawn : Drawn graph) {compiled : Compiled}
    (compiles : graph.compile = .ok (.ok compiled)) {transition : TransitionRecord}
    (listed : transition ∈ compiled.definition.sections.transitions) :
    transition.flags.isGlobal = false := by
  obtain ⟨_, ready, actions, guards, tables⟩ := drawn.exists_tables compiles
  rw [tables] at listed
  obtain ⟨state, _, id, inRun, rfl⟩ := Ready.mem_sections_transitions actions guards listed
  exact (ready.mem_localTransitions.1 inRun).2.2

/-- Compiling a drawn graph never breaks off, and its blob is always read back: it is
rejected with findings or for two names with one id, or its tables are well-formed. -/
theorem compile_wellFormed (drawn : Drawn graph) :
    (∃ diagnostics, graph.compile = .ok (.error (.validationFailed diagnostics))) ∨
      (∃ collision, graph.compile = .ok (.error (.idCollision collision))) ∨
      ∃ compiled, graph.compile = .ok (.ok compiled) ∧
        compiled.definition.sections.WellFormed := by
  rcases drawn.compile_eq with rejected | collided | ⟨compiled, _, _, done, sound, -⟩
  · exact .inl rejected
  · exact .inr (.inl collided)
  · exact .inr (.inr ⟨compiled, done, sound.wellFormed⟩)

theorem compile_wellFormed_lone :
    Drawn lone ∧
      ((∃ diagnostics, lone.compile = .ok (.error (.validationFailed diagnostics))) ∨
        (∃ collision, lone.compile = .ok (.error (.idCollision collision))) ∨
        ∃ compiled, lone.compile = .ok (.ok compiled) ∧
          compiled.definition.sections.WellFormed) :=
  ⟨drawn_lone, compile_wellFormed drawn_lone⟩

/-- A drawn graph without errors compiles unless two names have one id. -/
theorem Drawn.exists_compiled (drawn : Drawn graph)
    (clean : graph.layOut.findings.hasErrors = false)
    (flattens : (match graph.layOut.flatten with
      | .ok (.ok _) => true
      | _ => false) = true) : ∃ compiled, graph.compile = .ok (.ok compiled) := by
  rcases (drawn.ready (accepted_iff.2 clean)).compileLaidOut_eq with
    ⟨collision, collided, _⟩ | ⟨compiled, _, _, done, _⟩
  · rw [collided] at flattens
    cases flattens
  · exact ⟨compiled, done⟩

theorem exists_compiled_lone : ∃ compiled, lone.compile = .ok (.ok compiled) :=
  drawn_lone.exists_compiled (by decide +kernel) (by decide +kernel)

end Graph

end Statechart.Chart
