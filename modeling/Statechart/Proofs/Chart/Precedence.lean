/-
# The order of transitions

A graph numbers its transitions as they are added, so the lists of the states and the one of the
global transitions ascend (`Drawn.transitionsAscend`). Sorting by priority keeps the order of what
is level, so each list comes out in one order that is told by priorities and numbers alone
(`ranks_byPriority`).

The records of the states name runs in the table of transitions, each of them behind the ones
before it. The main statement (`transition_tables`) says that the runs are the whole table one
after the other, what is in each of them and in which order, and the same of the global table.
-/

import Statechart.Proofs.Chart.Correspondence
import Statechart.Proofs.Chart.Runs
import Statechart.Proofs.Chart.Vocabulary

namespace Statechart

/-! ### Runs in the table -/

namespace Rom

/-- The places in the table of transitions that a record names. -/
def StateRecord.run (record : StateRecord) : List Nat :=
  List.range' record.transitionStart.toNat record.transitionCount.toNat

/-- The transitions at the places that the record of a state names. -/
def Sections.transitionsOf (sections : Sections) (state : UInt16) : List TransitionRecord :=
  let record := sections.record state
  (sections.transitions.extract record.transitionStart.toNat
    (record.transitionStart.toNat + record.transitionCount.toNat)).toList

end Rom

namespace Chart.Graph

open Statechart.Rom

variable {graph : Graph}

/-! ### Declaration order -/

/-- States list their transitions in the order in which they were added, and so are the global ones
listed. -/
structure TransitionsAscend (graph : Graph) : Prop where
  transitions (id : StateId) : (graph.state id).transitions.toList.Pairwise (· < ·)
  globals : graph.globals.toList.Pairwise (· < ·)

theorem TransitionsAscend.congr {next : Graph} (ascend : graph.TransitionsAscend)
    (lists : ∀ id, (next.state id).transitions = (graph.state id).transitions)
    (globals : next.globals = graph.globals) : next.TransitionsAscend where
  transitions id := by
    rw [lists]
    exact ascend.transitions id
  globals := by
    rw [globals]
    exact ascend.globals

/-- Appending a number that is larger than all others keeps them ascending. -/
theorem pairwise_push_size {listed : Array Nat} {count : Nat}
    (ascend : listed.toList.Pairwise (· < ·)) (below : ∀ entry ∈ listed, entry < count) :
    (listed.push count).toList.Pairwise (· < ·) := by
  rw [Array.toList_push, List.pairwise_append]
  refine ⟨ascend, List.pairwise_singleton _ _, fun entry member last same => ?_⟩
  rw [List.mem_singleton.1 same]
  exact below entry (Array.mem_toList_iff.1 member)

/-- In a drawn graph transitions are listed in the order in which they were added. -/
theorem Drawn.transitionsAscend (drawn : Drawn graph) : graph.TransitionsAscend := by
  induction drawn with
  | named name =>
    refine ⟨fun id => ?_, List.Pairwise.nil⟩
    cases id <;> exact List.Pairwise.nil
  | rename name _ ih => exact ih.congr (fun _ => rfl) rfl
  | addState _ _ added ih =>
    rw [addState_eq_ok added]
    refine ih.congr (fun id => ?_) rfl
    rw [transitions_attach, transitions_insertDetached]
  | addDetached _ added ih =>
    rw [addDetached_eq_ok added]
    exact ih.congr (transitions_insertDetached _) rfl
  | @reparent graph id parent _ _ _ _ ih =>
    refine ih.congr (fun other => ?_) ?_
    · rw [reparent_eq, transitions_attach, transitions_detach]
    · rw [reparent_eq, Graph.detach]
      split <;> rfl
  | configure id _ _ _ transitions ih =>
    refine ih.congr (fun other => ?_) rfl
    rw [state_modifyState]
    split
    · exact transitions _
    · rfl
  | addTransition target trigger before _ ih =>
    refine ⟨fun id => ?_, ih.globals⟩
    simp only [Graph.addTransition]
    rw [state_modifyState]
    split
    · exact pairwise_push_size (ih.transitions id) fun _ listed =>
        (before.transitionsAgree.mem_transitions.1 listed).1
    · exact ih.transitions id
  | addGlobalTransition target trigger before ih =>
    exact ⟨ih.transitions, pairwise_push_size ih.globals fun _ listed =>
      (before.transitionsAgree.mem_globals.1 listed).1⟩
  | configureTransition id _ _ _ ih => exact ih.congr (fun _ => rfl) rfl
  | registerAction name _ ih => exact ih.congr (fun _ => rfl) rfl
  | registerGuard name _ ih => exact ih.congr (fun _ => rfl) rfl
  | declareEvent _ declared ih =>
    rw [(declareEvent_eq_ok declared).2]
    exact ih.congr (fun _ => rfl) rfl
  | layOut _ ih => exact ih.congr transitions_layOut rfl

/-! ### Ranks -/

/-- Of two transitions the one with the higher priority is tried first, and of equal ones the one
that was added first. -/
def Outranks (graph : Graph) (first second : TransitionId) : Prop :=
  (graph.transition second).priority < (graph.transition first).priority ∨
    (graph.transition first).priority = (graph.transition second).priority ∧ first < second

/-- The transitions that belong somewhere, each one once, in the order in which they are tried. -/
structure Ranks (graph : Graph) (belongs : TransitionNode → Prop)
    (ranked : List TransitionId) : Prop where
  mem_iff : ∀ id, id ∈ ranked ↔ id < graph.transitions.size ∧ belongs (graph.transition id)
  outranks : ranked.Pairwise graph.Outranks

instance (first second : TransitionId) : Decidable (graph.Outranks first second) :=
  inferInstanceAs (Decidable (_ ∨ _))

instance (belongs : TransitionNode → Prop) [DecidablePred belongs] (ranked : List TransitionId) :
    Decidable (graph.Ranks belongs ranked) :=
  decidable_of_iff
    ((∀ id ∈ ranked, id < graph.transitions.size ∧ belongs (graph.transition id)) ∧
      (∀ id, id < graph.transitions.size → belongs (graph.transition id) → id ∈ ranked) ∧
      ranked.Pairwise graph.Outranks)
    ⟨fun ⟨sound, complete, outranks⟩ =>
        ⟨fun id => ⟨sound id, fun both => complete id both.1 both.2⟩, outranks⟩,
      fun ranks => ⟨fun id => (ranks.mem_iff id).1,
        fun id known own => (ranks.mem_iff id).2 ⟨known, own⟩, ranks.outranks⟩⟩

theorem Outranks.asymm {first second : TransitionId} (one : graph.Outranks first second) :
    ¬ graph.Outranks second first := by
  intro back
  rcases one with higher | ⟨level, before⟩ <;> rcases back with lower | ⟨levelToo, after⟩
  · exact UInt8.lt_asymm higher lower
  · exact UInt8.ne_of_lt higher levelToo
  · exact UInt8.ne_of_lt lower level
  · exact Nat.lt_asymm before after

theorem Ranks.nodup {belongs : TransitionNode → Prop} {ranked : List TransitionId}
    (ranks : graph.Ranks belongs ranked) : ranked.Nodup :=
  ranks.outranks.imp fun one same => (same ▸ one).asymm (same ▸ one)

/-- There is one such list. -/
theorem Ranks.unique {belongs : TransitionNode → Prop} {ranked other : List TransitionId}
    (ranks : graph.Ranks belongs ranked) (ranksToo : graph.Ranks belongs other) :
    ranked = other := by
  have same : ranked.Perm other := (List.perm_ext_iff_of_nodup ranks.nodup ranksToo.nodup).2
    fun id => (ranks.mem_iff id).trans (ranksToo.mem_iff id).symm
  exact same.eq_of_pairwise (fun _ _ _ _ one back => absurd back one.asymm) ranks.outranks
    ranksToo.outranks

/-- Sorting by priority leaves what was added first before what is level with it. -/
theorem pairwise_byPriority {listed : Array TransitionId}
    (ascend : listed.toList.Pairwise (· < ·)) :
    (graph.byPriority listed).Pairwise graph.Outranks := by
  rw [List.pairwise_iff_forall_sublist]
  intro first second inOrder
  have trans : ∀ first second third : TransitionId,
      decide ((graph.transition second).priority ≤ (graph.transition first).priority) →
      decide ((graph.transition third).priority ≤ (graph.transition second).priority) →
      decide ((graph.transition third).priority ≤ (graph.transition first).priority) := by
    simp only [decide_eq_true_eq]
    exact fun _ _ _ one other => UInt8.le_trans other one
  have total : ∀ first second : TransitionId,
      decide ((graph.transition second).priority ≤ (graph.transition first).priority) ||
        decide ((graph.transition first).priority ≤ (graph.transition second).priority) := by
    intro first second
    rw [Bool.or_eq_true, decide_eq_true_eq, decide_eq_true_eq]
    exact UInt8.le_total _ _
  have descend : (graph.transition second).priority ≤ (graph.transition first).priority := by
    have sorted := (List.pairwise_mergeSort trans total listed.toList).sublist inOrder
    simpa using sorted
  rcases UInt8.lt_or_eq_of_le descend with higher | level
  · exact .inl higher
  · refine .inr ⟨level.symm, ?_⟩
    have equal : ∀ one other,
        (graph.transition one).priority == (graph.transition first).priority →
        (graph.transition other).priority == (graph.transition first).priority →
        decide ((graph.transition other).priority ≤ (graph.transition one).priority) := by
      intro one other isLevel isLevelToo
      rw [beq_iff_eq] at isLevel isLevelToo
      rw [decide_eq_true_eq, isLevel, isLevelToo]
      exact UInt8.le_refl _
    have stable : (listed.toList.mergeSort _).filter (fun id =>
        (graph.transition id).priority == (graph.transition first).priority) = _ :=
      filter_mergeSort trans total equal listed.toList
    have both : [first, second].Sublist (listed.toList.filter fun id =>
        (graph.transition id).priority == (graph.transition first).priority) := by
      have kept := inOrder.filter fun id =>
        (graph.transition id).priority == (graph.transition first).priority
      rw [byPriority, stable] at kept
      simpa [level] using kept
    simpa using (ascend.sublist List.filter_sublist).sublist both

/-- A list that ascends comes out as the ranks of what it lists. -/
theorem ranks_byPriority {belongs : TransitionNode → Prop} {listed : Array TransitionId}
    (ascend : listed.toList.Pairwise (· < ·))
    (members : ∀ id, id ∈ listed ↔ id < graph.transitions.size ∧ belongs (graph.transition id)) :
    graph.Ranks belongs (graph.byPriority listed) where
  mem_iff id := by
    rw [byPriority, List.mem_mergeSort, Array.mem_toList_iff, members]
  outranks := pairwise_byPriority ascend

/-- The transitions of a state are written by rank. -/
theorem Drawn.ranks_localTransitions (drawn : Drawn graph) (id : StateId) :
    graph.Ranks (fun node => node.isGlobal = false ∧ node.source = id)
      (graph.layOut.localTransitions id) :=
  ranks_byPriority (drawn.layOut.transitionsAscend.transitions id) fun entry => by
    rw [and_comm (b := _ = id)]
    exact drawn.layOut.transitionsAgree.mem_transitions

/-- The global transitions are written by rank. -/
theorem Drawn.ranks_globals (drawn : Drawn graph) :
    graph.Ranks (fun node => node.isGlobal = true)
      (graph.layOut.byPriority graph.layOut.globals) :=
  ranks_byPriority drawn.transitionsAscend.globals fun _ => drawn.transitionsAgree.mem_globals

/-! ### The table of transitions -/

/-- The numbers in a record are those of the table, as long as they fit. -/
theorem start_count_stateRecord {id : StateId} {transitions : Nat}
    (fits : transitions + (graph.localTransitions id).length ≤ maxTransitions) (regions : Nat) :
    let record := graph.stateRecord id transitions regions
    record.transitionCount.toNat = (graph.localTransitions id).length ∧
      (graph.localTransitions id ≠ [] → record.transitionStart.toNat = transitions) := by
  have some : graph.localTransitions id ≠ [] ↔ (graph.state id).transitions.size ≠ 0 := by
    rw [← length_localTransitions, Ne, Ne, List.length_eq_zero_iff]
  rw [some]
  rw [length_localTransitions] at fits ⊢
  refine ⟨toNat_ofNat_of_le (Nat.le_trans (Nat.le_add_left ..) fits), fun has => ?_⟩
  simp only [stateRecord, if_neg has]
  exact toNat_ofNat_of_le (Nat.le_trans (Nat.le_add_right ..) fits)

/-- A record names as many places as its state has transitions. -/
theorem run_stateRecord {id : StateId} {transitions : Nat}
    (fits : transitions + (graph.localTransitions id).length ≤ maxTransitions) (regions : Nat) :
    (graph.stateRecord id transitions regions).run =
      List.range' transitions (graph.localTransitions id).length := by
  obtain ⟨count, start⟩ := start_count_stateRecord fits regions
  rw [StateRecord.run, count]
  by_cases none : graph.localTransitions id = []
  · rw [none, List.length_nil, List.range'_zero, List.range'_zero]
  · rw [start none]

/-- The places that the records of some states name follow each other. -/
theorem flatMap_run_recordsFrom {ids : List StateId} {transitions : Nat}
    (fits : transitions + (ids.flatMap graph.localTransitions).length ≤ maxTransitions)
    (regions : Nat) :
    (graph.recordsFrom ids transitions regions).flatMap StateRecord.run =
      List.range' transitions (ids.flatMap graph.localTransitions).length := by
  induction ids generalizing transitions regions with
  | nil => rfl
  | cons id rest ih =>
    rw [List.flatMap_cons, List.length_append] at fits ⊢
    rw [recordsFrom, List.flatMap_cons, run_stateRecord (by omega), ih (by omega),
      List.range'_append_1]

namespace Ready

variable (actions guards : NameTable)

/-- At the places that a record names are the transitions of its state. -/
theorem transitionsOf_eq (ready : graph.Ready) {state : UInt16} {id : StateId}
    (here : graph.order[state.toNat]? = some id) :
    (graph.sections actions guards).transitionsOf state =
      (graph.localTransitions id).map graph.transitionRecord := by
  have few := ready.length_localTransitions_le
  have listed : graph.order.toList[state.toNat]? = some id := by
    rw [Array.getElem?_toList]
    exact here
  have bound := length_flatMap_take_le graph.localTransitions listed
  have table : (graph.sections actions guards).transitions.toList =
      ((graph.order.toList.take state.toNat).flatMap graph.localTransitions).map
          graph.transitionRecord ++
        ((graph.localTransitions id).map graph.transitionRecord ++
          ((graph.order.toList.drop (state.toNat + 1)).flatMap graph.localTransitions).map
            graph.transitionRecord) := by
    show List.map _ (graph.order.toList.flatMap _) = _
    conv_lhs => rw [eq_take_append_cons_drop listed]
    rw [List.flatMap_append, List.flatMap_cons, List.map_append, List.map_append]
  have fits : graph.transitionsBefore state.toNat + (graph.localTransitions id).length ≤
      maxTransitions := Nat.le_trans bound few
  obtain ⟨count, start⟩ := start_count_stateRecord fits (graph.regionsBefore state.toNat)
  rw [Sections.transitionsOf, record_eq actions guards here, Array.toList_extract,
    List.extract_eq_take_drop, Nat.add_sub_cancel_left, count, table]
  by_cases none : graph.localTransitions id = []
  · rw [none, List.length_nil, List.take_zero, List.map_nil]
  · have before : (graph.stateRecord id (graph.transitionsBefore state.toNat)
        (graph.regionsBefore state.toNat)).transitionStart.toNat =
        (((graph.order.toList.take state.toNat).flatMap graph.localTransitions).map
          graph.transitionRecord).length := by
      rw [List.length_map]
      exact start none
    rw [before, List.drop_left, List.take_left' (List.length_map ..)]

/-- Every transition is in one of the two tables, once. -/
theorem perm_transitions (ready : graph.Ready) :
    (graph.order.toList.flatMap graph.localTransitions ++ graph.byPriority graph.globals).Perm
      (List.range graph.transitions.size) := by
  have global {id : TransitionId} : id ∈ graph.byPriority graph.globals ↔
      id < graph.transitions.size ∧ (graph.transition id).isGlobal = true := by
    rw [byPriority, List.mem_mergeSort, Array.mem_toList_iff]
    exact ready.wires.mem_globals
  have apart : (graph.byPriority graph.globals).Nodup :=
    (List.mergeSort_perm _ _).nodup_iff.2 ready.wires.nodup_globals
  refine (List.perm_ext_iff_of_nodup (ready.nodup_localTransitions.append apart ?_)
    List.nodup_range).2 fun id => ?_
  · intro id inStates inGlobals
    obtain ⟨state, -, listed⟩ := List.mem_flatMap.1 inStates
    have isLocal := (ready.mem_localTransitions.1 listed).2.2
    rw [(global.1 inGlobals).2] at isLocal
    cases isLocal
  · rw [List.mem_append, List.mem_flatMap, global, List.mem_range]
    constructor
    · rintro (⟨state, -, listed⟩ | ⟨known, -⟩)
      · exact (ready.mem_localTransitions.1 listed).1
      · exact known
    · intro known
      cases isLocal : (graph.transition id).isGlobal with
      | true => exact .inr ⟨known, rfl⟩
      | false =>
        refine .inl ⟨(graph.transition id).source, ?_,
          ready.mem_localTransitions.2 ⟨known, rfl, isLocal⟩⟩
        exact Array.mem_toList_iff.2 (ready.mem_order_iff.2 (ready.source_lt known isLocal))

end Ready

/-- In the tables of a compiled graph the runs of the states, in index order, are the places of the
table of transitions one after the other. In the run of a state are the records of its transitions,
which start at it, by descending priority and else in the order in which they were added; and so are
the records of the global transitions in their table. No transition is lost. -/
theorem transition_tables (drawn : Drawn graph) {compiled : Compiled}
    (compiles : graph.compile = .ok (.ok compiled)) :
    let sections := compiled.definition.sections
    sections.states.toList.flatMap StateRecord.run = List.range sections.transitions.size ∧
      (∀ state, sections.Has state → ∃ id, graph.layOut.order[state.toNat]? = some id ∧
        ∃ ranked,
          graph.Ranks (fun node => node.isGlobal = false ∧ node.source = id) ranked ∧
          sections.transitionsOf state = ranked.map graph.layOut.transitionRecord ∧
          ∀ transition ∈ sections.transitionsOf state, transition.source = state) ∧
      (∃ ranked, graph.Ranks (fun node => node.isGlobal = true) ranked ∧
        sections.globals.toList = ranked.map graph.layOut.transitionRecord) ∧
      sections.transitions.size + sections.globals.size = graph.transitions.size := by
  obtain ⟨-, ready, actions, guards, tables⟩ := drawn.exists_tables compiles
  rw [tables]
  have size : (graph.layOut.sections actions guards).transitions.size =
      (graph.layOut.order.toList.flatMap graph.layOut.localTransitions).length := by
    show (List.map graph.layOut.transitionRecord _).toArray.size = _
    rw [List.size_toArray, List.length_map]
  refine ⟨?_, fun state has => ?_, ⟨_, drawn.ranks_globals, rfl⟩, ?_⟩
  · show graph.layOut.stateRecords.toList.flatMap _ = _
    rw [toList_stateRecords, size, List.range_eq_range']
    refine flatMap_run_recordsFrom ?_ 0
    rw [Nat.zero_add]
    exact ready.length_localTransitions_le
  · obtain ⟨id, here, index⟩ := ready.exists_state actions guards has
    have own := ready.transitionsOf_eq actions guards here
    refine ⟨id, here, _, drawn.ranks_localTransitions id, own, fun transition listed => ?_⟩
    rw [own] at listed
    obtain ⟨entry, inRun, rfl⟩ := List.mem_map.1 listed
    obtain ⟨-, source, isLocal⟩ := ready.mem_localTransitions.1 inRun
    show (if _ then noIndex else graph.layOut.indexOf _) = state
    rw [isLocal, source]
    exact index
  · have all := ready.perm_transitions.length_eq
    rw [List.length_append, List.length_range] at all
    rw [size]
    show _ + (List.map graph.layOut.transitionRecord _).toArray.size = _
    rw [List.size_toArray, List.length_map]
    exact all

/-- A state with three transitions, of which the second one is urgent, and two global ones, of which
the later one is. -/
def desk : Graph :=
  let state := (lone.addTransition 1 (some 1) .completion).2
  let urgent := (state.addTransition 1 (some 1) .timer).2.modifyTransition 1
    fun node => { node with priority := 5 }
  let everywhere := (urgent.addGlobalTransition 1 .completion).2
  let later := (everywhere.addTransition 1 (some 1) .completion).2
  (later.addGlobalTransition 1 .timer).2.modifyTransition 4
    fun node => { node with priority := 5 }

theorem drawn_desk : Drawn desk :=
  .configureTransition 4 (.addGlobalTransition 1 .timer (.addTransition (some 1) .completion
    (.addGlobalTransition 1 .completion (.configureTransition 1
      (.addTransition (some 1) .timer (.addTransition (some 1) .completion drawn_lone (by decide))
        (by decide)) (fun _ => rfl) fun _ => rfl)) (by decide))) (fun _ => rfl) fun _ => rfl

theorem ranks_desk :
    desk.Ranks (fun node => node.isGlobal = false ∧ node.source = 1) [1, 0, 3] ∧
      desk.Ranks (fun node => node.isGlobal = true) [4, 2] := by
  decide +kernel

theorem mentions_desk : desk.layOut.mentions = [] := by
  have own := (drawn_desk.ranks_localTransitions 1).unique ranks_desk.1
  have everywhere := drawn_desk.ranks_globals.unique ranks_desk.2
  have order : desk.layOut.order.toList = [0, 1] := by decide +kernel
  have root : desk.layOut.stateMentions 0 = [] := by decide +kernel
  rw [mentions, order, everywhere, List.flatMap_cons, List.flatMap_singleton, root, stateMentions,
    own]
  decide +kernel

theorem exists_compiled_desk : ∃ compiled, desk.compile = .ok (.ok compiled) :=
  drawn_desk.exists_compiled_of_clashless (by decide +kernel) (by
    rw [mentions_desk]
    nofun)

theorem transition_tables_desk :
    ∃ compiled, desk.compile = .ok (.ok compiled) ∧
      compiled.definition.sections.transitionsOf 1 =
        [1, 0, 3].map desk.layOut.transitionRecord ∧
      compiled.definition.sections.globals.toList = [4, 2].map desk.layOut.transitionRecord := by
  obtain ⟨compiled, compiles⟩ := exists_compiled_desk
  obtain ⟨-, ready, actions, guards, tables⟩ := drawn_desk.exists_tables compiles
  have has : compiled.definition.sections.Has 1 := by
    rw [tables]
    exact (by decide +kernel : desk.layOut.indexOf 1 = 1) ▸
      ready.has_indexOf actions guards (by decide +kernel)
  obtain ⟨-, runs, ⟨everywhere, ranks, globals⟩, -⟩ := transition_tables drawn_desk compiles
  obtain ⟨id, here, own, ranksToo, run, -⟩ := runs 1 has
  have first : desk.layOut.order[1]? = some 1 := by decide +kernel
  obtain rfl : 1 = id := Option.some.inj (first.symm.trans here)
  rw [ranks.unique ranks_desk.2] at globals
  rw [ranksToo.unique ranks_desk.1] at run
  exact ⟨compiled, compiles, run, globals⟩

end Chart.Graph

end Statechart
