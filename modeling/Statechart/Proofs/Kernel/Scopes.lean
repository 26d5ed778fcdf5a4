/-
# Scopes on both sides

The state that a transition stays within is worked out twice: in the graph, where its cost
is written down, and by the kernel, each time that the transition is taken. The one walks
along the links of the graph, the other along the records of the tables, and each has its
own bounds. Step by step they do the same (`ancestorChain_indexOf`, `lastShared_indexOf`,
`parentOrRoot_indexOf`, `aboveParallel_indexOf`), so they come to the same state
(`scope_indexOf`).

What is known of the kernel's side then holds in the graph: the state lies above both ends
and strictly above the target, and it is the root or not parallel. As a state's depth counts
the states down to it, the cost that is written is the number of states on both ways down
(`scope_agrees`).
-/

import Statechart.Proofs.Chart.Correspondence
import Statechart.Proofs.Chart.Slots
import Statechart.Proofs.Kernel.Transition

namespace Statechart

open Rom (Definition Sections maxDepth noIndex rootIndex)
open Chart (Graph StateId TransitionId NameTable Compiled rootId)
open Chart.Graph (Drawn Ready HangsFrom hall drawn_hall exists_compiled_hall)

variable {User : Type} {graph : Graph} {definition : Definition} {kernel : Kernel User}
  {actions guards : NameTable} {id source target : StateId}

namespace Kernel

/-! ### The way down to a state -/

section Tables

variable (ready : graph.Ready) (tables : definition.sections = graph.sections actions guards)

include ready tables

theorem has_indexOf (inside : id < graph.stateCount) :
    definition.sections.Has (graph.indexOf id) :=
  tables ▸ ready.has_indexOf actions guards inside

/-- Prepending the ancestors of an index goes through the indices of the states above. -/
theorem prependChain_indexOf {id : StateId} (inside : id < graph.stateCount)
    {above : List StateId} (climbs : graph.Climbs (graph.state id).parent above)
    (chain : List UInt16) :
    definition.prependChain (above.length + 1) (graph.indexOf id) chain =
      .ok ((id :: above).reverse.map graph.indexOf ++ chain) := by
  have written : (definition.sections.record (graph.indexOf id)).parent =
      (graph.state id).parent.elim noIndex graph.indexOf :=
    tables ▸ Ready.record_parent _ _ (ready.order_indexOf inside)
  rw [Definition.prependChain, Definition.parent_eq (has_indexOf ready tables inside), written]
  generalize start : (graph.state id).parent = next at climbs
  cases climbs with
  | ended => rfl
  | @next parent above rest =>
    refine (prependChain_indexOf (ready.parent_lt start) rest _).trans ?_
    simp

/-- The chain of an index consists of the indices on the path to the state. -/
theorem ancestorChain_indexOf (inside : id < graph.stateCount) :
    definition.ancestorChain (graph.indexOf id) (maxDepth + 1) =
      .ok ((graph.path id).map graph.indexOf) := by
  obtain ⟨above, climbs⟩ := ready.isHierarchy.rooted id
  have written : (definition.sections.record (graph.indexOf id)).depth.toNat = graph.depthOf id :=
    tables ▸ ready.record_depth actions guards (ready.order_indexOf inside)
  have shallow := ready.depth_le inside
  have path : graph.path id = (id :: above).reverse := by
    rw [Graph.path, Graph.properAncestors, climbs.climb_eq climbs.length_le]
  rw [Definition.ancestorChain, Definition.state_eq (has_indexOf ready tables inside)]
  simp only [ok_bind, written]
  rw [if_neg (by omega), ready.depthOf_eq_length inside climbs,
    prependChain_indexOf ready tables inside climbs, path, List.append_nil]

end Tables

/-! ### Where two ways part -/

/-- Two lists of indices part where those of the states do. -/
theorem lastShared_indexOf (ready : graph.Ready) (default : StateId)
    {firsts seconds : List StateId} (firstsInside : ∀ id ∈ firsts, id < graph.stateCount)
    (secondsInside : ∀ id ∈ seconds, id < graph.stateCount) :
    lastShared (graph.indexOf default) (firsts.map graph.indexOf) (seconds.map graph.indexOf) =
      graph.indexOf (Graph.lastCommon default firsts seconds) := by
  induction firsts generalizing default seconds with
  | nil => rfl
  | cons first firsts ih =>
    cases seconds with
    | nil => rfl
    | cons second seconds =>
      have same : graph.indexOf first = graph.indexOf second ↔ first = second :=
        ⟨ready.indexOf_inj (firstsInside first (List.mem_cons_self ..))
          (secondsInside second (List.mem_cons_self ..)), congrArg graph.indexOf⟩
      simp only [List.map_cons, lastShared, Graph.lastCommon, same]
      split
      · exact ih first (fun id later => firstsInside id (List.mem_cons_of_mem _ later))
          fun id later => secondsInside id (List.mem_cons_of_mem _ later)
      · rfl

/-! ### Lifting -/

theorem parentOrRoot_indexOf (ready : graph.Ready)
    (tables : definition.sections = graph.sections actions guards)
    (inside : id < graph.stateCount) :
    parentOrRoot definition (graph.indexOf id) = .ok (graph.indexOf (graph.parentOrRoot id)) := by
  have written : (definition.sections.record (graph.indexOf id)).parent =
      (graph.state id).parent.elim noIndex graph.indexOf :=
    tables ▸ Ready.record_parent _ _ (ready.order_indexOf inside)
  rw [parentOrRoot, Definition.parent_eq (has_indexOf ready tables inside), written,
    Graph.parentOrRoot]
  cases link : (graph.state id).parent with
  | none => exact congrArg Except.ok ready.indexOf_root.symm
  | some parent =>
    exact congrArg Except.ok (if_neg (ready.indexOf_ne (ready.parent_lt link)))

/-- Climbing past parallel states leads to the same state, and neither side runs into its
bound. -/
theorem aboveParallel_indexOf (ready : graph.Ready)
    (tables : definition.sections = graph.sections actions guards) {id : StateId}
    (inside : id < graph.stateCount) {above : List StateId}
    (climbs : graph.Climbs (graph.state id).parent above) {steps links : Nat}
    (enough : above.length ≤ steps) (enoughToo : above.length ≤ links) :
    aboveParallel definition steps (graph.indexOf id) =
      .ok (graph.indexOf (graph.liftParallel links id)) := by
  have parallel : (definition.sections.record (graph.indexOf id)).flags.parallel =
      (graph.state id).parallel := tables ▸ ready.parallel_indexOf actions guards inside
  by_cases isRoot : id = rootId
  · subst isRoot
    have stays : graph.liftParallel links rootId = rootId := by
      cases links <;> simp [Graph.liftParallel]
    unfold aboveParallel
    rw [if_pos ready.indexOf_root, stays]
    rfl
  · have notRoot := mt (ready.indexOf_eq_root_iff inside).1 isRoot
    obtain ⟨parent, link⟩ := ready.isHierarchy.exists_parent inside isRoot
    rw [link] at climbs
    cases climbs with
    | @next _ above rest =>
      rw [List.length_cons] at enough enoughToo
      obtain ⟨steps, rfl⟩ := Nat.exists_eq_add_of_lt enough
      obtain ⟨links, rfl⟩ := Nat.exists_eq_add_of_lt enoughToo
      have up : graph.parentOrRoot id = parent := by
        rw [Graph.parentOrRoot, link, Option.getD_some]
      unfold aboveParallel
      rw [if_neg notRoot, Definition.state_eq (has_indexOf ready tables inside)]
      simp only [ok_bind, parallel, Graph.liftParallel]
      cases alone : (graph.state id).parallel with
      | false =>
        simp only [Bool.not_false, if_true, Bool.false_eq_true, and_false, if_false]
        rfl
      | true =>
        simp only [Bool.not_true, Bool.false_eq_true, if_false, isRoot, ne_eq, not_false_iff,
          and_self, if_true, parentOrRoot_indexOf ready tables inside, ok_bind, up]
        exact aboveParallel_indexOf ready tables (ready.parent_lt link) rest
          (Nat.le_add_right _ _) (Nat.le_add_right _ _)

/-- The kernel stays within the state that was worked out in the graph. -/
theorem scope_indexOf (ready : graph.Ready)
    (tables : kernel.definition.sections = graph.sections actions guards)
    (sourceInside : source < graph.stateCount) (targetInside : target < graph.stateCount) :
    kernel.scope (graph.indexOf source) (graph.indexOf target) =
      .ok (graph.indexOf (graph.meetingState source target)) := by
  have shared := lastShared_indexOf ready rootId (fun _ => ready.lt_of_mem_path sourceInside)
    fun _ => ready.lt_of_mem_path targetInside
  have sharedInside : Graph.lastCommon rootId (graph.path source) (graph.path target) <
      graph.stateCount :=
    ready.lastCommon_lt sourceInside target
  have lifted {id : StateId} (inside : id < graph.stateCount) :
      aboveParallel kernel.definition (kernel.definition.stateCount + 1) (graph.indexOf id) =
        .ok (graph.indexOf (graph.liftParallel graph.stateCount id)) := by
    obtain ⟨above, climbs⟩ := ready.isHierarchy.rooted id
    have count : kernel.definition.stateCount = graph.stateCount := by
      rw [Definition.stateCount, tables, ← ready.size_order]
      exact Graph.size_stateRecords
    rw [count]
    exact aboveParallel_indexOf ready tables inside climbs (Nat.le_succ_of_le climbs.length_le)
      climbs.length_le
  rw [ready.indexOf_root] at shared
  unfold scope
  simp only [chainTo, ancestorChain_indexOf ready tables sourceInside,
    ancestorChain_indexOf ready tables targetInside, ok_bind, shared]
  rw [Graph.meetingState]
  generalize Graph.lastCommon rootId (graph.path source) (graph.path target) = meeting at *
  have same {other : StateId} (inside : other < graph.stateCount) :
      graph.indexOf meeting = graph.indexOf other ↔ meeting = other :=
    ⟨ready.indexOf_inj sharedInside inside, congrArg graph.indexOf⟩
  simp only [same sourceInside, same targetInside, Bool.or_eq_true, decide_eq_true_eq]
  split
  · simp only [parentOrRoot_indexOf ready tables sharedInside, ok_bind]
    exact lifted (ready.parentOrRoot_lt _)
  · exact lifted sharedInside

/-! ### Costs -/

/-- What a local transition stays within, and what it costs. The kernel stays within the state
that was worked out in the graph. This state lies strictly above the target and is not parallel
unless it is the root, and the cost counts the states below it on the ways down to both ends. -/
structure Confined (graph : Graph) (kernel : Kernel User) (id : TransitionId)
    (source target : StateId) : Prop where
  source_eq : (graph.transitionRecord id).source = graph.indexOf source
  target_eq : (graph.transitionRecord id).target = graph.indexOf target
  scope_eq : kernel.scope (graph.indexOf source) (graph.indexOf target) =
    .ok (graph.indexOf (graph.meetingState source target))
  limits : graph.meetingState source target = rootId ∨
    (graph.state (graph.meetingState source target)).parallel = false
  below : graph.Below (graph.meetingState source target) target
  cost_eq : (graph.transitionRecord id).cost.toNat =
    (graph.between (graph.meetingState source target) source).ncard +
      (graph.between (graph.meetingState source target) target).ncard

section Costs

variable (ready : graph.Ready)
  (tables : kernel.definition.sections = graph.sections actions guards)

include ready tables

/-- Where a transition stays within, by the links of the graph. -/
theorem meetingState_spec (sourceInside : source < graph.stateCount)
    (targetInside : target < graph.stateCount) (inner : target ≠ rootId) :
    graph.Beneath (graph.meetingState source target) source ∧
      graph.Below (graph.meetingState source target) target ∧
      (graph.meetingState source target = rootId ∨
        (graph.state (graph.meetingState source target)).parallel = false) := by
  have wellFormed : kernel.definition.sections.WellFormed :=
    tables ▸ ready.wellFormed actions guards
  have scope := scope_indexOf ready tables sourceInside targetInside
  obtain ⟨top, found, aboveSource, aboveTarget, proper, limits⟩ :=
    scope_returns wellFormed (has_indexOf ready tables sourceInside)
      (has_indexOf ready tables targetInside) (mt (ready.indexOf_eq_root_iff targetInside).1 inner)
  obtain rfl : graph.indexOf (graph.meetingState source target) = top :=
    Except.ok.inj (scope.symm.trans found)
  have inside := ready.meetingState_lt sourceInside target
  rw [tables] at aboveSource aboveTarget limits
  have below := (ready.beneath_iff actions guards inside targetInside).1 aboveTarget
  refine ⟨(ready.beneath_iff actions guards inside sourceInside).1 aboveSource, ?_,
    limits.imp (ready.indexOf_eq_root_iff inside).1
      (ready.parallel_indexOf actions guards inside).symm.trans⟩
  exact (Relation.reflTransGen_iff_eq_or_transGen.1 below).resolve_left fun same =>
    proper (congrArg graph.indexOf same.symm)

end Costs

/-- Costs are small enough to be written as they are. -/
theorem toNat_cost {id : TransitionId} {cost : Nat}
    (counted : graph.cost (graph.transition id) = cost) (small : cost ≤ 2 * maxDepth) :
    (graph.transitionRecord id).cost.toNat = cost := by
  show (UInt16.ofNat (graph.cost (graph.transition id))).toNat = cost
  rw [counted]
  exact UInt16.toNat_ofNat_of_lt' (Nat.lt_of_le_of_lt small (by decide))

/-- A local transition that is accepted is confined. -/
theorem confined (ready : graph.Ready)
    (tables : kernel.definition.sections = graph.sections actions guards) {id : TransitionId}
    (known : id < graph.transitions.size) (isLocal : (graph.transition id).isGlobal = false)
    (external : (graph.transition id).isInternal = false) :
    ∃ target, (graph.transition id).target = some target ∧
      Confined graph kernel id (graph.transition id).source target := by
  have sourceInside := ready.source_lt known isLocal
  have wired := ready.wired_of_mem_local sourceInside
    (ready.mem_localTransitions.2 ⟨known, rfl, isLocal⟩)
  obtain ⟨target, leads⟩ := wired.exists_target external
  have targetInside := wired.target_lt leads
  have targetOf : Graph.targetOf (graph.transition id) = target := by
    rw [Graph.targetOf, leads, Option.getD_some]
  obtain ⟨aboveSource, below, limits⟩ :=
    meetingState_spec ready tables sourceInside targetInside (wired.target_ne leads)
  refine ⟨target, leads, if_neg (Bool.eq_false_iff.1 isLocal), congrArg graph.indexOf targetOf,
    scope_indexOf ready tables sourceInside targetInside, limits, below, ?_⟩
  have sourceDepth := ready.depthOf_eq_add aboveSource
  have targetDepth := ready.depthOf_eq_add below.beneath
  have sourceLevel := ready.depth_le sourceInside
  have targetLevel := ready.depth_le targetInside
  refine toNat_cost ?_ (by omega)
  simp only [Graph.cost, targetOf, external, isLocal, Bool.false_eq_true, if_false]
  omega

/-- A global transition that is accepted costs the depth of its target. -/
theorem cost_of_global (ready : graph.Ready) {id : TransitionId}
    (known : id < graph.transitions.size) (isGlobal : (graph.transition id).isGlobal = true)
    (external : (graph.transition id).isInternal = false) :
    ∃ target, (graph.transition id).target = some target ∧
      (graph.transitionRecord id).target = graph.indexOf target ∧
      (graph.transitionRecord id).cost.toNat = graph.depthOf target := by
  have wired := ready.wired_of_mem_globals (ready.wires.mem_globals.2 ⟨known, isGlobal⟩)
  obtain ⟨target, leads⟩ := wired.exists_target external
  have targetOf : Graph.targetOf (graph.transition id) = target := by
    rw [Graph.targetOf, leads, Option.getD_some]
  have level := ready.depth_le (wired.target_lt leads)
  refine ⟨target, leads, congrArg graph.indexOf targetOf, toNat_cost ?_ (by omega)⟩
  simp only [Graph.cost, targetOf, external, isGlobal, Bool.false_eq_true, if_false, if_true]

/-- Every transition is written, with the global ones or with those of states. -/
theorem transitionRecord_mem (ready : graph.Ready)
    (tables : definition.sections = graph.sections actions guards) {id : TransitionId}
    (known : id < graph.transitions.size) :
    graph.transitionRecord id ∈
      if (graph.transition id).isGlobal then definition.sections.globals
      else definition.sections.transitions := by
  rw [tables]
  cases kind : (graph.transition id).isGlobal with
  | true =>
    rw [if_pos rfl]
    refine List.mem_toArray.2 (List.mem_map_of_mem ?_)
    rw [Graph.byPriority, List.mem_mergeSort, Array.mem_toList_iff]
    exact ready.wires.mem_globals.2 ⟨known, kind⟩
  | false =>
    rw [if_neg (by decide)]
    have listed := ready.mem_localTransitions.2 ⟨known, rfl, kind⟩
    have placed := ready.mem_order_iff.2 (ready.source_lt known kind)
    exact List.mem_toArray.2 (List.mem_map_of_mem
      (List.mem_flatMap.2 ⟨_, Array.mem_toList_iff.2 placed, listed⟩))

end Kernel

/-! ### Compiled graphs -/

section

open Kernel

/-- In what a drawn graph compiles to, the kernel and the graph agree on where each local
transition stays within, and costs count the states that are left and entered. A global
transition costs the depth of its target, and an internal one nothing. -/
theorem scope_agrees (drawn : Drawn graph) {compiled : Compiled}
    (compiles : graph.compile = .ok (.ok compiled)) (kernel : Kernel User)
    (loaded : kernel.definition = compiled.definition) {id : TransitionId}
    (known : id < graph.transitions.size) :
    (graph.layOut.transitionRecord id ∈
      if (graph.transition id).isGlobal then compiled.definition.sections.globals
      else compiled.definition.sections.transitions) ∧
    ((graph.transition id).isInternal = false → (graph.transition id).isGlobal = false →
      ∃ target, (graph.transition id).target = some target ∧
        Confined graph.layOut kernel id (graph.transition id).source target) ∧
    ((graph.transition id).isInternal = false → (graph.transition id).isGlobal = true →
      ∃ target, (graph.transition id).target = some target ∧
        (graph.layOut.transitionRecord id).target = graph.layOut.indexOf target ∧
        (graph.layOut.transitionRecord id).cost.toNat = graph.layOut.depthOf target) ∧
    ((graph.transition id).isInternal = true →
      (graph.layOut.transitionRecord id).cost.toNat = 0) := by
  obtain ⟨-, ready, actions, guards, tables⟩ := drawn.exists_tables compiles
  have kernelTables : kernel.definition.sections = graph.layOut.sections actions guards :=
    loaded ▸ tables
  refine ⟨transitionRecord_mem ready tables known, fun external isLocal => ?_,
    fun external isGlobal => cost_of_global ready known isGlobal external, fun internal => ?_⟩
  · exact confined ready kernelTables known isLocal external
  · exact toNat_cost (if_pos internal) (Nat.zero_le _)

/-- The change from the first inner state to the second stays within the outer one. -/
theorem scope_agrees_hall :
    ∃ compiled, hall.compile = .ok (.ok compiled) ∧
      Confined hall.layOut (⟨compiled.definition, .empty, .default⟩ : Kernel Unit) 1 2 3 := by
  obtain ⟨compiled, compiles⟩ := exists_compiled_hall
  have agrees := scope_agrees drawn_hall compiles
    (⟨compiled.definition, .empty, .default⟩ : Kernel Unit) rfl (by decide +kernel : 1 < _)
  obtain ⟨target, leads, confined⟩ := agrees.2.1 (by decide +kernel) (by decide +kernel)
  have source : (hall.transition 1).source = 2 := by decide +kernel
  have known : (hall.transition 1).target = some 3 := by decide +kernel
  obtain rfl : 3 = target := Option.some.inj (known.symm.trans leads)
  exact ⟨compiled, compiles, source ▸ confined⟩

end

end Statechart
