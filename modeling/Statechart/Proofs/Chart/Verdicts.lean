/-
# Names and verdicts

Findings name the states they are about. Under other names the same findings are made in the same
order: their kinds are the same (`kinds_findings_renamed`), and it is the kind that decides whether
compilation stops.

The main result is that a drawn graph compiles to the same blob whatever its states are called, or
fails in the same way. The names are in the metadata, each where its state is
(`Drawn.compile_renamed`).
-/

import Statechart.Proofs.Chart.Renaming
import Statechart.Proofs.Chart.Restoring
import Statechart.Proofs.Chart.Strays

namespace Statechart.Chart

/-- The kinds of findings, in the order in which they were made. -/
def Diagnostics.kinds (diagnostics : Diagnostics) : List DiagnosticKind :=
  diagnostics.map Diagnostic.kind

namespace Diagnostics

@[simp]
theorem kinds_nil : kinds [] = [] := rfl

@[simp]
theorem kinds_report (kind : DiagnosticKind) (detail state : Option String) :
    kinds [.report kind detail state] = [kind] := rfl

@[simp]
theorem kinds_append (first second : Diagnostics) :
    kinds (first ++ second) = first.kinds ++ second.kinds :=
  List.map_append

@[simp]
theorem kinds_flatMap {Entry : Type} (entries : List Entry) (found : Entry → Diagnostics) :
    kinds (entries.flatMap found) = entries.flatMap fun entry => (found entry).kinds :=
  List.map_flatMap ..

@[simp]
theorem kinds_ite {condition : Prop} [Decidable condition] (first second : Diagnostics) :
    kinds (if condition then first else second) =
      if condition then first.kinds else second.kinds :=
  apply_ite kinds ..

theorem hasErrors_eq (diagnostics : Diagnostics) :
    diagnostics.hasErrors = diagnostics.kinds.any fun kind => kind.severity == .error := by
  rw [kinds, List.any_map]
  rfl

theorem kinds_warnings (diagnostics : Diagnostics) :
    diagnostics.warnings.kinds = diagnostics.kinds.filter fun kind => !kind.severity == .error := by
  rw [kinds, kinds, List.filter_map]
  rfl

end Diagnostics

namespace Graph

variable (graph : Graph) (machine : String) (names : StateId → String)

@[simp]
theorem inTree_renamed : (graph.renamed machine names).inTree = graph.inTree := by
  simp only [inTree, stateCount_renamed]
  rfl

theorem rootFindings_renamed :
    (graph.renamed machine names).rootFindings = graph.rootFindings := by
  simp only [rootFindings, state_renamed]

@[simp]
theorem cycleFrom_renamed : (graph.renamed machine names).cycleFrom = graph.cycleFrom := by
  funext id steps chain next
  induction steps generalizing chain next with
  | zero => rfl
  | succ steps ih => cases next <;> simp only [cycleFrom, state_renamed, ih]

@[simp]
theorem cycleThrough_renamed :
    (graph.renamed machine names).cycleThrough = graph.cycleThrough := by
  funext id
  simp only [cycleThrough, cycleFrom_renamed, state_renamed, stateCount_renamed]

@[simp]
theorem entersCycleFrom_renamed :
    (graph.renamed machine names).entersCycleFrom = graph.entersCycleFrom := by
  funext steps seen next
  induction steps generalizing seen next with
  | zero => rfl
  | succ steps ih => cases next <;> simp only [entersCycleFrom, state_renamed, ih]

@[simp]
theorem entersCycle_renamed : (graph.renamed machine names).entersCycle = graph.entersCycle := by
  funext id
  simp only [entersCycle, entersCycleFrom_renamed, state_renamed, stateCount_renamed]

@[simp]
theorem kinds_strayFindings_renamed (id : StateId) :
    ((graph.renamed machine names).strayFindings id).kinds = (graph.strayFindings id).kinds := by
  simp only [strayFindings, cycleThrough_renamed, entersCycle_renamed]
  cases graph.cycleThrough id <;> simp

theorem kinds_treeFindings_renamed :
    (graph.renamed machine names).treeFindings.kinds = graph.treeFindings.kinds := by
  simp only [treeFindings, inTree_renamed, stateCount_renamed, Diagnostics.kinds_flatMap,
    Diagnostics.kinds_ite, kinds_strayFindings_renamed]

/-- Where an action is used has no part in what kind of finding it is. -/
theorem kinds_actionFindings_renamed (place other : String) (action : Option String) :
    ((graph.renamed machine names).actionFindings place action).kinds =
      (graph.actionFindings other action).kinds := by
  cases action with
  | none => rfl
  | some name =>
    simp only [actionFindings, Diagnostics.kinds_ite, Diagnostics.kinds_report]
    rfl

theorem kinds_stateFindings_renamed (id : StateId) :
    ((graph.renamed machine names).stateFindings id).kinds = (graph.stateFindings id).kinds := by
  have actions (place other : String) (action : Option String) :=
    graph.kinds_actionFindings_renamed machine names place other action
  simp only [stateFindings, state_renamed, Diagnostics.kinds_append, Diagnostics.kinds_flatMap,
    Diagnostics.kinds_ite, Diagnostics.kinds_report, Diagnostics.kinds_nil]
  congr 1
  · congr 2
    funext action
    exact actions ..
  · cases (graph.state id).timer <;> simp

@[simp]
theorem deepest?_renamed : (graph.renamed machine names).deepest? = graph.deepest? := by
  simp only [deepest?, state_renamed]
  rfl

theorem kinds_limitFindings_renamed :
    (graph.renamed machine names).limitFindings.kinds = graph.limitFindings.kinds := by
  simp only [limitFindings, deepest?_renamed, Diagnostics.kinds_append, Diagnostics.kinds_ite,
    Diagnostics.kinds_report]
  congr 1
  cases graph.deepest? <;> simp

theorem kinds_wiringFindings_renamed (inTree : Array Bool) (transition : TransitionNode)
    (place other : String) :
    ((graph.renamed machine names).wiringFindings inTree transition place).kinds =
      (graph.wiringFindings inTree transition other).kinds := by
  simp only [wiringFindings, Diagnostics.kinds_append, Diagnostics.kinds_ite,
    Diagnostics.kinds_report, Diagnostics.kinds_nil,
    kinds_actionFindings_renamed graph machine names place other, state_renamed]
  congr 1
  · congr 3
    · cases transition.trigger <;> simp
      rfl
    · cases transition.guard <;> simp
      rfl
  · cases transition.target <;> simp

theorem kinds_transitionFindings_renamed :
    (graph.renamed machine names).transitionFindings.kinds = graph.transitionFindings.kinds := by
  simp only [transitionFindings, inTree_renamed, Diagnostics.kinds_flatMap, Diagnostics.kinds_ite,
    Diagnostics.kinds_nil]
  congr 1
  funext transition
  have wiring := graph.kinds_wiringFindings_renamed machine names graph.inTree transition
  exact if_congr Iff.rfl (wiring ..) (if_congr Iff.rfl (wiring ..) rfl)

theorem eventFindings_renamed :
    (graph.renamed machine names).eventFindings = graph.eventFindings := rfl

theorem kinds_stableIdFindings_renamed :
    (graph.renamed machine names).stableIdFindings.kinds = graph.stableIdFindings.kinds := by
  simp only [stableIdFindings, state_renamed, Diagnostics.kinds_flatMap, Diagnostics.kinds_ite,
    Diagnostics.kinds_report, Diagnostics.kinds_nil]
  rfl

@[simp]
theorem coActive_renamed : (graph.renamed machine names).coActive = graph.coActive := by
  funext first second
  simp only [coActive, isAncestorOrSelf_renamed, properAncestors_renamed, state_renamed]

theorem kinds_sharedSlotFindings_renamed (what : String) (slot : Placement → Option UInt16) :
    ((graph.renamed machine names).sharedSlotFindings what slot).kinds =
      (graph.sharedSlotFindings what slot).kinds := by
  simp only [sharedSlotFindings, state_renamed, coActive_renamed, Diagnostics.kinds_flatMap,
    Diagnostics.kinds_ite, Diagnostics.kinds_report, Diagnostics.kinds_nil]
  rfl

@[simp]
theorem leafCount_renamed : (graph.renamed machine names).leafCount = graph.leafCount := by
  funext counts id
  simp only [leafCount, state_renamed]

@[simp]
theorem slotCount_renamed : (graph.renamed machine names).slotCount = graph.slotCount := by
  funext slot
  simp only [slotCount, state_renamed]
  rfl

theorem capacityFindings_renamed :
    (graph.renamed machine names).capacityFindings = graph.capacityFindings := by
  simp only [capacityFindings, maxLeaves, leafCount_renamed, slotCount_renamed,
    stateCount_renamed]
  rfl

/-- The same is wrong with a graph under other names. -/
theorem kinds_findings_renamed :
    (graph.renamed machine names).findings.kinds = graph.findings.kinds := by
  simp only [findings, slotFindings, Diagnostics.kinds_append, Diagnostics.kinds_flatMap,
    rootFindings_renamed, kinds_treeFindings_renamed, kinds_stateFindings_renamed,
    kinds_limitFindings_renamed, kinds_transitionFindings_renamed, eventFindings_renamed,
    kinds_stableIdFindings_renamed, kinds_sharedSlotFindings_renamed, capacityFindings_renamed]
  rfl

/-! ### Compiling -/

variable {graph}

theorem hasErrors_findings_renamed :
    (graph.renamed machine names).findings.hasErrors = graph.findings.hasErrors := by
  rw [Diagnostics.hasErrors_eq, Diagnostics.hasErrors_eq, kinds_findings_renamed]

/-- The names of the states that were found, in the order in which they were. -/
theorem map_nameOf_renamed (inhabited : 0 < graph.stateCount) :
    graph.breadthFirst.map (graph.renamed machine names).nameOf =
      graph.breadthFirst.map fun id => if id = rootId then graph.nameOf id else names id := by
  apply Array.map_congr_left
  intro id found
  have inside := lt_stateCount_of_mem inhabited found
  rw [nameOf, state_renamed, newName]
  simp only [Nat.not_le.2 inside, or_false]

/-- What a compiled graph hands out beside its definition. -/
theorem told_of_compileLaidOut {compiled : Compiled} {flat : Flat} {blob : Bytes}
    (done : graph.compileLaidOut = .ok (.ok compiled))
    (clean : graph.findings.hasErrors = false) (flattened : graph.flatten = .ok (.ok flat))
    (emitted : flat.sections.emit = .ok blob)
    (loaded : Rom.Definition.load blob = .ok (.ok compiled.definition)) :
    compiled.metadata = graph.metadata flat ∧ compiled.warnings = graph.findings.warnings := by
  have told := done.symm.trans (compileLaidOut_eq clean flattened emitted loaded)
  generalize graph.metadata flat = metadata at told ⊢
  generalize graph.findings.warnings = warnings at told ⊢
  obtain ⟨_, _, _⟩ := compiled
  cases told
  exact ⟨rfl, rfl⟩

/-- Names do not reach the blob. Whatever the states of a drawn graph and the graph itself are
called, compiling it ends in the same way: with findings of the same kinds, with the same collision
of ids, or with the same definition, blob and hashes included. The metadata differ only in the name
of the machine and in the names of the states, which are listed in the same order. -/
theorem Drawn.compile_renamed (drawn : Drawn graph) (machine : String)
    (names : StateId → String) :
    let other := graph.renamed machine names
    (∃ found foundToo, graph.compile = .ok (.error (.validationFailed found)) ∧
      other.compile = .ok (.error (.validationFailed foundToo)) ∧ foundToo.kinds = found.kinds) ∨
    (∃ collision, graph.compile = .ok (.error (.idCollision collision)) ∧
      other.compile = .ok (.error (.idCollision collision))) ∨
    ∃ compiled compiledToo, graph.compile = .ok (.ok compiled) ∧
      other.compile = .ok (.ok compiledToo) ∧
      compiledToo.definition = compiled.definition ∧
      compiledToo.warnings.kinds = compiled.warnings.kinds ∧
      compiled.metadata.name = graph.name ∧
      compiled.metadata.states = graph.breadthFirst.map graph.nameOf ∧
      compiledToo.metadata = { compiled.metadata with
        name := machine
        states := graph.breadthFirst.map fun id =>
          if id = rootId then graph.nameOf id else names id } := by
  intro other
  have laid : other.compile = (graph.layOut.renamed machine names).compileLaidOut := by
    rw [compile, layOut_renamed]
  have verdict : (graph.layOut.renamed machine names).findings.hasErrors = _ :=
    hasErrors_findings_renamed machine names
  rw [laid]
  cases rejected : graph.layOut.findings.hasErrors with
  | true =>
    exact .inl ⟨_, _, compileLaidOut_of_hasErrors rejected,
      compileLaidOut_of_hasErrors (verdict.trans rejected), kinds_findings_renamed ..⟩
  | false =>
    have clean := verdict.trans rejected
    rcases (drawn.ready (accepted_iff.2 rejected)).compileLaidOut_eq with
      ⟨collision, flattened, collided⟩ | ⟨compiled, _, _, done, _⟩
    · exact .inr (.inl ⟨collision, collided,
        compileLaidOut_of_collision clean (flatten_renamed machine names flattened)⟩)
    · obtain ⟨flat, flattened, emitted, loaded, _⟩ := drawn.exists_flat done
      have again := compileLaidOut_eq clean (flatten_renamed machine names flattened) emitted loaded
      obtain ⟨metadata, warnings⟩ :=
        told_of_compileLaidOut done rejected flattened emitted loaded
      have named := map_nameOf_renamed machine names drawn.stateCount_pos
      rw [← nameOf_layOut, layOut_renamed] at named
      refine .inr (.inr ⟨compiled, _, done, again, rfl, ?_, ?_, ?_, ?_⟩)
      · rw [warnings, Diagnostics.kinds_warnings, Diagnostics.kinds_warnings,
          kinds_findings_renamed]
      · rw [metadata]
        rfl
      · rw [metadata]
        exact congrArg graph.breadthFirst.map nameOf_layOut
      · rw [metadata, ← named]
        rfl

/-- The clock has another name in its metadata, and the same blob. -/
theorem compile_renamed_clock : ∃ compiled compiledToo,
    Drawn clock ∧ clock.compile = .ok (.ok compiled) ∧
      (clock.renamed "watch" fun _ => "B").compile = .ok (.ok compiledToo) ∧
      compiledToo.definition.bytes = compiled.definition.bytes ∧
      compiledToo.metadata.states = #[rootName, "B"] := by
  obtain ⟨compiled, compiles⟩ := exists_compiled_clock
  rcases drawn_clock.compile_renamed "watch" fun _ => "B" with
    ⟨_, _, rejected, -⟩ | ⟨_, collided, -⟩ |
    ⟨_, compiledToo, done, doneToo, same, -, -, -, metadata⟩
  · cases compiles.symm.trans rejected
  · cases compiles.symm.trans collided
  · cases compiles.symm.trans done
    refine ⟨compiled, compiledToo, drawn_clock, compiles, doneToo,
      congrArg Rom.Definition.bytes same, ?_⟩
    rw [metadata]
    show clock.breadthFirst.map _ = _
    decide +kernel

end Graph

end Statechart.Chart
