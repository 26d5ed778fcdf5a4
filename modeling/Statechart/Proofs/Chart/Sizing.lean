/-
# Sizing a machine

How many leaves can be active together is worked out three times: in the graph, where an
error is reported if there are too many, in the tables, where the shape decides the tier,
and, without anybody counting, by the configurations themselves. All three agree for what a
drawn graph compiles to, and the tier is the smallest that the machine can run in
(`sizing_exact`).

The configurations of the graph and of its tables have the same numbers of leaves, since
each leaf has an index of its own (`Ready.leafNumbers_sections`).
-/

import Statechart.Proofs.Chart.Compilation
import Statechart.Proofs.Chart.Correspondence
import Statechart.Proofs.Chart.Slots
import Statechart.Proofs.Rom.Widest

namespace Statechart.Chart

open Statechart.Rom

namespace Graph

variable {graph : Graph}

/-- How many leaves there are in each of the legal configurations. -/
def leafNumbers (graph : Graph) : Set Nat :=
  {count | ∃ leaves, graph.Legal leaves ∧ leaves.length = count}

namespace Ready

variable (actions guards : NameTable) (ready : graph.Ready)

include ready

/-- States of the tables are the indices of states of the graph. -/
theorem exists_indices {states : List UInt16}
    (exist : ∀ state ∈ states, (graph.sections actions guards).Has state) :
    ∃ ids : List StateId, (∀ id ∈ ids, id < graph.stateCount) ∧
      ids.map graph.indexOf = states := by
  induction states with
  | nil => exact ⟨[], List.forall_mem_nil _, rfl⟩
  | cons state rest ih =>
    obtain ⟨id, inside, rfl⟩ :=
      ready.exists_indexOf actions guards (exist state (List.mem_cons_self ..))
    obtain ⟨ids, known, rfl⟩ := ih fun other later => exist other (List.mem_cons_of_mem _ later)
    exact ⟨id :: ids, List.forall_mem_cons.2 ⟨inside, known⟩, rfl⟩

/-- The configurations have as many leaves in the tables as in the graph. -/
theorem leafNumbers_sections :
    (graph.sections actions guards).leafNumbers = graph.leafNumbers := by
  apply Set.Subset.antisymm
  · rintro _ ⟨leaves, legal, rfl⟩
    obtain ⟨ids, known, rfl⟩ := ready.exists_indices actions guards fun leaf listed =>
      (legal.childless leaf listed).1
    exact ⟨ids, ready.legal_of_indices actions guards known legal, (List.length_map _).symm⟩
  · rintro _ ⟨ids, legal, rfl⟩
    exact ⟨_, ready.legal_indices actions guards legal, List.length_map _⟩

/-- The graph counts as many leaves below its root as its tables do. -/
theorem maxLeaves_eq_width :
    graph.maxLeaves = (graph.sections actions guards).width rootIndex := by
  obtain ⟨counts, found, counted⟩ := (ready.wellFormed actions guards).exists_leafCounts
  rw [ready.maxLeaves_eq actions guards counted, Sections.width, found]
  rfl

end Ready

/-- For what a drawn graph compiles to, graph and shape count as many leaves as there are in
the largest configuration, and the tier is the smallest one that the complexity of the
machine allows and that has room for its leaves, timers and histories. -/
theorem sizing_exact (drawn : Drawn graph) {compiled : Compiled}
    (compiles : graph.compile = .ok (.ok compiled)) :
    graph.layOut.maxLeaves = compiled.definition.shape.maxLeaves ∧
    IsGreatest graph.layOut.leafNumbers compiled.definition.shape.maxLeaves ∧
    IsGreatest compiled.definition.sections.leafNumbers compiled.definition.shape.maxLeaves ∧
    IsLeast {tier | Tier.ofComplexity compiled.definition.shape.userStates
        compiled.definition.shape.maxDepth compiled.definition.shape.historySlots
        compiled.definition.shape.regions ≤ tier ∧ compiled.definition.shape.Fits tier}
      compiled.definition.tier := by
  obtain ⟨⟨wellFormed, shaped, modest⟩, ready, actions, guards, tables⟩ :=
    drawn.exists_tables compiles
  have counted := wellFormed.maxLeaves_eq_width shaped
  have largest := wellFormed.isGreatest_leafNumbers
  rw [← counted] at largest
  refine ⟨?_, ?_, largest, modest.isLeast_tier⟩
  · rw [ready.maxLeaves_eq_width actions guards, ← tables, counted]
  · rwa [← ready.leafNumbers_sections actions guards, ← tables]

theorem exists_compiled_pair : ∃ compiled, pair.compile = .ok (.ok compiled) := by
  refine drawn_pair.exists_compiled ?_ (by decide +kernel)
  rw [findings, stableIdFindings_eq_nil (by decide +kernel)]
  decide +kernel

/-- Both regions are active together, and no third leaf is. -/
theorem sizing_exact_pair :
    ∃ compiled, pair.compile = .ok (.ok compiled) ∧
      compiled.definition.shape.maxLeaves = 2 ∧
      IsGreatest compiled.definition.sections.leafNumbers 2 := by
  obtain ⟨compiled, compiles⟩ := exists_compiled_pair
  obtain ⟨same, -, largest, -⟩ := sizing_exact drawn_pair compiles
  have two : compiled.definition.shape.maxLeaves = 2 :=
    same.symm.trans (by decide +kernel)
  exact ⟨compiled, compiles, two, two ▸ largest⟩

end Graph

end Statechart.Chart
