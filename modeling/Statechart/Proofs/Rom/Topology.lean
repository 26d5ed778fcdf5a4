/-
# Machines of one topology

The configurations of a machine are a matter of its topology alone: which states there are,
who their parents and children are, and which of them are parallel. Whatever else differs
between two machines of one topology, transitions, initial children, slots, they can stand in
the same configurations (`Standing.of_topology`).
-/

import Statechart.Proofs.Rom.Legal
import Statechart.Proofs.Rom.Streams

namespace Statechart.Rom.Sections

variable {first second : Sections} {state child : UInt16} {agenda leaves active : List UInt16}

theorem Has.of_topology (same : first.topology = second.topology) (has : first.Has state) :
    second.Has state := by
  rw [Has, ← size_eq_of_topology same]
  exact has

theorem parent_eq_of_topology (same : first.topology = second.topology) (state : UInt16) :
    (first.record state).parent = (second.record state).parent := by
  have told := congrArg StateRecord.parent (record_topology_eq same state)
  exact told

theorem children_eq_of_topology (same : first.topology = second.topology) (state : UInt16) :
    (first.record state).children = (second.record state).children := by
  have told := congrArg StateRecord.children (record_topology_eq same state)
  exact told

theorem isLeaf_eq_of_topology (same : first.topology = second.topology) (state : UInt16) :
    (first.record state).isLeaf = (second.record state).isLeaf := by
  have told := congrArg StateRecord.isLeaf (record_topology_eq same state)
  exact told

theorem parallel_eq_of_topology (same : first.topology = second.topology) (state : UInt16) :
    (first.record state).flags.parallel = (second.record state).flags.parallel := by
  have told := congrArg (fun record => record.flags.parallel) (record_topology_eq same state)
  exact told

theorem Child.of_topology (same : first.topology = second.topology)
    (linked : first.Child state child) : second.Child state child where
  has := linked.has.of_topology same
  ne_root := linked.ne_root
  parent_eq := (parent_eq_of_topology same child).symm.trans linked.parent_eq

theorem Beneath.of_topology {top : UInt16} (same : first.topology = second.topology)
    (beneath : first.Beneath top state) : second.Beneath top state := by
  induction beneath with
  | self has => exact .self (has.of_topology same)
  | under _ linked ih => exact .under ih (linked.of_topology same)

/-- The same states lie above the leaves. -/
theorem active_iff_of_topology (same : first.topology = second.topology) :
    first.Active active state ↔ second.Active active state := by
  constructor
  · rintro ⟨leaf, listed, beneath⟩
    exact ⟨leaf, listed, beneath.of_topology same⟩
  · rintro ⟨leaf, listed, beneath⟩
    exact ⟨leaf, listed, beneath.of_topology same.symm⟩

/-- The same leaves fill an agenda. -/
theorem Fills.of_topology (same : first.topology = second.topology)
    (fills : first.Fills agenda leaves) : second.Fills agenda leaves := by
  induction fills with
  | nil => exact .nil
  | @leaf state _ _ has childless _ ih =>
    rw [isLeaf_eq_of_topology same] at childless
    exact .leaf (has.of_topology same) childless ih
  | @serial state _ _ _ alone linked _ ih =>
    rw [parallel_eq_of_topology same] at alone
    exact .serial alone (linked.of_topology same) ih
  | @parallel state _ _ has inner parallel _ ih =>
    rw [isLeaf_eq_of_topology same] at inner
    rw [parallel_eq_of_topology same] at parallel
    rw [children_eq_of_topology same] at ih
    exact .parallel (has.of_topology same) inner parallel ih

/-- What one machine can have active, another one of its topology can, too. -/
theorem Standing.of_topology (same : first.topology = second.topology)
    (standing : first.Standing active) : second.Standing active := by
  obtain ⟨start, leaves, starts, perm, fills⟩ := standing
  refine ⟨start, leaves, starts.imp_right fun region => ?_, perm, fills.of_topology same⟩
  exact ⟨(parallel_eq_of_topology same rootIndex).symm.trans region.1, region.2.of_topology same⟩

end Statechart.Rom.Sections
