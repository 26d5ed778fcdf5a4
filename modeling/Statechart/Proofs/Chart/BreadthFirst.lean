/-
# The breadth-first order

Laying out a graph visits its states breadth-first. What one visit adds is said once, by
`adopt_spec`; what holds of the states found so far (`Explored`) is kept by every visit
and so holds when all states were visited.

The main statements hold of every graph, however its links were written: the order
starts with the root and repeats nothing, every later state in it comes after a parent
that lists it, and every listed child that names its parent is in it. In a graph whose
links agree the order is the root followed by the children of its own entries, in order
(`toList_breadthFirst`), so the children of a state follow each other.
-/

import Mathlib.Data.List.Nodup
import Mathlib.Data.List.Perm.Subperm
import Statechart.Proofs.Chart.Drawn

namespace Statechart.Chart

namespace Graph

variable {graph : Graph}

/-! ### One visit -/

/-- Append a child that names `id` as its parent and is new. -/
def adoptChild (graph : Graph) (id : StateId) (frontier : Frontier) (child : StateId) :
    Frontier :=
  if (graph.state child).parent = some id ∧ frontier.seen.getD child true = false then
    { order := frontier.order.push child, seen := frontier.seen.set! child true }
  else frontier

theorem adopt_eq (id : StateId) (children : Array StateId) (frontier : Frontier) :
    graph.adopt id children frontier = children.toList.foldl (graph.adoptChild id) frontier := by
  rw [adopt, ← Array.foldl_toList]
  rfl

/-- The marks of a frontier say which states are in its order. -/
structure Marked (graph : Graph) (frontier : Frontier) : Prop where
  unseen_iff (id : StateId) :
    frontier.seen.getD id true = false ↔ id < graph.stateCount ∧ id ∉ frontier.order
  nodup : frontier.order.toList.Nodup
  inside : ∀ id ∈ frontier.order, id < graph.stateCount

theorem getD_set_true (seen : Array Bool) (id other : StateId) :
    (seen.set! id true).getD other true = false ↔
      other ≠ id ∧ seen.getD other true = false := by
  simp only [Array.getD_eq_getD_getElem?, Array.set!_eq_setIfInBounds,
    Array.getElem?_setIfInBounds]
  by_cases same : id = other
  · subst same
    by_cases inside : id < seen.size <;> simp [inside]
  · have differs : other ≠ id := fun equal => same equal.symm
    simp [same, differs]

/-- A new state can be appended. -/
theorem Marked.push {frontier : Frontier} (marked : graph.Marked frontier) {id : StateId}
    (fresh : frontier.seen.getD id true = false) :
    graph.Marked { order := frontier.order.push id, seen := frontier.seen.set! id true } where
  unseen_iff other := by
    rw [getD_set_true, marked.unseen_iff, Array.mem_push]
    constructor
    · rintro ⟨differs, inside, unlisted⟩
      exact ⟨inside, fun listed => listed.elim unlisted differs⟩
    · rintro ⟨inside, unlisted⟩
      exact ⟨fun same => unlisted (.inr same), inside, fun listed => unlisted (.inl listed)⟩
  nodup := by
    have unlisted := ((marked.unseen_iff id).1 fresh).2
    rw [Array.toList_push]
    exact marked.nodup.append (List.nodup_singleton id)
      (List.disjoint_singleton.2 fun listed => unlisted (Array.mem_toList_iff.1 listed))
  inside other listed := by
    rcases Array.mem_push.1 listed with old | rfl
    · exact marked.inside other old
    · exact ((marked.unseen_iff other).1 fresh).1

/-- A visit appends some of the children, in their order: those that name the state and
were not found before. -/
theorem adopt_spec (id : StateId) (children : List StateId) (frontier : Frontier)
    (marked : graph.Marked frontier) :
    ∃ fresh : List StateId,
      (children.foldl (graph.adoptChild id) frontier).order.toList =
        frontier.order.toList ++ fresh ∧
      graph.Marked (children.foldl (graph.adoptChild id) frontier) ∧
      fresh.Sublist children ∧ (∀ child ∈ fresh, (graph.state child).parent = some id) ∧
      ∀ child ∈ children, (graph.state child).parent = some id →
        child ∈ frontier.order ∨ child ∈ fresh := by
  induction children generalizing frontier with
  | nil => exact ⟨[], by simp, marked, List.Sublist.refl _, by simp, by simp⟩
  | cons child rest ih =>
    rw [List.foldl_cons]
    by_cases new : (graph.state child).parent = some id ∧ frontier.seen.getD child true = false
    · have next : graph.adoptChild id frontier child =
          { order := frontier.order.push child, seen := frontier.seen.set! child true } :=
        if_pos new
      rw [next]
      obtain ⟨fresh, order, after, sub, own, all⟩ := ih _ (marked.push new.2)
      refine ⟨child :: fresh, ?_, after, sub.cons_cons child, ?_, ?_⟩
      · simpa using order
      · rintro other (_ | ⟨_, later⟩)
        · exact new.1
        · exact own other later
      · rintro other (_ | ⟨_, later⟩) linked
        · exact .inr (List.mem_cons_self ..)
        · rcases all other later linked with listed | found
          · rcases Array.mem_push.1 listed with old | rfl
            · exact .inl old
            · exact .inr (List.mem_cons_self ..)
          · exact .inr (List.mem_cons_of_mem _ found)
    · have next : graph.adoptChild id frontier child = frontier := if_neg new
      rw [next]
      obtain ⟨fresh, order, after, sub, own, all⟩ := ih _ marked
      refine ⟨fresh, order, after, sub.cons child, own, ?_⟩
      rintro other (_ | ⟨_, later⟩) linked
      · by_cases listed : child ∈ frontier.order
        · exact .inl listed
        · have inside := lt_stateCount_of_parent linked
          exact absurd ⟨linked, (marked.unseen_iff child).2 ⟨inside, listed⟩⟩ new
      · exact all other later linked

/-! ### All visits -/

/-- What holds of the states found when those at the places below `next` were visited. -/
structure Explored (graph : Graph) (next : Nat) (frontier : Frontier) : Prop
    extends graph.Marked frontier where
  first : frontier.order[0]? = some rootId
  adopted {place : Nat} {id : StateId} : frontier.order[place]? = some id → place ≠ 0 →
    ∃ earlier parent, earlier < place ∧ earlier < next ∧
      frontier.order[earlier]? = some parent ∧ (graph.state id).parent = some parent ∧
      id ∈ (graph.state parent).children
  complete {place : Nat} {parent child : StateId} : place < next →
    frontier.order[place]? = some parent → child ∈ (graph.state parent).children →
    (graph.state child).parent = some parent → child ∈ frontier.order

/-- Two places of the same state are one. -/
theorem Marked.place_inj {frontier : Frontier} (marked : graph.Marked frontier)
    {first second : Nat} {id : StateId} (atFirst : frontier.order[first]? = some id)
    (atSecond : frontier.order[second]? = some id) : first = second := by
  rw [← Array.getElem?_toList] at atFirst atSecond
  have inside : first < frontier.order.toList.length := (List.getElem?_eq_some_iff.1 atFirst).1
  exact (List.getElem?_inj inside marked.nodup).1 (atFirst.trans atSecond.symm)

/-- Visiting the state at place `next` leads to the states found for `next + 1`. -/
theorem Explored.visit {next : Nat} {frontier : Frontier} {id : StateId}
    (explored : graph.Explored next frontier) (here : frontier.order[next]? = some id) :
    graph.Explored (next + 1) (graph.adopt id (graph.state id).children frontier) := by
  rw [adopt_eq]
  obtain ⟨fresh, order, after, sub, own, all⟩ :=
    adopt_spec id (graph.state id).children.toList frontier explored.toMarked
  generalize (graph.state id).children.toList.foldl (graph.adoptChild id) frontier = found at *
  -- What was at a place stays there, and what is new comes behind it.
  have kept {place : Nat} {other : StateId} (old : frontier.order[place]? = some other) :
      found.order[place]? = some other := by
    rw [← Array.getElem?_toList] at old ⊢
    rw [order, List.getElem?_append_left (List.getElem?_eq_some_iff.1 old).1, old]
  have back {place : Nat} {other : StateId} (now : found.order[place]? = some other)
      (inside : place < frontier.order.size) : frontier.order[place]? = some other := by
    rw [← Array.getElem?_toList] at now ⊢
    rwa [order, List.getElem?_append_left inside] at now
  have size := (Array.getElem?_eq_some_iff.1 here).1
  exact {
    toMarked := after
    first := kept explored.first
    adopted := by
      intro place other now later
      by_cases inside : place < frontier.order.size
      · obtain ⟨earlier, parent, before, visited, there, linked, listed⟩ :=
          explored.adopted (back now inside) later
        exact ⟨earlier, parent, before, Nat.lt_succ_of_lt visited, kept there, linked, listed⟩
      · have isFresh : other ∈ fresh := by
          rw [← Array.getElem?_toList, order, List.getElem?_append_right (by simpa using inside)]
            at now
          exact List.mem_of_getElem? now
        refine ⟨next, id, by omega, Nat.lt_succ_self next, kept here, own other isFresh, ?_⟩
        exact Array.mem_toList_iff.1 (sub.subset isFresh)
    complete := by
      intro place parent child visited there listed linked
      rw [← Array.mem_toList_iff, order, List.mem_append, Array.mem_toList_iff]
      by_cases last : place = next
      · subst last
        have same : parent = id := by
          rw [kept here] at there
          exact (Option.some.inj there).symm
        subst same
        exact all child (Array.mem_toList_iff.2 listed) linked
      · have earlier : place < next := by omega
        exact .inl (explored.complete earlier (back there (by omega)) listed linked) }

/-- The number of states found never exceeds that of all states. -/
theorem Marked.size_le {frontier : Frontier} (marked : graph.Marked frontier) :
    frontier.order.size ≤ graph.stateCount := by
  have all : frontier.order.toList ⊆ List.range graph.stateCount := fun id listed =>
    List.mem_range.2 (marked.inside id (Array.mem_toList_iff.1 listed))
  have bound := (List.subperm_of_subset marked.nodup all).length_le
  simpa using bound

/-- Whatever the visits keep beside their own invariant holds in the end, and then every
state found was visited. -/
theorem explored_visit (invariant : Nat → Frontier → Prop)
    (keeps : ∀ {next : Nat} {frontier : Frontier} {id : StateId},
      graph.Explored next frontier → frontier.order[next]? = some id → invariant next frontier →
        invariant (next + 1) (graph.adopt id (graph.state id).children frontier))
    (steps next : Nat) (frontier : Frontier) (explored : graph.Explored next frontier)
    (within : next ≤ frontier.order.size) (enough : graph.stateCount ≤ next + steps)
    (holds : invariant next frontier) :
    graph.Explored (graph.visit steps next frontier).order.size
        (graph.visit steps next frontier) ∧
      invariant (graph.visit steps next frontier).order.size
        (graph.visit steps next frontier) := by
  induction steps generalizing next frontier with
  | zero =>
    have bound := explored.size_le
    have all : frontier.order.size = next := by omega
    rw [Graph.visit, all]
    exact ⟨explored, holds⟩
  | succ steps ih =>
    rw [Graph.visit]
    split
    · rename_i ended
      have all : frontier.order.size = next := by
        have := Array.getElem?_eq_none_iff.1 ended
        omega
      rw [all]
      exact ⟨explored, holds⟩
    · rename_i id here
      have visited := explored.visit here
      refine ih (next + 1) _ visited ?_ (by omega) (keeps explored here holds)
      obtain ⟨fresh, order, -⟩ :=
        adopt_spec id (graph.state id).children.toList frontier explored.toMarked
      have inside := (Array.getElem?_eq_some_iff.1 here).1
      rw [adopt_eq, ← Array.length_toList, order, List.length_append, Array.length_toList]
      omega

/-! ### The order -/

theorem explored_start (inhabited : 0 < graph.stateCount) :
    graph.Explored 0
      { order := #[rootId]
        seen := (Array.replicate graph.stateCount false).set! rootId true } where
  unseen_iff id := by
    rw [getD_set_true, Array.getD_eq_getD_getElem?, Array.getElem?_replicate]
    by_cases inside : id < graph.stateCount <;> simp [inside]
  nodup := by simp
  inside id listed := by
    have same : id = rootId := by simpa using listed
    rw [same]
    exact inhabited
  first := rfl
  adopted {place id} here later := by
    have last := (Array.getElem?_eq_some_iff.1 here).1
    simp at last
    omega
  complete early := absurd early (Nat.not_lt_zero _)

/-- Everything found was visited. -/
theorem explored_breadthFirst (inhabited : 0 < graph.stateCount) :
    ∃ frontier, frontier.order = graph.breadthFirst ∧
      graph.Explored graph.breadthFirst.size frontier :=
  ⟨_, rfl, (explored_visit (fun _ _ => True) (fun _ _ _ => trivial) _ 0 _
    (explored_start inhabited) (Nat.zero_le _) (by omega) trivial).1⟩

theorem nodup_breadthFirst (inhabited : 0 < graph.stateCount) :
    graph.breadthFirst.toList.Nodup := by
  obtain ⟨frontier, same, explored⟩ := explored_breadthFirst inhabited
  rw [← same]
  exact explored.nodup

theorem lt_stateCount_of_mem (inhabited : 0 < graph.stateCount) {id : StateId}
    (listed : id ∈ graph.breadthFirst) : id < graph.stateCount := by
  obtain ⟨frontier, same, explored⟩ := explored_breadthFirst inhabited
  exact explored.inside id (same ▸ listed)

theorem getElem?_breadthFirst_zero (inhabited : 0 < graph.stateCount) :
    graph.breadthFirst[0]? = some rootId := by
  obtain ⟨frontier, same, explored⟩ := explored_breadthFirst inhabited
  rw [← same]
  exact explored.first

theorem rootId_mem_breadthFirst (inhabited : 0 < graph.stateCount) :
    rootId ∈ graph.breadthFirst :=
  Array.mem_of_getElem? (getElem?_breadthFirst_zero inhabited)

/-- A state other than the root comes after a parent that lists it. -/
theorem exists_parent_before (inhabited : 0 < graph.stateCount) {place : Nat} {id : StateId}
    (here : graph.breadthFirst[place]? = some id) (later : place ≠ 0) :
    ∃ earlier parent, earlier < place ∧ graph.breadthFirst[earlier]? = some parent ∧
      (graph.state id).parent = some parent ∧ id ∈ (graph.state parent).children := by
  obtain ⟨frontier, same, explored⟩ := explored_breadthFirst inhabited
  rw [← same] at here ⊢
  obtain ⟨earlier, parent, before, -, there, linked, listed⟩ := explored.adopted here later
  exact ⟨earlier, parent, before, there, linked, listed⟩

/-- A listed child that names its parent is found when its parent is. -/
theorem mem_breadthFirst_of_child (inhabited : 0 < graph.stateCount) {parent child : StateId}
    (found : parent ∈ graph.breadthFirst) (listed : child ∈ (graph.state parent).children)
    (linked : (graph.state child).parent = some parent) : child ∈ graph.breadthFirst := by
  obtain ⟨frontier, same, explored⟩ := explored_breadthFirst inhabited
  rw [← same] at found ⊢
  obtain ⟨place, here⟩ := Array.mem_iff_getElem?.1 found
  have inside : place < graph.breadthFirst.size := by
    rw [← same]
    exact (Array.getElem?_eq_some_iff.1 here).1
  exact explored.complete inside here listed linked

/-- The parent of a state that was found was found too. -/
theorem parent_mem_breadthFirst (inhabited : 0 < graph.stateCount) {id : StateId}
    (found : id ∈ graph.breadthFirst) (other : id ≠ rootId) :
    ∃ parent ∈ graph.breadthFirst, (graph.state id).parent = some parent ∧
      id ∈ (graph.state parent).children := by
  obtain ⟨place, here⟩ := Array.mem_iff_getElem?.1 found
  have later : place ≠ 0 := by
    rintro rfl
    rw [getElem?_breadthFirst_zero inhabited] at here
    exact other (Option.some.inj here).symm
  obtain ⟨earlier, parent, -, there, linked, listed⟩ :=
    exists_parent_before inhabited here later
  exact ⟨parent, Array.mem_of_getElem? there, linked, listed⟩

/-! ### Graphs whose links agree -/

/-- In a graph whose links agree a visit appends all children. -/
theorem LinksAgree.toList_adopt (agree : graph.LinksAgree) {next : Nat} {frontier : Frontier}
    {id : StateId} (explored : graph.Explored next frontier)
    (here : frontier.order[next]? = some id) :
    (graph.adopt id (graph.state id).children frontier).order.toList =
      frontier.order.toList ++ (graph.state id).children.toList := by
  rw [adopt_eq]
  obtain ⟨fresh, order, -, sub, -, all⟩ :=
    adopt_spec id (graph.state id).children.toList frontier explored.toMarked
  -- A child that was found before would have been found below an earlier state.
  have new : ∀ child ∈ (graph.state id).children, child ∉ frontier.order := by
    intro child listed found
    have linked := agree.mem_children.1 listed
    obtain ⟨place, there⟩ := Array.mem_iff_getElem?.1 found
    by_cases top : place = 0
    · subst top
      rw [explored.first] at there
      obtain rfl := Option.some.inj there
      rw [agree.parent_root] at linked
      cases linked
    · obtain ⟨earlier, parent, -, visited, above, linkedAbove, -⟩ := explored.adopted there top
      obtain rfl : id = parent := Option.some.inj (linked.symm.trans linkedAbove)
      exact Nat.ne_of_lt visited (explored.place_inj above here)
  have whole : (graph.state id).children.toList ⊆ fresh := by
    intro child listed
    have member := Array.mem_toList_iff.1 listed
    exact (all child listed (agree.mem_children.1 member)).resolve_left (new child member)
  have same : fresh = (graph.state id).children.toList :=
    sub.eq_of_length_le (List.subperm_of_subset (agree.nodup_children id) whole).length_le
  rw [order, same]

/-- The order is the root followed by the children of its own entries. -/
theorem LinksAgree.toList_breadthFirst (agree : graph.LinksAgree)
    (inhabited : 0 < graph.stateCount) :
    graph.breadthFirst.toList =
      rootId :: graph.breadthFirst.toList.flatMap fun id =>
        (graph.state id).children.toList := by
  have visited := (explored_visit
    (fun next frontier => frontier.order.toList =
      rootId :: (frontier.order.toList.take next).flatMap fun id =>
        (graph.state id).children.toList)
    (fun {next frontier id} explored here before => by
      have place : frontier.order.toList[next]? = some id := by
        rw [Array.getElem?_toList]
        exact here
      have inside := (List.getElem?_eq_some_iff.1 place).1
      rw [agree.toList_adopt explored here, List.take_append_of_le_length inside,
        List.take_add_one, place, List.flatMap_append, ← List.cons_append, ← before]
      simp)
    graph.stateCount 0 _ (explored_start inhabited) (Nat.zero_le _) (by omega) (by simp)).2
  have all : graph.breadthFirst.toList.take graph.breadthFirst.size =
      graph.breadthFirst.toList := List.take_of_length_le (by simp)
  rw [← all]
  exact all.trans visited

end Graph

end Statechart.Chart
