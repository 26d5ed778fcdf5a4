/-
# Which slot a state gets

A state that asks for a slot gets it. The others are served in the order of their stable
identities, each with the smallest number that is left (`slotFor`). So the slot of a state
depends on the slots that are asked for anywhere in the machine and on how many states are
served before it, and on nothing else (`slotFor_congr`).
-/

import Mathlib.Data.Nat.Nth
import Statechart.Proofs.Chart.Sharing

namespace Statechart.Chart

namespace SlotClaim

variable {claims others : List SlotClaim} {claim other : SlotClaim}

/-- The slots that states ask for. -/
def asked (claims : List SlotClaim) : List UInt16 :=
  claims.filterMap SlotClaim.explicit

/-- A number that no state asks for. -/
def Free (claims : List SlotClaim) (number : Nat) : Prop :=
  UInt16.ofNat number ∉ asked claims

instance (claims : List SlotClaim) : DecidablePred (Free claims) := fun number =>
  inferInstanceAs (Decidable (UInt16.ofNat number ∉ asked claims))

/-- How many of those that ask for no slot are served before a state. -/
def rank (claim : SlotClaim) (claims : List SlotClaim) : Nat :=
  claims.countP fun other =>
    (other.precedes claim && other.state != claim.state) && other.explicit.isNone

/-- The slot for a claim: the one that is asked for, or the free one whose turn it is. -/
noncomputable def slotFor (claim : SlotClaim) (claims : List SlotClaim) : Nat :=
  claim.explicit.elim (Nat.nth (Free claims) (claim.rank claims)) UInt16.toNat

/-- A state that asks for the same slot gets the same slot, and so does one that asks for none
if the same slots are asked for and as many states are served before it. -/
theorem slotFor_congr (same : claim.explicit = other.explicit)
    (undisturbed : claim.explicit = none →
      (∀ slot, slot ∈ asked claims ↔ slot ∈ asked others) ∧ claim.rank claims = other.rank others) :
    claim.slotFor claims = other.slotFor others := by
  rw [slotFor, slotFor, ← same]
  cases wish : claim.explicit with
  | some slot => rfl
  | none =>
    obtain ⟨asks, ranks⟩ := undisturbed wish
    have free : Free claims = Free others := funext fun number => propext (not_congr (asks _))
    rw [free, ranks]

/-! ### The order of service -/

theorem precedes_iff : claim.precedes other = true ↔
    claim.stableId < other.stableId ∨
      claim.stableId = other.stableId ∧ claim.state ≤ other.state := by
  simp [precedes]

theorem precedes_trans (first second third : SlotClaim) (before : first.precedes second = true)
    (after : second.precedes third = true) : first.precedes third = true := by
  rw [precedes_iff] at *
  rcases before with less | ⟨same, before⟩ <;> rcases after with more | ⟨alike, after⟩
  · exact .inl (UInt32.lt_trans less more)
  · exact .inl (alike ▸ less)
  · exact .inl (same ▸ more)
  · exact .inr ⟨same.trans alike, Nat.le_trans before after⟩

theorem precedes_total (first second : SlotClaim) :
    (first.precedes second || second.precedes first) = true := by
  rw [Bool.or_eq_true, precedes_iff, precedes_iff]
  rcases Nat.lt_trichotomy first.stableId.toNat second.stableId.toNat with less | same | more
  · exact .inl (.inl less)
  · have same := UInt32.toNat_inj.1 same
    exact (Nat.le_total first.state second.state).imp (fun before => .inr ⟨same, before⟩)
      fun after => .inr ⟨same.symm, after⟩
  · exact .inr (.inl more)

/-- Two different states do not precede each other. -/
theorem state_eq_of_precedes (before : claim.precedes other = true)
    (after : other.precedes claim = true) : claim.state = other.state := by
  rw [precedes_iff] at before after
  rcases before with less | ⟨same, before⟩ <;> rcases after with more | ⟨alike, after⟩
  · exact absurd more (UInt32.lt_asymm less)
  · exact absurd less (alike ▸ UInt32.lt_irrefl _)
  · exact absurd more (same ▸ UInt32.lt_irrefl _)
  · exact Nat.le_antisymm before after

/-- Those that ask for no slot, in the order in which they are served. -/
def queue (claims : List SlotClaim) : List SlotClaim :=
  (claims.filter fun claim => claim.explicit.isNone).mergeSort precedes

theorem mem_queue : claim ∈ queue claims ↔ claim ∈ claims ∧ claim.explicit = none := by
  rw [queue, List.mem_mergeSort, List.mem_filter, Option.isNone_iff_eq_none]

theorem pairwise_precedes_queue (claims : List SlotClaim) :
    (queue claims).Pairwise fun first second => first.precedes second = true :=
  List.pairwise_mergeSort precedes_trans precedes_total _

theorem nodup_states_queue (apart : (claims.map SlotClaim.state).Nodup) :
    ((queue claims).map SlotClaim.state).Nodup :=
  ((List.mergeSort_perm ..).map SlotClaim.state).nodup_iff.2
    ((List.filter_sublist.map _).nodup apart)

/-- The slots that are given away first are those that are asked for. -/
theorem map_explicit (claims : List SlotClaim) :
    (claims.filterMap fun claim => claim.explicit.map (claim.state, ·)).map Prod.snd =
      asked claims := by
  rw [List.map_filterMap]
  apply List.filterMap_congr
  intro claim _
  cases claim.explicit <;> rfl

/-- Every state is served or gets what it asks for. -/
theorem length_queue_add_asked (claims : List SlotClaim) :
    (queue claims).length + (asked claims).length = claims.length := by
  rw [queue, List.length_mergeSort]
  induction claims with
  | nil => rfl
  | cons claim rest ih =>
    cases wish : claim.explicit with
    | none =>
      rw [asked, List.filterMap_cons_none wish, List.filter_cons_of_pos (by rw [wish]; rfl)]
      rw [asked] at ih
      simp only [List.length_cons]
      omega
    | some slot =>
      rw [asked, List.filterMap_cons_some wish, List.filter_cons_of_neg (by rw [wish]; nofun)]
      rw [asked] at ih
      simp only [List.length_cons]
      omega

/-- A state is served at the place that its rank says. -/
theorem getElem?_queue (apart : (claims.map SlotClaim.state).Nodup) (claimed : claim ∈ claims)
    (wish : claim.explicit = none) : (queue claims)[claim.rank claims]? = some claim := by
  have perm : (queue claims).Perm (claims.filter fun claim => claim.explicit.isNone) :=
    List.mergeSort_perm ..
  have sorted := pairwise_precedes_queue claims
  have states := nodup_states_queue apart
  have counted : claim.rank claims =
      (queue claims).countP fun other => other.precedes claim && other.state != claim.state := by
    rw [perm.countP_eq, List.countP_filter]
    rfl
  obtain ⟨front, back, split⟩ := List.append_of_mem (mem_queue.2 ⟨claimed, wish⟩)
  rw [split] at sorted states counted ⊢
  obtain ⟨-, onward, earlier⟩ := List.pairwise_append.1 sorted
  rw [List.map_append, List.map_cons] at states
  obtain ⟨-, own, differs⟩ := List.nodup_append.1 states
  -- Everyone in front precedes the state, and nobody behind it does.
  have before : front.countP (fun other => other.precedes claim && other.state != claim.state) =
      front.length := by
    refine List.countP_eq_length.2 fun other inFront => ?_
    rw [Bool.and_eq_true, bne_iff_ne]
    exact ⟨earlier other inFront claim (List.mem_cons_self ..),
      differs _ (List.mem_map_of_mem inFront) _ (List.mem_cons_self ..)⟩
  have after : (claim :: back).countP
      (fun other => other.precedes claim && other.state != claim.state) = 0 := by
    refine List.countP_eq_zero.2 fun other inBack both => ?_
    rw [Bool.and_eq_true, bne_iff_ne] at both
    rcases List.mem_cons.1 inBack with rfl | later
    · exact both.2 rfl
    · exact both.2 (state_eq_of_precedes both.1 ((List.pairwise_cons.1 onward).1 other later))
  rw [counted, List.countP_append, before, after, Nat.add_zero, List.getElem?_append_right
    (Nat.le_refl _), Nat.sub_self]
  rfl

/-! ### Free numbers -/

/-- The numbers that are kept below a bound stand in their order. -/
theorem eq_nth_of_getElem?_filter_range {keep : Nat → Prop} [DecidablePred keep]
    {bound place number : Nat}
    (found : ((List.range bound).filter fun number => keep number)[place]? = some number) :
    number = Nat.nth keep place := by
  have counted (bound : Nat) :
      ((List.range bound).filter fun number => keep number).length = Nat.count keep bound := by
    rw [← List.countP_eq_length_filter]
    rfl
  induction bound with
  | zero => cases found
  | succ bound ih =>
    rw [List.range_succ, List.filter_append, List.getElem?_append] at found
    split at found
    · exact ih found
    · next late =>
      obtain ⟨inside, here⟩ := List.getElem?_eq_some_iff.1 found
      have kept := List.mem_filter.1 (here ▸ List.getElem_mem inside)
      obtain rfl := List.mem_singleton.1 kept.1
      have short := Nat.lt_of_lt_of_le inside (List.length_filter_le _ _)
      rw [List.length_singleton] at short
      rw [counted] at short late
      obtain rfl : place = Nat.count keep number := by omega
      exact (Nat.nth_count (of_decide_eq_true kept.2)).symm

theorem getElem?_freeSlots {count place number : Nat}
    (found : (freeSlots (asked claims) count)[place]? = some number) :
    number = Nat.nth (Free claims) place ∧ number < count + (asked claims).length := by
  have kept : (fun number => !(asked claims).contains (UInt16.ofNat number)) =
      fun number => decide (Free claims number) := by
    funext number
    rw [Bool.eq_iff_iff, decide_eq_true_eq]
    simp [Free]
  rw [freeSlots, kept] at found
  have within := List.mem_filter.1 (List.mem_of_mem_take (List.mem_of_getElem? found))
  rw [List.getElem?_take] at found
  split at found
  · exact ⟨eq_nth_of_getElem?_filter_range found, List.mem_range.1 within.1⟩
  · cases found

/-- A slot that a state was given is the one for its claim. -/
theorem toNat_eq_slotFor (few : claims.length ≤ 65536)
    (apart : (claims.map SlotClaim.state).Nodup) (claimed : claim ∈ claims) {slot : UInt16}
    (met : (claim.state, slot) ∈ assign claims) : slot.toNat = claim.slotFor claims := by
  have only {other : SlotClaim} (listed : other ∈ claims) (same : other.state = claim.state) :
      other = claim := List.inj_on_of_nodup_map apart listed claimed same
  rcases List.mem_append.1 met with wished | served
  · obtain ⟨other, listed, found⟩ := List.mem_filterMap.1 wished
    obtain ⟨wish, asks, same⟩ := Option.map_eq_some_iff.1 found
    obtain ⟨state, rfl⟩ := Prod.mk.inj same
    rw [slotFor, ← only listed state, asks]
    rfl
  · rw [map_explicit] at served
    obtain ⟨place, found⟩ := List.mem_iff_getElem?.1 served
    obtain ⟨here, there⟩ := List.getElem?_zip_eq_some.1 found
    rw [List.getElem?_map, Option.map_eq_some_iff] at here there
    obtain ⟨other, atPlace, same⟩ := here
    obtain ⟨number, free, rfl⟩ := there
    obtain ⟨waiting, wish⟩ := mem_queue.1 (List.mem_of_getElem? atPlace)
    obtain rfl := only waiting same
    -- The states of the queue are apart, so the state's place is its rank.
    have states : (queue claims).Nodup := .of_map SlotClaim.state (nodup_states_queue apart)
    obtain ⟨inside, -⟩ := List.getElem?_eq_some_iff.1 atPlace
    obtain rfl : place = other.rank claims :=
      (List.getElem?_inj inside states).1 (atPlace.trans (getElem?_queue apart claimed wish).symm)
    obtain ⟨numbered, small⟩ := getElem?_freeSlots free
    have sizes := length_queue_add_asked claims
    rw [queue] at sizes
    rw [UInt16.toNat_ofNat_of_lt' (show number < 65536 by omega), slotFor, wish, numbered]
    rfl

end SlotClaim

namespace Graph

open Statechart.Rom

variable {graph : Graph}

/-! ### Findings of machines whose keys ascend -/

/-- Entries whose keys are in order are cut where the key changes. -/
theorem runsByKey_of_sorted {keyed : List (Nat × StateId)}
    (sorted : keyed.Pairwise fun first second => first.1 ≤ second.1) :
    runsByKey keyed = (keyed.splitBy fun first second => first.1 == second.1).filterMap fun run =>
      run.head?.map fun first => (first.1, run.map Prod.snd) := by
  rw [runsByKey, List.mergeSort_of_pairwise (sorted.imp decide_eq_true)]

/-- Entries whose keys ascend are runs of their own. -/
theorem runsByKey_of_ascending {keyed : List (Nat × StateId)}
    (ascending : keyed.Pairwise fun first second => first.1 < second.1) :
    runsByKey keyed = keyed.map fun entry => (entry.1, [entry.2]) := by
  have flat : (keyed.map fun entry => [entry]).flatten = keyed := by
    rw [← List.flatMap_def, List.flatMap_singleton']
  have alone : keyed.splitBy (fun first second => first.1 == second.1) =
      keyed.map fun entry => [entry] := by
    conv_lhs => rw [← flat]
    refine List.splitBy_flatten (by simp) (fun run listed => ?_) ?_
    · obtain ⟨entry, -, rfl⟩ := List.mem_map.1 listed
      exact .singleton entry
    · refine (List.isChain_map _).2 (ascending.isChain.imp fun first second less => ?_)
      exact ⟨List.cons_ne_nil _ _, List.cons_ne_nil _ _, beq_false_of_ne (Nat.ne_of_lt less)⟩
  rw [runsByKey_of_sorted (ascending.imp Nat.le_of_lt), alone, List.filterMap_map]
  exact congrFun List.filterMap_eq_map keyed

/-- Nothing is wrong with identities that ascend. -/
theorem stableIdFindings_eq_nil
    (ascending : ((graph.order.toList.filter fun id => id ≠ rootId).map fun id =>
      ((graph.state id).stableId.toNat, id)).Pairwise fun first second => first.1 < second.1) :
    graph.stableIdFindings = [] := by
  unfold stableIdFindings
  simp only [runsByKey_of_ascending ascending]
  refine List.flatMap_eq_nil_iff.2 fun run listed => ?_
  obtain ⟨_, -, rfl⟩ := List.mem_map.1 listed
  rfl

/-- Nothing is wrong with slots that ascend. -/
theorem sharedSlotFindings_eq_nil (what : String) (slot : Placement → Option UInt16)
    (ascending : (graph.order.toList.filterMap fun id =>
      ((graph.state id).placement.bind slot).map fun slot => (slot.toNat, id)).Pairwise
        fun first second => first.1 < second.1) : graph.sharedSlotFindings what slot = [] := by
  unfold sharedSlotFindings
  simp only [runsByKey_of_ascending ascending]
  refine List.flatMap_eq_nil_iff.2 fun run listed => ?_
  obtain ⟨_, -, rfl⟩ := List.mem_map.1 listed
  rfl

/-! ### Some machines -/

/-- The clock, with more time on its timer. -/
def slowClock : Graph :=
  clock.modifyState 1 fun node => { node with timer := some ⟨20, none, none⟩ }

theorem drawn_slowClock : Drawn slowClock :=
  .configure 1 drawn_clock (fun _ => rfl) (fun _ => rfl) (fun _ => rfl)

theorem exists_compiled_slowClock : ∃ compiled, slowClock.compile = .ok (.ok compiled) :=
  drawn_slowClock.exists_compiled (by decide +kernel) (by decide +kernel)

/-- Two states, of which the second is active first and has a timer. -/
def bell : Graph :=
  (lone.insertState "B" rootId).2.modifyState 2 fun node =>
    { node with initial := true, timer := some ⟨100, none, none⟩ }

theorem drawn_bell : Drawn bell := by
  have other : "B" ∉ lone.stateNames.names :=
    Name.Roster.not_mem_names_insert (Array.not_mem_empty "B") (by decide)
  exact .configure 2 (drawn_lone.insertState (by decide +kernel) (by decide) other) (fun _ => rfl)
    (fun _ => rfl) (fun _ => rfl)

/-- The other state has a timer, too, and asks for the first slot. -/
def bells : Graph :=
  bell.modifyState 1 fun node => { node with timer := some ⟨100, none, some 0⟩ }

theorem drawn_bells : Drawn bells :=
  .configure 1 drawn_bell (fun _ => rfl) (fun _ => rfl) (fun _ => rfl)

theorem exists_compiled_bell : ∃ compiled, bell.compile = .ok (.ok compiled) := by
  refine drawn_bell.exists_compiled ?_ (by decide +kernel)
  rw [findings, stableIdFindings_eq_nil (by decide +kernel)]
  decide +kernel

theorem exists_compiled_bells : ∃ compiled, bells.compile = .ok (.ok compiled) := by
  refine drawn_bells.exists_compiled ?_ (by decide +kernel)
  rw [findings, stableIdFindings_eq_nil (by decide +kernel), slotFindings,
    sharedSlotFindings_eq_nil "timer" Placement.timerSlot (by decide +kernel)]
  decide +kernel

/-- A graph was drawn, and its states beside the root have these names. -/
structure NamedBy (graph : Graph) (names : List String) : Prop where
  drawn : Drawn graph
  names_eq : graph.stateNames.names.toList = names

theorem NamedBy.insertState {names : List String} (named : graph.NamedBy names) (name : String)
    (parent : StateId) (inside : parent < graph.stateCount) (proper : name ≠ rootName)
    (fresh : name ∉ names) : (graph.insertState name parent).2.NamedBy (names ++ [name]) := by
  obtain ⟨drawn, rfl⟩ := named
  rw [Array.mem_toList_iff] at fresh
  refine ⟨drawn.insertState inside proper fresh, ?_⟩
  have absent : ¬ graph.stateNames.contains name = true := mt Name.Roster.contains_iff.1 fresh
  have added := (Name.Roster.names_insert graph.stateNames name).trans (if_neg absent)
  exact (congrArg Array.toList added).trans Array.toList_push

theorem namedBy_lone : lone.NamedBy ["A"] :=
  NamedBy.insertState ⟨.named "M", rfl⟩ "A" rootId Nat.one_pos (by decide) List.not_mem_nil

/-- A state with two children. -/
def house : Graph :=
  ((lone.insertState "B" 1).2.insertState "C" 1).2

theorem drawn_house : Drawn house :=
  ((namedBy_lone.insertState "B" 1 (by decide +kernel) (by decide) (by decide)).insertState "C" 1
    (by decide +kernel) (by decide) (by decide)).drawn

/-- A state with two regions. -/
def pair : Graph :=
  house.modifyState 1 fun node => { node with parallel := true }

theorem drawn_pair : Drawn pair :=
  .configure 1 drawn_house (fun _ => rfl) (fun _ => rfl) fun _ => rfl

/-- The outer state remembers which child was active, and starts over every 10 ms. The first child
gives way to the second after 5 ms. -/
def hall : Graph :=
  let timed := (house.modifyState 2 fun node =>
    { node with timer := some ⟨5, none, none⟩ }).modifyState 1 fun node =>
      { node with history := .shallow, timer := some ⟨10, none, some 0⟩ }
  ((timed.addTransition 1 (some 1) .timer).2.addTransition 2 (some 3) .timer).2

theorem drawn_hall : Drawn hall := by
  have inner : Drawn (house.modifyState 2 fun node =>
      { node with timer := some ⟨5, none, none⟩ }) :=
    .configure 2 drawn_house (fun _ => rfl) (fun _ => rfl) fun _ => rfl
  have timed : Drawn ((house.modifyState 2 fun node =>
      { node with timer := some ⟨5, none, none⟩ }).modifyState 1 fun node =>
        { node with history := .shallow, timer := some ⟨10, none, some 0⟩ }) :=
    .configure 1 inner (fun _ => rfl) (fun _ => rfl) fun _ => rfl
  exact .addTransition (some 3) .timer (.addTransition (some 1) .timer timed (by decide +kernel))
    (by decide +kernel)

theorem exists_compiled_hall : ∃ compiled, hall.compile = .ok (.ok compiled) := by
  refine drawn_hall.exists_compiled ?_ (by decide +kernel)
  rw [findings, stableIdFindings_eq_nil (by decide +kernel), slotFindings,
    sharedSlotFindings_eq_nil "timer" Placement.timerSlot (by decide +kernel)]
  decide +kernel

end Graph

end Statechart.Chart
