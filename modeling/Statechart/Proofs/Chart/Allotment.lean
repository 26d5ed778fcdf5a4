/-
# Slots follow identities

History slots and timer slots are handed out in the same way (`Feature`). A state that asks for a
slot gets it. The others are served in the order of their identities, with the slots that nobody
asks for, the smallest first (`SlotClaim.unasked`). A compiled machine has the slots that are handed
out (`Graph.Drawn.timerSlot_eq`).

Who is served when and with what is told by the identities and the wishes alone. So in two graphs
whose states have the same identities and wishes, each identity gets the same slot, however the
states are named, ordered or nested (`slots_follow_identity`).
-/

import Statechart.Proofs.Chart.Slots

namespace Statechart.Chart

/-! ### What is handed out -/

namespace SlotClaim

variable {claims others : List SlotClaim} {claim other : SlotClaim} {slot : UInt16}

/-- The slots that nobody asks for, the smallest first. -/
def unasked (claims : List SlotClaim) : List UInt16 :=
  ((List.range 65536).map UInt16.ofNat).filter fun slot => slot ∉ asked claims

theorem nodup_unasked (claims : List SlotClaim) : (unasked claims).Nodup := by
  refine List.Nodup.filter _ (List.Nodup.map_on ?_ List.nodup_range)
  intro first firstInside second secondInside same
  have equal := congrArg UInt16.toNat same
  rwa [UInt16.toNat_ofNat_of_lt' (List.mem_range.1 firstInside),
    UInt16.toNat_ofNat_of_lt' (List.mem_range.1 secondInside)] at equal

theorem notMem_asked (free : slot ∈ unasked claims) : slot ∉ asked claims :=
  of_decide_eq_true (List.mem_filter.1 free).2

theorem unasked_congr (same : ∀ slot, slot ∈ asked claims ↔ slot ∈ asked others) :
    unasked claims = unasked others := by
  unfold unasked
  simp only [same]

/-- The slots that are left for `count` states are the smallest ones that nobody asks for. -/
theorem map_freeSlots {count : Nat} (few : count + (asked claims).length ≤ 65536) :
    (freeSlots (asked claims) count).map UInt16.ofNat = (unasked claims).take count := by
  have enough := length_freeSlots few
  obtain ⟨more, all⟩ := Nat.exists_eq_add_of_le few
  have kept : (fun slot => !(asked claims).contains (UInt16.ofNat slot)) =
      (fun slot => decide (slot ∉ asked claims)) ∘ UInt16.ofNat := by
    funext number
    rw [Bool.eq_iff_iff]
    simp
  rw [freeSlots, kept] at enough ⊢
  rw [unasked, List.filter_map, ← List.map_take, all,
    @List.range_add (count + (asked claims).length) more, List.filter_append,
    List.take_append_of_le_length]
  exact Nat.le_trans (Nat.le_of_eq enough.symm) (List.length_take_le' _ _)

theorem length_unasked (few : claims.length ≤ 65536) :
    (queue claims).length ≤ (unasked claims).length := by
  have room := (length_queue_add_asked claims).trans_le few
  have taken := congrArg List.length (map_freeSlots room)
  rw [List.length_map, length_freeSlots room, List.length_take] at taken
  omega

/-- States that ask for a slot are given it, the others are given what nobody asks for. -/
theorem assign_eq (few : claims.length ≤ 65536) :
    assign claims = (claims.filterMap fun claim => claim.explicit.map (claim.state, ·)) ++
      ((queue claims).map SlotClaim.state).zip (unasked claims) := by
  have room := (length_queue_add_asked claims).trans_le few
  have left := map_freeSlots room
  simp only [assign, map_explicit]
  show _ ++ ((queue claims).map SlotClaim.state).zip
    ((freeSlots (asked claims) (queue claims).length).map UInt16.ofNat) = _
  conv_rhs => rw [List.zip_eq_zip_take_min]
  rw [left, List.length_map, Nat.min_eq_left (length_unasked few),
    List.take_of_length_le (l := (queue claims).map SlotClaim.state)
      (Nat.le_of_eq (List.length_map _))]

/-- Every state is given one slot. -/
theorem nodup_assign (few : claims.length ≤ 65536) (apart : (claims.map SlotClaim.state).Nodup) :
    ((assign claims).map Prod.fst).Nodup := by
  have wished : (claims.filterMap fun claim => claim.explicit.map (claim.state, ·)).map Prod.fst =
      (claims.filter fun claim => !claim.explicit.isNone).map SlotClaim.state := by
    rw [List.map_filterMap, ← List.filterMap_eq_map, ← List.filterMap_eq_filter,
      List.filterMap_filterMap]
    apply List.filterMap_congr
    intro claim _
    cases asks : claim.explicit <;> simp [asks, Option.guard]
  have served : (((queue claims).map SlotClaim.state).zip (unasked claims)).map Prod.fst =
      (queue claims).map SlotClaim.state :=
    List.map_fst_zip (by rw [List.length_map]; exact length_unasked few)
  have perm : ((claims.filter fun claim => !claim.explicit.isNone) ++ queue claims).Perm claims :=
    (List.perm_append_comm.trans ((List.mergeSort_perm ..).append_right _)).trans
      (List.filter_append_perm (fun claim => claim.explicit.isNone) claims)
  rw [assign_eq few, List.map_append, wished, served, ← List.map_append]
  exact (perm.map SlotClaim.state).nodup_iff.2 apart

theorem mem_assign_of_explicit (few : claims.length ≤ 65536) (claimed : claim ∈ claims)
    (asks : claim.explicit = some slot) : (claim.state, slot) ∈ assign claims := by
  rw [assign_eq few]
  refine List.mem_append_left _ (List.mem_filterMap.2 ⟨claim, claimed, ?_⟩)
  rw [asks]
  rfl

/-- Who is served at some place gets the slot at that place. -/
theorem mem_assign_of_queue (few : claims.length ≤ 65536) {place : Nat}
    (turn : (queue claims)[place]? = some claim) (free : (unasked claims)[place]? = some slot) :
    (claim.state, slot) ∈ assign claims := by
  rw [assign_eq few]
  refine List.mem_append_right _ (List.mem_iff_getElem?.2 ⟨place, ?_⟩)
  rw [List.getElem?_zip_eq_some, List.getElem?_map, turn]
  exact ⟨rfl, free⟩

/-- Whoever asks for nothing has a turn, and there is a slot left for it. -/
theorem exists_turn (few : claims.length ≤ 65536) (claimed : claim ∈ claims)
    (asks : claim.explicit = none) : ∃ (place : Nat) (slot : UInt16),
      (queue claims)[place]? = some claim ∧ (unasked claims)[place]? = some slot := by
  obtain ⟨place, turn⟩ := List.mem_iff_getElem?.1 (mem_queue.2 ⟨claimed, asks⟩)
  have inside := (List.getElem?_eq_some_iff.1 turn).1
  have free := List.getElem?_eq_getElem (Nat.lt_of_lt_of_le inside (length_unasked few))
  exact ⟨place, _, turn, free⟩

/-- States are served in the order of their identities, and those of one identity in the order in
which they were created. -/
theorem pairwise_queue (apart : (claims.map SlotClaim.state).Nodup) :
    (queue claims).Pairwise fun first second => first.stableId < second.stableId ∨
      first.stableId = second.stableId ∧ first.state < second.state := by
  refine ((pairwise_precedes_queue claims).and
    (List.pairwise_map.1 (nodup_states_queue apart))).imp ?_
  rintro first second ⟨before, differs⟩
  exact (precedes_iff.1 before).imp_right fun ⟨same, early⟩ =>
    ⟨same, Nat.lt_of_le_of_ne early differs⟩

/-- Only states that claim a slot are given one. -/
theorem exists_of_mem_assign (few : claims.length ≤ 65536) {state : StateId}
    (given : (state, slot) ∈ assign claims) : ∃ claim ∈ claims, claim.state = state := by
  rw [assign_eq few] at given
  rcases List.mem_append.1 given with wished | served
  · obtain ⟨claim, claimed, found⟩ := List.mem_filterMap.1 wished
    obtain ⟨_, _, same⟩ := Option.map_eq_some_iff.1 found
    exact ⟨claim, claimed, congrArg Prod.fst same⟩
  · obtain ⟨claim, waits, same⟩ := List.mem_map.1 (List.of_mem_zip served).1
    exact ⟨claim, (mem_queue.1 waits).1, same⟩

/-! ### The same wishes under the same identities -/

/-- The identity and the wish of a state. -/
def wish (claim : SlotClaim) : UInt32 × Option UInt16 :=
  (claim.stableId, claim.explicit)

/-- The same identities come with the same wishes, and each identity comes once. -/
structure SameWishes (claims others : List SlotClaim) : Prop where
  apart : (claims.map SlotClaim.stableId).Nodup
  otherApart : (others.map SlotClaim.stableId).Nodup
  wishes : ∀ known, known ∈ claims.map wish ↔ known ∈ others.map wish

namespace SameWishes

variable (same : SameWishes claims others)

include same

theorem perm : (claims.map wish).Perm (others.map wish) := by
  have apart {claims : List SlotClaim} (apart : (claims.map SlotClaim.stableId).Nodup) :
      (claims.map wish).Nodup := by
    refine .of_map Prod.fst ?_
    rw [List.map_map]
    exact apart
  exact (List.perm_ext_iff_of_nodup (apart same.apart) (apart same.otherApart)).2 same.wishes

theorem asked_iff (slot : UInt16) : slot ∈ asked claims ↔ slot ∈ asked others := by
  have told (claims : List SlotClaim) : asked claims = (claims.map wish).filterMap Prod.snd := by
    rw [List.filterMap_map]
    rfl
  rw [told, told]
  exact (same.perm.filterMap Prod.snd).mem_iff

/-- The states that ask for nothing are served in the same order. -/
theorem queue_eq :
    (queue claims).map SlotClaim.stableId = (queue others).map SlotClaim.stableId := by
  have told (claims : List SlotClaim) : ((queue claims).map SlotClaim.stableId).Perm
      (((claims.map wish).filter fun known => known.2.isNone).map Prod.fst) := by
    rw [List.filter_map, List.map_map]
    exact (List.mergeSort_perm ..).map _
  have sorted (claims : List SlotClaim) :
      ((queue claims).map SlotClaim.stableId).Pairwise (· ≤ ·) := by
    refine List.pairwise_map.2 ((pairwise_precedes_queue claims).imp ?_)
    intro first second before
    rcases precedes_iff.1 before with less | ⟨equal, -⟩
    · exact UInt32.le_of_lt less
    · exact equal ▸ UInt32.le_refl _
  exact List.Perm.eq_of_pairwise (fun _ _ _ _ => UInt32.le_antisymm) (sorted claims)
    (sorted others) ((told claims).trans
      (((same.perm.filter _).map Prod.fst).trans (told others).symm))

theorem length_eq : claims.length = others.length := by
  rw [← List.length_map wish, same.perm.length_eq, List.length_map]

/-- Under one identity there is one wish. -/
theorem explicit_eq (claimed : claim ∈ claims) (claimedToo : other ∈ others)
    (alike : claim.stableId = other.stableId) : claim.explicit = other.explicit := by
  obtain ⟨twin, listed, told⟩ :=
    List.mem_map.1 ((same.wishes (wish claim)).1 (List.mem_map_of_mem claimed))
  obtain ⟨identity, explicit⟩ := Prod.mk.inj told
  obtain rfl : twin = other :=
    List.inj_on_of_nodup_map same.otherApart listed claimedToo (identity.trans alike)
  exact explicit.symm

/-- What an identity is given on one side it is given on the other. -/
theorem exists_mem_assign (few : claims.length ≤ 65536) (claimed : claim ∈ claims)
    (claimedToo : other ∈ others) (alike : claim.stableId = other.stableId) :
    ∃ slot, (claim.state, slot) ∈ assign claims ∧ (other.state, slot) ∈ assign others := by
  have fewToo : others.length ≤ 65536 := same.length_eq ▸ few
  have explicit := same.explicit_eq claimed claimedToo alike
  cases asks : claim.explicit with
  | some slot =>
    exact ⟨slot, mem_assign_of_explicit few claimed asks,
      mem_assign_of_explicit fewToo claimedToo (explicit.symm.trans asks)⟩
  | none =>
    obtain ⟨place, slot, turn, free⟩ := exists_turn few claimed asks
    -- The same place of the other queue is the turn of the same identity.
    have turnToo : (queue others)[place]? = some other := by
      have both := congrArg (·[place]?) same.queue_eq
      simp only [List.getElem?_map, turn, Option.map_some] at both
      obtain ⟨twin, found, identity⟩ := Option.map_eq_some_iff.1 both.symm
      have listed := (mem_queue.1 (List.mem_of_getElem? found)).1
      obtain rfl : twin = other :=
        List.inj_on_of_nodup_map same.otherApart listed claimedToo (identity.trans alike)
      exact found
    refine ⟨slot, mem_assign_of_queue few turn free, mem_assign_of_queue fewToo turnToo ?_⟩
    rw [← unasked_congr same.asked_iff]
    exact free

end SameWishes

end SlotClaim

/-! ### What a graph hands out -/

/-- What a state can need a slot for. -/
inductive Feature
  | history
  | timer
  deriving DecidableEq, Repr

namespace Feature

open SlotClaim

variable {feature : Feature} {graph : Graph} {id : StateId} {claim : SlotClaim}

/-- The wish of a state that needs a slot. -/
def claim? (feature : Feature) (graph : Graph) (id : StateId) : Option SlotClaim :=
  let node := graph.state id
  match feature with
  | history => if node.history = .none then none else some ⟨id, node.stableId, node.historySlot⟩
  | timer => node.timer.map fun timer => ⟨id, node.stableId, timer.slot⟩

/-- The wishes of the states of the tree. -/
def claims (feature : Feature) (graph : Graph) : List SlotClaim :=
  graph.breadthFirst.toList.filterMap (feature.claim? graph)

/-- The slot that a placement has. -/
def placed : Feature → Placement → Option UInt16
  | history => Placement.historySlot
  | timer => Placement.timerSlot

/-- The slot that a state gets when its graph is laid out. -/
def slot? (feature : Feature) (graph : Graph) (id : StateId) : Option UInt16 :=
  (graph.layOut.state id).placement.bind feature.placed

/-- A state's wish is its own. -/
theorem state_eq_of_claim? (claimed : feature.claim? graph id = some claim) :
    claim.state = id := by
  cases feature with
  | history =>
    simp only [claim?] at claimed
    split at claimed
    · cases claimed
    · exact Option.some.inj claimed ▸ rfl
  | timer =>
    obtain ⟨_, _, rfl⟩ := Option.map_eq_some_iff.1 claimed
    rfl

/-- What is no state wishes for nothing. -/
theorem lt_stateCount_of_claim? (claimed : feature.claim? graph id = some claim) :
    id < graph.stateCount := by
  by_contra outside
  unfold claim? at claimed
  rw [Graph.state_eq_default (Nat.le_of_not_lt outside)] at claimed
  cases feature <;> cases claimed

theorem mem_claims : claim ∈ feature.claims graph ↔
    claim.state ∈ graph.breadthFirst ∧ feature.claim? graph claim.state = some claim := by
  rw [claims, List.mem_filterMap]
  constructor
  · rintro ⟨id, listed, claimed⟩
    obtain rfl := state_eq_of_claim? claimed
    exact ⟨Array.mem_toList_iff.1 listed, claimed⟩
  · rintro ⟨listed, claimed⟩
    exact ⟨_, Array.mem_toList_iff.2 listed, claimed⟩

/-- Each state of the tree wishes once. -/
theorem nodup_claims (feature : Feature) (graph : Graph) :
    ((feature.claims graph).map SlotClaim.state).Nodup := by
  rcases (feature.claims graph).eq_nil_or_concat' with none | ⟨_, claim, some⟩
  · rw [none]
    exact List.nodup_nil
  · have claimed : claim ∈ feature.claims graph := some ▸ List.mem_concat_self
    have inhabited := Nat.zero_lt_of_lt (lt_stateCount_of_claim? (mem_claims.1 claimed).2)
    rw [claims, List.map_filterMap]
    refine (Graph.nodup_breadthFirst inhabited).filterMap fun first second id found again => ?_
    obtain ⟨_, claimed, rfl⟩ := Option.map_eq_some_iff.1 found
    obtain ⟨_, claimedToo, same⟩ := Option.map_eq_some_iff.1 again
    rw [← state_eq_of_claim? claimed, ← state_eq_of_claim? claimedToo, same]

/-- The slot in the placement of a state of the tree is the one in the table of slots. -/
theorem placed_placementAt (feature : Feature) (place : Nat) (id : StateId) :
    feature.placed (graph.placementAt graph.breadthFirst place id) =
      (graph.slotTable (assign (feature.claims graph))).getD id none := by
  cases feature <;> rfl

/-- A state that is in no place of the tree has no slot. -/
theorem slot?_eq_none (feature : Feature) (outside : id ∉ graph.breadthFirst) :
    feature.slot? graph id = none := by
  have unplaced : (graph.placements graph.breadthFirst).getD id none = none := by
    refine (getD_foldl_of_forall_ne Prod.fst _ (fun entry listed same => outside ?_) _).trans ?_
    · obtain ⟨state, place⟩ := entry
      have here := List.mem_zipIdx_iff_getElem?.1 listed
      exact same ▸ Array.mem_toList_iff.1 (List.mem_of_getElem? here)
    · rw [Array.getD_eq_getD_getElem?, Array.getElem?_replicate]
      split <;> rfl
  rw [slot?, Graph.state_layOut, unplaced]
  rfl

/-- States have the slots that they were given. -/
theorem slot?_eq_some_iff (few : (feature.claims graph).length ≤ 65536) {slot : UInt16} :
    feature.slot? graph id = some slot ↔ (id, slot) ∈ assign (feature.claims graph) := by
  by_cases claims : ∃ claim ∈ feature.claims graph, claim.state = id
  · obtain ⟨claim, claimed, rfl⟩ := claims
    obtain ⟨listed, wishes⟩ := mem_claims.1 claimed
    have inside := lt_stateCount_of_claim? wishes
    have inhabited := Nat.zero_lt_of_lt inside
    obtain ⟨place, here⟩ := Array.mem_iff_getElem?.1 listed
    obtain ⟨entry, given, same, written⟩ := exists_getD_foldl Prod.fst Prod.snd
      (Array.replicate graph.stateCount none) (by simpa using inside) (mem_assign few claimed)
    have held : feature.slot? graph claim.state = some entry.2 := by
      rw [slot?, Graph.placement_layOut inhabited here, Option.bind_some, placed_placementAt]
      exact written
    rw [held, Option.some.injEq]
    constructor
    · rintro rfl
      exact same ▸ given
    · intro givenToo
      have twice := List.inj_on_of_nodup_map (nodup_assign few (nodup_claims feature graph))
        given givenToo same
      exact congrArg Prod.snd twice
  · refine ⟨fun held => ?_, fun given => absurd (exists_of_mem_assign few given) claims⟩
    by_cases listed : id ∈ graph.breadthFirst
    · obtain ⟨place, here⟩ := Array.mem_iff_getElem?.1 listed
      -- A state without wish is written nowhere in the table of slots.
      have unwritten : (graph.slotTable (assign (feature.claims graph))).getD id none = none := by
        refine (getD_foldl_of_forall_ne Prod.fst Prod.snd
          (fun entry given same => ?_) _).trans ?_
        · obtain ⟨claim, claimed, own⟩ :=
            exists_of_mem_assign few (show (entry.1, entry.2) ∈ _ from given)
          exact claims ⟨claim, claimed, own.trans same⟩
        · rw [Array.getD_eq_getD_getElem?, Array.getElem?_replicate]
          split <;> rfl
      by_cases inhabited : 0 < graph.stateCount
      · rw [slot?, Graph.placement_layOut inhabited here, Option.bind_some, placed_placementAt,
          unwritten] at held
        cases held
      · have outside : graph.layOut.stateCount ≤ id := by
          rw [Graph.stateCount_layOut]
          omega
        rw [slot?, Graph.state_eq_default outside] at held
        cases held
    · rw [slot?_eq_none feature listed] at held
      cases held

/-- Who asks for nothing has a slot that nobody asks for. -/
theorem slot?_of_turn (few : (feature.claims graph).length ≤ 65536) {place : Nat} {slot : UInt16}
    (turn : (queue (feature.claims graph))[place]? = some claim)
    (free : (unasked (feature.claims graph))[place]? = some slot) :
    feature.slot? graph claim.state = some slot :=
  (slot?_eq_some_iff few).2 (mem_assign_of_queue few turn free)

theorem map_queue (few : (feature.claims graph).length ≤ 65536) :
    (queue (feature.claims graph)).map (fun claim => feature.slot? graph claim.state) =
      ((unasked (feature.claims graph)).take (queue (feature.claims graph)).length).map some := by
  refine List.ext_getElem? fun place => ?_
  rw [List.getElem?_map, List.getElem?_map]
  by_cases inside : place < (queue (feature.claims graph)).length
  · have turn := List.getElem?_eq_getElem inside
    have free := List.getElem?_eq_getElem (Nat.lt_of_lt_of_le inside (length_unasked few))
    rw [turn, List.getElem?_take_of_lt inside, free, Option.map_some, Option.map_some,
      slot?_of_turn few turn free]
  · rw [List.getElem?_eq_none (Nat.le_of_not_lt inside), List.getElem?_eq_none]
    · rfl
    · exact Nat.le_trans (List.length_take_le _ _) (Nat.le_of_not_lt inside)

/-- The slot of a state that asks for nothing is its own. -/
theorem slot?_ne (few : (feature.claims graph).length ≤ 65536) {other : SlotClaim}
    (claimed : claim ∈ feature.claims graph) (claimedToo : other ∈ feature.claims graph)
    (asks : claim.explicit = none) (differs : other.state ≠ claim.state) :
    feature.slot? graph other.state ≠ feature.slot? graph claim.state := by
  obtain ⟨place, slot, turn, free⟩ := exists_turn few claimed asks
  rw [slot?_of_turn few turn free]
  intro same
  cases wish : other.explicit with
  | some asked =>
    have own := (slot?_eq_some_iff few).2 (mem_assign_of_explicit few claimedToo wish)
    obtain rfl := Option.some.inj (own.symm.trans same)
    exact notMem_asked (List.mem_of_getElem? free) (List.mem_filterMap.2 ⟨other, claimedToo, wish⟩)
  | none =>
    obtain ⟨elsewhere, _, turnToo, freeToo⟩ := exists_turn few claimedToo wish
    obtain rfl := Option.some.inj ((slot?_of_turn few turnToo freeToo).symm.trans same)
    have inside := (List.getElem?_eq_some_iff.1 free).1
    obtain rfl : place = elsewhere :=
      (List.getElem?_inj inside (nodup_unasked _)).1 (free.trans freeToo.symm)
    exact differs (congrArg SlotClaim.state (Option.some.inj (turnToo.symm.trans turn)))

end Feature

/-- In what a drawn graph compiles to, a timer has the slot for its state's claim. -/
theorem Graph.Drawn.timerSlot_eq {graph : Graph} (drawn : graph.Drawn) {compiled : Compiled}
    (compiles : graph.compile = .ok (.ok compiled)) {state : UInt16}
    (has : compiled.definition.sections.Has state)
    (runs : (compiled.definition.sections.record state).hasTimer = true) :
    ∃ claim ∈ graph.timerClaims graph.breadthFirst,
      graph.breadthFirst[state.toNat]? = some claim.state ∧
      (compiled.definition.sections.record state).timerSlot.toNat =
        claim.slotFor (graph.timerClaims graph.breadthFirst) := by
  obtain ⟨_, ready, actions, guards, tables⟩ := drawn.exists_tables compiles
  rw [tables] at has runs ⊢
  obtain ⟨id, here, -⟩ := ready.exists_state actions guards has
  have given := exists_slot_of_hasTimer actions guards here runs
  have timed : (graph.state id).timer.isSome = true := by
    rw [Ready.record_eq actions guards here] at runs
    have flagged : (graph.layOut.state id).timer.isSome = true := (Bool.and_eq_true_iff.1 runs).1
    rwa [state_layOut] at flagged
  obtain ⟨timer, spec⟩ := Option.isSome_iff_exists.1 timed
  have claimed : (⟨id, (graph.state id).stableId, timer.slot⟩ : SlotClaim) ∈
      Feature.timer.claims graph :=
    Feature.mem_claims.2 ⟨Array.mem_of_getElem? here, by simp only [Feature.claim?, spec]; rfl⟩
  have few : (Feature.timer.claims graph).length ≤ 65536 := by
    refine Nat.le_trans (List.length_filterMap_le _ _) ?_
    rw [Array.length_toList]
    exact Nat.le_trans ready.accepted.size_order_le (by decide)
  exact ⟨_, claimed, here, SlotClaim.toNat_eq_slotFor few (Feature.timer.nodup_claims graph)
    claimed ((Feature.slot?_eq_some_iff few).1 given)⟩

open SlotClaim

/-- In every graph the states that need a slot get one, and no other state does. A state that asks
for a slot gets it. The others get the smallest slots that nobody asks for, in the order of their
identities, so their slots differ from those of all other states. In two graphs with the same
wishes under the same identities each identity gets the same slot. -/
theorem slots_follow_identity (feature : Feature) (graph : Graph)
    (few : (feature.claims graph).length < 65536) :
    (∀ id, (∃ slot, feature.slot? graph id = some slot) ↔
      ∃ claim ∈ feature.claims graph, claim.state = id) ∧
    (∀ claim ∈ feature.claims graph, ∀ slot, claim.explicit = some slot →
      feature.slot? graph claim.state = some slot) ∧
    (∃ served : List SlotClaim,
      served.Perm ((feature.claims graph).filter fun claim => claim.explicit.isNone) ∧
      served.Pairwise (fun first second => first.stableId < second.stableId ∨
        first.stableId = second.stableId ∧ first.state < second.state) ∧
      served.map (fun claim => feature.slot? graph claim.state) =
        ((unasked (feature.claims graph)).take served.length).map some) ∧
    (∀ claim ∈ feature.claims graph, ∀ other ∈ feature.claims graph, claim.explicit = none →
      other.state ≠ claim.state →
        feature.slot? graph other.state ≠ feature.slot? graph claim.state) ∧
    ∀ other : Graph, SameWishes (feature.claims graph) (feature.claims other) →
      ∀ claim ∈ feature.claims graph, ∀ twin ∈ feature.claims other,
        claim.stableId = twin.stableId →
          feature.slot? graph claim.state = feature.slot? other twin.state := by
  have few := Nat.le_of_lt few
  refine ⟨fun id => ?_, fun claim claimed slot asks => ?_,
    ⟨queue (feature.claims graph), List.mergeSort_perm .., ?_, Feature.map_queue few⟩,
    fun claim claimed other claimedToo => Feature.slot?_ne few claimed claimedToo, ?_⟩
  · constructor
    · rintro ⟨slot, held⟩
      exact exists_of_mem_assign few ((Feature.slot?_eq_some_iff few).1 held)
    · rintro ⟨claim, claimed, rfl⟩
      obtain ⟨⟨_, slot⟩, given, rfl⟩ := mem_assign few claimed
      exact ⟨slot, (Feature.slot?_eq_some_iff few).2 given⟩
  · exact (Feature.slot?_eq_some_iff few).2 (mem_assign_of_explicit few claimed asks)
  · exact pairwise_queue (feature.nodup_claims graph)
  · intro other same claim claimed twin claimedToo alike
    obtain ⟨slot, given, givenToo⟩ := same.exists_mem_assign few claimed claimedToo alike
    have fewToo : (feature.claims other).length ≤ 65536 := same.length_eq ▸ few
    rw [(Feature.slot?_eq_some_iff few).2 given, (Feature.slot?_eq_some_iff fewToo).2 givenToo]

namespace Graph

/-- The states of `bells` under other names, created the other way around and one below the other.
Their identities are kept. -/
def carillon : Graph :=
  let grown := ((named "N").insertState "C" rootId).2.insertState "D" 1
  (grown.2.modifyState 1 fun node =>
    { node with stableId := 2, initial := true, timer := some ⟨30, none, none⟩ }).modifyState 2
      fun node => { node with stableId := 1, timer := some ⟨60, none, some 0⟩ }

end Graph

/-- What the two states of `bells` get does not depend on how they are drawn. -/
theorem slots_follow_identity_bells :
    Feature.timer.claims Graph.bells = [⟨1, 1, some 0⟩, ⟨2, 2, none⟩] ∧
      Feature.timer.claims Graph.carillon = [⟨1, 2, none⟩, ⟨2, 1, some 0⟩] ∧
      Feature.timer.slot? Graph.bells 1 = some 0 ∧
      Feature.timer.slot? Graph.carillon 2 = some 0 ∧
      Feature.timer.slot? Graph.bells 2 ≠ some 0 ∧
      Feature.timer.slot? Graph.carillon 1 = Feature.timer.slot? Graph.bells 2 := by
  have first : Feature.timer.claims Graph.bells = [⟨1, 1, some 0⟩, ⟨2, 2, none⟩] := by
    decide +kernel
  have second : Feature.timer.claims Graph.carillon = [⟨1, 2, none⟩, ⟨2, 1, some 0⟩] := by
    decide +kernel
  obtain ⟨-, asked, -, apart, follows⟩ := slots_follow_identity .timer Graph.bells
    (by rw [first]; decide)
  have same :
      SameWishes (Feature.timer.claims Graph.bells) (Feature.timer.claims Graph.carillon) := by
    rw [first, second]
    refine ⟨by decide, by decide, fun known => ?_⟩
    simp [wish, or_comm]
  have moved := follows Graph.carillon same
  rw [first, second] at moved
  rw [first] at asked apart
  have own := asked ⟨1, 1, some 0⟩ (by simp) 0 rfl
  refine ⟨first, second, own, ?_, ?_, ?_⟩
  · exact (moved ⟨1, 1, some 0⟩ (by simp) ⟨2, 1, some 0⟩ (by simp) rfl).symm.trans own
  · exact own ▸ (apart ⟨2, 2, none⟩ (by simp) ⟨1, 1, some 0⟩ (by simp) rfl (by decide)).symm
  · exact (moved ⟨2, 2, none⟩ (by simp) ⟨1, 2, none⟩ (by simp) rfl).symm

end Statechart.Chart
