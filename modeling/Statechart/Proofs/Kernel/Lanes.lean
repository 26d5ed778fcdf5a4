/-
# Shared output lanes

Leaves compete for output lanes. They are looked at in the order of their slots, and a leaf is
chosen if it wants no lane of a leaf that was chosen before it (`Greedy`). A chosen leaf takes its
turn: the activities of the states go on that are met on the way up from it before the first one
that an earlier turn has reached. A leaf that is not chosen is reported once, with the lanes it was
refused and with who has the lowest of them (`Overruled`).

`round` goes from leaf to leaf and collects who is chosen and what there is to do, in its order. It
is told here what that comes to (`Awards`): each state that lies above a chosen leaf has its
activity go on once, inner states before outer ones in each turn, and each other leaf is reported
once. A state that two chosen leaves have in common belongs to the turn of the first one.
-/

import Mathlib.Data.Nat.Bitwise
import Statechart.Kernel.Activity
import Statechart.Proofs.Folds
import Statechart.Proofs.Kernel.Choosing
import Statechart.Proofs.Kernel.Moves

namespace Statechart

open Rom (Sections noIndex)

/-! ### Entries of a round -/

namespace Trace.Entry

/-- The activity of `state` goes on. -/
def continues (state : UInt16) : Entry → Bool
  | activity _ other => other = state
  | _ => false

/-- `leaf` is refused its lanes. -/
def refuses (leaf : UInt16) : Entry → Bool
  | conflict _ _ loser => loser = leaf
  | _ => false

end Trace.Entry

open Trace (Entry)

/-! ### Lanes -/

section Lanes

variable {lanes others : UInt8} {lane : Nat}

/-- Sets of lanes are apart if no lane is in both. -/
theorem and_eq_zero_iff :
    lanes &&& others = 0 ↔
      ∀ lane, lanes.toNat.testBit lane = true → others.toNat.testBit lane = false := by
  rw [← UInt8.toNat_inj, UInt8.toNat_and]
  constructor
  · intro none lane one
    have bit := congrArg (fun bits => Nat.testBit bits lane) none
    simpa [one] using bit
  · intro apart
    refine Nat.zero_of_testBit_eq_false fun lane => ?_
    rw [Nat.testBit_and]
    cases one : lanes.toNat.testBit lane with
    | false => rfl
    | true => exact apart lane one

/-- Some lane is the lowest one, if there are any. -/
theorem exists_lowestLane (some : lanes ≠ 0) :
    ∃ lane, Kernel.Claim.lowestLane lanes = .some lane ∧ lanes.toNat.testBit lane = true ∧
      ∀ lower < lane, lanes.toNat.testBit lower = false := by
  cases found : Kernel.Claim.lowestLane lanes with
  | some lane =>
    obtain ⟨is, -, least⟩ := List.find?_range_eq_some.1 found
    exact ⟨lane, rfl, is, fun lower below => by simpa using least lower below⟩
  | none =>
    refine absurd (UInt8.toNat_inj.1 (Nat.zero_of_testBit_eq_false fun lane => ?_)) some
    by_cases inside : lane < 8
    · simpa using List.find?_eq_none.1 found lane (List.mem_range.2 inside)
    · exact Nat.testBit_lt_two_pow (Nat.lt_of_lt_of_le lanes.toNat_lt
        (Nat.pow_le_pow_right Nat.two_pos (Nat.le_of_not_lt inside)))

end Lanes

namespace Rom.Sections

variable {sections : Sections} {leaves before after chosen : List UInt16} {leaf state : UInt16}

/-- The output lanes of a leaf. -/
def lanes (sections : Sections) (leaf : UInt16) : UInt8 :=
  (sections.record leaf).outputLanes

/-- The lanes of some leaves together. -/
def claimed (sections : Sections) (chosen : List UInt16) : UInt8 :=
  chosen.foldl (fun lanes leaf => lanes ||| sections.lanes leaf) 0

/-- The lanes of a leaf that others have. -/
def refused (sections : Sections) (chosen : List UInt16) (leaf : UInt16) : UInt8 :=
  sections.lanes leaf &&& sections.claimed chosen

/-- Who has the lowest of some lanes. -/
def owner (sections : Sections) (chosen : List UInt16) (lanes : UInt8) : UInt16 :=
  ((Kernel.Claim.lowestLane lanes).bind fun lane =>
    chosen.find? fun leaf => (sections.lanes leaf).toNat.testBit lane).getD noIndex

theorem testBit_claimed {lane : Nat} :
    (sections.claimed chosen).toNat.testBit lane = true ↔
      ∃ leaf ∈ chosen, (sections.lanes leaf).toNat.testBit lane = true := by
  induction chosen using List.reverseRecOn with
  | nil => simp [claimed]
  | append_singleton chosen leaf ih =>
    have more : sections.claimed (chosen ++ [leaf]) =
        sections.claimed chosen ||| sections.lanes leaf := List.foldl_concat ..
    rw [more, UInt8.toNat_or, Nat.testBit_or, Bool.or_eq_true, ih]
    simp only [List.mem_append, List.mem_singleton, or_and_right, exists_or, exists_eq_left]

/-- A leaf is refused nothing if its lanes are apart from those of all others. -/
theorem refused_eq_zero_iff :
    sections.refused chosen leaf = 0 ↔
      ∀ other ∈ chosen, sections.lanes leaf &&& sections.lanes other = 0 := by
  simp only [refused, and_eq_zero_iff]
  constructor
  · intro apart other listed lane own
    refine Bool.eq_false_iff.2 fun has => Bool.eq_false_iff.1 (apart lane own) ?_
    exact testBit_claimed.2 ⟨other, listed, has⟩
  · intro apart lane own
    refine Bool.eq_false_iff.2 fun has => ?_
    obtain ⟨other, listed, theirs⟩ := testBit_claimed.1 has
    rw [apart other listed lane own] at theirs
    cases theirs

/-! ### Rounds -/

/-- Who is chosen so far, and what there is to do for that. -/
structure Round where
  chosen : List UInt16
  agenda : List Entry
  deriving DecidableEq, Repr

/-- The activity of a state, if it has one. -/
def activity? (sections : Sections) (state : UInt16) : Option Entry :=
  let action := (sections.record state).activityAction
  if action = Name.noId then none else some (.activity action state)

/-- The states on the way up from a leaf, up to the first one that others have reached. -/
def fresh (sections : Sections) (chosen : List UInt16) (leaf : UInt16) : List UInt16 :=
  (sections.upward leaf).takeWhile fun state => !decide (state ∈ chosen.flatMap sections.upward)

/-- The next leaf takes its turn, or is refused its lanes. -/
def Round.next (sections : Sections) (round : Round) (leaf : UInt16) : Round :=
  let refused := sections.refused round.chosen leaf
  if refused = 0 then
    { chosen := round.chosen ++ [leaf]
      agenda := round.agenda ++
        (sections.fresh round.chosen leaf).filterMap sections.activity? }
  else
    { round with
      agenda := round.agenda ++ [.conflict refused (sections.owner round.chosen refused) leaf] }

/-- The round of all leaves. -/
def round (sections : Sections) (leaves : List UInt16) : Round :=
  leaves.foldl (Round.next sections) ⟨[], []⟩

theorem round_concat (leaves : List UInt16) (leaf : UInt16) :
    sections.round (leaves ++ [leaf]) = (sections.round leaves).next sections leaf :=
  List.foldl_concat ..

theorem chosen_concat (leaves : List UInt16) (leaf : UInt16) :
    (sections.round (leaves ++ [leaf])).chosen =
      if sections.refused (sections.round leaves).chosen leaf = 0 then
        (sections.round leaves).chosen ++ [leaf]
      else (sections.round leaves).chosen := by
  rw [round_concat, Round.next]
  split <;> rfl

/-! ### Who is chosen -/

/-- A part of a list without repetitions is told by what is in it. -/
theorem eq_filter_of_sublist {part whole : List UInt16} (sub : part.Sublist whole)
    (apart : whole.Nodup) : part = whole.filter (· ∈ part) := by
  have all : ∀ entry ∈ part, decide (entry ∈ part) = true := fun _ => decide_eq_true
  have inner := sub.filter (· ∈ part)
  rw [List.filter_eq_self.2 all] at inner
  refine inner.eq_of_length_le (List.subperm_of_subset (apart.filter _)
    fun entry listed => ?_).length_le
  exact of_decide_eq_true (List.mem_filter.1 listed).2

theorem chosen_sublist (leaves : List UInt16) : (sections.round leaves).chosen.Sublist leaves := by
  induction leaves using List.reverseRecOn with
  | nil => exact .slnil
  | append_singleton leaves leaf ih =>
    rw [chosen_concat]
    split
    · exact ih.append (.refl _)
    · exact ih.trans (List.sublist_append_left ..)

/-- Later leaves do not change who of the earlier ones is chosen. -/
theorem mem_chosen_append {other : UInt16} (listed : other ∈ before)
    (apart : (before ++ after).Nodup) :
    other ∈ (sections.round (before ++ after)).chosen ↔
      other ∈ (sections.round before).chosen := by
  induction after using List.reverseRecOn with
  | nil => rw [List.append_nil]
  | append_singleton after last ih =>
    rw [← List.append_assoc] at apart ⊢
    obtain ⟨inner, -, differ⟩ := List.nodup_append.1 apart
    have distinct : other ≠ last :=
      differ other (List.mem_append_left _ listed) last (List.mem_singleton.2 rfl)
    rw [chosen_concat, ← ih inner]
    split
    · rw [List.mem_append, List.mem_singleton, or_iff_left distinct]
    · rfl

/-- A leaf is chosen if it is refused nothing when it is looked at. -/
theorem mem_chosen_iff (apart : (before ++ leaf :: after).Nodup) :
    leaf ∈ (sections.round (before ++ leaf :: after)).chosen ↔
      sections.refused (sections.round before).chosen leaf = 0 := by
  rw [List.append_cons] at apart ⊢
  have unlisted : leaf ∉ before := fun listed =>
    (List.nodup_append.1 (List.nodup_append.1 apart).1).2.2 leaf listed leaf
      (List.mem_singleton.2 rfl) rfl
  have unchosen : leaf ∉ (sections.round before).chosen := fun listed =>
    unlisted ((chosen_sublist before).subset listed)
  rw [mem_chosen_append (List.mem_append_right _ (List.mem_singleton.2 rfl)) apart, chosen_concat]
  split
  · next free => exact iff_of_true (List.mem_append_right _ (List.mem_singleton.2 rfl)) free
  · next clash => exact iff_of_false unchosen clash

/-- Leaves are chosen from the first one on, each one whose lanes are apart from those of all that
were chosen before it. -/
structure Greedy (sections : Sections) (leaves chosen : List UInt16) : Prop where
  sublist : chosen.Sublist leaves
  mem_iff : ∀ before leaf after, leaves = before ++ leaf :: after →
    (leaf ∈ chosen ↔
      ∀ other ∈ before, other ∈ chosen → sections.lanes leaf &&& sections.lanes other = 0)

theorem round_greedy (apart : leaves.Nodup) :
    sections.Greedy leaves (sections.round leaves).chosen where
  sublist := chosen_sublist leaves
  mem_iff := by
    rintro before leaf after rfl
    rw [mem_chosen_iff apart, refused_eq_zero_iff]
    constructor
    · intro free other listed isChosen
      exact free other ((mem_chosen_append listed apart).1 isChosen)
    · intro free other isChosen
      have listed := (chosen_sublist before).subset isChosen
      exact free other listed ((mem_chosen_append listed apart).2 isChosen)

/-- There is one greedy choice. -/
theorem Greedy.unique {others : List UInt16} (apart : leaves.Nodup)
    (greedy : sections.Greedy leaves chosen) (rival : sections.Greedy leaves others) :
    chosen = others := by
  have agree : ∀ after before, leaves = before ++ after →
      ∀ leaf ∈ before, (leaf ∈ chosen ↔ leaf ∈ others) := by
    intro after before
    induction before using List.reverseRecOn generalizing after with
    | nil => nofun
    | append_singleton before last ih =>
      intro whole
      rw [List.append_assoc, List.singleton_append] at whole
      have earlier := ih _ whole
      refine List.forall_mem_append.2 ⟨earlier, List.forall_mem_singleton.2 ?_⟩
      rw [greedy.mem_iff _ _ _ whole, rival.mem_iff _ _ _ whole]
      exact forall₂_congr fun other listed => imp_congr_left (earlier other listed)
  rw [eq_filter_of_sublist greedy.sublist apart, eq_filter_of_sublist rival.sublist apart]
  exact List.filter_congr fun leaf listed =>
    decide_eq_decide.2 (agree [] leaves (List.append_nil _).symm leaf listed)

/-! ### What is refused -/

/-- A leaf is refused the lanes that leaves chosen before it have, and it is said who has the lowest
of them. -/
structure Overruled (sections : Sections) (earlier : List UInt16) (leaf : UInt16) (lanes : UInt8)
    (winner : UInt16) : Prop where
  overlap : ∀ lane, lanes.toNat.testBit lane = true ↔
    (sections.lanes leaf).toNat.testBit lane = true ∧
      ∃ other ∈ earlier, (sections.lanes other).toNat.testBit lane = true
  chosen : winner ∈ earlier
  lowest : ∃ lane, lanes.toNat.testBit lane = true ∧
    (∀ lower < lane, lanes.toNat.testBit lower = false) ∧
    (sections.lanes winner).toNat.testBit lane = true

theorem overruled_owner (clash : sections.refused chosen leaf ≠ 0) :
    sections.Overruled chosen leaf (sections.refused chosen leaf)
      (sections.owner chosen (sections.refused chosen leaf)) := by
  have overlap (lane : Nat) : (sections.refused chosen leaf).toNat.testBit lane = true ↔
      (sections.lanes leaf).toNat.testBit lane = true ∧
        ∃ other ∈ chosen, (sections.lanes other).toNat.testBit lane = true := by
    rw [refused, UInt8.toNat_and, Nat.testBit_and, Bool.and_eq_true, testBit_claimed]
  obtain ⟨lane, lowest, is, least⟩ := exists_lowestLane clash
  obtain ⟨-, other, listed, theirs⟩ := (overlap lane).1 is
  cases found : chosen.find? fun leaf => (sections.lanes leaf).toNat.testBit lane with
  | none => exact absurd theirs (List.find?_eq_none.1 found other listed)
  | some winner =>
    have named : sections.owner chosen (sections.refused chosen leaf) = winner := by
      rw [owner, lowest, Option.bind_some, found, Option.getD_some]
    rw [named]
    exact ⟨overlap, List.mem_of_find?_eq_some found, lane, is, least,
      by simpa using List.find?_some found⟩

theorem filter_activities (keep : Entry → Bool)
    (none : ∀ action state, keep (.activity action state) = false) (states : List UInt16) :
    (states.filterMap sections.activity?).filter keep = [] := by
  refine List.filter_eq_nil_iff.2 fun entry listed => ?_
  obtain ⟨state, -, same⟩ := List.mem_filterMap.1 listed
  unfold activity? at same
  simp only at same
  split at same
  · cases same
  · cases same
    rw [none]
    exact Bool.false_ne_true

/-- Nobody else is refused anything on account of a leaf. -/
theorem refuses_next (round : Round) {other : UInt16} (distinct : leaf ≠ other) :
    (round.next sections leaf).agenda.filter (Entry.refuses other) =
      round.agenda.filter (Entry.refuses other) := by
  unfold Round.next
  simp only
  split
  · rw [List.filter_append, filter_activities _ fun _ _ => rfl, List.append_nil]
  · rw [List.filter_append]
    simp [Entry.refuses, distinct]

theorem refuses_of_notMem (unlisted : leaf ∉ leaves) :
    (sections.round leaves).agenda.filter (Entry.refuses leaf) = [] := by
  induction leaves using List.reverseRecOn with
  | nil => rfl
  | append_singleton leaves last ih =>
    rw [List.mem_append, List.mem_singleton, not_or] at unlisted
    rw [round_concat, refuses_next _ (Ne.symm unlisted.2), ih unlisted.1]

/-- A leaf is reported once if it is refused something, and else not. -/
theorem refuses_round (apart : (before ++ leaf :: after).Nodup) :
    (sections.round (before ++ leaf :: after)).agenda.filter (Entry.refuses leaf) =
      let chosen := (sections.round before).chosen
      let refused := sections.refused chosen leaf
      if refused = 0 then [] else [.conflict refused (sections.owner chosen refused) leaf] := by
  rw [List.append_cons] at apart ⊢
  induction after using List.reverseRecOn with
  | nil =>
    rw [List.append_nil] at apart ⊢
    have unlisted : leaf ∉ before := fun listed =>
      (List.nodup_append.1 apart).2.2 leaf listed leaf (List.mem_singleton.2 rfl) rfl
    rw [round_concat, Round.next]
    simp only
    split
    · rw [List.filter_append, refuses_of_notMem unlisted, filter_activities _ fun _ _ => rfl]
      rfl
    · rw [List.filter_append, refuses_of_notMem unlisted]
      simp [Entry.refuses]
  | append_singleton after last ih =>
    rw [← List.append_assoc] at apart ⊢
    obtain ⟨inner, -, differ⟩ := List.nodup_append.1 apart
    have distinct : leaf ≠ last := differ leaf
      (List.mem_append_left _ (List.mem_append_right _ (List.mem_singleton.2 rfl))) last
      (List.mem_singleton.2 rfl)
    rw [round_concat, refuses_next _ (Ne.symm distinct)]
    exact ih inner

/-! ### What goes on -/

theorem filter_isActivity (states : List UInt16) :
    (states.filterMap sections.activity?).filter Entry.isActivity =
      states.filterMap sections.activity? := by
  refine List.filter_eq_self.2 fun entry listed => ?_
  obtain ⟨state, -, same⟩ := List.mem_filterMap.1 listed
  unfold activity? at same
  simp only at same
  split at same
  · cases same
  · cases same
    rfl

/-- What goes on is what is met on the ways up from the chosen leaves, in that order. -/
theorem activities_round (ascents : ∀ leaf ∈ leaves, ∃ path, sections.Ascent leaf path) :
    (sections.round leaves).agenda.filter Entry.isActivity =
      (sections.lookedAt (sections.round leaves).chosen).filterMap sections.activity? := by
  induction leaves using List.reverseRecOn with
  | nil => rfl
  | append_singleton leaves leaf ih =>
    have earlier := fun other listed => ascents other (List.mem_append_left [leaf] listed)
    obtain ⟨path, ascent⟩ := ascents leaf (List.mem_append_right _ (List.mem_singleton.2 rfl))
    have chosen : ∀ other ∈ (sections.round leaves).chosen,
        ∃ path, sections.Ascent other path :=
      fun other listed => earlier other ((chosen_sublist leaves).subset listed)
    rw [round_concat, Round.next]
    split
    · rw [List.filter_append, ih earlier, filter_isActivity, Kernel.lookedAt_concat chosen ascent,
        List.filterMap_append, fresh, ascent.upward_eq]
    · rw [List.filter_append, ih earlier]
      exact List.append_nil _

theorem filter_continues {states : List UInt16} (apart : states.Nodup) (state : UInt16) :
    (states.filterMap sections.activity?).filter (Entry.continues state) =
      if state ∈ states then (sections.activity? state).toList else [] := by
  induction states with
  | nil => rfl
  | cons first rest ih =>
    obtain ⟨fresh, apart⟩ := List.nodup_cons.1 apart
    have own : (sections.activity? first).toList.filter (Entry.continues state) =
        if first = state then (sections.activity? state).toList else [] := by
      unfold activity?
      simp only
      by_cases same : first = state
      · subst same
        split <;> simp [Entry.continues]
      · split <;> simp [Entry.continues, same]
    have split : (first :: rest).filterMap sections.activity? =
        (sections.activity? first).toList ++ rest.filterMap sections.activity? := by
      cases acts : sections.activity? first <;> simp [acts]
    rw [split, List.filter_append, own, ih apart]
    by_cases same : first = state
    · subst same
      simp [fresh]
    · simp [same, Ne.symm same]

/-- A state goes on once if it has an activity and is met on the way up from a chosen leaf. -/
theorem continues_round (ascents : ∀ leaf ∈ leaves, ∃ path, sections.Ascent leaf path)
    (state : UInt16) :
    (sections.round leaves).agenda.filter (Entry.continues state) =
      if state ∈ (sections.round leaves).chosen.flatMap sections.upward then
        (sections.activity? state).toList
      else [] := by
  have only : (sections.round leaves).agenda.filter (Entry.continues state) =
      ((sections.round leaves).agenda.filter Entry.isActivity).filter
        (Entry.continues state) := by
    rw [List.filter_filter]
    refine List.filter_congr fun entry _ => ?_
    cases entry <;> simp [Entry.continues, Entry.isActivity]
  rw [only, activities_round ascents, lookedAt, filter_continues (nodup_eraseDups _)]
  simp only [List.mem_eraseDups]

/-! ### In which order -/

/-- Of the states on the way up from a leaf those are left that no other leaf has reached. -/
theorem fresh_eq_filter {path : List UInt16}
    (ascents : ∀ leaf ∈ chosen, ∃ path, sections.Ascent leaf path)
    (ascent : sections.Ascent leaf path) :
    sections.fresh chosen leaf =
      path.filter fun state => !decide (state ∈ chosen.flatMap sections.upward) := by
  have closed : ∀ state ∈ chosen.flatMap sections.upward, ∀ above,
      sections.Ascent state above → ∀ upper ∈ above, upper ∈ chosen.flatMap sections.upward := by
    intro state seen above rise upper listed
    obtain ⟨other, isChosen, met⟩ := List.mem_flatMap.1 seen
    obtain ⟨way, climbed⟩ := ascents other isChosen
    rw [climbed.upward_eq] at met
    refine List.mem_flatMap.2 ⟨other, isChosen, ?_⟩
    rw [climbed.upward_eq]
    exact climbed.subset_of_mem met rise upper listed
  rw [fresh, ascent.upward_eq, ← Kernel.new_eq_takeWhile closed ascent, List.removeAll,
    eraseDups_of_nodup (ascent.nodup.filter _)]
  exact List.filter_congr fun state _ => by rw [List.elem_eq_mem]

/-- What is looked at from the first leaves on is looked at first. -/
theorem lookedAt_front (ascents : ∀ leaf ∈ before, ∃ path, sections.Ascent leaf path)
    {path : List UInt16} (ascent : sections.Ascent leaf path) :
    sections.lookedAt before ++ sections.fresh before leaf <+:
      sections.lookedAt (before ++ leaf :: after) := by
  have whole : before ++ leaf :: after = (before ++ [leaf]) ++ after := List.append_cons ..
  rw [fresh, ascent.upward_eq, ← Kernel.lookedAt_concat ascents ascent, whole]
  simp only [lookedAt, List.flatMap_append, List.eraseDups_append]
  exact List.prefix_append ..

/-- If two states have activities, the one of the first goes on before the one of the second. -/
def InOrder (sections : Sections) (agenda : List Entry) (first second : UInt16) : Prop :=
  ([first, second].filterMap sections.activity?).Sublist agenda

instance (sections : Sections) (agenda : List Entry) (first second : UInt16) :
    Decidable (sections.InOrder agenda first second) :=
  inferInstanceAs (Decidable (List.Sublist _ _))

theorem inOrder_round (ascents : ∀ leaf ∈ leaves, ∃ path, sections.Ascent leaf path)
    {first second : UInt16}
    (ordered : [first, second].Sublist (sections.lookedAt (sections.round leaves).chosen)) :
    sections.InOrder (sections.round leaves).agenda first second := by
  have among := ordered.filterMap sections.activity?
  rw [← activities_round ascents] at among
  exact among.trans List.filter_sublist

/-- What a round of leaves comes to. -/
structure Awards (sections : Sections) (leaves chosen : List UInt16) (agenda : List Entry) :
    Prop where
  /-- A state at or above a chosen leaf goes on once, if it has an activity. -/
  once : ∀ state, sections.Active chosen state →
    agenda.filter (Entry.continues state) = (sections.activity? state).toList
  /-- No other state goes on. -/
  rests : ∀ state, ¬ sections.Active chosen state → agenda.filter (Entry.continues state) = []
  /-- In the turn of a leaf inner states go on before outer ones. -/
  inner_first : ∀ earlier leaf later, chosen = earlier ++ leaf :: later →
    ∀ lower upper, sections.Beneath lower leaf → sections.Below upper lower →
      ¬ sections.Active earlier upper → sections.InOrder agenda lower upper
  /-- What an earlier turn has reached went on before. -/
  shared_first : ∀ earlier leaf later, chosen = earlier ++ leaf :: later →
    ∀ lower upper, sections.Beneath lower leaf → ¬ sections.Active earlier lower →
      sections.Active earlier upper → sections.InOrder agenda upper lower
  /-- A leaf that is not chosen is refused its lanes once. -/
  refuses : ∀ before leaf after, leaves = before ++ leaf :: after → leaf ∉ chosen →
    ∃ lanes winner,
      sections.Overruled (before.filter (· ∈ chosen)) leaf lanes winner ∧
      agenda.filter (Entry.refuses leaf) = [.conflict lanes winner leaf]
  /-- No other leaf is refused anything. -/
  spares : ∀ leaf, leaf ∈ chosen ∨ leaf ∉ leaves → agenda.filter (Entry.refuses leaf) = []
  /-- Nothing else is done. -/
  only : ∀ entry ∈ agenda, (∃ action state, entry = .activity action state) ∨
    ∃ lanes winner leaf, entry = .conflict lanes winner leaf

theorem WellFormed.mem_reached (wellFormed : sections.WellFormed)
    (exist : ∀ leaf ∈ chosen, sections.Has leaf) :
    state ∈ chosen.flatMap sections.upward ↔ sections.Active chosen state := by
  rw [List.mem_flatMap]
  exact exists_congr fun leaf => and_congr_right fun listed =>
    wellFormed.mem_upward (exist leaf listed)

/-- A state comes before what lies above it on every way up. -/
theorem WellFormed.pair_sublist_upward (wellFormed : sections.WellFormed)
    {lower upper : UInt16} (beneath : sections.Beneath lower leaf)
    (below : sections.Below upper lower) : [lower, upper].Sublist (sections.upward leaf) := by
  obtain ⟨path, ascent, met⟩ := wellFormed.exists_ascent beneath.has
  obtain ⟨inner, above, rfl, own⟩ := ascent.of_mem ((met lower).2 beneath)
  have upperListed : upper ∈ sections.upward lower :=
    (wellFormed.mem_upward below.1.has).2 below.1
  rw [own.upward_eq] at upperListed
  have outer : upper ∈ above := (List.mem_cons.1 upperListed).resolve_left (Ne.symm below.2)
  rw [ascent.upward_eq]
  exact (List.Sublist.cons_cons lower (List.singleton_sublist.2 outer)).trans
    (List.sublist_append_right ..)

/-- In a round activities go on and leaves are refused lanes, and that is all. -/
theorem only_round (leaves : List UInt16) : ∀ entry ∈ (sections.round leaves).agenda,
    (∃ action state, entry = .activity action state) ∨
      ∃ lanes winner leaf, entry = .conflict lanes winner leaf := by
  induction leaves using List.reverseRecOn with
  | nil => nofun
  | append_singleton leaves leaf ih =>
    rw [round_concat, Round.next]
    split
    · refine List.forall_mem_append.2 ⟨ih, fun entry listed => .inl ?_⟩
      rw [← filter_isActivity] at listed
      have acts := (List.mem_filter.1 listed).2
      cases entry with
      | activity action state => exact ⟨action, state, rfl⟩
      | _ => cases acts
    · refine List.forall_mem_append.2 ⟨ih, fun entry listed => .inr ?_⟩
      exact ⟨_, _, _, List.mem_singleton.1 listed⟩

section Turns

variable (wellFormed : sections.WellFormed) (exist : ∀ leaf ∈ leaves, sections.Has leaf)

include wellFormed exist

theorem exists_ascents : ∀ leaf ∈ leaves, ∃ path, sections.Ascent leaf path := fun leaf listed =>
  let ⟨path, ascent, _⟩ := wellFormed.exists_ascent (exist leaf listed)
  ⟨path, ascent⟩

/-- In the turn of a chosen leaf the states are looked at that lie above it and above no leaf chosen
before it, and that is after those. -/
theorem turn_front {earlier later : List UInt16}
    (split : (sections.round leaves).chosen = earlier ++ leaf :: later) :
    sections.lookedAt earlier ++ ((sections.upward leaf).filter fun state =>
        !decide (state ∈ earlier.flatMap sections.upward)) <+:
      sections.lookedAt (sections.round leaves).chosen := by
  have among : ∀ other ∈ earlier ++ leaf :: later, other ∈ leaves := by
    rw [← split]
    exact fun other listed => (chosen_sublist leaves).subset listed
  have ascents := exists_ascents wellFormed exist
  have climbs := fun other listed => ascents other (among other (List.mem_append_left _ listed))
  obtain ⟨path, ascent⟩ :=
    ascents leaf (among leaf (List.mem_append_right _ (List.mem_cons_self ..)))
  rw [split, ascent.upward_eq, ← fresh_eq_filter climbs ascent]
  exact lookedAt_front climbs ascent

/-- What earlier turns have reached are the states that are active with the leaves of these. -/
theorem mem_earlier {earlier later : List UInt16}
    (split : (sections.round leaves).chosen = earlier ++ leaf :: later) :
    state ∈ earlier.flatMap sections.upward ↔ sections.Active earlier state := by
  refine wellFormed.mem_reached fun other listed => exist other ?_
  have isChosen : other ∈ (sections.round leaves).chosen := by
    rw [split]
    exact List.mem_append_left _ listed
  exact (chosen_sublist leaves).subset isChosen

theorem inner_first {earlier later : List UInt16} {lower upper : UInt16}
    (split : (sections.round leaves).chosen = earlier ++ leaf :: later)
    (beneath : sections.Beneath lower leaf) (below : sections.Below upper lower)
    (first : ¬ sections.Active earlier upper) :
    sections.InOrder (sections.round leaves).agenda lower upper := by
  have inner : ¬ sections.Active earlier lower := fun ⟨other, isEarlier, above⟩ =>
    first ⟨other, isEarlier, below.1.trans above⟩
  rw [← mem_earlier wellFormed exist split] at first inner
  have kept : ∀ state ∈ [lower, upper],
      (!decide (state ∈ earlier.flatMap sections.upward)) = true := by
    refine List.forall_mem_cons.2 ⟨?_, List.forall_mem_singleton.2 ?_⟩
    · rw [decide_eq_false inner, Bool.not_false]
    · rw [decide_eq_false first, Bool.not_false]
  have turn := (wellFormed.pair_sublist_upward beneath below).filter fun state =>
    !decide (state ∈ earlier.flatMap sections.upward)
  rw [List.filter_eq_self.2 kept] at turn
  exact inOrder_round (exists_ascents wellFormed exist)
    ((turn.trans (List.sublist_append_right ..)).trans
      (turn_front wellFormed exist split).sublist)

theorem shared_first {earlier later : List UInt16} {lower upper : UInt16}
    (split : (sections.round leaves).chosen = earlier ++ leaf :: later)
    (beneath : sections.Beneath lower leaf) (fresh : ¬ sections.Active earlier lower)
    (shared : sections.Active earlier upper) :
    sections.InOrder (sections.round leaves).agenda upper lower := by
  rw [← mem_earlier wellFormed exist split] at fresh shared
  have before : upper ∈ sections.lookedAt earlier := List.mem_eraseDups.2 shared
  have turn : lower ∈ (sections.upward leaf).filter fun state =>
      !decide (state ∈ earlier.flatMap sections.upward) := by
    refine List.mem_filter.2 ⟨(wellFormed.mem_upward beneath.has).2 beneath, ?_⟩
    rw [decide_eq_false fresh, Bool.not_false]
  have ordered := (List.singleton_sublist.2 before).append (List.singleton_sublist.2 turn)
  exact inOrder_round (exists_ascents wellFormed exist)
    (ordered.trans (turn_front wellFormed exist split).sublist)

end Turns

/-- Who was chosen before a leaf was looked at. -/
theorem chosen_eq_filter (apart : (before ++ after).Nodup) :
    (sections.round before).chosen =
      before.filter (· ∈ (sections.round (before ++ after)).chosen) := by
  refine (eq_filter_of_sublist (chosen_sublist before) (List.nodup_append.1 apart).1).trans
    (List.filter_congr fun other listed => ?_)
  exact decide_eq_decide.2 (mem_chosen_append listed apart).symm

/-- A leaf that is not chosen is refused what the leaves chosen before it have. -/
theorem exists_refused (apart : (before ++ leaf :: after).Nodup)
    (passed : leaf ∉ (sections.round (before ++ leaf :: after)).chosen) :
    ∃ lanes winner,
      sections.Overruled
        (before.filter (· ∈ (sections.round (before ++ leaf :: after)).chosen)) leaf lanes winner ∧
      (sections.round (before ++ leaf :: after)).agenda.filter (Entry.refuses leaf) =
        [.conflict lanes winner leaf] := by
  have clash := mt (mem_chosen_iff apart).2 passed
  refine ⟨_, _, ?_, (refuses_round apart).trans (if_neg clash)⟩
  rw [← chosen_eq_filter apart]
  exact overruled_owner clash

/-- A leaf that is chosen is refused nothing. -/
theorem refuses_chosen (apart : leaves.Nodup) (isChosen : leaf ∈ (sections.round leaves).chosen) :
    (sections.round leaves).agenda.filter (Entry.refuses leaf) = [] := by
  obtain ⟨before, after, rfl⟩ := List.append_of_mem ((chosen_sublist leaves).subset isChosen)
  exact (refuses_round apart).trans (if_pos ((mem_chosen_iff apart).1 isChosen))

/-- A round of leaves that exist shares the lanes out. -/
theorem WellFormed.round_awards (wellFormed : sections.WellFormed) (apart : leaves.Nodup)
    (exist : ∀ leaf ∈ leaves, sections.Has leaf) :
    sections.Awards leaves (sections.round leaves).chosen (sections.round leaves).agenda where
  once state active := by
    rw [continues_round (exists_ascents wellFormed exist), if_pos]
    exact (wellFormed.mem_reached fun leaf listed =>
      exist leaf ((chosen_sublist leaves).subset listed)).2 active
  rests state inactive := by
    rw [continues_round (exists_ascents wellFormed exist), if_neg]
    exact mt (wellFormed.mem_reached fun leaf listed =>
      exist leaf ((chosen_sublist leaves).subset listed)).1 inactive
  inner_first _ _ _ split _ _ := inner_first wellFormed exist split
  shared_first _ _ _ split _ _ := shared_first wellFormed exist split
  refuses := by
    rintro before leaf after rfl
    exact exists_refused apart
  spares _ free := free.elim (refuses_chosen apart) refuses_of_notMem
  only := only_round leaves

end Rom.Sections

end Statechart
