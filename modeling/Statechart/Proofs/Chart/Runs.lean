/-
# Runs of one key

Where several states have a number in common, they are found by sorting all states by their
numbers and cutting the sorted list where the number changes. Sorting keeps the order of
states with one number, and a number that was left behind does not come again
(`pairwise_runs`). So there is one run for each number that somebody has, and it names those
who have it in the order in which they were given (`mem_runsByKey`).

Of a run all pairs are looked at, each one once and in order (`mem_pairs_iff`,
`nodup_pairs`).
-/

import Mathlib.Data.List.SplitBy
import Mathlib.Data.List.Sym
import Statechart.Chart.Findings

namespace Statechart.Chart.Graph

/-! ### Sorting -/

/-- Sorting keeps the order of entries that are all level. -/
theorem filter_mergeSort {Entry : Type} {le : Entry → Entry → Bool}
    (trans : ∀ first second third, le first second → le second third → le first third)
    (total : ∀ first second, le first second || le second first) {alike : Entry → Bool}
    (level : ∀ first second, alike first → alike second → le first second)
    (entries : List Entry) : (entries.mergeSort le).filter alike = entries.filter alike := by
  have equal : (entries.filter alike).Pairwise fun first second => le first second = true :=
    List.pairwise_of_forall_mem_list fun first inFirst second inSecond =>
      level first second (List.mem_filter.1 inFirst).2 (List.mem_filter.1 inSecond).2
  have sub := List.sublist_mergeSort trans total equal List.filter_sublist
  have kept := sub.filter alike
  rw [List.filter_filter] at kept
  simp only [Bool.and_self] at kept
  refine (kept.eq_of_length ?_).symm
  exact (((List.mergeSort_perm entries _).filter _).length_eq).symm

/-! ### Cutting -/

section Cutting

variable {Entry : Type} {key : Entry → Nat}

/-- In a sorted list that was cut where the key changes, what is in one run has a smaller key
than what is in a later one. -/
theorem lt_of_runs {run : List Entry} {rest : List (List Entry)}
    (cut : (run :: rest).IsChain fun run next => ∃ some other,
      (key (run.getLast some) == key (next.head other)) = false)
    (sorted : (run :: rest).flatten.Pairwise fun first second => key first ≤ key second)
    {early late : Entry} (inRun : early ∈ run) (inRest : late ∈ rest.flatten) :
    key early < key late := by
  rw [List.flatten_cons] at sorted
  obtain ⟨inner, onward, across⟩ := List.pairwise_append.1 sorted
  cases rest with
  | nil => cases inRest
  | cons next more =>
    obtain ⟨some, other, differ⟩ := (List.isChain_cons_cons.1 cut).1
    have lastIn := List.getLast_mem some
    have headIn : next.head other ∈ (next :: more).flatten :=
      List.mem_flatten_of_mem (List.mem_cons_self ..) (List.head_mem other)
    have upToLast : key early ≤ key (run.getLast some) := by
      rw [← List.dropLast_append_getLast some] at inRun inner
      rcases List.mem_append.1 inRun with before | last
      · exact (List.pairwise_append.1 inner).2.2 early before _ (List.mem_singleton.2 rfl)
      · exact Nat.le_of_eq (congrArg key (List.mem_singleton.1 last))
    have fromHead : key (next.head other) ≤ key late := by
      obtain ⟨first, after, rfl⟩ := List.exists_cons_of_ne_nil other
      rw [List.flatten_cons, List.cons_append] at inRest onward
      rcases List.mem_cons.1 inRest with rfl | later
      · exact Nat.le_refl _
      · exact (List.pairwise_cons.1 onward).1 late later
    have between := across _ lastIn _ headIn
    have apart : key (run.getLast some) ≠ key (next.head other) := by simpa using differ
    omega

theorem pairwise_runs {runs : List (List Entry)}
    (cut : runs.IsChain fun run next => ∃ some other,
      (key (run.getLast some) == key (next.head other)) = false)
    (sorted : runs.flatten.Pairwise fun first second => key first ≤ key second) :
    runs.Pairwise fun run next => ∀ early ∈ run, ∀ late ∈ next, key early < key late := by
  induction runs with
  | nil => exact .nil
  | cons run rest ih =>
    refine .cons (fun next listed early inRun late inNext => ?_) (ih cut.tail ?_)
    · exact lt_of_runs cut sorted inRun (List.mem_flatten_of_mem listed inNext)
    · rw [List.flatten_cons] at sorted
      exact (List.pairwise_append.1 sorted).2.1

/-- A run consists of all entries of its key. -/
theorem filter_flatten_runs {runs : List (List Entry)}
    (apart : runs.Pairwise fun run next => ∀ early ∈ run, ∀ late ∈ next, key early < key late)
    {run : List Entry} (listed : run ∈ runs) {number : Nat}
    (own : ∀ entry ∈ run, key entry = number) (filled : run ≠ []) :
    runs.flatten.filter (fun entry => key entry == number) = run := by
  obtain ⟨before, after, rfl⟩ := List.append_of_mem listed
  obtain ⟨entry, inside⟩ := List.exists_mem_of_ne_nil run filled
  obtain ⟨-, later, earlier⟩ := List.pairwise_append.1 apart
  have kept : run.filter (fun entry => key entry == number) = run :=
    List.filter_eq_self.2 fun entry inRun => beq_iff_eq.2 (own entry inRun)
  have none (others : List (List Entry))
      (differ : ∀ other ∈ others, ∀ member ∈ other, key member ≠ number) :
      others.flatten.filter (fun entry => key entry == number) = [] := by
    refine List.filter_eq_nil_iff.2 fun member inOthers => ?_
    obtain ⟨other, inList, inOther⟩ := List.mem_flatten.1 inOthers
    exact Bool.eq_false_iff.1 (beq_false_of_ne (differ other inList member inOther))
  have front := none before fun other inList member inOther => by
    have less := earlier other inList run (List.mem_cons_self ..) member inOther entry inside
    rw [own entry inside] at less
    exact Nat.ne_of_lt less
  have back := none after fun other inList member inOther => by
    have less := (List.pairwise_cons.1 later).1 other inList entry inside member inOther
    rw [own entry inside] at less
    exact Nat.ne_of_gt less
  rw [List.flatten_append, List.flatten_cons, List.filter_append, List.filter_append, front, kept,
    back, List.nil_append, List.append_nil]

end Cutting

/-! ### Sorting and cutting -/

variable {keyed : List (Nat × StateId)} {number : Nat} {owners : List StateId}

/-- Who has a number, in the given order. -/
def havers (keyed : List (Nat × StateId)) (number : Nat) : List StateId :=
  (keyed.filter fun entry => entry.1 == number).map Prod.snd

theorem mem_havers {id : StateId} : id ∈ havers keyed number ↔ (number, id) ∈ keyed := by
  simp [havers]

/-- The list sorted by number and cut where the number changes. -/
def cutUp (keyed : List (Nat × StateId)) : List (List (Nat × StateId)) :=
  (keyed.mergeSort fun first second => first.1 ≤ second.1).splitBy
    fun first second => first.1 == second.1

theorem flatten_cutUp (keyed : List (Nat × StateId)) :
    (cutUp keyed).flatten = keyed.mergeSort fun first second => first.1 ≤ second.1 :=
  List.flatten_splitBy _ _

theorem pairwise_cutUp (keyed : List (Nat × StateId)) :
    (cutUp keyed).Pairwise fun run next => ∀ early ∈ run, ∀ late ∈ next, early.1 < late.1 := by
  have cut : (cutUp keyed).IsChain fun run next => ∃ some other,
      (Prod.fst (run.getLast some) == Prod.fst (next.head other)) = false :=
    List.isChain_getLast_head_splitBy (fun first second : Nat × StateId => first.1 == second.1) _
  refine pairwise_runs cut ?_
  have sorted : (keyed.mergeSort fun first second => first.1 ≤ second.1).Pairwise
      fun first second => decide (first.1 ≤ second.1) = true :=
    List.pairwise_mergeSort (by simp; omega) (by simp; omega) keyed
  rw [flatten_cutUp]
  exact sorted.imp of_decide_eq_true

/-- One run is about one number, and names all who have it. -/
theorem of_mem_cutUp {head : Nat × StateId} {rest : List (Nat × StateId)}
    (listed : head :: rest ∈ cutUp keyed) :
    (∀ entry ∈ head :: rest, entry.1 = head.1) ∧
      (head :: rest).map Prod.snd = havers keyed head.1 := by
  have chained := List.isChain_of_mem_splitBy listed
  have alike := (chained.imp fun _ _ met => beq_iff_eq.1 met).pairwise
  have own : ∀ entry ∈ head :: rest, entry.1 = head.1 := by
    rintro entry (_ | ⟨_, later⟩)
    · rfl
    · exact ((List.pairwise_cons.1 alike).1 entry later).symm
  have stable : ((keyed.mergeSort fun first second => first.1 ≤ second.1).filter fun entry =>
      entry.1 == head.1) = keyed.filter fun entry => entry.1 == head.1 :=
    filter_mergeSort (by simp; omega) (by simp; omega) (by simp +contextual) keyed
  refine ⟨own, ?_⟩
  rw [havers, ← stable, ← flatten_cutUp,
    filter_flatten_runs (pairwise_cutUp keyed) listed own (List.cons_ne_nil _ _)]

theorem runsByKey_eq (keyed : List (Nat × StateId)) :
    runsByKey keyed = (cutUp keyed).filterMap fun run =>
      run.head?.map fun first => (first.1, run.map Prod.snd) := rfl

/-- There is one run for each number that somebody has, of all who have it. -/
theorem mem_runsByKey :
    (number, owners) ∈ runsByKey keyed ↔ owners ≠ [] ∧ owners = havers keyed number := by
  rw [runsByKey_eq, List.mem_filterMap]
  constructor
  · rintro ⟨run, listed, named⟩
    cases run with
    | nil => cases named
    | cons head rest =>
      cases named
      exact ⟨List.cons_ne_nil _ _, (of_mem_cutUp listed).2⟩
  · rintro ⟨some, rfl⟩
    obtain ⟨id, has⟩ := List.exists_mem_of_ne_nil _ some
    have sorted : (number, id) ∈ (cutUp keyed).flatten := by
      rw [flatten_cutUp, List.mem_mergeSort]
      exact mem_havers.1 has
    obtain ⟨run, listed, inside⟩ := List.mem_flatten.1 sorted
    cases run with
    | nil => cases inside
    | cons head rest =>
      obtain ⟨own, all⟩ := of_mem_cutUp listed
      obtain rfl : number = head.1 := own _ inside
      refine ⟨head :: rest, listed, ?_⟩
      rw [List.head?_cons, Option.map_some, all]

/-- States of one number are owners in one run. -/
theorem exists_owners {first second : StateId} (one : (number, first) ∈ keyed)
    (two : (number, second) ∈ keyed) :
    ∃ owners, (number, owners) ∈ runsByKey keyed ∧ first ∈ owners ∧ second ∈ owners :=
  ⟨_, mem_runsByKey.2 ⟨List.ne_nil_of_mem (mem_havers.2 one), rfl⟩, mem_havers.2 one,
    mem_havers.2 two⟩

/-- The runs come by ascending numbers. -/
theorem pairwise_runsByKey (keyed : List (Nat × StateId)) :
    (runsByKey keyed).Pairwise fun run next => run.1 < next.1 := by
  rw [runsByKey_eq, List.pairwise_filterMap]
  refine (pairwise_cutUp keyed).imp fun {run next} less => ?_
  rintro _ named _ nextNamed
  cases run with
  | nil => cases named
  | cons head rest =>
    cases next with
    | nil => cases nextNamed
    | cons nextHead nextRest =>
      cases named
      cases nextNamed
      exact less head (List.mem_cons_self ..) nextHead (List.mem_cons_self ..)

/-! ### Pairs -/

variable {first second : StateId}

/-- The pairs are those of an earlier and a later member. -/
theorem mem_pairs_iff : (first, second) ∈ pairs owners ↔ [first, second].Sublist owners := by
  induction owners with
  | nil => simp [pairs]
  | cons owner rest ih =>
    rw [pairs, List.mem_append, ih, List.mem_map]
    constructor
    · rintro (⟨other, later, same⟩ | within)
      · cases same
        exact (List.singleton_sublist.2 later).cons_cons _
      · exact within.cons _
    · intro sub
      cases sub with
      | cons _ within => exact .inr within
      | cons_cons _ later => exact .inl ⟨second, List.singleton_sublist.1 later, rfl⟩

/-- No two members are paired twice, in whatever order. -/
theorem nodup_pairs (apart : owners.Nodup) :
    ((pairs owners).map fun pair => s(pair.1, pair.2)).Nodup := by
  have sub : ((pairs owners).map fun pair => s(pair.1, pair.2)).Sublist owners.sym2 := by
    clear apart
    induction owners with
    | nil => exact .slnil
    | cons owner rest ih =>
      rw [pairs, List.map_append, List.map_map, List.sym2, List.map_cons]
      exact ((List.Sublist.refl _).cons _).append ih
  exact apart.sym2.sublist sub

/-- Two members make a pair in one of the two orders. -/
theorem mem_pairs (one : first ∈ owners) (two : second ∈ owners) (differ : first ≠ second) :
    (first, second) ∈ pairs owners ∨ (second, first) ∈ pairs owners := by
  induction owners with
  | nil => cases one
  | cons owner rest ih =>
    unfold pairs
    rw [List.mem_append, List.mem_append]
    rcases List.mem_cons.1 one with rfl | oneLater <;>
      rcases List.mem_cons.1 two with rfl | twoLater
    · exact absurd rfl differ
    · exact .inl (.inl (List.mem_map_of_mem twoLater))
    · exact .inr (.inl (List.mem_map_of_mem oneLater))
    · exact (ih oneLater twoLater).imp .inr .inr

end Statechart.Chart.Graph
