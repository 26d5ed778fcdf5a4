/-
# Leaving closes what is below

Leaving what is active below a state leaves exactly the active states strictly below it,
each once (`exitBelow_closes`). They are found on the way up from the active leaves and are
left deepest first, so every state is left after its active children.

For this the active states have to be those above the active leaves (`Matched`), which is
what every tick keeps.
-/

import Statechart.Proofs.Kernel.Exit
import Statechart.Proofs.Kernel.Opening

namespace Statechart.Kernel

open Rom (Definition Sections StateRecord noIndex rootIndex)
open Stays (Nested)

variable {User : Type} {pledge : Instance.Pledge} {kernel : Kernel User} {start : Stays}
  {progress before middle after : Progress User} {definition : Definition}
  {active : List UInt16} {top state leaf : UInt16}

/-- The active states are those above the active leaves, except for the root, which is
never entered. -/
structure Matched (kernel : Kernel User) (start : Stays) (active : List UInt16)
    (progress : Progress User) : Prop where
  nested : Nested kernel.definition.sections (progress.stays start)
  open_iff (state : UInt16) : (progress.stays start).Open state ↔
    state ≠ rootIndex ∧ kernel.definition.sections.Active active state

theorem Matched.of_quiet (matched : Matched kernel start active before)
    (quiet : Quiet kernel start before after) : Matched kernel start active after :=
  ⟨quiet.stays_eq.symm ▸ matched.nested, quiet.stays_eq.symm ▸ matched.open_iff⟩

/-! ### What is left -/

/-- On the way up from a leaf, strictly below the parent of a state lie the state itself and what
lies strictly below it. -/
theorem strictly_below_parent {parent child : UInt16} (wellFormed : definition.sections.WellFormed)
    (linked : definition.sections.Child parent child)
    (upper : definition.sections.Beneath child leaf) (state : UInt16) :
    definition.sections.Beneath parent state ∧ state ≠ parent ∧
        definition.sections.Beneath state leaf ↔
      (definition.sections.Beneath child state ∧ state ≠ child ∧
        definition.sections.Beneath state leaf) ∨ state = child := by
  have higher := wellFormed.beneath_of_child linked
  constructor
  · rintro ⟨below, other, passed⟩
    have lower := Sections.Beneath.of_child wellFormed linked below other upper passed
    exact (em (state = child)).symm.imp_left fun differs => ⟨lower, differs, passed⟩
  · rintro (⟨below, _, passed⟩ | rfl)
    · refine ⟨higher.trans below, ?_, passed⟩
      rintro rfl
      exact wellFormed.child_ne linked (below.antisymm wellFormed higher)
    · exact ⟨higher, wellFormed.child_ne linked, upper⟩

/-- The states on the way from a leaf up to `top` are added, each once. -/
theorem gatherExiting_yields (wellFormed : definition.sections.WellFormed)
    (beneath : definition.sections.Beneath top leaf) {exiting : List UInt16}
    (apart : exiting.Nodup) :
    Yields (gatherExiting definition top leaf exiting) fun gathered => gathered.Nodup ∧
      ∀ state, state ∈ gathered ↔ state ∈ exiting ∨
        definition.sections.Beneath top state ∧ state ≠ top ∧
          definition.sections.Beneath state leaf := by
  -- At each state, those on the way up to it are listed.
  let holds (current : UInt16) (gathered : List UInt16) : Prop :=
    definition.sections.Beneath top current ∧ definition.sections.Beneath current leaf ∧
      gathered.Nodup ∧ ∀ state, state ∈ gathered ↔ state ∈ exiting ∨
        definition.sections.Beneath current state ∧ state ≠ current ∧
          definition.sections.Beneath state leaf
  have begins : holds leaf exiting := by
    refine ⟨beneath, .self beneath.has, apart, fun state => ?_⟩
    refine (or_iff_left fun passed => ?_).symm
    exact passed.2.1 (passed.2.2.antisymm wellFormed passed.1)
  refine (climb_yields holds ?_ begins).mono ?_
  · intro current gathered has invariant asked
    obtain ⟨above, upper, once, listed⟩ := invariant
    have proper : current ≠ top := by
      rintro rfl
      simp at asked
    cases above with
    | self _ => exact absurd rfl proper
    | @under parent _ above linked =>
      have onward := strictly_below_parent wellFormed linked upper
      rw [linked.parent_eq]
      have lifted := (wellFormed.beneath_of_child linked).trans upper
      split
      · next again =>
        refine .ok ⟨above, lifted, once, fun state => ?_⟩
        rw [onward, ← or_assoc, ← listed]
        exact (or_iff_left_of_imp fun same => by simpa [same] using again).symm
      · next fresh =>
        split
        · refine .ok ⟨above, lifted, ?_, fun state => ?_⟩
          · refine List.nodup_append.2 ⟨once, List.pairwise_singleton .., ?_⟩
            rintro state earlier _ last rfl
            exact fresh (by simpa using List.mem_singleton.1 last ▸ earlier)
          · rw [List.mem_append, List.mem_singleton, listed, onward, or_assoc]
        · exact .error
  · intro gathered ended
    obtain ⟨last, ⟨above, _, once, listed⟩, stopped⟩ := ended
    have isTop : last = top := by
      rcases stopped with absent | asked
      · exact absurd above.has (absent ▸ wellFormed.not_has_noIndex)
      · simpa using asked
    exact ⟨once, isTop ▸ listed⟩

open Classical in
/-- The states to leave are the active ones strictly below `top`, each once. -/
theorem exitingBelow_yields (wellFormed : definition.sections.WellFormed)
    (states : ∀ leaf ∈ active, definition.sections.Has leaf) :
    Yields (exitingBelow definition top active) fun exiting => exiting.Nodup ∧
      ∀ state, state ∈ exiting ↔ definition.sections.Beneath top state ∧ state ≠ top ∧
        definition.sections.Active active state := by
  -- The leaves that were looked at, and those that are left.
  let invariant (rest exiting : List UInt16) : Prop := ∃ seen, active = seen ++ rest ∧
    exiting.Nodup ∧ ∀ state, state ∈ exiting ↔ definition.sections.Beneath top state ∧
      state ≠ top ∧ definition.sections.Active seen state
  have begins : invariant active [] := by
    refine ⟨[], rfl, .nil, fun state => iff_of_false List.not_mem_nil ?_⟩
    rintro ⟨_, _, leaf, listed, _⟩
    cases listed
  refine (Yields.foldlM ?_ begins).mono ?_
  · intro leaf rest exiting listed found
    obtain ⟨seen, cut, once, known⟩ := found
    have next : active = (seen ++ [leaf]) ++ rest := by rw [cut, List.append_assoc]; rfl
    have single (state : UInt16) : definition.sections.Active [leaf] state ↔
        definition.sections.Beneath state leaf := by
      simp [Sections.Active]
    rw [isBelow_eq wellFormed (states leaf listed)]
    simp only [ok_bind]
    split
    · next below =>
      have beneath : definition.sections.Beneath top leaf := by
        apply Classical.byContradiction
        intro apart
        rw [decide_eq_true (show definition.sections.Beside top leaf from .inr apart)] at below
        cases below
      apply (gatherExiting_yields wellFormed beneath once).mono
      intro gathered more
      refine ⟨_, next, more.1, fun state => ?_⟩
      rw [more.2, known, Sections.active_append, single]
      tauto
    · next beside =>
      refine .pure ⟨_, next, once, fun state => ?_⟩
      rw [known, Sections.active_append, single]
      -- Nothing strictly below `top` is above this leaf.
      have nothing : definition.sections.Beneath top state → state ≠ top →
          ¬ definition.sections.Beneath state leaf := by
        intro below proper passed
        rcases of_decide_eq_true (by simpa using beside) with rfl | apart
        · exact proper (passed.antisymm wellFormed below)
        · exact apart (below.trans passed)
      tauto
  · intro exiting ended
    obtain ⟨seen, cut, once, known⟩ := ended
    rw [List.append_nil] at cut
    exact ⟨once, cut ▸ known⟩

theorem leavesBefore_trans {first second third : UInt8 × UInt16}
    (before : leavesBefore first second = true) (onward : leavesBefore second third = true) :
    leavesBefore first third = true := by
  simp only [leavesBefore, Bool.or_eq_true, Bool.and_eq_true, decide_eq_true_eq,
    UInt8.lt_iff_toNat_lt, ← UInt8.toNat_inj, UInt16.le_iff_toNat_le] at before onward ⊢
  omega

theorem leavesBefore_total (first second : UInt8 × UInt16) :
    leavesBefore first second = true ∨ leavesBefore second first = true := by
  simp only [leavesBefore, Bool.or_eq_true, Bool.and_eq_true, decide_eq_true_eq,
    UInt8.lt_iff_toNat_lt, ← UInt8.toNat_inj, UInt16.le_iff_toNat_le]
  omega

theorem pairwise_insertLeaving {keyed : List (UInt8 × UInt16)} (entry : UInt8 × UInt16)
    (sorted : keyed.Pairwise fun first second => leavesBefore first second = true) :
    (insertLeaving entry keyed).Pairwise fun first second =>
      leavesBefore first second = true := by
  induction keyed with
  | nil => exact List.pairwise_singleton _ _
  | cons head rest ih =>
    obtain ⟨first, others⟩ := List.pairwise_cons.1 sorted
    unfold insertLeaving
    split
    · next before =>
      refine List.pairwise_cons.2 ⟨?_, sorted⟩
      exact List.forall_mem_cons.2 ⟨before, fun other later =>
        leavesBefore_trans before (first other later)⟩
    · next behind =>
      refine List.pairwise_cons.2 ⟨fun other listed => ?_, ih others⟩
      rcases List.mem_cons.1 ((insertLeaving_perm entry rest).mem_iff.1 listed) with rfl | later
      · exact (leavesBefore_total head other).resolve_right behind
      · exact first other later

theorem pairwise_foldr_insertLeaving (keyed : List (UInt8 × UInt16)) :
    (keyed.foldr insertLeaving []).Pairwise fun first second =>
      leavesBefore first second = true := by
  induction keyed with
  | nil => exact .nil
  | cons entry rest ih => exact pairwise_insertLeaving entry ih

/-- The states to leave are put in order: deeper ones first, then by index. -/
theorem exitOrder_sorts {exiting : List UInt16}
    (states : ∀ state ∈ exiting, definition.sections.Has state) :
    Yields (exitOrder definition exiting) fun ordered => ordered.Perm exiting ∧
      ordered.Pairwise fun first second =>
        leavesBefore ((definition.sections.record first).depth, first)
          ((definition.sections.record second).depth, second) = true := by
  let keyed (state : UInt16) : UInt8 × UInt16 := ((definition.sections.record state).depth, state)
  unfold exitOrder
  rw [Rom.Sections.mapM_eq_ok keyed exiting
    fun state listed => by rw [Definition.state_eq (states state listed)]; rfl]
  have sorted := pairwise_foldr_insertLeaving (exiting.map keyed)
  have same := foldr_insertLeaving_perm (exiting.map keyed)
  refine .pure ⟨?_, ?_⟩
  · have names := same.map Prod.snd
    rwa [List.map_map, show Prod.snd ∘ keyed = id from rfl, List.map_id] at names
  · refine List.pairwise_map.2 (sorted.imp_of_mem ?_)
    intro first second inFirst inSecond before
    obtain ⟨one, _, rfl⟩ := List.mem_map.1 (same.mem_iff.1 inFirst)
    obtain ⟨two, _, rfl⟩ := List.mem_map.1 (same.mem_iff.1 inSecond)
    exact before

/-- No deeper state is left behind a less deep one. -/
theorem exitOrder_yields {exiting : List UInt16}
    (states : ∀ state ∈ exiting, definition.sections.Has state) :
    Yields (exitOrder definition exiting) fun ordered => ordered.Perm exiting ∧
      ordered.Pairwise fun first second =>
        (definition.sections.record second).depth.toNat ≤
          (definition.sections.record first).depth.toNat := by
  apply (exitOrder_sorts states).mono
  rintro ordered ⟨same, sorted⟩
  refine ⟨same, sorted.imp fun before => ?_⟩
  simp only [leavesBefore, Bool.or_eq_true, Bool.and_eq_true, decide_eq_true_eq,
    UInt8.lt_iff_toNat_lt, ← UInt8.toNat_inj] at before
  omega

/-! ### Leaving -/

/-- Saving history writes a history slot at most. -/
theorem remember_yields (kernel : Kernel User) (state : UInt16) (record : StateRecord)
    (inst : Instance) : Yields (kernel.remember state record inst) fun after =>
      ∃ history fits, after = { inst with history, length_history := fits } := by
  unfold remember
  split
  · apply (Yields.self _).bind
    intro saved _
    split
    · exact (Instance.setHistory_yields _).mono fun _ written => ⟨_, _, written.2⟩
    · exact .pure ⟨inst.history, inst.length_history, rfl⟩
  · exact .ok ⟨inst.history, inst.length_history, rfl⟩

/-- Disarming a timer writes its slot, if there is a timer. -/
theorem disarm_yields (record : StateRecord) (inst : Instance) :
    Yields (disarm record inst) fun after =>
      record.hasTimer = false ∧ after = inst ∨
        record.hasTimer = true ∧ record.timerSlot.toNat < inst.timers.length ∧
          after = { inst with
            timers := inst.timers.set record.timerSlot.toNat 0
            length_timers := by rw [List.length_set, inst.length_timers] } := by
  unfold disarm
  split
  · next runs => exact (Instance.setTimer_yields 0).mono fun _ written => .inr ⟨runs, written⟩
  · next runs => exact .ok (.inl ⟨Bool.eq_false_iff.2 runs, rfl⟩)

/-- A state was left, and no other. -/
structure Dismissed (kernel : Kernel User) (start : Stays) (state : UInt16)
    (before after : Progress User) : Prop extends Leads kernel start before after where
  leaves_eq : after.inst.leaves = before.inst.leaves
  stays_eq : after.stays start = (before.stays start).step (.exit state)

namespace Reliable

variable (reliable : Reliable pledge kernel)

include reliable

theorem exitState_dismisses (sound : progress.inst.QueueSound)
    (leavable : (progress.stays start).Leavable kernel.definition.sections state) :
    Yields (kernel.exitState state progress) (Dismissed kernel start state progress) := by
  rw [exitState_eq]
  apply (kernel.definition.state_yields state).bind
  intro record known
  obtain ⟨_, rfl⟩ := known
  apply (Yields.self _).bind
  intro saved remembered
  apply (Yields.self _).bind
  intro inst disarmed
  have leaving : Dismissed kernel start state progress
      ((progress.withInst inst).note (.exit state)) := by
    have step (event : Event) : Step kernel start ⟨event, progress⟩
        ⟨event, (progress.withInst inst).note (.exit state)⟩ :=
      .left leavable remembered disarmed
    obtain ⟨history, fits, rfl⟩ := (remember_yields _ _ _ _).of_eq _ remembered
    rcases (disarm_yields _ _).of_eq _ disarmed with ⟨_, rfl⟩ | ⟨_, _, rfl⟩
    · exact ⟨.step step (sound.of_ring_eq rfl), rfl, Progress.stays_note _ _⟩
    · exact ⟨.step step (sound.of_ring_eq rfl), rfl, Progress.stays_note _ _⟩
  have other : Trace.Cause.exit ≠ .timer := by decide
  apply (reliable.runAction_quiet other _ _ leaving.queueSound).mono
  intro after quiet
  exact ⟨leaving.toLeads.trans quiet.toLeads, quiet.leaves_eq.trans leaving.leaves_eq,
    quiet.stays_eq.trans leaving.stays_eq⟩

/-- Leaving active states one after the other, each after its active children. -/
theorem exitAll_dismisses {ordered : List UInt16} (sound : progress.inst.QueueSound)
    (once : ordered.Nodup)
    (deepest : ordered.Pairwise fun first second =>
      (kernel.definition.sections.record second).depth.toNat ≤
        (kernel.definition.sections.record first).depth.toNat)
    (isOpen : ∀ state ∈ ordered, (progress.stays start).Open state)
    (below : ∀ state ∈ ordered, ∀ child, kernel.definition.sections.Child state child →
      (progress.stays start).Open child → child ∈ ordered) :
    Yields (ordered.foldlM (fun progress state => kernel.exitState state progress) progress)
      fun after => Leads kernel start progress after ∧
        after.inst.leaves = progress.inst.leaves ∧
        ∀ state, (after.stays start).Open state ↔
          (progress.stays start).Open state ∧ state ∉ ordered := by
  have wellFormed := reliable.sound.wellFormed
  -- The states that were left, and those that are still to be left.
  let invariant (rest : List UInt16) (after : Progress User) : Prop :=
    ∃ left, ordered = left ++ rest ∧ Leads kernel start progress after ∧
      after.inst.leaves = progress.inst.leaves ∧
      ∀ state, (after.stays start).Open state ↔
        (progress.stays start).Open state ∧ state ∉ left
  have begins : invariant ordered progress :=
    ⟨[], rfl, .refl sound, rfl, fun _ => (and_iff_left List.not_mem_nil).symm⟩
  refine (Yields.foldlM ?_ begins).mono ?_
  · intro state rest middle listed reached
    obtain ⟨left, cut, leads, leaves, opens⟩ := reached
    rw [cut, List.nodup_append] at once
    rw [cut, List.pairwise_append] at deepest
    have leavable : (middle.stays start).Leavable kernel.definition.sections state := by
      refine ⟨(opens state).2 ⟨isOpen state listed, fun again => ?_⟩, fun child linked still => ?_⟩
      · exact once.2.2 state again state (List.mem_cons_self ..) rfl
      · obtain ⟨early, remains⟩ := (opens child).1 still
        have member := below state listed child linked early
        rw [cut] at member
        rcases List.mem_cons.1 ((List.mem_append.1 member).resolve_left remains) with same | later
        · exact wellFormed.child_ne linked same
        · have shallower := (List.pairwise_cons.1 deepest.2.1).1 child later
          have deeper := wellFormed.depth_child linked
          omega
    apply (reliable.exitState_dismisses leads.queueSound leavable).mono
    intro after dismissed
    refine ⟨left ++ [state], by rw [cut, List.append_assoc]; rfl,
      leads.trans dismissed.toLeads, dismissed.leaves_eq.trans leaves, fun other => ?_⟩
    rw [dismissed.stays_eq, Stays.open_exit, opens, List.mem_append, List.mem_singleton, not_or,
      and_assoc]
  · intro after ended
    obtain ⟨left, cut, leads, leaves, opens⟩ := ended
    rw [List.append_nil] at cut
    exact ⟨leads, leaves, cut ▸ opens⟩

open Classical in
/-- Leaving everything below a state leaves the active states strictly below it, and takes
their leaves away. -/
theorem exitBelow_closes (sound : progress.inst.QueueSound)
    (holds : Holds progress.inst.leaves active)
    (states : ∀ leaf ∈ active, kernel.definition.sections.Has leaf)
    (matched : Matched kernel start active progress) :
    Yields (kernel.exitBelow top progress) fun after => Leads kernel start progress after ∧
      Holds after.inst.leaves
        (active.filter fun leaf => kernel.definition.sections.Beside top leaf) ∧
      ∀ state, (after.stays start).Open state ↔ (progress.stays start).Open state ∧
        ¬ (kernel.definition.sections.Beneath top state ∧ state ≠ top) := by
  have wellFormed := reliable.sound.wellFormed
  unfold exitBelow
  simp only [Instance.activeLeaves_eq holds]
  apply (exitingBelow_yields wellFormed states).bind
  intro exiting found
  obtain ⟨once, known⟩ := found
  have has : ∀ state ∈ exiting, kernel.definition.sections.Has state :=
    fun state listed => ((known state).1 listed).1.has
  apply (exitOrder_yields has).bind
  intro ordered sorted
  obtain ⟨same, deepest⟩ := sorted
  have listed (state : UInt16) : state ∈ ordered ↔
      kernel.definition.sections.Beneath top state ∧ state ≠ top ∧
        kernel.definition.sections.Active active state :=
    same.mem_iff.trans (known state)
  have isOpen : ∀ state ∈ ordered, (progress.stays start).Open state := by
    intro state member
    obtain ⟨below, proper, isActive⟩ := (listed state).1 member
    refine (matched.open_iff state).2 ⟨?_, isActive⟩
    rintro rfl
    exact proper (wellFormed.eq_root_of_beneath below).symm
  have closed : ∀ state ∈ ordered, ∀ child, kernel.definition.sections.Child state child →
      (progress.stays start).Open child → child ∈ ordered := by
    intro state member child linked childOpen
    obtain ⟨below, _, _⟩ := (listed state).1 member
    have lower := below.trans (wellFormed.beneath_of_child linked)
    refine (listed child).2 ⟨lower, ?_, ((matched.open_iff child).1 childOpen).2⟩
    rintro rfl
    have back := below.antisymm wellFormed (wellFormed.beneath_of_child linked)
    exact wellFormed.child_ne linked back
  apply (reliable.exitAll_dismisses sound (same.nodup_iff.2 once) deepest isOpen closed).bind
  intro left dismissed
  obtain ⟨leads, leaves, opens⟩ := dismissed
  rw [Instance.activeLeaves_eq (leaves.symm ▸ holds), leavesBeside_eq wellFormed states]
  apply Yields.pure
  have step (event : Event) : Step kernel start ⟨event, left⟩ ⟨event, _⟩ :=
    .vacated (active.filter fun leaf => kernel.definition.sections.Beside top leaf)
  refine ⟨leads.trans (.step step (leads.queueSound.of_ring_eq rfl)), ?_, fun state => ?_⟩
  · apply Instance.holds_withActiveLeaves
    · rw [← left.inst.length_leaves, leaves]
      exact Nat.le_trans (List.length_filter_le _ _) holds.length_le
    · intro leaf member
      exact wellFormed.ne_noIndex (states leaf (List.mem_filter.1 member).1)
  · refine (opens state).trans (and_congr_right fun early => not_congr ?_)
    have isActive := ((matched.open_iff state).1 early).2
    rw [listed]
    tauto

end Reliable

end Statechart.Kernel
