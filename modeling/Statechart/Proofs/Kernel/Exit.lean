/-
# Leaving states

Leaving what is active below a state takes the leaves that lie strictly below it away and
nothing else (`exitBelow_returns`). On the way the exit actions run and history is saved,
which the leaf slots do not notice.

The buffer of states to leave has room for them all: each active leaf adds at most as many
states as there are levels below the root, and there are no more than eight leaves.
-/

import Statechart.Proofs.Kernel.Entry

namespace Statechart.Kernel

open Rom (Definition Sections StateRecord noIndex rootIndex maxDepth)

variable {User : Type} {pledge : Instance.Pledge} {kernel : Kernel User} {progress : Progress User}
  {definition : Definition} {active : List UInt16} {top state leaf : UInt16}

/-! ### What is below a state -/

theorem childTowards_returns (wellFormed : definition.sections.WellFormed) (steps : Nat)
    (beneath : definition.sections.Beneath top state) (proper : state ≠ top)
    (enough : state.toNat ≤ steps) :
    Returns (childTowards definition top steps state) fun _ => True := by
  induction steps generalizing state with
  | zero =>
    have isRoot : state = rootIndex := UInt16.toNat_inj.1 (Nat.le_zero.1 enough)
    exact absurd (wellFormed.eq_root_of_beneath (isRoot ▸ beneath)) (isRoot ▸ proper.symm)
  | succ steps ih =>
    cases beneath with
    | self _ => exact absurd rfl proper
    | under above linked =>
      have earlier := wellFormed.lt_of_child linked
      unfold childTowards
      simp only [Definition.parent_eq linked.has, linked.parent_eq, ok_bind]
      split
      · exact .pure trivial
      · next further => exact ih above further (by omega)

theorem leafBelow?_returns (wellFormed : definition.sections.WellFormed)
    (states : ∀ leaf ∈ active, definition.sections.Has leaf) :
    Returns (leafBelow? definition state active) fun found => ∀ leaf, found = some leaf →
      definition.sections.Beneath state leaf ∧ leaf ≠ state := by
  induction active with
  | nil => exact .ok nofun
  | cons leaf rest ih =>
    have later := ih fun other listed => states other (List.mem_cons_of_mem _ listed)
    unfold leafBelow?
    split
    · exact later
    · next other =>
      have known := states leaf (List.mem_cons_self ..)
      apply (Definition.isAncestorOrSelf_returns wellFormed (.inl known)).bind
      intro met decided
      cases met with
      | true =>
        apply Returns.pure
        intro found same
        obtain rfl := Option.some.inj same
        exact ⟨decided.1 rfl, other⟩
      | false => exact later

open Classical in
theorem isBelow_eq (wellFormed : definition.sections.WellFormed)
    (has : definition.sections.Has leaf) :
    isBelow definition top leaf = .ok !decide (definition.sections.Beside top leaf) := by
  unfold isBelow
  split
  · next same =>
    have beside : definition.sections.Beside top leaf := .inl same
    rw [decide_eq_true beside]
    rfl
  · next other =>
    obtain ⟨met, asked, decided⟩ := Definition.isAncestorOrSelf_returns wellFormed (.inl has)
    rw [asked]
    congr 1
    by_cases beneath : definition.sections.Beneath top leaf
    · have below : ¬ definition.sections.Beside top leaf := fun beside =>
        beside.elim other fun apart => apart beneath
      rw [decide_eq_false below, decided.2 beneath]
      rfl
    · have beside : definition.sections.Beside top leaf := .inr beneath
      rw [decide_eq_true beside]
      exact Bool.eq_false_iff.2 fun found => beneath (decided.1 found)

open Classical in
theorem leavesBeside_eq (wellFormed : definition.sections.WellFormed)
    (states : ∀ leaf ∈ active, definition.sections.Has leaf) :
    leavesBeside definition top active =
      .ok (active.filter fun leaf => definition.sections.Beside top leaf) := by
  apply Returns.filterM
  intro leaf listed
  rw [isBelow_eq wellFormed (states leaf listed)]
  show Except.ok _ = _
  rw [Bool.not_not]

/-! ### The buffer of states to leave -/

/-- A leaf adds no more states than there are levels below the root. -/
theorem gatherExiting_returns (wellFormed : definition.sections.WellFormed)
    (beneath : definition.sections.Beneath top leaf) {exiting : List UInt16}
    (room : exiting.length + maxDepth ≤ maxActive)
    (states : ∀ state ∈ exiting, definition.sections.Has state) :
    Returns (gatherExiting definition top leaf exiting) fun gathered =>
      gathered.length ≤ exiting.length + maxDepth ∧
        ∀ state ∈ gathered, definition.sections.Has state := by
  have shallow := wellFormed.depth_le beneath.has
  -- What is left to climb has room in the buffer.
  let holds (state : UInt16) (gathered : List UInt16) : Prop :=
    definition.sections.Beneath top state ∧
      gathered.length + (definition.sections.record state).depth.toNat ≤
        exiting.length + (definition.sections.record leaf).depth.toNat ∧
      ∀ state ∈ gathered, definition.sections.Has state
  have climbing : Returns (gatherExiting definition top leaf exiting) fun gathered =>
      ∃ last, holds last gathered := by
    refine climb_returns wellFormed holds ?_ (.inl beneath.has) ⟨beneath, Nat.le_refl _, states⟩
    intro state gathered has invariant
    apply Returns.ok
    intro goes
    obtain ⟨below, counted, listed⟩ := invariant
    have proper : state ≠ top := beq_eq_false_iff_ne.1 goes
    cases below with
    | self _ => exact absurd rfl proper
    | @under parent _ above linked =>
      have deeper := wellFormed.depth_child linked
      rw [linked.parent_eq]
      split
      · exact .ok ⟨above, by omega, listed⟩
      · rw [if_pos (by omega)]
        refine .ok ⟨above, ?_, ?_⟩
        · rw [List.length_append, List.length_singleton]
          omega
        · intro other member
          rcases List.mem_append.1 member with before | last
          · exact listed other before
          · exact List.mem_singleton.1 last ▸ has
  apply climbing.mono
  intro gathered found
  obtain ⟨last, _, counted, listed⟩ := found
  exact ⟨by omega, listed⟩

open Classical in
/-- All active states below a state have room in the buffer. -/
theorem exitingBelow_returns (wellFormed : definition.sections.WellFormed)
    (states : ∀ leaf ∈ active, definition.sections.Has leaf)
    (few : active.length ≤ Tier.tier256.leafCapacity) :
    Returns (exitingBelow definition top active) fun exiting =>
      ∀ state ∈ exiting, definition.sections.Has state := by
  have bound : maxDepth * active.length ≤ maxActive :=
    Nat.le_trans (Nat.mul_le_mul_left _ few) (by decide)
  -- What was gathered leaves room for the leaves that are still to come.
  let holds (rest exiting : List UInt16) : Prop :=
    exiting.length + maxDepth * rest.length ≤ maxActive ∧
      ∀ state ∈ exiting, definition.sections.Has state
  have gathering : Returns (exitingBelow definition top active) (holds []) := by
    refine Returns.foldlM ?_ ⟨?_, nofun⟩
    · intro leaf rest exiting listed invariant
      obtain ⟨room, known⟩ := invariant
      rw [List.length_cons, Nat.mul_add, Nat.mul_one] at room
      rw [isBelow_eq wellFormed (states leaf listed)]
      simp only [ok_bind]
      split
      · next below =>
        have beneath : definition.sections.Beneath top leaf := by
          apply Classical.byContradiction
          intro apart
          rw [decide_eq_true (show definition.sections.Beside top leaf from .inr apart)] at below
          cases below
        refine (gatherExiting_returns wellFormed beneath (by omega) known).mono ?_
        exact fun gathered more => ⟨by omega, more.2⟩
      · exact .pure ⟨by omega, known⟩
    · rw [List.length_nil, Nat.zero_add]
      exact bound
  exact gathering.mono fun _ found => found.2

theorem insertLeaving_perm (entry : UInt8 × UInt16) (keyed : List (UInt8 × UInt16)) :
    (insertLeaving entry keyed).Perm (entry :: keyed) := by
  induction keyed with
  | nil => exact .refl _
  | cons first rest ih =>
    unfold insertLeaving
    split
    · exact .refl _
    · exact (ih.cons first).trans (.swap entry first rest)

/-- What is put in order are the same states. -/
theorem foldr_insertLeaving_perm (keyed : List (UInt8 × UInt16)) :
    (keyed.foldr insertLeaving []).Perm keyed := by
  induction keyed with
  | nil => exact .refl _
  | cons entry rest ih => exact (insertLeaving_perm entry _).trans (ih.cons entry)

/-- The states to leave are put in order, and none is added. -/
theorem exitOrder_returns {exiting : List UInt16}
    (states : ∀ state ∈ exiting, definition.sections.Has state) :
    Returns (exitOrder definition exiting) fun ordered =>
      ∀ state ∈ ordered, definition.sections.Has state := by
  unfold exitOrder
  rw [Rom.Sections.mapM_eq_ok
    (fun state => ((definition.sections.record state).depth, state)) exiting
    fun state listed => by rw [Definition.state_eq (states state listed)]; rfl]
  apply Returns.pure
  intro state listed
  obtain ⟨pair, member, rfl⟩ := List.mem_map.1 listed
  obtain ⟨state, known, rfl⟩ := List.mem_map.1 ((foldr_insertLeaving_perm _).mem_iff.1 member)
  exact states state known

/-! ### Leaving -/

namespace Reliable

variable (reliable : Reliable pledge kernel)

include reliable

theorem activeDescendant?_returns {inst : Instance}
    (states : ∀ leaf ∈ inst.activeLeaves, kernel.definition.sections.Has leaf) (deep : Bool) :
    Returns (kernel.activeDescendant? state deep inst) fun _ => True := by
  have wellFormed := reliable.sound.wellFormed
  unfold activeDescendant?
  apply (leafBelow?_returns wellFormed states).bind
  intro found below
  cases found with
  | none => exact .pure trivial
  | some leaf =>
    obtain ⟨beneath, proper⟩ := below leaf rfl
    show Returns (if _ then _ else _) _
    split
    · exact .pure trivial
    · refine (childTowards_returns wellFormed _ beneath proper ?_).bind fun _ _ => .pure trivial
      exact Nat.le_succ_of_le (Nat.le_of_lt beneath.has)

/-- Leaving a state saves its history, disarms its timer and runs its exit action. -/
theorem exitState_returns (has : kernel.definition.sections.Has state)
    (holds : Holds progress.inst.leaves active)
    (states : ∀ leaf ∈ active, kernel.definition.sections.Has leaf)
    (steady : Steady pledge kernel progress) :
    Returns (kernel.exitState state progress) (Kept pledge kernel progress) := by
  unfold exitState
  simp only [Definition.state_eq has, ok_bind]
  -- Whatever became of the history, the timer is disarmed and the action runs.
  have leaving {inst : Instance} (spares : progress.inst.Spares pledge inst) :
      Returns
        (if (kernel.definition.sections.record state).hasTimer = true then do
          let inst ← inst.setTimer (kernel.definition.sections.record state).timerSlot.toNat 0
          kernel.runAction .exit (kernel.definition.sections.record state).exitAction state
            ((progress.withInst inst).note (.exit state))
        else
          kernel.runAction .exit (kernel.definition.sections.record state).exitAction state
            ((progress.withInst inst).note (.exit state)))
        (Kept pledge kernel progress) := by
    have acting {inst : Instance} (spares : progress.inst.Spares pledge inst) :
        Returns (kernel.runAction .exit (kernel.definition.sections.record state).exitAction state
          ((progress.withInst inst).note (.exit state))) (Kept pledge kernel progress) := by
      have written : Kept pledge kernel progress (progress.withInst inst) := steady.spare rfl spares
      have noted : Kept pledge kernel progress ((progress.withInst inst).note (.exit state)) :=
        written.trans (written.steady.note nofun)
      exact (reliable.runAction_returns _ _ _ noted.steady).mono fun _ ran => noted.trans ran
    split
    · next runs =>
      have inside := reliable.timerSlot_lt steady.room has runs
      rw [← Instance.tier_eq_of_leaves spares.leaves_eq] at inside
      exact (Instance.setTimer_returns pledge inside 0).bind fun inst disarmed =>
        acting (spares.trans disarmed)
    · exact acting spares
  split
  · next remembers =>
    have slot := bne_iff_ne.1 (Bool.and_eq_true_iff.1 remembers).2
    rw [← Instance.activeLeaves_eq holds] at states
    apply (reliable.activeDescendant?_returns states _).bind
    intro saved _
    cases saved with
    | none => exact leaving (Instance.Spares.refl _ _)
    | some saved =>
      have inside := reliable.historySlot_lt steady.room has slot
      exact (Instance.setHistory_returns pledge inside saved).bind fun inst remembered =>
        leaving remembered
  · exact leaving (Instance.Spares.refl _ _)

open Classical in
/-- Leaving everything below a state takes the leaves strictly below it away. -/
theorem exitBelow_returns (holds : Holds progress.inst.leaves active)
    (states : ∀ leaf ∈ active, kernel.definition.sections.Has leaf)
    (steady : Steady pledge kernel progress) :
    Returns (kernel.exitBelow top progress) fun after => Steady pledge kernel after ∧
      Holds after.inst.leaves
        (active.filter fun leaf => kernel.definition.sections.Beside top leaf) := by
  have wellFormed := reliable.sound.wellFormed
  have few : active.length ≤ Tier.tier256.leafCapacity := by
    refine Nat.le_trans holds.length_le ?_
    rw [progress.inst.length_leaves]
    cases progress.inst.tier <;> decide
  unfold exitBelow
  simp only [Instance.activeLeaves_eq holds]
  apply (exitingBelow_returns wellFormed states few).bind
  intro exiting known
  apply (exitOrder_returns known).bind
  intro ordered inside
  have exiting : Returns
      (ordered.foldlM (fun progress state => kernel.exitState state progress) progress)
      (Kept pledge kernel progress) := by
    refine Returns.foldlM_keeps (fun state before listed kept => ?_) steady.refl
    exact (reliable.exitState_returns (inside state listed) (kept.holds holds) states
      kept.steady).mono fun _ more => kept.trans more
  apply exiting.bind
  intro after kept
  rw [Instance.activeLeaves_eq (kept.holds holds), leavesBeside_eq wellFormed states]
  refine .pure ⟨kept.steady.withActiveLeaves _, ?_⟩
  apply Instance.holds_withActiveLeaves
  · rw [← after.inst.length_leaves]
    exact Nat.le_trans (List.length_filter_le _ _) (kept.holds holds).length_le
  · intro leaf listed
    exact wellFormed.ne_noIndex (states leaf (List.mem_filter.1 listed).1)

end Reliable

end Statechart.Kernel
