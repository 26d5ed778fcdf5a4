/-
# Taking a transition keeps the configuration

A transition stays within a state that lies above both of its ends, strictly above the
target, and that is not parallel unless it is the root (`scopeOf_returns`). What is active
below that state is left, and what is entered fills one of its children, so the result is a
configuration again (`fire_returns`).

`Configured` is the invariant of a tick: the active leaves are those of a configuration,
or, where `idle` allows it, there are none.
-/

import Statechart.Proofs.Kernel.Calls
import Statechart.Proofs.Kernel.Exit
import Statechart.Proofs.Kernel.Selection

namespace Statechart.Kernel

open Rom (Definition Sections TransitionRecord noIndex rootIndex)

variable {User : Type} {pledge : Instance.Pledge} {idle : Prop} {kernel : Kernel User}
  {progress : Progress User}
  {active : List UInt16} {top state source target : UInt16}

/-- The active leaves form a configuration, or there are none where that is allowed. -/
def Settled (sections : Sections) (idle : Prop) (active : List UInt16) : Prop :=
  sections.Standing active ∨ idle ∧ active = []

/-- What holds of an instance between any two steps of a tick. -/
structure Configured (pledge : Instance.Pledge) (kernel : Kernel User) (idle : Prop)
    (progress : Progress User) : Prop where
  steady : Steady pledge kernel progress
  exists_active : ∃ active, Holds progress.inst.leaves active ∧
    Settled kernel.definition.sections idle active

/-- The state that a transition stays within. -/
inductive Confines (sections : Sections) (transition : TransitionRecord) : UInt16 → Prop
  | anywhere : transition.flags.isGlobal = true → Confines sections transition rootIndex
  | locally {meeting top : UInt16} : transition.flags.isGlobal = false →
      sections.Meets transition.source transition.target meeting → sections.Lifts meeting top →
      Confines sections transition top

theorem Settled.of_mem {sections : Sections} (wellFormed : sections.WellFormed)
    (settled : Settled sections idle active) :
    ∀ leaf ∈ active, sections.Has leaf ∧ (sections.record leaf).isLeaf = true := by
  intro leaf listed
  rcases settled with standing | ⟨_, rfl⟩
  · exact standing.of_mem wellFormed listed
  · cases listed

open Classical in
/-- What a transition leaves in place can be completed, if it stays within the root or
within an active state that is not parallel. -/
theorem Settled.vacated {sections : Sections} (wellFormed : sections.WellFormed)
    (settled : Settled sections idle active) (below : sections.Beneath top target)
    (proper : target ≠ top)
    (limits : top = rootIndex ∨ (sections.record top).flags.parallel = false ∧
      ∃ leaf ∈ active, sections.Beneath top leaf) :
    sections.Vacated top (active.filter fun leaf => sections.Beside top leaf) := by
  have inner : ¬ (sections.record top).isLeaf = true := fun childless =>
    proper (below.eq_of_isLeaf wellFormed childless)
  by_cases isRoot : top = rootIndex
  · subst isRoot
    have nothing : active.filter (fun leaf => sections.Beside rootIndex leaf) = [] := by
      apply List.filter_eq_nil_iff.2
      intro leaf listed kept
      obtain ⟨has, childless⟩ := settled.of_mem wellFormed leaf listed
      rcases of_decide_eq_true kept with same | apart
      · exact inner (same ▸ childless)
      · exact apart (wellFormed.beneath_root has)
    rw [nothing]
    exact .root
  · obtain ⟨alone, leaf, listed, beneath⟩ := limits.resolve_left isRoot
    have standing : sections.Standing active := by
      rcases settled with standing | ⟨_, rfl⟩
      · exact standing
      · cases listed
    exact standing.vacated wellFormed (Bool.eq_false_iff.2 inner) isRoot alone listed beneath rfl

namespace Configured

/-- Whatever keeps the leaf slots keeps the configuration. -/
theorem of_kept {after : Progress User} (configured : Configured pledge kernel idle progress)
    (kept : Kept pledge kernel progress after) : Configured pledge kernel idle after := by
  obtain ⟨active, holds, settled⟩ := configured.exists_active
  exact ⟨kept.steady, active, kept.holds holds, settled⟩

/-- A configuration is one, whether or not there could be none. -/
theorem weaken {wider : Prop} (configured : Configured pledge kernel idle progress)
    (allows : idle → wider) : Configured pledge kernel wider progress := by
  obtain ⟨active, holds, settled⟩ := configured.exists_active
  exact ⟨configured.steady, active, holds, settled.imp_right (And.imp_left allows)⟩

end Configured

/-! ### The state that a transition stays within -/

/-- The last state that two ways have in common is the lowest one above both of their ends. -/
theorem lastShared_lowest {sections : Sections} (wellFormed : sections.WellFormed)
    {firsts seconds : List UInt16} (has : sections.Has top)
    (first : sections.Way top firsts source) (second : sections.Way top seconds target) :
    sections.Lowest (fun shared => sections.Beneath shared source ∧ sections.Beneath shared target)
      (lastShared top firsts seconds) := by
  have here : sections.Beneath top source ∧ sections.Beneath top target :=
    ⟨first.beneath has, second.beneath has⟩
  induction first generalizing seconds with
  | here _ => cases seconds <;> exact ⟨here, fun _ common => common.1⟩
  | @down top next source path linked rest ih =>
    cases second with
    | here _ => exact ⟨here, fun _ common => common.2⟩
    | @down _ other _ others otherLinked further =>
      have below := rest.beneath linked.has
      have otherBelow := further.beneath otherLinked.has
      unfold lastShared
      split
      · next same =>
        subst same
        exact ih linked.has further ⟨below, otherBelow⟩
      · next apart =>
        refine ⟨here, fun upper common => ?_⟩
        rcases common.1.comparable here.1 with above | lower
        · exact above
        -- A common state further down would lie below both children.
        · by_cases same : upper = top
          · exact same ▸ .self lower.has
          · have one := Sections.Beneath.of_child wellFormed linked lower same below common.1
            have two :=
              Sections.Beneath.of_child wellFormed otherLinked lower same otherBelow common.2
            exact absurd (wellFormed.child_eq linked otherLinked one two) apart

theorem parentOrRoot_returns {definition : Definition} (wellFormed : definition.sections.WellFormed)
    (has : definition.sections.Has state) :
    Returns (parentOrRoot definition state) fun parent =>
      state = rootIndex ∧ parent = rootIndex ∨ definition.sections.Child parent state := by
  unfold parentOrRoot
  simp only [Definition.parent_eq has, ok_bind]
  by_cases isRoot : state = rootIndex
  · subst isRoot
    rw [if_pos wellFormed.parent_root]
    exact .pure (.inl ⟨rfl, rfl⟩)
  · obtain ⟨hasParent, linked⟩ := wellFormed.child_of_ne_root has isRoot
    rw [if_neg (wellFormed.ne_noIndex hasParent)]
    exact .pure (.inr linked)

theorem aboveParallel_returns {definition : Definition}
    (wellFormed : definition.sections.WellFormed) (steps : Nat) :
    ∀ state, definition.sections.Has state → state.toNat ≤ steps →
      Returns (aboveParallel definition steps state) (definition.sections.Lifts state) := by
  induction steps with
  | zero =>
    intro state has enough
    have isRoot : state = rootIndex := UInt16.toNat_inj.1 (Nat.le_zero.1 enough)
    rw [aboveParallel, if_pos isRoot]
    exact .pure ⟨⟨.self has, .inl isRoot⟩, fun _ above => above.1⟩
  | succ steps ih =>
    intro state has enough
    unfold aboveParallel
    split
    · next isRoot => exact .pure ⟨⟨.self has, .inl isRoot⟩, fun _ above => above.1⟩
    · next inner =>
      simp only [Definition.state_eq has, ok_bind]
      split
      · next alone =>
        exact .pure ⟨⟨.self has, .inr (Bool.not_eq_true' _ ▸ alone)⟩, fun _ above => above.1⟩
      · next parallel =>
        rw [Bool.not_eq_true', Bool.not_eq_false] at parallel
        apply (parentOrRoot_returns wellFormed has).bind
        intro parent found
        have linked := found.resolve_left fun both => inner both.1
        have earlier := wellFormed.lt_of_child linked
        apply (ih parent (wellFormed.has_of_child linked) (by omega)).mono
        intro top lifts
        refine ⟨⟨.under lifts.among.1 linked, lifts.among.2⟩, fun upper above => ?_⟩
        -- The state itself does not qualify, so what does lies above its parent.
        rcases above with ⟨beneath, qualifies⟩
        cases beneath with
        | self _ =>
          rcases qualifies with isRoot | alone
          · exact absurd isRoot inner
          · rw [parallel] at alone
            cases alone
        | under higher link =>
          rw [← link.parent_eq, linked.parent_eq] at higher
          exact lifts.beneath upper ⟨higher, qualifies⟩

theorem chainTo_eq (wellFormed : kernel.definition.sections.WellFormed)
    (has : kernel.definition.sections.Has state) :
    ∃ path, kernel.chainTo state = .ok (rootIndex :: path) ∧
      kernel.definition.sections.Way rootIndex path state := by
  obtain ⟨lead, path, found, upper, lower⟩ :=
    Definition.ancestorChain_eq wellFormed (wellFormed.beneath_root has)
  have short : lead = [] := by
    have depth := upper.depth_eq wellFormed
    exact List.eq_nil_of_length_eq_zero (by omega)
  subst short
  exact ⟨path, found, lower⟩

/-- A local transition stays within the state where its ends meet, lifted past parallel states. -/
theorem scope_lifts (wellFormed : kernel.definition.sections.WellFormed)
    (hasSource : kernel.definition.sections.Has source)
    (hasTarget : kernel.definition.sections.Has target) :
    Returns (kernel.scope source target) fun top =>
      ∃ meeting, kernel.definition.sections.Meets source target meeting ∧
        kernel.definition.sections.Lifts meeting top := by
  obtain ⟨sourcePath, sourceChain, sourceWay⟩ := chainTo_eq wellFormed hasSource
  obtain ⟨targetPath, targetChain, targetWay⟩ := chainTo_eq wellFormed hasTarget
  have shares : lastShared rootIndex (rootIndex :: sourcePath) (rootIndex :: targetPath) =
      lastShared rootIndex sourcePath targetPath := if_pos rfl
  obtain ⟨⟨aboveSource, aboveTarget⟩, lowest⟩ :=
    lastShared_lowest wellFormed wellFormed.has_root sourceWay targetWay
  unfold scope
  simp only [sourceChain, targetChain, ok_bind, shares]
  generalize lastShared rootIndex sourcePath targetPath = shared at aboveSource aboveTarget lowest
  have lifting (meeting : UInt16) (has : kernel.definition.sections.Has meeting)
      (meets : kernel.definition.sections.Meets source target meeting) :
      Returns (aboveParallel kernel.definition (kernel.definition.stateCount + 1) meeting)
        fun top => ∃ meeting, kernel.definition.sections.Meets source target meeting ∧
          kernel.definition.sections.Lifts meeting top :=
    (aboveParallel_returns wellFormed _ meeting has (Nat.le_succ_of_le (Nat.le_of_lt has))).mono
      fun top lifts => ⟨meeting, meets, lifts⟩
  split
  · next ends =>
    have isEnd : shared = source ∨ shared = target := by simpa using ends
    -- What lies strictly above both ends lies strictly above what they share.
    have higher {top : UInt16} (below : kernel.definition.sections.Below top source)
        (belowToo : kernel.definition.sections.Below top target) :
        kernel.definition.sections.Beneath top shared ∧ shared ≠ top :=
      ⟨lowest top ⟨below.1, belowToo.1⟩,
        isEnd.elim (fun same => same ▸ below.2) fun same => same ▸ belowToo.2⟩
    apply (parentOrRoot_returns wellFormed aboveSource.has_top).bind
    rintro meeting (⟨rfl, rfl⟩ | linked)
    · refine lifting rootIndex wellFormed.has_root (.nowhere fun top below belowToo => ?_)
      obtain ⟨beneath, proper⟩ := higher below belowToo
      exact proper (wellFormed.eq_root_of_beneath beneath).symm
    · have upper := wellFormed.beneath_of_child linked
      -- The ends lie below the child, and so strictly below its parent.
      have strictly {inner : UInt16} (beneath : kernel.definition.sections.Beneath shared inner) :
          kernel.definition.sections.Below meeting inner := by
        refine ⟨upper.trans beneath, ?_⟩
        rintro rfl
        exact wellFormed.child_ne linked (beneath.antisymm wellFormed upper)
      refine lifting meeting upper.has_top (.proper ⟨⟨strictly aboveSource, strictly aboveTarget⟩,
        fun top spans => ?_⟩)
      obtain ⟨beneath, proper⟩ := higher spans.1 spans.2
      cases beneath with
      | self _ => exact absurd rfl proper
      | under above link => exact linked.parent_eq ▸ link.parent_eq.symm ▸ above
  · next apart =>
    simp only [Bool.or_eq_true, decide_eq_true_eq, not_or] at apart
    exact lifting shared aboveSource.has_top (.proper ⟨⟨⟨aboveSource, Ne.symm apart.1⟩,
      aboveTarget, Ne.symm apart.2⟩, fun top spans => lowest top ⟨spans.1.1, spans.2.1⟩⟩)

/-- A transition stays within a state above both of its ends and strictly above its
target, and it leaves a parallel state as a whole. -/
theorem scope_returns (wellFormed : kernel.definition.sections.WellFormed)
    (hasSource : kernel.definition.sections.Has source)
    (hasTarget : kernel.definition.sections.Has target) (inner : target ≠ rootIndex) :
    Returns (kernel.scope source target) fun top =>
      kernel.definition.sections.Beneath top source ∧
        kernel.definition.sections.Beneath top target ∧ target ≠ top ∧
        (top = rootIndex ∨ (kernel.definition.sections.record top).flags.parallel = false) := by
  apply (scope_lifts wellFormed hasSource hasTarget).mono
  rintro top ⟨meeting, meets, ⟨above, alone⟩, -⟩
  cases meets with
  | proper lowest =>
    obtain ⟨⟨aboveSource, -⟩, aboveTarget, proper⟩ := lowest.among
    refine ⟨above.trans aboveSource, above.trans aboveTarget, ?_, alone⟩
    rintro rfl
    exact proper (above.antisymm wellFormed aboveTarget)
  | nowhere _ =>
    obtain rfl := wellFormed.eq_root_of_beneath above
    exact ⟨wellFormed.beneath_root hasSource, wellFormed.beneath_root hasTarget, inner, alone⟩

namespace Reliable

variable (reliable : Reliable pledge kernel)

include reliable

/-- The state that an enabled transition stays within lies strictly above its target. It is the
root, or else it is active and not parallel. -/
theorem scopeOf_returns {transition : TransitionRecord}
    (enabled : Enabled kernel.definition active transition)
    (external : transition.flags.isInternal = false) :
    Returns (kernel.scopeOf transition) fun top =>
      Confines kernel.definition.sections transition top ∧
        kernel.definition.sections.Below top transition.target ∧
        (top = rootIndex ∨ (kernel.definition.sections.record top).flags.parallel = false ∧
          ∃ leaf ∈ active, kernel.definition.sections.Beneath top leaf) := by
  have wellFormed := reliable.sound.wellFormed
  cases enabled with
  | anywhere listed =>
    obtain ⟨hasTarget, inner⟩ := wellFormed.target (.inr listed) external
    have everywhere := wellFormed.isGlobal listed
    rw [scopeOf, if_pos everywhere]
    exact .ok ⟨.anywhere everywhere, ⟨wellFormed.beneath_root hasTarget, inner⟩, .inl rfl⟩
  | @locally leaf listed isLocal isActive beneath =>
    obtain ⟨hasTarget, inner⟩ := wellFormed.target (.inl listed) external
    rw [scopeOf, if_neg (Bool.eq_false_iff.1 isLocal)]
    apply ((scope_returns wellFormed beneath.has_top hasTarget inner).and
      (scope_lifts wellFormed beneath.has_top hasTarget).yields).mono
    rintro top ⟨⟨aboveSource, aboveTarget, proper, limits⟩, meeting, meets, lifts⟩
    exact ⟨.locally isLocal meets lifts, ⟨aboveTarget, proper⟩, limits.imp_right fun serial =>
      ⟨serial, leaf, isActive, aboveSource.trans beneath⟩⟩

/-! ### Exchanging a part of the configuration -/

/-- Entering the way down to a target completes what a transition has left in place. -/
theorem enterBelow_returns {beside : List UInt16}
    (vacated : kernel.definition.sections.Vacated top beside)
    (beneath : kernel.definition.sections.Beneath top target) (proper : target ≠ top)
    (steady : Steady pledge kernel progress) (holds : Holds progress.inst.leaves beside) :
    Returns
      (kernel.chainTo target >>= fun chain => kernel.definition.state top >>= fun record =>
        kernel.enterPath kernel.descend (chain.drop (record.depth.toNat + 1)) progress)
      (Configured pledge kernel idle) := by
  have wellFormed := reliable.sound.wellFormed
  apply (reliable.chainTo_returns beneath).bind
  intro chain found
  simp only [Definition.state_eq beneath.has_top, ok_bind]
  generalize chain.drop _ = path at found
  cases found.2 with
  | here _ => exact absurd rfl proper
  | @down _ first _ rest linked way =>
    have room : beside.length + kernel.definition.sections.width first ≤
        kernel.definition.shape.maxLeaves :=
      calc beside.length + kernel.definition.sections.width first
          ≤ beside.length + kernel.definition.sections.width top :=
            Nat.add_le_add_left (wellFormed.width_child_le linked) _
        _ ≤ kernel.definition.sections.width rootIndex := vacated.room
        _ ≤ kernel.definition.shape.maxLeaves :=
            Rom.Sections.width_root_le wellFormed reliable.sound.shaped
    apply (reliable.enterPath_returns reliable.descend_settles way linked.has (Nat.zero_le _)
      steady holds room).mono
    intro after entered
    obtain ⟨still, filled, fills, added⟩ := entered
    exact ⟨still, _, added, .inl (vacated.refill first filled linked fills)⟩

/-- Leaving what is active below a state and entering the way down to a target below it. -/
theorem exchange_returns (transition : TransitionRecord)
    (settled : Settled kernel.definition.sections idle active)
    (beneath : kernel.definition.sections.Beneath top transition.target)
    (proper : transition.target ≠ top)
    (limits : top = rootIndex ∨ (kernel.definition.sections.record top).flags.parallel = false ∧
      ∃ leaf ∈ active, kernel.definition.sections.Beneath top leaf)
    (steady : Steady pledge kernel progress) (holds : Holds progress.inst.leaves active) :
    Returns
      (kernel.exitBelow top progress >>= fun progress =>
        kernel.runAction .effect transition.action transition.source progress >>= fun progress =>
          kernel.chainTo transition.target >>= fun chain =>
            kernel.definition.state top >>= fun record =>
              kernel.enterPath kernel.descend (chain.drop (record.depth.toNat + 1)) progress)
      (Configured pledge kernel idle) := by
  have wellFormed := reliable.sound.wellFormed
  have vacated := settled.vacated wellFormed beneath proper limits
  have states : ∀ leaf ∈ active, kernel.definition.sections.Has leaf :=
    fun leaf listed => (settled.of_mem wellFormed leaf listed).1
  apply (reliable.exitBelow_returns holds states steady).bind
  intro left leaving
  apply (reliable.runAction_returns _ _ _ leaving.1).bind
  intro acted kept
  exact reliable.enterBelow_returns vacated beneath proper kept.steady (kept.holds leaving.2)

/-- Taking a transition that is enabled keeps the configuration. -/
theorem fire_returns (event : UInt16) {transition : TransitionRecord}
    (holds : Holds progress.inst.leaves active)
    (settled : Settled kernel.definition.sections idle active)
    (enabled : Enabled kernel.definition active transition)
    (steady : Steady pledge kernel progress) :
    Returns (kernel.fire transition event progress) (Configured pledge kernel idle) := by
  have noted : Kept pledge kernel progress
      (progress.note (.transition transition.source transition.target event)) :=
    steady.note nofun
  cases kind : transition.flags.isInternal with
  | true =>
    unfold fire
    rw [kind]
    apply (reliable.runAction_returns _ _ _ noted.steady).mono
    intro after kept
    have both := noted.trans kept
    exact ⟨both.steady, active, both.holds holds, settled⟩
  | false =>
    rw [fire_of_external kernel kind]
    apply (reliable.scopeOf_returns enabled kind).bind
    rintro top ⟨-, ⟨beneath, proper⟩, limits⟩
    exact reliable.exchange_returns transition settled beneath proper limits noted.steady
      (noted.holds holds)

end Reliable

end Statechart.Kernel
