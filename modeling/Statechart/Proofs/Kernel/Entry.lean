/-
# Entering states fills them

Settling a state that was entered adds leaves behind those that are active, and the added
leaves fill the state (`Entered`). There is room for them as long as the state's width is
free; entering never asks for more.

A descent goes strictly deeper with every state that it settles, also where history names
the next one, since a state that history restores lies strictly below. So a descent takes
no more levels than states can be nested (`descendFrom_settles`), far fewer than it is
given.
-/

import Statechart.Proofs.Kernel.Steady

namespace Statechart.Kernel

open Rom (Definition Sections StateRecord noIndex rootIndex maxDepth)

variable {User : Type} {pledge : Instance.Pledge} {kernel : Kernel User} {progress : Progress User}
  {active : List UInt16} {top state : UInt16}

/-- The states of an agenda were entered: leaves that fill them were added. -/
structure Entered (pledge : Instance.Pledge) (kernel : Kernel User) (agenda active : List UInt16)
    (after : Progress User) : Prop where
  steady : Steady pledge kernel after
  exists_filled : ∃ filled, kernel.definition.sections.Fills agenda filled ∧
    Holds after.inst.leaves (active ++ filled)

/-- `settle` fills every state from some depth on, if there is room. -/
def Settles (pledge : Instance.Pledge) (kernel : Kernel User) (depth : Nat)
    (settle : UInt16 → Progress User → Except Fault (Progress User)) : Prop :=
  ∀ state progress active, kernel.definition.sections.Has state →
    depth ≤ (kernel.definition.sections.record state).depth.toNat →
    Steady pledge kernel progress → Holds progress.inst.leaves active →
    active.length + kernel.definition.sections.width state ≤ kernel.definition.shape.maxLeaves →
    Returns (settle state progress) (Entered pledge kernel [state] active)

namespace Entered

/-- Below a state that hands over to one child, it is enough to fill the child. -/
theorem serial {child : UInt16} {after : Progress User}
    (alone : (kernel.definition.sections.record state).flags.parallel = false)
    (linked : kernel.definition.sections.Child state child)
    (entered : Entered pledge kernel [child] active after) :
    Entered pledge kernel [state] active after := by
  obtain ⟨steady, filled, fills, holds⟩ := entered
  exact ⟨steady, filled, .serial alone linked fills, holds⟩

/-- Below a parallel state all children have to be filled. -/
theorem parallel {after : Progress User} (has : kernel.definition.sections.Has state)
    (inner : (kernel.definition.sections.record state).isLeaf = false)
    (parallel : (kernel.definition.sections.record state).flags.parallel = true)
    (entered : Entered pledge kernel (kernel.definition.sections.record state).children.words
      active after) : Entered pledge kernel [state] active after := by
  obtain ⟨steady, filled, fills, holds⟩ := entered
  refine ⟨steady, filled, .parallel has inner parallel ?_, holds⟩
  rwa [List.append_nil]

/-- States are entered one after the other. -/
theorem foldlM (step : Progress User → UInt16 → Except Fault (Progress User))
    (wellFormed : kernel.definition.sections.WellFormed) {agenda : List UInt16}
    (each : ∀ state ∈ agenda, ∀ progress active, Steady pledge kernel progress →
      Holds progress.inst.leaves active →
      active.length + kernel.definition.sections.width state ≤
        kernel.definition.shape.maxLeaves →
      Returns (step progress state) (Entered pledge kernel [state] active))
    (steady : Steady pledge kernel progress) (holds : Holds progress.inst.leaves active)
    (room : active.length + (agenda.map kernel.definition.sections.width).sum ≤
      kernel.definition.shape.maxLeaves) :
    Returns (agenda.foldlM step progress) (Entered pledge kernel agenda active) := by
  induction agenda generalizing progress active with
  | nil => exact .pure ⟨steady, [], .nil, (List.append_nil active).symm ▸ holds⟩
  | cons state rest ih =>
    rw [List.map_cons, List.sum_cons] at room
    rw [List.foldlM_cons]
    have first := each state (List.mem_cons_self ..) progress active steady holds (by omega)
    apply first.bind
    intro after entered
    obtain ⟨still, filled, fills, added⟩ := entered
    have narrow := fills.length_le wellFormed
    rw [List.map_singleton, List.sum_singleton] at narrow
    have others := ih (fun state later => each state (List.mem_cons_of_mem _ later)) still added
      (by rw [List.length_append]; omega)
    apply others.mono
    intro last entered
    obtain ⟨steady, more, fillsRest, addedRest⟩ := entered
    rw [List.append_assoc] at addedRest
    exact ⟨steady, filled ++ more, fills.append fillsRest, addedRest⟩

/-- Entering the children of a parallel state one after the other fills it. -/
theorem regions {step : Progress User → UInt16 → Except Fault (Progress User)}
    (wellFormed : kernel.definition.sections.WellFormed)
    (has : kernel.definition.sections.Has state)
    (inner : (kernel.definition.sections.record state).isLeaf = false)
    (parallel : (kernel.definition.sections.record state).flags.parallel = true)
    (each : ∀ child, kernel.definition.sections.Child state child → ∀ progress active,
      Steady pledge kernel progress → Holds progress.inst.leaves active →
      active.length + kernel.definition.sections.width child ≤
        kernel.definition.shape.maxLeaves →
      Returns (step progress child) (Entered pledge kernel [child] active))
    (steady : Steady pledge kernel progress) (holds : Holds progress.inst.leaves active)
    (room : active.length + kernel.definition.sections.width state ≤
      kernel.definition.shape.maxLeaves) :
    Returns ((kernel.definition.sections.record state).children.words.foldlM step progress)
      (Entered pledge kernel [state] active) := by
  rw [wellFormed.width_parallel has inner parallel] at room
  have entering := foldlM step wellFormed
    (fun child own => each child ((wellFormed.mem_words has).1 own)) steady holds room
  exact entering.mono fun _ entered => entered.parallel has inner parallel

end Entered

namespace Reliable

variable (reliable : Reliable pledge kernel)

include reliable

/-! ### One state -/

theorem timerSlot_lt {tier : Tier} (room : kernel.definition.tier ≤ tier)
    (has : kernel.definition.sections.Has state)
    (runs : (kernel.definition.sections.record state).hasTimer = true) :
    (kernel.definition.sections.record state).timerSlot.toNat < tier.timerCapacity :=
  Nat.lt_of_lt_of_le (Rom.Sections.timerSlot_lt reliable.sound.shaped has runs)
    (reliable.sound.modest.fits room).timers

theorem historySlot_lt {tier : Tier} (room : kernel.definition.tier ≤ tier)
    (has : kernel.definition.sections.Has state)
    (some : (kernel.definition.sections.record state).historySlot ≠ noIndex) :
    (kernel.definition.sections.record state).historySlot.toNat < tier.historyCapacity :=
  Nat.lt_of_lt_of_le (Rom.Sections.historySlot_lt reliable.sound.shaped has some)
    (reliable.sound.modest.fits room).histories

theorem armTimer_returns (has : kernel.definition.sections.Has state)
    (steady : Steady pledge kernel progress) :
    Returns (armTimer state (kernel.definition.sections.record state) progress)
      (Kept pledge kernel progress) := by
  unfold armTimer
  split
  · next runs =>
    have inside := reliable.timerSlot_lt steady.room has runs
    apply (Instance.setTimer_returns pledge inside _).bind
    intro inst spares
    apply Returns.pure
    have written : Kept pledge kernel progress (progress.withInst inst) := steady.spare rfl spares
    exact written.trans (written.steady.note nofun)
  · exact .ok steady.refl

theorem enterState_returns (has : kernel.definition.sections.Has state)
    (steady : Steady pledge kernel progress) :
    Returns (kernel.enterState state progress) (Kept pledge kernel progress) := by
  unfold enterState
  simp only [Definition.state_eq has, ok_bind]
  have noted : Kept pledge kernel progress (progress.note (.enter state)) := steady.note nofun
  apply (reliable.armTimer_returns has noted.steady).bind
  intro armed kept
  exact (reliable.runAction_returns _ _ _ kept.steady).mono fun _ ran =>
    noted.trans (kept.trans ran)

/-- A leaf for which there is room gets a slot. -/
theorem addLeaf_returns (has : kernel.definition.sections.Has state)
    (childless : (kernel.definition.sections.record state).isLeaf = true)
    (steady : Steady pledge kernel progress) (holds : Holds progress.inst.leaves active)
    (room : active.length + kernel.definition.sections.width state ≤
      kernel.definition.shape.maxLeaves) :
    Returns (addLeaf state progress) (Entered pledge kernel [state] active) := by
  have wellFormed := reliable.sound.wellFormed
  rw [wellFormed.width_leaf has childless] at room
  have free : active.length < progress.inst.leaves.length :=
    Nat.lt_of_lt_of_le room (progress.inst.length_leaves.symm ▸
      (reliable.sound.modest.fits steady.room).leaves)
  unfold addLeaf Instance.setLeaf
  rw [holds.findIdx?_eq free]
  simp only [if_pos free]
  refine .ok ⟨⟨steady.room, ?_, steady.pledged, steady.untraced⟩, [state],
    .leaf has childless .nil, holds.set free (wellFormed.ne_noIndex has)⟩
  exact steady.queueSound.of_ring_eq rfl

/-! ### Where a descent goes on -/

theorem child_defaultChild (has : kernel.definition.sections.Has state)
    (inner : (kernel.definition.sections.record state).isLeaf = false)
    (alone : (kernel.definition.sections.record state).flags.parallel = false) :
    kernel.definition.sections.Child state
      (defaultChild (kernel.definition.sections.record state)) := by
  have wellFormed := reliable.sound.wellFormed
  have named := wellFormed.initialChild_ne_noIndex has inner alone
  rw [defaultChild, if_neg named]
  refine (wellFormed.mem_words has).1 (List.mem_map.2 ⟨_, ?_, UInt16.ofNat_toNat⟩)
  exact wellFormed.initialChild_mem has named

/-- What history restores lies strictly below the state, and right below it unless the
history is deep. -/
theorem restorable?_returns {inst : Instance} (has : kernel.definition.sections.Has state)
    (room : kernel.definition.tier ≤ inst.tier) :
    Returns (kernel.restorable? state (kernel.definition.sections.record state) inst)
      fun saved => ∀ found, saved = some found →
        kernel.definition.sections.Beneath state found ∧ found ≠ state ∧
          ((kernel.definition.sections.record state).flags.deepHistory = false →
            kernel.definition.sections.Child state found) := by
  have wellFormed := reliable.sound.wellFormed
  unfold restorable?
  split
  · exact .pure nofun
  · next some =>
    have slot : (kernel.definition.sections.record state).historySlot ≠ noIndex := fun absent =>
      some (by simp [absent])
    apply (Instance.historyAt_returns (reliable.historySlot_lt room has slot)).bind
    intro saved _
    split
    · exact .pure nofun
    · next admitted =>
      simp only [Bool.or_eq_true, decide_eq_true_eq, not_or] at admitted
      obtain ⟨⟨_, other⟩, inside⟩ := admitted
      have savedHas : kernel.definition.sections.Has saved := Nat.lt_of_not_le inside
      apply (Definition.isAncestorOrSelf_returns wellFormed (.inl savedHas)).bind
      intro below decided
      cases below with
      | false => exact .pure nofun
      | true =>
        have beneath := decided.1 rfl
        simp only [Bool.not_true, Bool.false_eq_true, if_false]
        split
        · next deep =>
          apply Returns.pure
          intro found same
          obtain rfl := Option.some.inj same
          exact ⟨beneath, other, fun shallow => absurd (deep.symm.trans shallow) (by decide)⟩
        · rw [Definition.parent_eq savedHas]
          apply Returns.pure
          intro found same
          split at same
          · next direct =>
            obtain rfl := Option.some.inj same
            have inner : saved ≠ rootIndex := by
              rintro rfl
              exact other (wellFormed.eq_root_of_beneath beneath).symm
            exact ⟨beneath, other, fun _ => ⟨savedHas, inner, direct⟩⟩
          · cases same

/-- The chain of a state leads down to it from each of its ancestors. -/
theorem chainTo_returns (beneath : kernel.definition.sections.Beneath top state) :
    Returns (kernel.chainTo state) fun chain =>
      (kernel.definition.sections.record top).depth.toNat < chain.length ∧
        kernel.definition.sections.Way top
          (chain.drop ((kernel.definition.sections.record top).depth.toNat + 1)) state := by
  have wellFormed := reliable.sound.wellFormed
  obtain ⟨lead, path, found, upper, lower⟩ := Definition.ancestorChain_eq wellFormed beneath
  have depth : (kernel.definition.sections.record top).depth.toNat = lead.length := by
    rw [upper.depth_eq wellFormed, wellFormed.depth_root, UInt8.toNat_zero, Nat.zero_add]
  refine ⟨_, found, ?_, ?_⟩
  · rw [depth, List.length_cons, List.length_append]
    omega
  · rw [depth, List.drop_succ_cons, List.drop_left]
    exact lower

theorem restoredPath_returns (beneath : kernel.definition.sections.Beneath top state) :
    Returns (kernel.restoredPath (kernel.definition.sections.record top).depth state) fun path =>
      kernel.definition.sections.Way top path state := by
  apply (reliable.chainTo_returns beneath).bind
  intro chain found
  rw [if_neg (Nat.not_le.2 found.1)]
  exact .pure found.2

/-! ### Paths and descents -/

/-- Entering a state and settling it fills it. -/
theorem enter_settles {depth : Nat}
    {settle : UInt16 → Progress User → Except Fault (Progress User)}
    (settles : Settles pledge kernel depth settle) :
    Settles pledge kernel depth fun state progress =>
      kernel.enterState state progress >>= settle state := by
  intro state progress active has deep steady holds room
  apply (reliable.enterState_returns has steady).bind
  intro after kept
  exact settles state after active has deep kept.steady (kept.holds holds) room

/-- Entering a path fills its first state. -/
theorem enterPath_returns {depth : Nat}
    {settle : UInt16 → Progress User → Except Fault (Progress User)}
    (settles : Settles pledge kernel depth settle) {first target : UInt16} {rest : List UInt16}
    (way : kernel.definition.sections.Way first rest target)
    (has : kernel.definition.sections.Has first)
    (deep : depth ≤ (kernel.definition.sections.record first).depth.toNat)
    (steady : Steady pledge kernel progress) (holds : Holds progress.inst.leaves active)
    (room : active.length + kernel.definition.sections.width first ≤
      kernel.definition.shape.maxLeaves) :
    Returns (kernel.enterPath settle (first :: rest) progress)
      (Entered pledge kernel [first] active) := by
  have wellFormed := reliable.sound.wellFormed
  induction way generalizing progress active with
  | @here first _ =>
    unfold enterPath
    exact reliable.enter_settles settles first progress active has deep steady holds room
  | @down first next target rest linked _ ih =>
    have deeper := wellFormed.depth_child linked
    have onward {progress : Progress User} {active : List UInt16}
        (steady : Steady pledge kernel progress) (holds : Holds progress.inst.leaves active)
        (room : active.length + kernel.definition.sections.width next ≤
          kernel.definition.shape.maxLeaves) :
        Returns (kernel.enterPath settle (next :: rest) progress)
          (Entered pledge kernel [next] active) :=
      ih linked.has (by omega) steady holds room
    unfold enterPath
    apply (reliable.enterState_returns has steady).bind
    intro after kept
    simp only [Definition.state_eq has, ok_bind]
    split
    · next parallel =>
      apply Entered.regions wellFormed has (wellFormed.inner_of_child linked) parallel _ kept.steady
        (kept.holds holds) room
      -- The child on the path is entered as the path says, the others by default.
      intro child childLinked progress active steady holds room
      show Returns (if _ then _ else _) _
      split
      · next same =>
        subst same
        exact onward steady holds room
      · have childDeeper := wellFormed.depth_child childLinked
        exact reliable.enter_settles settles child progress active childLinked.has (by omega)
          steady holds room
    · next alone =>
      have narrower := wellFormed.width_child_le linked
      exact (onward kept.steady (kept.holds holds) (by omega)).mono fun _ entered =>
        entered.serial (Bool.eq_false_iff.2 alone) linked

/-- A descent with as many levels as there are depths left fills every state. -/
theorem descendFrom_settles (levels : Nat) {depth : Nat} (enough : maxDepth < depth + levels) :
    Settles pledge kernel depth (kernel.descendFrom levels) := by
  have wellFormed := reliable.sound.wellFormed
  induction levels generalizing depth with
  | zero =>
    intro state progress active has deep
    have shallow := wellFormed.depth_le has
    omega
  | succ levels ih =>
    intro state progress active has deep steady holds room
    have settles : Settles pledge kernel
        ((kernel.definition.sections.record state).depth.toNat + 1) (kernel.descendFrom levels) :=
      ih (by omega)
    -- A child that is entered is settled by the same descent, one level further down.
    have entering {child : UInt16} {progress : Progress User} {active : List UInt16}
        (linked : kernel.definition.sections.Child state child)
        (steady : Steady pledge kernel progress) (holds : Holds progress.inst.leaves active)
        (room : active.length + kernel.definition.sections.width child ≤
          kernel.definition.shape.maxLeaves) :
        Returns (kernel.enterState child progress >>= kernel.descendFrom levels child)
          (Entered pledge kernel [child] active) := by
      have deeper := Nat.le_of_eq (wellFormed.depth_child linked).symm
      exact reliable.enter_settles settles child progress active linked.has deeper steady holds
        room
    unfold descendFrom
    simp only [Definition.state_eq has, ok_bind]
    split
    · next childless => exact reliable.addLeaf_returns has childless steady holds room
    · next branching =>
      have inner := Bool.eq_false_iff.2 branching
      split
      · next parallel =>
        apply Entered.regions wellFormed has inner parallel _ steady holds room
        intro child linked progress active
        exact entering linked
      · next serial =>
        have alone := Bool.eq_false_iff.2 serial
        have entered {child : UInt16} (linked : kernel.definition.sections.Child state child) :
            Returns (kernel.enterState child progress >>= kernel.descendFrom levels child)
              (Entered pledge kernel [state] active) := by
          have narrower := wellFormed.width_child_le linked
          exact (entering linked steady holds (by omega)).mono fun _ entered =>
            entered.serial alone linked
        apply (reliable.restorable?_returns has steady.room).bind
        intro saved restores
        cases saved with
        | none => exact entered (reliable.child_defaultChild has inner alone)
        | some saved =>
          obtain ⟨beneath, proper, direct⟩ := restores saved rfl
          show Returns (if _ then _ else _) _
          split
          · apply (reliable.restoredPath_returns beneath).bind
            intro path way
            cases way with
            | here _ => exact absurd rfl proper
            | down linked rest =>
              have narrower := wellFormed.width_child_le linked
              have deeper := wellFormed.depth_child linked
              exact (reliable.enterPath_returns settles rest linked.has (by omega) steady holds
                (by omega)).mono fun _ entered => entered.serial alone linked
          · next shallow => exact entered (direct (Bool.eq_false_iff.2 shallow))

/-- Settling a state fills it. -/
theorem descend_settles : Settles pledge kernel 0 kernel.descend :=
  reliable.descendFrom_settles maxLevels (by decide)

/-- Where nothing is active, there is room for all that settling the root adds. -/
theorem descend_root_settles (steady : Steady pledge kernel progress)
    (vacant : Holds progress.inst.leaves []) :
    Returns (kernel.descend rootIndex progress) (Entered pledge kernel [rootIndex] []) := by
  have wellFormed := reliable.sound.wellFormed
  have room : ([] : List UInt16).length + kernel.definition.sections.width rootIndex ≤
      kernel.definition.shape.maxLeaves := by
    rw [List.length_nil, Nat.zero_add]
    exact Rom.Sections.width_root_le wellFormed reliable.sound.shaped
  exact reliable.descend_settles rootIndex _ [] wellFormed.has_root (Nat.zero_le _) steady vacant
    room

end Reliable

end Statechart.Kernel
