/-
# Entering opens what is above the new leaves

Settling a state that was entered adds leaves at or below it, and enters exactly the states
that lie above them and were not active before (`Opened`). Every state is entered in order:
below an active state or the root, and beside active siblings only if their parent is
parallel. This does not depend on how the descent finds its way down; it only needs that
nothing below the state was active (`Clear`).

The leaves are added behind those that were active, unless one of them finds no slot, which
is noted (`Seated`).
-/

import Statechart.Proofs.Instance.Slots
import Statechart.Proofs.Kernel.Entry
import Statechart.Proofs.Kernel.Quiet
import Statechart.Proofs.Rom.Legal

namespace Statechart

open Rom (Sections noIndex rootIndex)

/-! ### Where states may be entered -/

namespace Stays

variable {sections : Sections} {stays : Stays} {top state child : UInt16}

/-- A state is active or the root, and nothing below it is active. -/
structure Clear (sections : Sections) (stays : Stays) (state : UInt16) : Prop where
  nested : Nested sections stays
  standing : state = rootIndex ∨ stays.Open state
  closed : ∀ inner, sections.Beneath state inner → inner ≠ state → ¬ stays.Open inner

/-- A state may be entered, and nothing below it is active. -/
structure Unopened (sections : Sections) (stays : Stays) (state : UInt16) : Prop where
  nested : Nested sections stays
  enterable : Enterable sections stays state
  closed : ∀ inner, sections.Beneath state inner → ¬ stays.Open inner

/-- A child of an active state may be entered, unless that makes it one too many. -/
theorem Unopened.of_child (nested : Nested sections stays)
    (standing : top = rootIndex ∨ stays.Open top) (linked : sections.Child top child)
    (closed : ∀ inner, sections.Beneath child inner → ¬ stays.Open inner)
    (alone : (sections.record top).flags.parallel = false →
      ∀ sibling, sections.Child top sibling → ¬ stays.Open sibling) :
    Unopened sections stays child := by
  have parent := linked.parent_eq
  refine ⟨nested, ⟨linked.has, linked.ne_root, closed child (.self linked.has), ?_, ?_⟩, closed⟩
  · rwa [parent]
  · rwa [parent]

/-- A state that was just entered has nothing active below it. -/
theorem Unopened.clear (unopened : Unopened sections stays state) :
    Clear sections (stays.step (.enter state)) state where
  nested := unopened.nested.enter unopened.enterable
  standing := .inr (open_enter.2 (.inr rfl))
  closed inner beneath proper isOpen :=
    (open_enter.1 isOpen).elim (unopened.closed inner beneath) proper

namespace Clear

/-- Below a state without active children, any child may be the first. -/
theorem unopened (clear : Clear sections stays state) (wellFormed : sections.WellFormed)
    (linked : sections.Child state child) : Unopened sections stays child := by
  have upper := wellFormed.beneath_of_child linked
  refine .of_child clear.nested clear.standing linked ?_ ?_
  · intro inner beneath
    refine clear.closed inner (upper.trans beneath) fun same => ?_
    have above : sections.Beneath child state := same ▸ beneath
    exact wellFormed.child_ne linked (above.antisymm wellFormed upper)
  · intro _ sibling other
    exact clear.closed sibling (wellFormed.beneath_of_child other) (wellFormed.child_ne other)

end Clear

end Stays

namespace Kernel

open Stays (Clear Unopened Nested)
open Rom (Definition StateRecord maxDepth)

variable {User : Type} {pledge : Instance.Pledge} {kernel : Kernel User} {start : Stays}
  {progress before middle after : Progress User} {active : List UInt16} {top state child : UInt16}

/-! ### Leaf slots -/

/-- The slots hold the active leaves, unless a leaf found no slot. -/
def Seated (active : List UInt16) (progress : Progress User) : Prop :=
  (∃ state, .leafOverflow state ∈ progress.trace) ∨ Holds progress.inst.leaves active

/-- What was traced stays in the trace. -/
theorem Leads.mem_trace (leads : Leads kernel start before after) {entry : Trace.Entry}
    (traced : entry ∈ before.trace) : entry ∈ after.trace := by
  obtain ⟨more, grows, _⟩ := (leads.path .completion).extends
  rw [← Array.mem_toList_iff] at traced ⊢
  rw [grows]
  exact List.mem_append_left _ traced

/-- Active states stay nested. -/
theorem Leads.nested (leads : Leads kernel start before after)
    (nested : Nested kernel.definition.sections (before.stays start)) :
    Nested kernel.definition.sections (after.stays start) := by
  obtain ⟨more, grows, orderly⟩ := (leads.path .completion).extends
  rw [Progress.stays, grows, Stays.replay_append]
  exact nested.replay orderly

theorem Seated.of_leads (seated : Seated active before) (leads : Leads kernel start before after)
    (same : after.inst.leaves = before.inst.leaves) : Seated active after :=
  seated.imp (fun noted => noted.imp fun _ => leads.mem_trace) fun holds => same.symm ▸ holds

/-! ### What entering opens -/

/-- A state was entered, and no other. -/
structure Admitted (kernel : Kernel User) (start : Stays) (state : UInt16)
    (before after : Progress User) : Prop extends Leads kernel start before after where
  leaves_eq : after.inst.leaves = before.inst.leaves
  stays_eq : after.stays start = (before.stays start).step (.enter state)

/-- Leaves were added at or below some states, at least one for each of these, and what is
above them was entered. -/
structure Opened (kernel : Kernel User) (start : Stays) (tops : List UInt16)
    (before after : Progress User) : Prop extends Leads kernel start before after where
  exists_added : ∃ added,
    (∀ leaf ∈ added, ∃ top ∈ tops, kernel.definition.sections.Beneath top leaf) ∧
    (∀ top ∈ tops, kernel.definition.sections.Active added top) ∧
    (∀ state, (after.stays start).Open state ↔ (before.stays start).Open state ∨
      state ≠ rootIndex ∧ kernel.definition.sections.Active added state) ∧
    ∀ active, Seated active before → Seated (active ++ added) after

/-- `settle` opens what it adds leaves for below a state. -/
def Opens (kernel : Kernel User) (start : Stays)
    (settle : UInt16 → Progress User → Except Fault (Progress User)) : Prop :=
  ∀ state progress, kernel.definition.sections.Has state → progress.inst.QueueSound →
    Clear kernel.definition.sections (progress.stays start) state →
    Yields (settle state progress) (Opened kernel start [state] progress)

namespace Opened

theorem nil (sound : progress.inst.QueueSound) : Opened kernel start [] progress progress where
  toLeads := .refl sound
  exists_added := by
    refine ⟨[], nofun, nofun, fun state => ?_, fun active seated => ?_⟩
    · exact (or_iff_left fun opened => opened.2.elim fun _ found => nomatch found.1).symm
    · rwa [List.append_nil]

theorem append {tops others : List UInt16} (first : Opened kernel start tops before middle)
    (second : Opened kernel start others middle after) :
    Opened kernel start (tops ++ others) before after := by
  obtain ⟨leads, added, below, reached, opens, seats⟩ := first
  obtain ⟨leadsOn, more, belowOn, reachedOn, opensOn, seatsOn⟩ := second
  refine ⟨leads.trans leadsOn, added ++ more, ?_, ?_, ?_, ?_⟩
  · intro leaf listed
    rcases List.mem_append.1 listed with earlier | later
    · exact (below leaf earlier).imp fun top found => ⟨List.mem_append_left _ found.1, found.2⟩
    · exact (belowOn leaf later).imp fun top found => ⟨List.mem_append_right _ found.1, found.2⟩
  · intro top listed
    rcases List.mem_append.1 listed with earlier | later
    · exact Sections.active_append.2 (.inl (reached top earlier))
    · exact Sections.active_append.2 (.inr (reachedOn top later))
  · intro state
    rw [opensOn, opens, Sections.active_append, and_or_left, or_assoc]
  · intro active seated
    rw [← List.append_assoc]
    exact seatsOn _ (seats active seated)

/-- Leaves below a child are leaves below its parent. -/
theorem lift {tops : List UInt16} (wellFormed : kernel.definition.sections.WellFormed)
    (opened : Opened kernel start tops before after) (some : tops ≠ [])
    (linked : ∀ child ∈ tops, kernel.definition.sections.Child state child) :
    Opened kernel start [state] before after := by
  obtain ⟨leads, added, below, reached, opens, seats⟩ := opened
  refine ⟨leads, added, ?_, ?_, opens, seats⟩
  · intro leaf listed
    obtain ⟨child, own, beneath⟩ := below leaf listed
    have upper := wellFormed.beneath_of_child (linked child own)
    exact ⟨state, List.mem_singleton.2 rfl, upper.trans beneath⟩
  · intro top only
    obtain rfl := List.mem_singleton.1 only
    obtain ⟨child, own⟩ := List.exists_mem_of_ne_nil _ some
    have upper := wellFormed.beneath_of_child (linked child own)
    exact (reached child own).imp fun leaf found => ⟨found.1, upper.trans found.2⟩

/-- Entering a state and then settling it opens the state, too. -/
theorem enter (inner : state ≠ rootIndex) (admitted : Admitted kernel start state before middle)
    (opened : Opened kernel start [state] middle after) :
    Opened kernel start [state] before after := by
  obtain ⟨leads, added, below, reached, opens, seats⟩ := opened
  refine ⟨admitted.toLeads.trans leads, added, below, reached, ?_, ?_⟩
  · intro other
    have itself : other = state → other ≠ rootIndex ∧
        kernel.definition.sections.Active added other := by
      rintro rfl
      exact ⟨inner, reached other (List.mem_singleton.2 rfl)⟩
    rw [opens, admitted.stays_eq, Stays.open_enter, or_assoc, or_iff_right_of_imp itself]
  · intro active seated
    exact seats active (seated.of_leads admitted.toLeads admitted.leaves_eq)

/-- The states that were opened are active. -/
theorem isOpen {tops : List UInt16} (opened : Opened kernel start tops before after)
    (listed : top ∈ tops) (inner : top ≠ rootIndex) : (after.stays start).Open top := by
  obtain ⟨-, added, -, reached, opens, -⟩ := opened
  exact (opens top).2 (.inr ⟨inner, reached top listed⟩)

/-- What was active stays active. -/
theorem keeps {tops : List UInt16} (opened : Opened kernel start tops before after)
    (early : (before.stays start).Open state) : (after.stays start).Open state := by
  obtain ⟨-, _, -, -, opens, -⟩ := opened
  exact (opens state).2 (.inl early)

/-- What is not below the states that were opened is as it was. -/
theorem open_iff_of_beside (wellFormed : kernel.definition.sections.WellFormed)
    {tops : List UInt16} (opened : Opened kernel start tops before after)
    (linked : ∀ child ∈ tops, kernel.definition.sections.Child state child)
    (other : kernel.definition.sections.Child state child) (apart : child ∉ tops) {inner : UInt16}
    (beneath : kernel.definition.sections.Beneath child inner) :
    (after.stays start).Open inner ↔ (before.stays start).Open inner := by
  refine ⟨fun isOpen => ?_, opened.keeps⟩
  obtain ⟨-, added, below, -, opens, -⟩ := opened
  refine ((opens inner).1 isOpen).resolve_right ?_
  rintro ⟨-, leaf, listed, met⟩
  obtain ⟨sibling, own, upper⟩ := below leaf listed
  have same := wellFormed.child_eq other (linked sibling own) (beneath.trans met) upper
  exact apart (same ▸ own)

end Opened

/-- While some children of a parallel state were opened, the others may still be entered. -/
theorem Opened.unopened (wellFormed : kernel.definition.sections.WellFormed) {tops : List UInt16}
    (opened : Opened kernel start tops before after)
    (parallel : (kernel.definition.sections.record state).flags.parallel = true)
    (clear : Clear kernel.definition.sections (before.stays start) state)
    (own : ∀ child ∈ tops, kernel.definition.sections.Child state child)
    (linked : kernel.definition.sections.Child state child) (fresh : child ∉ tops) :
    Unopened kernel.definition.sections (after.stays start) child := by
  refine .of_child (opened.nested clear.nested) ?_ linked ?_ ?_
  · exact clear.standing.imp_right opened.keeps
  · intro inner beneath
    rw [opened.open_iff_of_beside wellFormed own linked fresh beneath]
    exact (clear.unopened wellFormed linked).closed inner beneath
  · intro serial
    rw [parallel] at serial
    cases serial

section

variable {step : Progress User → UInt16 → Except Fault (Progress User)}
  (wellFormed : kernel.definition.sections.WellFormed) (has : kernel.definition.sections.Has state)
  (parallel : (kernel.definition.sections.record state).flags.parallel = true)
  (each : ∀ child, kernel.definition.sections.Child state child → ∀ progress : Progress User,
    progress.inst.QueueSound →
    Unopened kernel.definition.sections (progress.stays start) child →
    Yields (step progress child) (Opened kernel start [child] progress))

include wellFormed has parallel each

/-- Entering some children of a parallel state one after the other, when those before them were
opened already. -/
theorem regions_open_from {earlier more later : List UInt16}
    (cut : (kernel.definition.sections.record state).children.words = earlier ++ (more ++ later))
    (clear : Clear kernel.definition.sections (before.stays start) state)
    (opened : Opened kernel start earlier before progress) :
    Yields (more.foldlM step progress) (Opened kernel start more progress) := by
  induction more generalizing earlier progress with
  | nil => exact .ok (.nil opened.queueSound)
  | cons child more ih =>
    have linked {sibling : UInt16} (listed : sibling ∈ earlier ++ (child :: more ++ later)) :
        kernel.definition.sections.Child state sibling :=
      (wellFormed.mem_words has).1 (cut ▸ listed)
    have apart := wellFormed.nodup_words has
    rw [cut, List.nodup_append] at apart
    have fresh : child ∉ earlier := fun again =>
      apart.2.2 child again child (List.mem_cons_self ..) rfl
    have next := linked (List.mem_append_right _ (List.mem_cons_self ..))
    have unopened := opened.unopened wellFormed parallel clear
      (fun sibling listed => linked (List.mem_append_left _ listed)) next fresh
    rw [List.foldlM_cons]
    apply (each child next progress opened.queueSound unopened).bind
    intro middle first
    have cutOn : (kernel.definition.sections.record state).children.words =
        (earlier ++ [child]) ++ (more ++ later) := by
      rw [cut, List.append_assoc]
      rfl
    exact (ih cutOn (opened.append first)).mono fun after rest => first.append rest

/-- Entering the children of a parallel state one after the other. -/
theorem regions_open (inner : (kernel.definition.sections.record state).isLeaf = false)
    (sound : progress.inst.QueueSound)
    (clear : Clear kernel.definition.sections (progress.stays start) state) :
    Yields ((kernel.definition.sections.record state).children.words.foldlM step progress)
      (Opened kernel start [state] progress) := by
  have some : (kernel.definition.sections.record state).children.words ≠ [] := fun none =>
    Bool.eq_false_iff.1 inner (wellFormed.isLeaf_iff.2 none)
  have entering : Yields
      ((kernel.definition.sections.record state).children.words.foldlM step progress)
      (Opened kernel start (kernel.definition.sections.record state).children.words progress) :=
    regions_open_from wellFormed has parallel each (List.append_nil _).symm clear (.nil sound)
  exact entering.mono fun after opened =>
    opened.lift wellFormed some fun child => (wellFormed.mem_words has).1

end

namespace Reliable

variable (reliable : Reliable pledge kernel)

include reliable

/-! ### One state -/

theorem enterState_admits (sound : progress.inst.QueueSound)
    (enterable : (progress.stays start).Enterable kernel.definition.sections state) :
    Yields (kernel.enterState state progress) (Admitted kernel start state progress) := by
  unfold enterState
  simp only [Definition.state_eq enterable.has, ok_bind]
  have arming : Yields
      (armTimer state (kernel.definition.sections.record state) (progress.note (.enter state)))
      (Admitted kernel start state progress) := by
    refine ⟨fun after armed => ?_⟩
    have step (event : Event) : Step kernel start ⟨event, progress⟩ ⟨event, after⟩ :=
      .entered enterable armed
    rcases (armTimer_yields _ _ _).of_eq _ armed with ⟨_, rfl⟩ | ⟨_, inst, written, rfl⟩
    · exact ⟨.step step sound, rfl, Progress.stays_note _ _⟩
    · obtain ⟨_, rfl⟩ := (Instance.setTimer_yields _).of_eq _ written
      refine ⟨.step step (sound.of_ring_eq rfl), rfl, ?_⟩
      rw [Progress.stays_note]
      exact Progress.stays_note _ _
  apply arming.bind
  intro armed admitted
  have other : Trace.Cause.entry ≠ .timer := by decide
  apply (reliable.runAction_quiet other _ _ admitted.queueSound).mono
  intro after quiet
  exact ⟨admitted.toLeads.trans quiet.toLeads, quiet.leaves_eq.trans admitted.leaves_eq,
    quiet.stays_eq.trans admitted.stays_eq⟩

theorem addLeaf_opens (has : kernel.definition.sections.Has state)
    (sound : progress.inst.QueueSound)
    (clear : Clear kernel.definition.sections (progress.stays start) state) :
    Yields (addLeaf state progress) (Opened kernel start [state] progress) := by
  have wellFormed := reliable.sound.wellFormed
  have itself : kernel.definition.sections.Active [state] state :=
    ⟨state, List.mem_singleton.2 rfl, .self has⟩
  -- No state is entered: all that is above the leaf is active already.
  have opens (after : Progress User) (same : after.stays start = progress.stays start)
      (other : UInt16) : (after.stays start).Open other ↔ (progress.stays start).Open other ∨
        other ≠ rootIndex ∧ kernel.definition.sections.Active [state] other := by
    rw [same]
    refine (or_iff_left_of_imp ?_).symm
    rintro ⟨inner, leaf, only, beneath⟩
    obtain rfl := List.mem_singleton.1 only
    rcases clear.standing with rfl | isOpen
    · exact absurd (wellFormed.eq_root_of_beneath beneath) inner
    · exact clear.nested.open_of_beneath beneath isOpen inner
  refine ⟨fun after added => ?_⟩
  have step (event : Event) : Step kernel start ⟨event, progress⟩ ⟨event, after⟩ := .seated added
  have below : ∀ leaf ∈ [state], ∃ top ∈ [state], kernel.definition.sections.Beneath top leaf :=
    fun leaf only => ⟨leaf, only, .self (List.mem_singleton.1 only ▸ has)⟩
  have reached : ∀ top ∈ [state], kernel.definition.sections.Active [state] top :=
    fun top only => List.mem_singleton.1 only ▸ itself
  rcases (addLeaf_yields _ _).of_eq _ added with ⟨slot, inst, free, written, rfl⟩ | ⟨full, rfl⟩
  · obtain ⟨inside, rfl⟩ := (Instance.setLeaf_yields _).of_eq _ written
    refine ⟨.step step (sound.of_ring_eq rfl), [state], below, reached, opens _ rfl, ?_⟩
    intro active seated
    refine seated.imp_right fun holds => ?_
    have room := holds.length_lt free
    have first : some slot = some active.length := free.symm.trans (holds.findIdx?_eq room)
    cases first
    exact holds.set room (wellFormed.ne_noIndex has)
  · refine ⟨.step step (sound.of_ring_eq rfl), [state], below, reached, opens _ ?_, ?_⟩
    · exact Progress.stays_note _ _
    · intro active _
      exact .inl ⟨state, Array.mem_push_self⟩

/-! ### Where history leads -/

/-- What history restores lies strictly below the state, and right below it unless the
history is deep. -/
theorem restorable?_yields (state : UInt16) (inst : Instance) :
    Yields (kernel.restorable? state (kernel.definition.sections.record state) inst)
      fun saved => ∀ found, saved = some found →
        kernel.definition.sections.Beneath state found ∧ found ≠ state ∧
          ((kernel.definition.sections.record state).flags.deepHistory = false →
            kernel.definition.sections.Child state found) := by
  have wellFormed := reliable.sound.wellFormed
  unfold restorable?
  split
  · exact .pure nofun
  · apply (Yields.self _).bind
    intro saved _
    split
    · exact .pure nofun
    · next admitted =>
      simp only [Bool.or_eq_true, decide_eq_true_eq, not_or] at admitted
      obtain ⟨⟨_, other⟩, inside⟩ := admitted
      have savedHas : kernel.definition.sections.Has saved := Nat.lt_of_not_le inside
      apply (Definition.isAncestorOrSelf_returns wellFormed (.inl savedHas)).yields.bind
      intro below decided
      cases below with
      | false => exact .pure nofun
      | true =>
        have beneath := decided.1 rfl
        simp only [Bool.not_true, Bool.false_eq_true, if_false]
        split
        · next deep =>
          apply Yields.pure
          intro found same
          obtain rfl := Option.some.inj same
          exact ⟨beneath, other, fun shallow => absurd (deep.symm.trans shallow) (by decide)⟩
        · rw [Definition.parent_eq savedHas]
          apply Yields.pure
          intro found same
          split at same
          · next direct =>
            obtain rfl := Option.some.inj same
            have inner : saved ≠ rootIndex := by
              rintro rfl
              exact other (wellFormed.eq_root_of_beneath beneath).symm
            exact ⟨beneath, other, fun _ => ⟨savedHas, inner, direct⟩⟩
          · cases same

/-! ### Paths and descents -/

/-- Entering a state and settling it opens it. -/
theorem enter_opens {settle : UInt16 → Progress User → Except Fault (Progress User)}
    (settles : Opens kernel start settle) (sound : progress.inst.QueueSound)
    (unopened : Unopened kernel.definition.sections (progress.stays start) state) :
    Yields (kernel.enterState state progress >>= settle state)
      (Opened kernel start [state] progress) := by
  apply (reliable.enterState_admits sound unopened.enterable).bind
  intro middle admitted
  have clear := admitted.stays_eq ▸ unopened.clear
  apply (settles state middle unopened.enterable.has admitted.queueSound clear).mono
  intro after opened
  exact opened.enter unopened.enterable.ne_root admitted

/-- Entering a path opens its first state. -/
theorem enterPath_opens {settle : UInt16 → Progress User → Except Fault (Progress User)}
    (settles : Opens kernel start settle) {first target : UInt16} {rest : List UInt16}
    (way : kernel.definition.sections.Way first rest target) (sound : progress.inst.QueueSound)
    (unopened : Unopened kernel.definition.sections (progress.stays start) first) :
    Yields (kernel.enterPath settle (first :: rest) progress)
      (Opened kernel start [first] progress) := by
  have wellFormed := reliable.sound.wellFormed
  induction way generalizing progress with
  | @here first _ =>
    unfold enterPath
    exact reliable.enter_opens settles sound unopened
  | @down first next target rest linked _ ih =>
    have has := unopened.enterable.has
    unfold enterPath
    apply (reliable.enterState_admits sound unopened.enterable).bind
    intro middle admitted
    have clear := admitted.stays_eq ▸ unopened.clear
    simp only [Definition.state_eq has, ok_bind]
    have below : Yields
        (if (kernel.definition.sections.record first).flags.parallel = true then
          (kernel.definition.sections.record first).children.words.foldlM
            (fun progress child =>
              if child = next then kernel.enterPath settle (next :: rest) progress
              else kernel.enterState child progress >>= settle child) middle
        else kernel.enterPath settle (next :: rest) middle)
        (Opened kernel start [first] middle) := by
      split
      · next parallel =>
        refine regions_open wellFormed has parallel ?_ (wellFormed.inner_of_child linked)
          admitted.queueSound clear
        -- The child on the path is entered as the path says, the others by default.
        intro child _ progress sound unopened
        split
        · next same =>
          subst same
          exact ih sound unopened
        · exact reliable.enter_opens settles sound unopened
      · apply (ih admitted.queueSound (clear.unopened wellFormed linked)).mono
        intro after opened
        exact opened.lift wellFormed (List.cons_ne_nil _ _) fun child only =>
          List.mem_singleton.1 only ▸ linked
    exact below.mono fun after opened => opened.enter unopened.enterable.ne_root admitted

/-- A descent opens what it goes through. -/
theorem descendFrom_opens (levels : Nat) : Opens kernel start (kernel.descendFrom levels) := by
  have wellFormed := reliable.sound.wellFormed
  induction levels with
  | zero => exact fun _ _ _ _ _ => .error
  | succ levels ih =>
    intro state progress has sound clear
    -- Going on with a single child.
    have lifting {child : UInt16} (linked : kernel.definition.sections.Child state child)
        {after : Progress User} (opened : Opened kernel start [child] progress after) :
        Opened kernel start [state] progress after :=
      opened.lift wellFormed (List.cons_ne_nil _ _) fun _ only =>
        List.mem_singleton.1 only ▸ linked
    have entering {child : UInt16} (linked : kernel.definition.sections.Child state child) :
        Yields (kernel.enterState child progress >>= kernel.descendFrom levels child)
          (Opened kernel start [state] progress) :=
      (reliable.enter_opens ih sound (clear.unopened wellFormed linked)).mono fun _ =>
        lifting linked
    unfold descendFrom
    simp only [Definition.state_eq has, ok_bind]
    split
    · exact reliable.addLeaf_opens has sound clear
    · next branching =>
      have inner := Bool.eq_false_iff.2 branching
      split
      · next parallel =>
        refine regions_open wellFormed has parallel ?_ inner sound clear
        exact fun child _ progress sound unopened => reliable.enter_opens ih sound unopened
      · next serial =>
        have alone := Bool.eq_false_iff.2 serial
        apply (reliable.restorable?_yields state progress.inst).bind
        intro saved restores
        cases saved with
        | none => exact entering (reliable.child_defaultChild has inner alone)
        | some saved =>
          obtain ⟨beneath, proper, direct⟩ := restores saved rfl
          show Yields (if _ then _ else _) _
          split
          · apply (reliable.restoredPath_returns beneath).yields.bind
            intro path way
            cases way with
            | here _ => exact absurd rfl proper
            | down linked rest =>
              exact (reliable.enterPath_opens ih rest sound
                (clear.unopened wellFormed linked)).mono fun _ => lifting linked
          · next shallow => exact entering (direct (Bool.eq_false_iff.2 shallow))

/-- Settling a state opens it. -/
theorem descend_opens : Opens kernel start kernel.descend :=
  reliable.descendFrom_opens maxLevels

end Reliable

end Kernel

end Statechart
