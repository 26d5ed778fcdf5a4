/-
# The course of a tick

Every tick that is not skipped lets time pass for its timers and then follows a path of
steps, and at its end the active states are again those above the active leaves
(`tick_course`). So what holds of every tick can be shown step by step, whatever transitions
it takes, and whether it completes, starts the instance or is cut short.
-/

import Statechart.Proofs.Kernel.Closing
import Statechart.Proofs.Kernel.Countdown
import Statechart.Proofs.Kernel.Safety

namespace Statechart.Kernel

open Rom (Definition Sections TransitionRecord noIndex rootIndex)
open Stays (Clear Unopened Nested)

variable {User : Type} {pledge : Instance.Pledge} {idle : Prop} {kernel : Kernel User}
  {start : Stays} {event : Event} {progress before middle after : Progress User}
  {active : List UInt16} {top : UInt16}

open Classical in
/-- What is active after a transition: what it left in place, and what it added below the
state that it stays within. -/
theorem active_exchange {sections : Sections} (wellFormed : sections.WellFormed)
    {added : List UInt16} {first : UInt16} (linked : sections.Child top first)
    (reached : sections.Active added first) (state : UInt16) :
    (state ≠ rootIndex ∧ sections.Active active state) ∧
          ¬ (sections.Beneath top state ∧ state ≠ top) ∨
        state ≠ rootIndex ∧ sections.Active added state ↔
      state ≠ rootIndex ∧ sections.Active
        (active.filter (fun leaf => sections.Beside top leaf) ++ added) state := by
  constructor
  · rintro (⟨⟨inner, leaf, listed, passed⟩, stays⟩ | ⟨inner, isActive⟩)
    · refine ⟨inner, Sections.active_append.2 ?_⟩
      by_cases beside : sections.Beside top leaf
      · exact .inl ⟨leaf, List.mem_filter.2 ⟨listed, decide_eq_true beside⟩, passed⟩
      · -- The leaf is gone, so the state is above `top`, and above what was added.
        have below : sections.Beneath top leaf := by
          apply Classical.byContradiction
          exact fun apart => beside (.inr apart)
        have above : sections.Beneath state top := by
          rcases passed.comparable below with upper | lower
          · exact upper
          · by_cases same : state = top
            · exact same ▸ .self lower.has
            · exact absurd ⟨lower, same⟩ stays
        obtain ⟨other, member, beneath⟩ := reached
        have lower := above.trans (wellFormed.beneath_of_child linked)
        exact .inr ⟨other, member, lower.trans beneath⟩
    · exact ⟨inner, Sections.active_append.2 (.inr isActive)⟩
  · rintro ⟨inner, isActive⟩
    rcases Sections.active_append.1 isActive with ⟨leaf, kept, passed⟩ | isActive
    · obtain ⟨listed, beside⟩ := List.mem_filter.1 kept
      refine .inl ⟨⟨inner, leaf, listed, passed⟩, fun ⟨below, proper⟩ => ?_⟩
      rcases of_decide_eq_true beside with rfl | apart
      · exact proper (passed.antisymm wellFormed below)
      · exact apart (below.trans passed)
    · exact .inr ⟨inner, isActive⟩

/-- A path leads on, and the active states are those above the active leaves unless a leaf
found no slot. -/
structure Carries (kernel : Kernel User) (start : Stays) (before after : Progress User) : Prop
    extends Leads kernel start before after where
  exists_seated : ∃ active, Seated active after ∧ Matched kernel start active after

open Classical in
/-- What is active below a state was left, and each child of the state may be entered. -/
structure Vacates (kernel : Kernel User) (start : Stays) (top : UInt16) (active : List UInt16)
    (before after : Progress User) : Prop extends Leads kernel start before after where
  holds : Holds after.inst.leaves
    (active.filter fun leaf => kernel.definition.sections.Beside top leaf)
  open_iff (state : UInt16) : (after.stays start).Open state ↔
    (state ≠ rootIndex ∧ kernel.definition.sections.Active active state) ∧
      ¬ (kernel.definition.sections.Beneath top state ∧ state ≠ top)
  unopened (first : UInt16) : kernel.definition.sections.Child top first →
    Unopened kernel.definition.sections (after.stays start) first

/-- Taking note of a transition changes no stay. -/
theorem Matched.note_transition {source target id : UInt16}
    (matched : Matched kernel start active progress) :
    Matched kernel start active (progress.note (.transition source target id)) := by
  have same : (progress.note (.transition source target id)).stays start =
      progress.stays start := Progress.stays_note _ _
  exact ⟨same.symm ▸ matched.nested, same.symm ▸ matched.open_iff⟩

/-- Without active leaves, nothing below the root is active. -/
theorem Matched.clear_root (matched : Matched kernel start [] progress) :
    Clear kernel.definition.sections (progress.stays start) rootIndex := by
  refine ⟨matched.nested, .inl rfl, fun inner _ _ isOpen => ?_⟩
  obtain ⟨_, leaf, listed, _⟩ := (matched.open_iff inner).1 isOpen
  cases listed

namespace Reliable

variable (reliable : Reliable pledge kernel)

include reliable

/-! ### Taking a transition -/

/-- Once what is active below a state has been left and the action of a transition has run, any
child of the state may be entered. -/
theorem vacate_yields {cause : Trace.Cause} (other : cause ≠ .timer) (action source : UInt16)
    (states : ∀ leaf ∈ active, kernel.definition.sections.Has leaf)
    (within : top = rootIndex ∨ kernel.definition.sections.Active active top)
    (sound : progress.inst.QueueSound) (holds : Holds progress.inst.leaves active)
    (matched : Matched kernel start active progress) :
    Yields
      (kernel.exitBelow top progress >>= fun progress =>
        kernel.runAction cause action source progress)
      (Vacates kernel start top active progress) := by
  have wellFormed := reliable.sound.wellFormed
  apply (reliable.exitBelow_closes sound holds states matched).bind
  rintro left ⟨leaving, remaining, opens⟩
  apply (reliable.runAction_quiet other action source leaving.queueSound).mono
  intro acted quiet
  have acting := leaving.trans quiet.toLeads
  have stillOpen (state : UInt16) : (acted.stays start).Open state ↔
      (state ≠ rootIndex ∧ kernel.definition.sections.Active active state) ∧
        ¬ (kernel.definition.sections.Beneath top state ∧ state ≠ top) := by
    rw [quiet.stays_eq, opens, matched.open_iff]
  -- Nothing below `top` is active any more.
  have vacant {inner : UInt16} (below : kernel.definition.sections.Beneath top inner)
      (other : inner ≠ top) : ¬ (acted.stays start).Open inner :=
    fun isOpen => ((stillOpen inner).1 isOpen).2 ⟨below, other⟩
  refine ⟨acting, quiet.leaves_eq.symm ▸ remaining, stillOpen, fun first linked => ?_⟩
  have upper := wellFormed.beneath_of_child linked
  refine .of_child (acting.nested matched.nested) ?_ linked ?_ ?_
  · rcases em (top = rootIndex) with isRoot | inner
    · exact .inl isRoot
    · exact .inr ((stillOpen top).2 ⟨⟨inner, within.resolve_left inner⟩, fun lower =>
        lower.2 rfl⟩)
  · intro inner lower
    refine vacant (upper.trans lower) ?_
    rintro rfl
    exact wellFormed.child_ne linked (lower.antisymm wellFormed upper)
  · intro _ sibling own
    exact vacant (wellFormed.beneath_of_child own) (wellFormed.child_ne own)

/-- Entering the way down to a target makes up for what was left. -/
theorem enterBelow_carries {target : UInt16} {before : Progress User}
    (beneath : kernel.definition.sections.Beneath top target) (proper : target ≠ top)
    (nested : Nested kernel.definition.sections (before.stays start))
    (vacates : Vacates kernel start top active before progress) :
    Yields
      (kernel.chainTo target >>= fun chain => kernel.definition.state top >>= fun record =>
        kernel.enterPath kernel.descend (chain.drop (record.depth.toNat + 1)) progress)
      (Carries kernel start before) := by
  have wellFormed := reliable.sound.wellFormed
  obtain ⟨acting, remaining, stillOpen, unopened⟩ := vacates
  apply (reliable.chainTo_returns beneath).yields.bind
  intro chain found
  simp only [Definition.state_eq beneath.has_top, ok_bind]
  generalize chain.drop _ = path at found
  cases found.2 with
  | here _ => exact absurd rfl proper
  | @down _ first _ rest linked way =>
    apply (reliable.enterPath_opens reliable.descend_opens way acting.queueSound
      (unopened first linked)).mono
    intro after opened
    obtain ⟨leads, added, _, reached, gains, seats⟩ := opened
    have whole := acting.trans leads
    refine ⟨whole, _, seats _ (.inr remaining), whole.nested nested, fun state => ?_⟩
    rw [gains, stillOpen]
    exact active_exchange wellFormed linked (reached first (List.mem_singleton.2 rfl)) state

/-- Taking a transition on an event leaves completion to be served. -/
theorem fire_carries {transition : TransitionRecord}
    (chosen : Chosen kernel.definition event transition)
    (enabled : Enabled kernel.definition active transition)
    (states : ∀ leaf ∈ active, kernel.definition.sections.Has leaf)
    (sound : progress.inst.QueueSound) (holds : Holds progress.inst.leaves active)
    (matched : Matched kernel start active progress) :
    Yields (kernel.fire transition event.id progress) fun after =>
      Path kernel start ⟨event, progress⟩ ⟨.completion, after⟩ ∧
        ∃ active, Seated active after ∧ Matched kernel start active after := by
  let noted := progress.note (.transition transition.source transition.target event.id)
  have firing : Step kernel start ⟨event, progress⟩ ⟨.completion, noted⟩ := .fired chosen
  have still : Matched kernel start active noted := matched.note_transition
  have carried {after : Progress User} (carries : Carries kernel start noted after) :
      Path kernel start ⟨event, progress⟩ ⟨.completion, after⟩ ∧
        ∃ active, Seated active after ∧ Matched kernel start active after :=
    ⟨.head firing (carries.path _), carries.exists_seated⟩
  have other : Trace.Cause.effect ≠ .timer := by decide
  cases kind : transition.flags.isInternal with
  | true =>
    unfold fire
    rw [kind]
    have acting : Yields (kernel.runAction .effect transition.action transition.source noted)
        (Quiet kernel start noted) := reliable.runAction_quiet other _ _ sound
    apply acting.mono
    intro after quiet
    exact carried ⟨quiet.toLeads, active, .inr (quiet.leaves_eq.symm ▸ holds),
      still.of_quiet quiet⟩
  | false =>
    rw [fire_of_external kernel kind]
    apply (reliable.scopeOf_returns enabled kind).yields.bind
    rintro top ⟨-, ⟨beneath, proper⟩, limits⟩
    have vacating := reliable.vacate_yields other transition.action transition.source states
      (limits.imp_right And.right) (show noted.inst.QueueSound from sound) holds still
    refine (Yields.self _).bind fun left leaves => (Yields.self _).bind fun acted acts => ?_
    have vacates := vacating.of_eq acted (by rw [leaves, ok_bind, acts])
    exact (reliable.enterBelow_carries beneath proper still.nested vacates).mono fun _ => carried

end Reliable

/-! ### Between the steps of a tick -/

/-- What holds between any two parts of a tick. -/
structure Underway (pledge : Instance.Pledge) (kernel : Kernel User) (idle : Prop) (start : Stays)
    (progress : Progress User) : Prop where
  configured : Configured pledge kernel idle progress
  exists_matched : ∃ active, Holds progress.inst.leaves active ∧
    Matched kernel start active progress

/-- The active leaves are told by the slots. -/
theorem holds_unique {slots active others : List UInt16} (holds : Holds slots active)
    (also : Holds slots others) : active = others :=
  holds.takeWhile_eq.symm.trans also.takeWhile_eq

namespace Underway

theorem of_quiet (underway : Underway pledge kernel idle start before)
    (kept : Kept pledge kernel before after) (quiet : Quiet kernel start before after) :
    Underway pledge kernel idle start after := by
  obtain ⟨active, holds, matched⟩ := underway.exists_matched
  exact ⟨underway.configured.of_kept kept, active, kept.holds holds, matched.of_quiet quiet⟩

/-- Unless a leaf found no slot, what is seated is held. -/
theorem of_seated (configured : Configured pledge kernel idle after)
    (seated : ∃ active, Seated active after ∧ Matched kernel start active after) :
    Underway pledge kernel idle start after := by
  obtain ⟨active, slots, matched⟩ := seated
  refine ⟨configured, active, slots.resolve_left ?_, matched⟩
  rintro ⟨state, traced⟩
  exact configured.steady.untraced state traced

theorem weaken {wider : Prop} (underway : Underway pledge kernel idle start progress)
    (allows : idle → wider) : Underway pledge kernel wider start progress :=
  ⟨underway.configured.weaken allows, underway.exists_matched⟩

theorem started (underway : Underway pledge kernel idle start progress)
    (running : progress.inst.isStarted = true) : Underway pledge kernel False start progress :=
  ⟨underway.configured.started running, underway.exists_matched⟩

theorem steady (underway : Underway pledge kernel idle start progress) :
    Steady pledge kernel progress :=
  underway.configured.steady

theorem queueSound (underway : Underway pledge kernel idle start progress) :
    progress.inst.QueueSound :=
  underway.steady.queueSound

theorem withPhase (underway : Underway pledge kernel idle start progress) (phase : Phase) :
    Underway pledge kernel idle start (progress.withPhase phase) :=
  underway.of_quiet (underway.steady.spare rfl (.withPhase phase))
    (.withPhase underway.queueSound phase)

theorem withSteps (underway : Underway pledge kernel idle start progress) (steps : Nat) :
    Underway pledge kernel idle start (withSteps steps progress) :=
  ⟨underway.configured.withSteps steps, by
    obtain ⟨active, holds, matched⟩ := underway.exists_matched
    exact ⟨active, holds, matched.of_quiet (.withSteps underway.queueSound steps)⟩⟩

/-- An event is taken from the queue. -/
theorem take {next : Event} {inst : Instance}
    (underway : Underway pledge kernel idle start progress)
    (taken : progress.inst.dequeue = .ok (some next, inst)) :
    Underway pledge kernel idle start
      ((progress.withInst inst).note (.event next.id next.priority)) := by
  have spares : progress.inst.Spares pledge inst :=
    underway.queueSound.dequeue_returns.yields.of_eq _ taken
  have first : Kept pledge kernel progress (progress.withInst inst) :=
    underway.steady.spare rfl spares
  have other (state : UInt16) : Trace.Entry.leafOverflow state ≠ .event next.id next.priority := by
    intro same
    cases same
  have kept := first.trans (first.steady.note other)
  obtain ⟨active, holds, matched⟩ := underway.exists_matched
  have same : ((progress.withInst inst).note (.event next.id next.priority)).stays start =
      (progress.withInst inst).stays start := Progress.stays_note _ _
  exact ⟨underway.configured.of_kept kept, active, kept.holds holds,
    same.symm ▸ matched.nested, same.symm ▸ matched.open_iff⟩

/-- The leaves that are active, with all that is known of them. -/
theorem states (underway : Underway pledge kernel idle start progress)
    (wellFormed : kernel.definition.sections.WellFormed) :
    ∃ active, Holds progress.inst.leaves active ∧
      Settled kernel.definition.sections idle active ∧
      (∀ leaf ∈ active, kernel.definition.sections.Has leaf) ∧
      Matched kernel start active progress := by
  obtain ⟨active, holds, settled, has⟩ := underway.configured.states wellFormed
  obtain ⟨others, also, matched⟩ := underway.exists_matched
  obtain rfl := holds_unique holds also
  exact ⟨active, holds, settled, has, matched⟩

/-- An instance that is not started has no active leaves. -/
theorem fresh (underway : Underway pledge kernel idle start progress)
    (none : progress.inst.isStarted = false) :
    Holds progress.inst.leaves [] ∧ Matched kernel start [] progress := by
  obtain ⟨active, holds, matched⟩ := underway.exists_matched
  exact Instance.eq_nil_of_not_started holds none ▸ ⟨holds, matched⟩

end Underway

/-- A path leads on, whatever is being served at its end, to a moment between two parts of
a tick. -/
def Proceeds (pledge : Instance.Pledge) (kernel : Kernel User) (idle : Prop) (start : Stays)
    (event : Event) (before after : Progress User) : Prop :=
  (∃ next, Path kernel start ⟨event, before⟩ ⟨next, after⟩) ∧
    Underway pledge kernel idle start after

namespace Proceeds

theorem weaken {wider : Prop} (proceeds : Proceeds pledge kernel idle start event before after)
    (allows : idle → wider) : Proceeds pledge kernel wider start event before after :=
  ⟨proceeds.1, proceeds.2.weaken allows⟩

/-- What comes before a path. -/
theorem after_path {first : Event} (path : Path kernel start ⟨first, before⟩ ⟨event, middle⟩)
    (proceeds : Proceeds pledge kernel idle start event middle after) :
    Proceeds pledge kernel idle start first before after :=
  ⟨proceeds.1.imp fun _ more => path.trans more, proceeds.2⟩

theorem after_quiet (quiet : Quiet kernel start before middle)
    (proceeds : Proceeds pledge kernel idle start event middle after) :
    Proceeds pledge kernel idle start event before after :=
  proceeds.after_path (quiet.path event)

end Proceeds

namespace Reliable

variable (reliable : Reliable pledge kernel)

include reliable

/-! ### Events -/

/-- Looking for a transition, and what is then known of the one that is chosen. -/
theorem select_underway (event : Event) (underway : Underway pledge kernel idle start progress) :
    Yields (kernel.select event progress) fun found =>
      Quiet kernel start progress found.2 ∧ Underway pledge kernel idle start found.2 ∧
        ∀ transition, found.1 = some transition →
          Returns (kernel.fire transition event.id found.2) fun after =>
            Path kernel start ⟨event, found.2⟩ ⟨.completion, after⟩ ∧
              Underway pledge kernel idle start after := by
  obtain ⟨active, holds, settled, has, matched⟩ := underway.states reliable.sound.wellFormed
  have selecting := (reliable.select_returns event holds has underway.steady).yields
  refine ⟨fun found ran => ?_⟩
  have searched := selecting.of_eq found ran
  have quietly : Found kernel start event progress found :=
    (reliable.select_quiet event underway.queueSound).of_eq found ran
  refine ⟨quietly.quiet, underway.of_quiet searched.kept quietly.quiet, fun transition same => ?_⟩
  have enabled := searched.enabled transition same
  have still := searched.kept.holds holds
  have firing := reliable.fire_returns event.id still settled enabled searched.kept.steady
  refine (firing.and (reliable.fire_carries (quietly.chosen transition same) enabled has
    quietly.quiet.queueSound still (matched.of_quiet quietly.quiet))).mono ?_
  exact fun after fired => ⟨fired.2.1, .of_seated fired.1 fired.2.2⟩

/-- Taking one transition after the other. -/
theorem runFrom_proceeds (remaining : Nat) : ∀ steps event progress,
    Underway pledge kernel idle start progress →
      Yields (kernel.runFrom remaining steps event progress) fun completion =>
        Proceeds pledge kernel idle start event progress completion.reached := by
  induction remaining with
  | zero =>
    intro steps event progress underway
    unfold runFrom
    apply (reliable.select_underway event underway).bind
    intro found searched
    obtain ⟨chosen, after⟩ := found
    obtain ⟨quiet, still, _⟩ := searched
    cases chosen with
    | none => exact .pure ⟨⟨event, quiet.path event⟩, still⟩
    | some transition => exact .pure ⟨⟨event, quiet.path event⟩, still⟩
  | succ remaining ih =>
    intro steps event progress underway
    unfold runFrom
    apply (reliable.select_underway event underway).bind
    intro found searched
    obtain ⟨chosen, after⟩ := found
    obtain ⟨quiet, still, firing⟩ := searched
    cases chosen with
    | none => exact .pure ⟨⟨event, quiet.path event⟩, still⟩
    | some transition =>
      apply (firing transition rfl).yields.bind
      intro fired carried
      obtain ⟨path, next⟩ := carried
      apply (ih _ _ _ (next.withSteps (steps + 1))).mono
      intro completion proceeds
      have stepping := proceeds.after_quiet (.withSteps next.queueSound (steps + 1))
      exact (stepping.after_path path).after_quiet quiet

theorem runToCompletion_proceeds (event : Event)
    (underway : Underway pledge kernel idle start progress) :
    Yields (kernel.runToCompletion event progress) fun completion =>
      Proceeds pledge kernel idle start event progress completion.reached :=
  (reliable.runFrom_proceeds _ _ _ _ (underway.withSteps 0)).mono fun _ proceeds =>
    proceeds.after_quiet (.withSteps underway.queueSound 0)

/-- An instance without active states enters its default configuration. -/
theorem start_carries (holds : Holds progress.inst.leaves []) (sound : progress.inst.QueueSound)
    (matched : Matched kernel start [] progress) :
    Yields (kernel.descend rootIndex progress) (Carries kernel start progress) := by
  have wellFormed := reliable.sound.wellFormed
  apply (reliable.descend_opens rootIndex progress wellFormed.has_root sound
    matched.clear_root).mono
  intro after opened
  obtain ⟨leads, added, _, _, gains, seats⟩ := opened
  have seated : Seated added after := seats [] (.inr holds)
  refine ⟨leads, added, seated, leads.nested matched.nested, fun state => ?_⟩
  rw [gains, matched.open_iff]
  exact or_iff_right fun ⟨_, leaf, listed, _⟩ => nomatch listed

/-- An instance without active states is started by its default configuration. -/
theorem start_underway (underway : Underway pledge kernel idle start progress)
    (fresh : progress.inst.isStarted = false) :
    Returns (kernel.descend rootIndex progress) fun after =>
      Leads kernel start progress after ∧ Underway pledge kernel False start after := by
  obtain ⟨holds, matched⟩ := underway.fresh fresh
  have settling := reliable.descend_root_settles underway.steady holds
  apply (settling.and (reliable.start_carries holds underway.queueSound matched)).mono
  rintro after ⟨⟨steady, filled, fills, added⟩, carries⟩
  have configured : Configured pledge kernel False after :=
    ⟨steady, filled, added, .inl ⟨rootIndex, filled, .inl rfl, .refl _, fills⟩⟩
  exact ⟨carries.toLeads, .of_seated configured carries.exists_seated⟩

theorem enterPhase_proceeds {next : Progress User → Except Fault (Service User)}
    (goes : ∀ progress, Underway pledge kernel False start progress →
      Yields (next progress) fun service =>
        Proceeds pledge kernel False start event progress service.reached)
    (underway : Underway pledge kernel idle start progress) :
    Yields (kernel.enterPhase next progress) fun service =>
      Proceeds pledge kernel False start event progress service.reached := by
  have entry := underway.withPhase .entry
  have quiet : Quiet kernel start progress (progress.withPhase .entry) :=
    .withPhase underway.queueSound .entry
  unfold enterPhase
  show Yields (if _ then _ else _) _
  split
  · next running =>
    exact (goes _ (entry.started running)).mono fun _ proceeds => proceeds.after_quiet quiet
  · next fresh =>
    apply (reliable.start_underway entry (Bool.eq_false_iff.2 fresh)).yields.bind
    rintro after ⟨leads, began⟩
    have running : Proceeds pledge kernel False start event (progress.withPhase .entry) after :=
      ⟨⟨event, leads.path event⟩, began⟩
    exact .pure (running.after_quiet quiet)

theorem serveEvent_proceeds (budget transitions : Nat)
    {next : Nat → Progress User → Except Fault (Service User)} (event : Event)
    (goes : ∀ transitions event progress, Underway pledge kernel False start progress →
      Yields (next transitions progress) fun service =>
        Proceeds pledge kernel False start event progress service.reached)
    (underway : Underway pledge kernel idle start progress) :
    Yields (kernel.serveEvent budget transitions next event progress) fun service =>
      Proceeds pledge kernel idle start event progress service.reached := by
  have quiet : Quiet kernel start progress (progress.withPhase .rtc) :=
    .withPhase underway.queueSound .rtc
  unfold serveEvent
  apply (reliable.runToCompletion_proceeds event (underway.withPhase .rtc)).bind
  intro completion running
  have served := running.after_quiet quiet
  cases completion with
  | overflow after => exact .pure served
  | settled steps after =>
    show Yields (if _ then _ else _) _
    split
    · obtain ⟨⟨last, path⟩, still⟩ := served
      have onward := fun progress => goes (min (transitions + steps) maxTransitions) last progress
      apply (reliable.enterPhase_proceeds onward still).mono
      intro service proceeds
      exact (proceeds.weaken False.elim).after_path path
    · exact .pure served

omit reliable in
/-- Putting a deferred event back. -/
theorem requeue_quiet {next : Event} {inst : Instance}
    (taken : progress.inst.dequeue = .ok (some next, inst)) (deferred : next.flags.deferred = true)
    (steady : Steady pledge kernel progress) :
    Yields (requeue next (progress.withInst inst)) fun after =>
      Kept pledge kernel progress after ∧ Quiet kernel start progress after := by
  have spares : progress.inst.Spares pledge inst :=
    steady.queueSound.dequeue_returns.yields.of_eq _ taken
  have kept : Kept pledge kernel progress (progress.withInst inst) := steady.spare rfl spares
  have queueing : Yields (requeue next (progress.withInst inst))
      (Kept pledge kernel (progress.withInst inst)) :=
    (kept.steady.enqueueOrNote_returns _ _).yields
  refine ⟨fun after queued => ?_⟩
  have whole := kept.trans (queueing.of_eq after queued)
  refine ⟨whole, ⟨.step (fun _ => .putBack taken deferred queued) whole.steady.queueSound,
    whole.leaves_eq, ?_⟩⟩
  obtain ⟨accepted, inst, _, rfl⟩ := (enqueueOrNote_yields _ _ _).of_eq _ queued
  split
  · exact ⟨[], (List.append_nil _).symm, List.forall_mem_nil _⟩
  · exact ⟨[_], Array.toList_push, List.forall_mem_singleton.2 trivial⟩

/-- Taking events from the queue. -/
theorem serve_proceeds (budget : Nat) : ∀ transitions event progress,
    Underway pledge kernel False start progress →
      Yields (kernel.serve budget transitions progress) fun service =>
        Proceeds pledge kernel False start event progress service.reached := by
  induction budget with
  | zero =>
    intro transitions event progress underway
    exact .ok ⟨⟨event, .refl⟩, underway⟩
  | succ budget ih =>
    intro transitions event progress underway
    unfold serve
    apply (Yields.self _).bind
    rintro ⟨next, inst⟩ taken
    cases next with
    | none => exact .pure ⟨⟨event, .refl⟩, underway⟩
    | some next =>
      show Yields (if _ then _ else _) _
      split
      · next deferred =>
        apply (requeue_quiet taken deferred underway.steady).bind
        intro after queued
        obtain ⟨kept, quiet⟩ := queued
        exact (ih transitions event after (underway.of_quiet kept quiet)).mono
          fun _ proceeds => proceeds.after_quiet quiet
      · next plain =>
        have step : Step kernel start ⟨event, progress⟩
            ⟨next, (progress.withInst inst).note (.event next.id next.priority)⟩ :=
          .taken taken (Bool.eq_false_iff.2 plain)
        have still := underway.take taken
        exact (reliable.serveEvent_proceeds _ _ next ih still).mono fun _ proceeds =>
          proceeds.after_path (.single step)

end Reliable

/-! ### The whole tick -/

/-- A path leads on to the end of a tick. -/
structure Lands (kernel : Kernel User) (start : Stays) (event : Event)
    (before after : Progress User) : Prop where
  exists_path : ∃ next, Path kernel start ⟨event, before⟩ ⟨next, after⟩
  exists_matched : ∃ active, Holds after.inst.leaves active ∧ Matched kernel start active after

/-- What a tick that was not skipped has done: time has passed, and then steps were made. -/
structure Course (kernel : Kernel User) (start : Stays) (delta : UInt32)
    (before after : Progress User) : Prop where
  exists_aged : ∃ aged, kernel.advanceTimers delta (before.withPhase .idle) = .ok aged ∧
    Lands kernel start .completion aged after

theorem Lands.after_path {first : Event} (path : Path kernel start ⟨first, before⟩ ⟨event, middle⟩)
    (lands : Lands kernel start event middle after) : Lands kernel start first before after :=
  ⟨lands.exists_path.imp fun _ more => path.trans more, lands.exists_matched⟩

namespace Reliable

variable (reliable : Reliable pledge kernel)

include reliable

theorem finish_lands (outcome : Outcome) (event : Event)
    (underway : Underway pledge kernel idle start progress) :
    Yields (kernel.finish outcome progress) fun answer =>
      Lands kernel start event progress answer.2 := by
  have activity := underway.withPhase .activity
  obtain ⟨active, holds, _, has, _⟩ := activity.states reliable.sound.wellFormed
  unfold finish
  have acting := reliable.runActivities_returns holds has activity.steady
  apply (acting.and (reliable.runActivities_quiet activity.queueSound)).yields.bind
  intro after both
  obtain ⟨kept, quiet⟩ := both
  have last := activity.of_quiet kept quiet
  have whole := ((Quiet.withPhase underway.queueSound .activity).trans quiet).trans
    (.withPhase last.queueSound .idle)
  exact .pure ⟨⟨event, whole.path event⟩, (last.withPhase .idle).exists_matched⟩

omit reliable in
/-- Dropping the configuration ends every stay. -/
theorem contain_lands (event : Event) :
    Lands kernel start event progress (kernel.contain progress) where
  exists_path := ⟨event, .single .contained⟩
  exists_matched := by
    have dropped : (kernel.contain progress).stays start = Stays.nowhere :=
      Progress.stays_note _ _
    have empty : Holds progress.inst.clearLeaves.leaves [] :=
      Instance.holds_withActiveLeaves (Nat.zero_le _) nofun
    refine ⟨[], empty, dropped.symm ▸ .nowhere, fun state => ?_⟩
    rw [dropped]
    refine iff_of_false Stays.not_open_nowhere ?_
    rintro ⟨_, leaf, listed, _⟩
    cases listed

theorem conclude_lands {service : Service User}
    (proceeds : Proceeds pledge kernel idle start event progress service.reached) :
    Yields (kernel.conclude service) fun answer => Lands kernel start event progress answer.2 := by
  obtain ⟨⟨last, path⟩, underway⟩ := proceeds
  cases service with
  | started after =>
    exact (reliable.finish_lands _ last underway).mono fun _ lands => lands.after_path path
  | served budget transitions after =>
    exact (reliable.finish_lands _ last underway).mono fun _ lands => lands.after_path path
  | overflow after => exact .ok ((contain_lands last).after_path path)

/-- Time passes for the timers of an instance, and no state is entered or left. -/
theorem advanceTimers_underway (delta : UInt32)
    (underway : Underway pledge kernel idle start progress) :
    Yields (kernel.advanceTimers delta progress) (Underway pledge kernel idle start) := by
  obtain ⟨active, holds, _, has, matched⟩ := underway.states reliable.sound.wellFormed
  have keeping := reliable.advanceTimers_returns delta holds has underway.steady
  apply (keeping.and (advanceTimers_extends progress)).yields.mono
  rintro after ⟨kept, _, same⟩
  exact ⟨underway.configured.of_kept kept, active, kept.holds holds,
    same.symm ▸ matched.nested, same.symm ▸ matched.open_iff⟩

omit reliable in
/-- A tick begins between two of its parts. -/
theorem underway_ofScene {scene : Scene User} (ready : Ready kernel.definition scene.inst)
    (pledged : pledge.Of scene.inst)
    (matched : ∃ active, Holds scene.inst.leaves active ∧
      Matched kernel start active (.ofScene scene)) :
    Underway pledge kernel True start (.ofScene scene) := by
  obtain ⟨room, sound, active, holds, settled⟩ := ready
  exact ⟨⟨⟨room, sound, pledged, fun _ => Array.not_mem_empty _⟩, active, holds, settled⟩, matched⟩

/-- A tick of an idle instance whose active states are those above its leaves runs its course,
unless it is skipped. -/
theorem tick_course (delta : UInt32) {scene : Scene User}
    (ready : Ready kernel.definition scene.inst) (resting : scene.inst.phase? = some .idle)
    (pledged : pledge.Of scene.inst)
    (matched : ∃ active, Holds scene.inst.leaves active ∧
      Matched kernel start active (.ofScene scene)) :
    Yields (kernel.tick delta scene) fun answer => answer = (.skipped, .ofScene scene) ∨
      Course kernel start delta (.ofScene scene) answer.2 := by
  have begins := underway_ofScene ready pledged matched
  unfold tick
  split
  · rw [resting]
    have running : Yields (kernel.runPhases .idle delta (.ofScene scene)) fun answer =>
        Course kernel start delta (.ofScene scene) answer.2 := by
      unfold runPhases
      apply ((Yields.self _).and (reliable.advanceTimers_underway delta
        (begins.withPhase .idle))).bind
      rintro aged ⟨passed, underway⟩
      have course {after : Progress User} (lands : Lands kernel start .completion aged after) :
          Course kernel start delta (.ofScene scene) after := ⟨aged, passed, lands⟩
      split
      · exact (reliable.finish_lands _ _ underway).mono fun _ => course
      · have serving (progress : Progress User)
            (underway : Underway pledge kernel False start progress) :=
          reliable.serve_proceeds kernel.limits.events.toNat 0 .completion progress underway
        apply (reliable.enterPhase_proceeds serving underway).bind
        intro service proceeds
        exact (reliable.conclude_lands proceeds).mono fun _ => course
    exact running.mono fun _ => .inr
  · exact .ok (.inl rfl)

end Reliable

end Statechart.Kernel
