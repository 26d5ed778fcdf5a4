/-
# Ticks stay within their budgets

A tick of a compiled machine comes to its end, whatever its callbacks queue, and it has stayed
within its budgets (`tick_bounded`). No more events were taken from the queue than the limits
allow, deferred ones included, and no run to completion took more transitions.

The queue's cursors have to point into the ring for the tick to return. A cursor that does not can
lead to an access outside the instance's memory, and then the tick fails (`tick_astray`); even so
it does not run forever.
-/

import Statechart.Proofs.Chart.Naming
import Statechart.Proofs.Chart.Restoring
import Statechart.Proofs.Kernel.Endurance
import Statechart.Proofs.Kernel.Ledger

namespace Statechart.Kernel

open Rom (Definition noIndex rootIndex)

variable {User : Type} {kernel : Kernel User} {tier : Tier} {inOrder : Prop}
  {progress : Progress User}

namespace Enduring

variable (enduring : Enduring kernel tier)

include enduring

/-! ### Events -/

theorem runFrom_ends (remaining steps : Nat) (event : Event) (progress : Progress User)
    (viable : Viable kernel.definition tier inOrder progress.inst) :
    Ends (Tolerated inOrder) (kernel.runFrom remaining steps event progress) fun completion =>
      Viable kernel.definition tier inOrder completion.reached.inst := by
  induction remaining generalizing steps event progress with
  | zero =>
    unfold runFrom
    apply (enduring.select_ends event viable).bind
    rintro ⟨chosen, reached⟩ looking
    cases chosen with
    | none => exact .pure looking.viable
    | some transition => exact .pure looking.viable
  | succ remaining ih =>
    unfold runFrom
    apply (enduring.select_ends event viable).bind
    rintro ⟨chosen, reached⟩ looking
    cases chosen with
    | none => exact .pure looking.viable
    | some transition =>
      apply (enduring.fire_ends event.id (looking.listed transition rfl) looking.viable).bind
      intro fired left
      have stepped : Viable kernel.definition tier inOrder (withSteps (steps + 1) fired).inst :=
        left.write rfl rfl
      exact ih _ _ _ stepped

theorem runToCompletion_ends (event : Event)
    (viable : Viable kernel.definition tier inOrder progress.inst) :
    Ends (Tolerated inOrder) (kernel.runToCompletion event progress) fun completion =>
      Viable kernel.definition tier inOrder completion.reached.inst :=
  enduring.runFrom_ends _ 0 event (withSteps 0 progress) (viable.write rfl rfl)

theorem enterPhase_ends {next : Progress User → Except Fault (Service User)}
    (goes : ∀ progress : Progress User, Viable kernel.definition tier inOrder progress.inst →
      Ends (Tolerated inOrder) (next progress) fun service =>
        Viable kernel.definition tier inOrder service.reached.inst)
    (viable : Viable kernel.definition tier inOrder progress.inst) :
    Ends (Tolerated inOrder) (kernel.enterPhase next progress) fun service =>
      Viable kernel.definition tier inOrder service.reached.inst := by
  have entry : Viable kernel.definition tier inOrder (progress.withPhase .entry).inst :=
    viable.write rfl rfl
  unfold enterPhase
  show Ends _ (if _ then _ else _) _
  split
  · exact goes _ entry
  · have has := enduring.sound.wellFormed.has_root
    apply (enduring.descend_ends rootIndex _ has (Nat.zero_le _) entry).bind
    intro after left
    exact .pure left

theorem serveEvent_ends (budget transitions : Nat)
    {next : Nat → Progress User → Except Fault (Service User)} (event : Event)
    (goes : ∀ transitions (progress : Progress User),
      Viable kernel.definition tier inOrder progress.inst →
        Ends (Tolerated inOrder) (next transitions progress) fun service =>
          Viable kernel.definition tier inOrder service.reached.inst)
    (viable : Viable kernel.definition tier inOrder progress.inst) :
    Ends (Tolerated inOrder) (kernel.serveEvent budget transitions next event progress)
      fun service => Viable kernel.definition tier inOrder service.reached.inst := by
  have running : Viable kernel.definition tier inOrder (progress.withPhase .rtc).inst :=
    viable.write rfl rfl
  unfold serveEvent
  apply (enduring.runToCompletion_ends event running).bind
  intro completion left
  cases completion with
  | overflow after => exact .pure left
  | settled steps after =>
    show Ends _ (if _ then _ else _) _
    split
    · exact enduring.enterPhase_ends (goes _) left
    · exact .pure left

theorem serve_ends (budget transitions : Nat) (progress : Progress User)
    (viable : Viable kernel.definition tier inOrder progress.inst) :
    Ends (Tolerated inOrder) (kernel.serve budget transitions progress) fun service =>
      Viable kernel.definition tier inOrder service.reached.inst := by
  induction budget generalizing transitions progress with
  | zero => exact .ok viable
  | succ budget ih =>
    have taking : Ends (Tolerated inOrder) progress.inst.dequeue fun answer =>
        Viable kernel.definition tier inOrder answer.2 :=
      viable.queueing Instance.dequeue_ends fun sound => sound.dequeue_returns
    unfold serve
    apply taking.bind
    rintro ⟨next, inst⟩ left
    cases next with
    | none => exact .pure viable
    | some event =>
      show Ends _ (if _ then _ else _) _
      split
      · have holding : Viable kernel.definition tier inOrder (progress.withInst inst).inst := left
        apply (enqueueOrNote_ends holding _ _).bind
        intro back still
        exact ih transitions back still
      · exact enduring.serveEvent_ends _ _ event (fun transitions => ih transitions) left

/-! ### Time and activities -/

theorem expire_ends (slot : UInt16)
    (viable : Viable kernel.definition tier inOrder progress.inst) :
    Ending kernel tier inOrder (kernel.expire slot progress) := by
  unfold expire
  apply ((timerOwner?_returns enduring.sound.wellFormed viable.states slot).ends _).bind
  intro owner known
  cases owner with
  | none => exact .pure viable
  | some state =>
    simp only [Definition.state_eq (known state rfl), ok_bind]
    have noted : Viable kernel.definition tier inOrder
        (progress.note (.timerFired slot state)).inst := viable
    exact (enduring.runAction_ends _ _ _ noted).bind fun acted left =>
      enqueueOrNote_ends left _ _

theorem advanceTimer_ends (delta : UInt32) {slot : Nat} (inside : slot < tier.timerCapacity)
    (viable : Viable kernel.definition tier inOrder progress.inst) :
    Ending kernel tier inOrder (kernel.advanceTimer delta progress slot) := by
  rw [← viable.tier_eq] at inside
  have writing (value : UInt32) : Ends (Tolerated inOrder) (progress.inst.setTimer slot value)
      (Viable kernel.definition tier inOrder) :=
    ((Instance.setTimer_returns .nothing inside value).ends _).mono fun _ spares =>
      viable.spare spares.leaves_eq spares.queueSound
  unfold advanceTimer
  apply ((Instance.timer_returns inside).ends _).bind
  intro remaining _
  split
  · exact .pure viable
  · split
    · exact (writing _).bind fun _ left => .pure left
    · apply (writing 0).bind
      intro inst left
      have disarmed : Viable kernel.definition tier inOrder (progress.withInst inst).inst := left
      exact enduring.expire_ends _ disarmed

theorem advanceTimers_ends (delta : UInt32)
    (viable : Viable kernel.definition tier inOrder progress.inst) :
    Ending kernel tier inOrder (kernel.advanceTimers delta progress) := by
  unfold advanceTimers
  split
  · exact .ok viable
  · refine Ends.foldlM_keeps (fun slot after listed left => ?_) viable
    rw [viable.tier_eq] at listed
    exact enduring.advanceTimer_ends delta (List.mem_range.1 listed) left

theorem continueActivity_ends (state action : UInt16)
    (viable : Viable kernel.definition tier inOrder progress.inst) :
    Ending kernel tier inOrder (kernel.continueActivity state action progress) := by
  unfold continueActivity
  split
  · exact .ok viable
  · exact enduring.invoke_ends action viable

theorem runActivitiesFrom_ends {slots : List Nat} {claims : List Claim}
    (inside : ∀ slot ∈ slots, slot < tier.leafCapacity)
    (claimed : ∀ slot ∈ claims.map Claim.slot, slot < tier.leafCapacity)
    (viable : Viable kernel.definition tier inOrder progress.inst) :
    Ending kernel tier inOrder (kernel.runActivitiesFrom slots claims progress) := by
  have wellFormed := enduring.sound.wellFormed
  induction slots generalizing claims progress with
  | nil => exact .ok viable
  | cons slot rest ih =>
    have first := inside slot (List.mem_cons_self ..)
    have later := fun other member => inside other (List.mem_cons_of_mem slot member)
    unfold runActivitiesFrom
    apply ((viable.leaf_returns first).ends _).bind
    intro leaf known
    split
    · exact .pure viable
    · next occupied =>
      have has := known.resolve_right occupied
      simp only [Definition.state_eq has, ok_bind]
      split
      · exact ih later claimed viable
      · let holds (_ : UInt16) (progress : Progress User) : Prop :=
          Viable kernel.definition tier inOrder progress.inst
        refine (climb_ends wellFormed holds ?_ (.inl has) viable).bind ?_
        · intro state after _ left
          apply ((isReached_known wellFormed left claimed state).ends _).mono
          intro _ _ _
          exact enduring.continueActivity_ends _ _ left
        · rintro after ⟨_, left⟩
          refine ih later (fun other member => ?_) left
          rw [List.map_append] at member
          rcases List.mem_append.1 member with earlier | last
          · exact claimed other earlier
          · exact List.mem_singleton.1 last ▸ first

/-! ### Ticks -/

theorem finish_ends (outcome : Outcome)
    (viable : Viable kernel.definition tier inOrder progress.inst) :
    Ends (Tolerated inOrder) (kernel.finish outcome progress) fun answer =>
      answer.1 = outcome := by
  have activity : Viable kernel.definition tier inOrder (progress.withPhase .activity).inst :=
    viable.write rfl rfl
  have inside : ∀ slot ∈ List.range (progress.withPhase .activity).inst.tier.leafCapacity,
      slot < tier.leafCapacity := by
    rw [activity.tier_eq]
    exact fun _ => List.mem_range.1
  unfold finish runActivities
  apply (enduring.runActivitiesFrom_ends inside (List.forall_mem_nil _) activity).bind
  intro after _
  exact .pure rfl

theorem conclude_ends {service : Service User}
    (viable : Viable kernel.definition tier inOrder service.reached.inst) :
    Ends (Tolerated inOrder) (kernel.conclude service) fun answer => answer.1 ≠ .skipped := by
  cases service with
  | started progress => exact (enduring.finish_ends .started viable).mono fun _ same => same ▸ nofun
  | served left transitions progress =>
    exact (enduring.finish_ends _ viable).mono fun _ same => same ▸ nofun
  | overflow progress => exact .ok nofun

theorem runPhases_ends (phase : Phase) (delta : UInt32)
    (viable : Viable kernel.definition tier inOrder progress.inst) :
    Ends (Tolerated inOrder) (kernel.runPhases phase delta progress) fun answer =>
      answer.1 ≠ .skipped := by
  have resting {progress : Progress User}
      (viable : Viable kernel.definition tier inOrder progress.inst) :
      Ends (Tolerated inOrder) (kernel.finish (.completed 0 0) progress) fun answer =>
        answer.1 ≠ .skipped :=
    (enduring.finish_ends _ viable).mono fun _ same => same ▸ nofun
  have entering {progress : Progress User}
      (viable : Viable kernel.definition tier inOrder progress.inst) :
      Ends (Tolerated inOrder)
        (kernel.enterPhase (kernel.serve kernel.limits.events.toNat 0) progress >>=
          kernel.conclude) fun answer => answer.1 ≠ .skipped :=
    (enduring.enterPhase_ends (enduring.serve_ends _ 0) viable).bind fun _ =>
      enduring.conclude_ends
  cases phase with
  | idle =>
    have idle : Viable kernel.definition tier inOrder (progress.withPhase .idle).inst :=
      viable.write rfl rfl
    unfold runPhases
    apply (enduring.advanceTimers_ends delta idle).bind
    intro aged left
    split
    · exact resting left
    · exact entering left
  | entry => exact entering viable
  | rtc =>
    exact (enduring.serveEvent_ends _ _ .completion (enduring.serve_ends _) viable).bind fun _ =>
      enduring.conclude_ends
  | activity => exact resting viable

/-- A tick comes to its end. -/
theorem tick_ends (delta : UInt32) {scene : Scene User}
    (viable : Viable kernel.definition tier inOrder scene.inst) :
    Ends (Tolerated inOrder) (kernel.tick delta scene) fun answer =>
      kernel.fits scene.inst = true → scene.inst.phase? ≠ none → answer.1 ≠ .skipped := by
  have begun : Viable kernel.definition tier inOrder (Progress.ofScene scene).inst := viable
  unfold tick
  simp only
  split
  · split
    · exact (enduring.runPhases_ends _ delta begun).mono fun _ taken _ _ => taken
    · next invalid => exact .ok fun _ valid => absurd invalid valid
  · next foreign => exact .ok fun fits => absurd fits foreign

end Enduring

/-! ### Compiled machines -/

theorem Viable.ofScene {definition : Definition} {scene : Scene User}
    (known : ∀ leaf ∈ scene.inst.leaves, definition.sections.Has leaf ∨ leaf = noIndex) :
    Viable definition scene.inst.tier scene.inst.QueueSound scene.inst :=
  ⟨rfl, known, id⟩

/-- A tick of a compiled machine ends. It returns if the cursors of the queue point into the ring,
and no walk goes on forever in any case. When it returns, no more events were taken from the queue
than the limits allow, and no event has set off more transitions than it may. -/
theorem tick_bounded {graph : Chart.Graph} {compiled : Chart.Compiled} (drawn : graph.Drawn)
    (compiles : graph.compile = .ok (.ok compiled)) (runs : kernel.definition = compiled.definition)
    (careful : kernel.dispatch.Careful compiled.definition) (delta : UInt32) (scene : Scene User)
    (room : compiled.definition.tier ≤ scene.inst.tier)
    (bound : scene.inst.machineId = compiled.definition.structureHash)
    (known : ∀ leaf ∈ scene.inst.leaves,
      compiled.definition.sections.Has leaf ∨ leaf = noIndex)
    (valid : scene.inst.phase? ≠ none) :
    (scene.inst.QueueSound → ∃ answer, kernel.tick delta scene = .ok answer) ∧
      kernel.tick delta scene ≠ .error .endless ∧
      ∀ outcome after, kernel.tick delta scene = .ok (outcome, after) → outcome ≠ .skipped ∧
        ∃ outlays, Spends kernel delta (.ofScene scene) outlays after ∧
          taken outlays ≤ kernel.limits.events.toNat ∧
          (∀ outlay ∈ outlays, outlay.count ≤ kernel.limits.rtcSteps.toNat) ∧
          ∀ events transitions, outcome = .completed events transitions →
            events = taken outlays := by
  rw [← runs] at careful room bound known
  have sound : kernel.definition.Sound := runs ▸ (drawn.sound compiles).1
  have enduring : Enduring kernel scene.inst.tier := ⟨sound, careful, room⟩
  have ends := enduring.tick_ends delta (Viable.ofScene known)
  have fits : kernel.fits scene.inst = true := by
    unfold fits
    rw [bound, decide_eq_true rfl, decide_eq_true room]
    rfl
  refine ⟨fun queue => ?_, ends.ne_error fun tolerated => tolerated.2 rfl, ?_⟩
  · obtain ⟨answer, ran, _⟩ := ends.returns fun _ tolerated => tolerated.1 queue
    exact ⟨answer, ran⟩
  · intro outcome after ran
    obtain ⟨outlays, spends, few, counted⟩ := (tick_balanced scene).of_eq _ ran
    refine ⟨?_, outlays, spends, few, spends.count_le, counted⟩
    rcases ends with ⟨_, same, taken⟩ | ⟨_, same, _⟩
    · rw [ran] at same
      cases same
      exact taken fits valid
    · rw [ran] at same
      cases same

section

open Chart.Graph

/-- A machine that does not come to rest: its one state is entered again as soon as it was
entered, and its action is run each time. -/
def mill : Chart.Graph :=
  (actor.addTransition 1 (some 1) .completion).2

theorem drawn_mill : mill.Drawn :=
  .addTransition (some 1) .completion drawn_actor (by decide +kernel)

theorem stateFindings_mill : mill.layOut.stateFindings 1 = [] := by
  have known : "Action378" ∈ mill.layOut.actions.names := mem_names_actor
  have acts : (mill.layOut.state 1).entry = some "Action378" := by decide +kernel
  unfold stateFindings
  simp only [acts]
  rw [List.flatMap_cons, actionFindings_eq_nil known]
  decide +kernel

theorem exists_compiled_mill : ∃ compiled, mill.compile = .ok (.ok compiled) := by
  refine drawn_mill.exists_compiled ?_ (by decide +kernel)
  have order : mill.layOut.order.toList = [0, 1] := by decide +kernel
  have root : mill.layOut.stateFindings 0 = [] := by decide +kernel
  rw [findings, order, List.flatMap_cons, List.flatMap_singleton, root, stateFindings_mill]
  decide +kernel

/-- An action that queues one more event whenever it is run. -/
def refill : Action Unit := fun scene => do
  let (_, inst) ← scene.inst.enqueue (Event.ofId 2) .normal
  return { scene with inst }

/-- The callbacks of a host that refills the queue. -/
def refilling : Dispatch Unit :=
  .ofAction "Action378" refill

theorem careful_refilling (definition : Definition) : refilling.Careful definition where
  action := by
    intro registration listed scene inOrder viable
    obtain rfl := List.mem_singleton.1 listed
    have queueing : Ends (Tolerated inOrder) (scene.inst.enqueue (Event.ofId 2) .normal)
        fun answer => Viable definition scene.inst.tier inOrder answer.2 :=
      viable.queueing (Instance.enqueue_ends _ _) fun sound =>
        (sound.enqueue_returns _ _).mono fun _ waits => waits.toSpares
    exact queueing.bind fun answer left => .pure left
  guard := nofun

theorem tick_bounded_mill :
    ∃ compiled, mill.compile = .ok (.ok compiled) ∧
      ∃ answer outlays,
        Kernel.tick ⟨compiled.definition, refilling, .default⟩ 16
          ⟨.fresh .tier256 compiled.definition.structureHash 1, (), .ofPage .blank⟩ =
            .ok answer ∧
        taken outlays ≤ 10 ∧ ∀ outlay ∈ outlays, outlay.count ≤ 100 := by
  obtain ⟨compiled, compiles⟩ := exists_compiled_mill
  have known : ∀ leaf ∈ (Instance.fresh .tier256 compiled.definition.structureHash 1).leaves,
      compiled.definition.sections.Has leaf ∨ leaf = noIndex :=
    fun _ listed => .inr (List.eq_of_mem_replicate listed)
  have fits : compiled.definition.tier ≤ Tier.tier256 := Tier.le_tier256 _
  have ready : Ready compiled.definition
      (.fresh .tier256 compiled.definition.structureHash 1) := .fresh fits _ 1
  let kernel : Kernel Unit := ⟨compiled.definition, refilling, .default⟩
  have runs : kernel.definition = compiled.definition := rfl
  obtain ⟨returns, -, spent⟩ := tick_bounded drawn_mill compiles runs (careful_refilling _) 16
    ⟨.fresh .tier256 compiled.definition.structureHash 1, (), .ofPage .blank⟩ fits rfl known nofun
  obtain ⟨answer, ran⟩ := returns ready.queueSound
  obtain ⟨-, outlays, -, few, short, -⟩ := spent _ _ ran
  exact ⟨compiled, compiles, answer, outlays, ran, few, short⟩

/-- An instance whose only state is active, and whose queue is said to begin behind the end of the
instance. -/
def astray (definition : Definition) : Instance :=
  { (Instance.fresh .tier256 definition.structureHash 1).withActiveLeaves [1] with
    head := 200
    count := 1 }

/-- A tick fails where the queue's cursor points behind the end of the instance, though the leaf
slots are those of a configuration. -/
theorem tick_astray :
    ∃ compiled, lone.compile = .ok (.ok compiled) ∧
      (bare compiled.definition).dispatch.Careful compiled.definition ∧
      compiled.definition.tier ≤ (astray compiled.definition).tier ∧
      (astray compiled.definition).machineId = compiled.definition.structureHash ∧
      Holds (astray compiled.definition).leaves [1] ∧
      compiled.definition.sections.Standing [1] ∧
      (astray compiled.definition).phase? = some .idle ∧
      ∀ answer, (bare compiled.definition).tick 0
        ⟨astray compiled.definition, (), .ofPage .blank⟩ ≠ .ok answer := by
  obtain ⟨compiled, compiles⟩ := exists_compiled_lone
  have tables : (do
      let definition ← lone.definition?
      return decide (definition.sections.Has 1 ∧
        (definition.sections.record 1).isLeaf = true ∧
        (definition.sections.record 1).parent = rootIndex ∧
        (definition.sections.record rootIndex).flags.parallel = false) &&
        match (bare definition).tick 0 ⟨astray definition, (), .ofPage .blank⟩ with
        | .ok _ => false
        | .error _ => true) = some true := by decide +kernel
  rw [drawn_lone.definition?_eq compiles] at tables
  obtain ⟨states, fails⟩ := Bool.and_eq_true_iff.1 (Option.some.inj tables)
  obtain ⟨has, childless, linked, alone⟩ := of_decide_eq_true states
  have fills : compiled.definition.sections.Fills [rootIndex] [1] :=
    .serial alone ⟨has, by decide, linked⟩ (.leaf has childless .nil)
  have inner : ∀ leaf ∈ [(1 : UInt16)], leaf ≠ noIndex := by
    intro leaf listed
    obtain rfl := List.mem_singleton.1 listed
    decide
  have holds : Holds (astray compiled.definition).leaves [1] :=
    Instance.holds_withActiveLeaves (Nat.one_le_iff_ne_zero.2 nofun) inner
  refine ⟨compiled, compiles, ⟨nofun, nofun⟩, Tier.le_tier256 _, rfl, holds,
    ⟨rootIndex, [1], .inl rfl, .refl _, fills⟩, rfl, fun answer ran => ?_⟩
  rw [ran] at fails
  cases fails

end

end Statechart.Kernel
