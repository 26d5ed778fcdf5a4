/-
# Timers across a reload

A reload hands out timer slots anew, and an instance keeps what stands in its slots. So what
is left of a running timer is carried over exactly if its state gets the same slot again, which
the two graphs tell (`SlotClaim.slotFor`). In that case the timer runs out under the new machine
like any other: the state is still the owner of the slot (`Reliable.tick_expires`).
-/

import Statechart.Proofs.Chart.Allotment
import Statechart.Proofs.Kernel.Chronicle
import Statechart.Proofs.Kernel.Reloading
import Statechart.Proofs.Kernel.Timing

namespace Statechart

open Rom (Definition Sections noIndex rootIndex)

/-- States that are nested in one machine are so in every machine of its topology. -/
theorem Stays.Nested.of_topology {first second : Sections} {stays : Stays}
    (same : first.topology = second.topology) (nested : Nested first stays) :
    Nested second stays where
  child isOpen := by
    rw [← Sections.parent_eq_of_topology same]
    exact (nested.child isOpen).of_topology same
  above isOpen := by
    rw [← Sections.parent_eq_of_topology same]
    exact nested.above isOpen
  alone serial left right := by
    rw [← Sections.parallel_eq_of_topology same] at serial
    exact nested.alone serial (left.of_topology same.symm) (right.of_topology same.symm)

namespace Kernel

variable {User : Type} {definition old new : Definition} {pledge : Instance.Pledge}
  {idle : Prop} {kernel : Kernel User} {start stays : Stays} {delta : UInt32} {inst : Instance}
  {before after : Progress User} {state : UInt16} {slot : Nat} {remaining : UInt32}

theorem Accounted.of_topology (same : old.sections.topology = new.sections.topology)
    (accounted : Accounted old stays inst) : Accounted new stays inst where
  nested := accounted.nested.of_topology same
  exists_active := by
    obtain ⟨active, holds, open_iff⟩ := accounted.exists_active
    refine ⟨active, holds, fun state => (open_iff state).trans ?_⟩
    rw [Sections.active_iff_of_topology same]

namespace Happening

/-- Every happening leaves an instance behind whose active states can be accounted for. -/
theorem run_accounted (sound : definition.Sound) {happening : Happening User}
    (harmless : happening.Harmless pledge) (resting : Resting pledge definition inst)
    (accounted : ∃ stays, Accounted definition stays inst) :
    Returns (happening.run definition inst) fun answer =>
      Resting pledge definition answer.2 ∧ ∃ stays, Accounted definition stays answer.2 := by
  obtain ⟨stays, accounted⟩ := accounted
  cases happening with
  | queued event priority =>
    have queueing : Returns (inst.enqueue event priority) fun answer =>
        inst.Waits pledge answer.2 := resting.ready.queueSound.enqueue_returns event priority
    apply queueing.bind
    intro answer waits
    exact .pure ⟨resting.of_waits waits, stays, accounted.of_leaves_eq waits.leaves_eq⟩
  | remembered saved =>
    exact .ok ⟨resting.withHistory saved, stays, accounted.of_leaves_eq rfl⟩
  | ticked dispatch limits delta user commands =>
    have reliable : Reliable pledge { definition, dispatch, limits : Kernel User } :=
      ⟨sound, harmless⟩
    apply (reliable.tick_done delta resting accounted).bind
    rintro answer ⟨done, rests⟩
    exact .pure ⟨rests, _, done.left⟩

theorem leave_accounted (sound : definition.Sound) {happenings : List (Happening User)}
    (harmless : ∀ happening ∈ happenings, happening.Harmless pledge)
    (resting : Resting pledge definition inst)
    (accounted : ∃ stays, Accounted definition stays inst) :
    Returns (leave definition happenings inst) fun after =>
      Resting pledge definition after ∧ ∃ stays, Accounted definition stays after := by
  refine Returns.foldlM_keeps (fun happening inst listed kept => ?_) ⟨resting, accounted⟩
  apply (run_accounted sound (harmless happening listed) kept.1 kept.2).bind
  intro answer became
  exact .pure became

end Happening

/-! ### A timer that runs out -/

/-- Of the active states one timer slot is used by one at most. -/
theorem Matched.runsIn_unique {progress : Progress User} {active : List UInt16}
    (matched : Matched kernel start active progress)
    (wellFormed : kernel.definition.sections.WellFormed)
    (apart : kernel.definition.sections.TimersApart) {first second : UInt16}
    (isActive : kernel.definition.sections.Active active first)
    (alsoActive : kernel.definition.sections.Active active second)
    (runs : kernel.definition.sections.RunsIn first slot)
    (alsoRuns : kernel.definition.sections.RunsIn second slot) : first = second := by
  have reached {state : UInt16} (isActive : kernel.definition.sections.Active active state) :
      state = rootIndex ∨ (progress.stays start).Open state :=
    (em (state = rootIndex)).imp_right fun inner => (matched.open_iff state).2 ⟨inner, isActive⟩
  have has {state : UInt16} (isActive : kernel.definition.sections.Active active state) :
      kernel.definition.sections.Has state := by
    obtain ⟨_, _, below⟩ := isActive
    exact below.has_top
  rcases reached alsoActive with rfl | isOpen
  · rcases reached isActive with rfl | isOpen
    · rfl
    · exact (matched.nested.runsIn_unique wellFormed apart isOpen (.inl rfl) (has alsoActive) runs
        alsoRuns).symm
  · exact matched.nested.runsIn_unique wellFormed apart isOpen (reached isActive) (has isActive)
      alsoRuns runs

/-- What happens to one slot leaves the others alone. -/
theorem Tock.timers_of_ne {other : Nat} (tock : Tock kernel delta slot before after)
    (spares : kernel.dispatch.Preserves Instance.timers) (differs : slot ≠ other) :
    after.inst.timers[other]? = before.inst.timers[other]? := by
  have written {value : UInt32} {inst : Instance}
      (wrote : before.inst.setTimer slot value = .ok inst) :
      inst.timers[other]? = before.inst.timers[other]? := by
    obtain ⟨_, rfl⟩ := (Instance.setTimer_yields _).of_eq _ wrote
    exact List.getElem?_set_ne differs
  cases tock with
  | unarmed _ => rfl
  | waned _ _ wrote => exact written wrote
  | lapsed _ _ _ wrote _ => exact written wrote
  | @expired _ inst _ acted _ _ _ _ wrote _ ran queued =>
    have acting : acted.inst.timers = inst.timers :=
      (runAction_preserves spares _ _ _ _).of_eq _ ran
    obtain ⟨accepted, queue, put, rfl⟩ := (enqueueOrNote_yields _ _ _).of_eq _ queued
    have queueing : queue.timers = inst.timers :=
      ((Instance.enqueue_sameSlots _ _).of_eq _ put).timers_eq.trans acting
    split <;> exact (congrArg (·[other]?) queueing).trans (written wrote)

/-- The timer of an active state runs out when its slot's turn has come. -/
theorem Tock.expires (tock : Tock kernel delta slot before after)
    (wellFormed : kernel.definition.sections.WellFormed)
    (apart : kernel.definition.sections.TimersApart)
    (underway : Underway pledge kernel idle start before) {active : List UInt16}
    (holds : Holds before.inst.leaves active)
    (isActive : kernel.definition.sections.Active active state)
    (runs : kernel.definition.sections.RunsIn state slot)
    (found : before.inst.timers[slot]? = some remaining) (armed : remaining ≠ 0)
    (enough : remaining ≤ delta) :
    expirySteps kernel.definition (kernel.definition.sections.record state).timerSlot state <:+:
      after.trace.toList := by
  obtain ⟨others, also, _, has, matched⟩ := underway.states wellFormed
  obtain rfl := holds_unique holds also
  have slotEq : UInt16.ofNat slot = (kernel.definition.sections.record state).timerSlot := by
    rw [← runs.slot_eq, UInt16.ofNat_toNat]
  -- Whoever is asked for the owner of the slot finds the same leaves.
  have owner {inst : Instance} (wrote : before.inst.setTimer slot 0 = .ok inst) :
      Yields (timerOwner? kernel.definition (UInt16.ofNat slot) inst.activeLeaves) fun answer =>
        answer = some state := by
    obtain ⟨_, written⟩ := (Instance.setTimer_yields _).of_eq _ wrote
    have leaves : inst.leaves = before.inst.leaves := by rw [written]
    rw [Instance.activeLeaves_eq (leaves.symm ▸ holds)]
    apply (timerOwner?_yields wellFormed has _).mono
    intro answer told
    rw [slotEq, runs.slot_eq] at told
    cases answer with
    | none => exact absurd runs (told.2 rfl state isActive)
    | some owner =>
      obtain ⟨alsoActive, alsoRuns⟩ := told.1 owner rfl
      rw [matched.runsIn_unique wellFormed apart alsoActive isActive alsoRuns runs]
  cases tock with
  | unarmed none =>
    rw [found] at none
    exact absurd (Option.some.inj none) armed
  | waned here more _ =>
    rw [found] at here
    cases here
    exact absurd enough (UInt32.not_le.2 more)
  | lapsed _ _ _ wrote asked => cases (owner wrote).of_eq _ asked
  | expired _ _ _ wrote asked ran queued =>
    cases (owner wrote).of_eq _ asked
    obtain ⟨lost, -, grows⟩ := expiry_trace ran queued
    rw [slotEq] at grows
    exact ⟨_, lost, (List.append_assoc ..).trans grows.symm⟩

theorem Extends.infix (grown : Extends kernel start before after) {steps : List Trace.Entry}
    (told : steps <:+: before.trace.toList) : steps <:+: after.trace.toList := by
  obtain ⟨more, grows, -⟩ := grown
  rw [grows]
  exact told.trans (List.prefix_append ..).isInfix

namespace Reliable

variable (reliable : Reliable pledge kernel)

include reliable

/-- While time passes for some slots, the timer of an active state in one of them runs out. -/
theorem elapses_expires {slots : List Nat} (elapses : Elapses kernel delta slots before after)
    (apart : kernel.definition.sections.TimersApart)
    (spares : kernel.dispatch.Preserves Instance.timers)
    (underway : Underway pledge kernel idle start before) {active : List UInt16}
    (holds : Holds before.inst.leaves active)
    (isActive : kernel.definition.sections.Active active state)
    (runs : kernel.definition.sections.RunsIn state slot) (listed : slot ∈ slots)
    (found : before.inst.timers[slot]? = some remaining) (armed : remaining ≠ 0)
    (enough : remaining ≤ delta) :
    expirySteps kernel.definition (kernel.definition.sections.record state).timerSlot state <:+:
      after.trace.toList := by
  induction elapses with
  | nil => cases listed
  | @cons turn slots before middle after tock later ih =>
    by_cases own : turn = slot
    · subst own
      have now := tock.expires reliable.sound.wellFormed apart underway holds isActive runs found
        armed enough
      have onward : Extends kernel start middle after := later.extends.1
      exact onward.infix now
    · have soon := (List.mem_cons.1 listed).resolve_left (Ne.symm own)
      have kept := reliable.tock_kept tock underway.steady
      exact ih (reliable.tock_underway tock underway) (kept.holds holds) soon
        ((tock.timers_of_ne spares own).trans found)

/-- A timer that has no more left than the time that passes runs out in the tick, if its state
is active when the tick begins. -/
theorem tick_expires (apart : kernel.definition.sections.TimersApart)
    (spares : kernel.dispatch.Preserves Instance.timers) {scene : Scene User}
    (resting : Resting pledge kernel.definition scene.inst)
    (accounted : Accounted kernel.definition stays scene.inst)
    (fits : kernel.fits scene.inst = true) {active : List UInt16}
    (holds : Holds scene.inst.leaves active)
    (isActive : kernel.definition.sections.Active active state)
    (runs : kernel.definition.sections.RunsIn state slot)
    (found : scene.inst.timers[slot]? = some remaining) (armed : remaining ≠ 0)
    (enough : remaining ≤ delta) :
    ∃ outcome after, kernel.tick delta scene = .ok (outcome, after) ∧ outcome ≠ .skipped ∧
      expirySteps kernel.definition (kernel.definition.sections.record state).timerSlot state <:+:
        after.trace.toList := by
  have running := reliable.tick_ready delta resting.ready resting.pledged
  obtain ⟨⟨outcome, after⟩, ran, ⟨done, -⟩, -, -, ended⟩ :=
    (reliable.tick_done delta resting accounted).and running.yields
  refine ⟨outcome, after, ran, ?_⟩
  have taken : outcome ≠ .skipped := by
    rcases ended with ⟨foreign | unknown, -⟩ | ended
    · rw [fits] at foreign
      cases foreign
    · rw [resting.idle] at unknown
      cases unknown
    · exact ended.taken
  refine ⟨taken, ?_⟩
  obtain ⟨aged, passed, lands⟩ := (done.became.resolve_left fun skipped => taken skipped.1).2
  obtain ⟨_, path⟩ := lands.exists_path
  have began := (accounted.age delta.toNat).exists_active.imp fun active told =>
    (⟨told.1, (accounted.age delta.toNat).nested, told.2⟩ : Holds scene.inst.leaves active ∧
      Matched kernel (stays.age delta.toNat) active (.ofScene scene))
  have underway := (underway_ofScene resting.ready resting.pledged began).withPhase .idle
  refine path.extends.infix ?_
  rcases (advanceTimers_yields _).of_eq _ passed with ⟨still, -⟩ | ⟨-, elapses⟩
  · rw [still] at enough
    exact absurd (UInt32.le_zero_iff.1 enough) armed
  · refine reliable.elapses_expires elapses apart spares underway holds isActive runs ?_ found armed
      enough
    have inside := (List.getElem?_eq_some_iff.1 found).1
    rw [scene.inst.length_timers] at inside
    exact List.mem_range.2 inside

end Reliable

/-- What is left of a state's timer is found in its slot under both machines. If the state is
active, and no hash has collided, the timer runs out under the new machine in the first tick, if
in this tick enough time passes. -/
structure Carried (User : Type) (old new : Definition) (inst : Instance) (state : UInt16)
    (remaining : UInt32) : Prop where
  was : inst.timer (old.sections.record state).timerSlot.toNat = .ok remaining
  is : inst.timer (new.sections.record state).timerSlot.toNat = .ok remaining
  expires : old.sections.structureStream = new.sections.structureStream → remaining ≠ 0 →
    ∀ active, Holds inst.leaves active → old.sections.Active active state →
    ∀ kernel : Kernel User, kernel.definition = new → kernel.fits inst = true →
    kernel.dispatch.Harmless .nothing → kernel.dispatch.Preserves Instance.timers →
    ∀ delta user commands, remaining ≤ delta →
      ∃ outcome progress, kernel.tick delta ⟨inst, user, commands⟩ = .ok (outcome, progress) ∧
        outcome ≠ .skipped ∧
        expirySteps new (new.sections.record state).timerSlot state <:+: progress.trace.toList

/-- What a soft reload does to running timers. The slots of a state's timer under both machines
are those for its claims, and the instance is not touched; so where the two slots are the same,
the timer is carried over. -/
theorem countdowns_carried {first second : Chart.Graph} {before after : Chart.Compiled}
    (drawn : first.Drawn) (drawnToo : second.Drawn)
    (compiles : first.compile = .ok (.ok before)) (compilesToo : second.compile = .ok (.ok after))
    (soft : Reload.Outcome.classify (some before.definition) after.definition = .softReload)
    {tier : Tier} (room : before.definition.tier ≤ tier) (seed : UInt32)
    (past : List (Happening User)) (harmless : ∀ happening ∈ past, happening.Harmless .nothing) :
    ∃ inst,
      Happening.leave before.definition past
          (.fresh tier before.definition.structureHash seed) = .ok inst ∧
        (Reload.Outcome.classify (some before.definition) after.definition).apply inst =
          (false, inst) ∧
        ∀ state, before.definition.sections.Has state → after.definition.sections.Has state →
          (before.definition.sections.record state).hasTimer = true →
          (after.definition.sections.record state).hasTimer = true →
          ∃ claim ∈ first.timerClaims first.breadthFirst,
            ∃ other ∈ second.timerClaims second.breadthFirst,
              first.breadthFirst[state.toNat]? = some claim.state ∧
              second.breadthFirst[state.toNat]? = some other.state ∧
              (before.definition.sections.record state).timerSlot.toNat =
                claim.slotFor (first.timerClaims first.breadthFirst) ∧
              (after.definition.sections.record state).timerSlot.toNat =
                other.slotFor (second.timerClaims second.breadthFirst) ∧
              (claim.slotFor (first.timerClaims first.breadthFirst) =
                  other.slotFor (second.timerClaims second.breadthFirst) →
                ∃ remaining,
                  Carried User before.definition after.definition inst state remaining) := by
  have sound := (drawn.sound compiles).1
  have soundToo := (drawnToo.sound compilesToo).1
  have tiers := (Reload.Outcome.kept_iff.1 (.inr soft)).2
  obtain ⟨inst, left, rests, stays, accounted⟩ :=
    Happening.leave_accounted sound harmless (.fresh room seed trivial) ⟨_, .fresh _ _ seed⟩
  refine ⟨inst, left, Reload.Outcome.apply_eq_of_kept (.inr soft) inst, ?_⟩
  intro state has hasToo runs runsToo
  obtain ⟨claim, claimed, here, slot⟩ := drawn.timerSlot_eq compiles has runs
  obtain ⟨other, claimedToo, there, slotToo⟩ := drawnToo.timerSlot_eq compilesToo hasToo runsToo
  refine ⟨claim, claimed, other, claimedToo, here, there, slot, slotToo, fun same => ?_⟩
  rw [← slot, ← slotToo] at same
  have inside : (before.definition.sections.record state).timerSlot.toNat < inst.timers.length := by
    rw [inst.length_timers]
    exact Nat.lt_of_lt_of_le (Sections.timerSlot_lt sound.shaped has runs)
      (sound.modest.fits rests.ready.room).timers
  have found := List.getElem?_eq_getElem inside
  have reads : inst.timer (before.definition.sections.record state).timerSlot.toNat =
      .ok inst.timers[(before.definition.sections.record state).timerSlot.toNat] := by
    rw [Instance.timer, Instance.slot, found]
  refine ⟨_, reads, same ▸ reads, ?_⟩
  intro streams armed active holds isActive kernel runsNew fits callbacks spares delta user commands
    enough
  have topology := drawn.topology_eq drawnToo compiles compilesToo streams
  have reliable : Reliable .nothing kernel := ⟨runsNew ▸ soundToo, callbacks⟩
  have apart := drawnToo.timersApart compilesToo
  rw [← runsNew] at apart topology tiers runsToo ⊢
  exact reliable.tick_expires apart spares (rests.of_topology topology tiers)
    (accounted.of_topology topology) fits holds
    ((Sections.active_iff_of_topology topology).1 isActive) ⟨runsToo, runsNew ▸ same.symm⟩ found
    armed enough

section

open Chart.Graph

theorem countdowns_carried_clock :
    ∃ before after, clock.compile = .ok (.ok before) ∧
      slowClock.compile = .ok (.ok after) ∧ ∃ inst,
        Happening.leave before.definition twoTicks
            (.fresh .tier256 before.definition.structureHash 1) = .ok inst ∧
          ∃ remaining, Carried Unit before.definition after.definition inst 1 remaining := by
  obtain ⟨before, compiles⟩ := exists_compiled_clock
  obtain ⟨after, compilesToo⟩ := exists_compiled_slowClock
  have compared : (do
      let old ← clock.definition?
      let new ← slowClock.definition?
      return decide (Reload.Outcome.classify (some old) new = .softReload ∧
        old.sections.Has 1 ∧ new.sections.Has 1 ∧ (old.sections.record 1).hasTimer = true ∧
        (new.sections.record 1).hasTimer = true)) = some true := by decide +kernel
  rw [drawn_clock.definition?_eq compiles,
    drawn_slowClock.definition?_eq compilesToo] at compared
  obtain ⟨soft, has, hasToo, runs, runsToo⟩ := of_decide_eq_true (Option.some.inj compared)
  obtain ⟨inst, left, -, carried⟩ := countdowns_carried drawn_clock drawn_slowClock
    compiles compilesToo soft (Tier.le_tier256 _) 1 twoTicks (harmless_twoTicks .nothing)
  obtain ⟨claim, claimed, other, claimedToo, -, -, -, -, keeps⟩ :=
    carried 1 has hasToo runs runsToo
  refine ⟨before, after, compiles, compilesToo, inst, left, keeps ?_⟩
  have first : clock.timerClaims clock.breadthFirst = [⟨1, 1, none⟩] := by
    decide +kernel
  have second : slowClock.timerClaims slowClock.breadthFirst = [⟨1, 1, none⟩] := by
    decide +kernel
  rw [first] at claimed ⊢
  rw [second] at claimedToo ⊢
  rw [List.mem_singleton.1 claimed, List.mem_singleton.1 claimedToo]

/-- A tick without callbacks, in which no time passes. -/
def ticking : Happening Unit :=
  .ticked .empty .default 0 () (.ofPage .blank)

/-- A running timer that a soft reload loses: its state is active and has a timer under both
machines, but the slot under the new one is empty. -/
theorem countdown_lost :
    ∃ before after, bell.compile = .ok (.ok before) ∧ bells.compile = .ok (.ok after) ∧
      Reload.Outcome.classify (some before.definition) after.definition = .softReload ∧
      ∃ inst, Happening.leave before.definition [ticking]
          (.fresh .tier256 before.definition.structureHash 1) = .ok inst ∧
        inst.activeLeaves = [2] ∧
        (before.definition.sections.record 2).hasTimer = true ∧
        (after.definition.sections.record 2).hasTimer = true ∧
        inst.timer (before.definition.sections.record 2).timerSlot.toNat = .ok 100 ∧
        inst.timer (after.definition.sections.record 2).timerSlot.toNat = .ok 0 := by
  obtain ⟨before, compiles⟩ := exists_compiled_bell
  obtain ⟨after, compilesToo⟩ := exists_compiled_bells
  refine ⟨before, after, compiles, compilesToo, ?_⟩
  have ran : (do
      let old ← bell.definition?
      let new ← bells.definition?
      return decide (Reload.Outcome.classify (some old) new = .softReload) &&
        match Happening.leave old [ticking] (.fresh .tier256 old.structureHash 1) with
        | .ok inst => decide (inst.activeLeaves = [2] ∧ (old.sections.record 2).hasTimer = true ∧
            (new.sections.record 2).hasTimer = true ∧
            inst.timers[(old.sections.record 2).timerSlot.toNat]? = some 100 ∧
            inst.timers[(new.sections.record 2).timerSlot.toNat]? = some 0)
        | .error _ => false) = some true := by decide +kernel
  rw [drawn_bell.definition?_eq compiles, drawn_bells.definition?_eq compilesToo] at ran
  obtain ⟨soft, ran⟩ := Bool.and_eq_true_iff.1 (Option.some.inj ran)
  refine ⟨of_decide_eq_true soft, ?_⟩
  cases left : Happening.leave before.definition [ticking]
      (.fresh .tier256 before.definition.structureHash 1) with
  | error fault =>
    rw [left] at ran
    cases ran
  | ok inst =>
    rw [left] at ran
    obtain ⟨leaves, runs, runsToo, was, is⟩ := of_decide_eq_true ran
    refine ⟨inst, rfl, leaves, runs, runsToo, ?_, ?_⟩
    · rw [Instance.timer, Instance.slot, was]
    · rw [Instance.timer, Instance.slot, is]

end

end Kernel

end Statechart
