/-
# What an event sets off

An event sets off a transition, and then completion is served as long as a transition applies.
`Unfolds` tells how far this has come, transition by transition, and knows of no limit. A run to
completion follows it, and it is given up exactly if as many transitions were taken as the limits
allow and one more applies (`runToCompletion_eq_overflow_iff`). If none applies then, it has
settled like any other (`runToCompletion_eq_settled_iff`).

What a tick comes to is what the part of it comes to that it ends in (`Within.rest_eq`). So a tick
overflows exactly if one of the runs to completion on its way does (`tick_eq_overflow_iff`).
-/

import Statechart.Proofs.Kernel.Calls

namespace Statechart.Kernel

open Rom (TransitionRecord)

variable {User : Type} {kernel : Kernel User} {event next : Event} {remaining steps : Nat}
  {start before reached : Progress User} {transition : TransitionRecord}

/-! ### Runs to completion -/

/-- From a moment on, an event has set off so many transitions. The event that is served next is
told, and the moment that was reached. -/
inductive Unfolds (kernel : Kernel User) (event : Event) (start : Progress User) :
    Nat → Event → Progress User → Prop
  | begun : Unfolds kernel event start 0 event start
  /-- One more transition applies and is taken. -/
  | taken {steps : Nat} {next : Event} {before chosen after : Progress User}
      {transition : TransitionRecord} : Unfolds kernel event start steps next before →
      kernel.select next before = .ok (some transition, chosen) →
      kernel.fire transition next.id chosen = .ok after →
      Unfolds kernel event start (steps + 1) .completion (withSteps (steps + 1) after)

/-- After so many transitions none applies any more. -/
def ComesToRest (kernel : Kernel User) (event : Event) (start : Progress User) (steps : Nat)
    (reached : Progress User) : Prop :=
  ∃ next before, Unfolds kernel event start steps next before ∧
    kernel.select next before = .ok (none, reached)

/-- After so many transitions one more applies. -/
def GoesOn (kernel : Kernel User) (event : Event) (start : Progress User) (steps : Nat)
    (reached : Progress User) : Prop :=
  ∃ next before transition, Unfolds kernel event start steps next before ∧
    kernel.select next before = .ok (some transition, reached)

theorem runFrom_of_none (rests : kernel.select next before = .ok (none, reached)) :
    kernel.runFrom remaining steps next before = .ok (.settled steps reached) := by
  unfold runFrom
  rw [rests]
  rfl

theorem runFrom_zero_of_some
    (applies : kernel.select next before = .ok (some transition, reached)) :
    kernel.runFrom 0 steps next before = .ok (.overflow reached) := by
  unfold runFrom
  rw [applies]
  rfl

theorem runFrom_succ_of_some {after : Progress User}
    (applies : kernel.select next before = .ok (some transition, reached))
    (fires : kernel.fire transition next.id reached = .ok after) :
    kernel.runFrom (remaining + 1) steps next before =
      kernel.runFrom remaining (steps + 1) .completion (withSteps (steps + 1) after) := by
  rw [runFrom, applies]
  simp only [ok_bind, fires]

/-- A run to completion takes the transitions that the event sets off, one after the other. -/
theorem Unfolds.runFrom_eq (unfolds : Unfolds kernel event start steps next before) :
    kernel.runFrom (steps + remaining) 0 event start =
      kernel.runFrom remaining steps next before := by
  induction unfolds generalizing remaining with
  | begun => rw [Nat.zero_add]
  | taken _ applies fires ih =>
    rw [Nat.add_right_comm, Nat.add_assoc, ih, runFrom_succ_of_some applies fires]

/-- Where a run to completion ends, if so many transitions may be taken. -/
def Completion.Follows (kernel : Kernel User) (event : Event) (start : Progress User)
    (limit : Nat) : Completion User → Prop
  | .settled steps reached => steps ≤ limit ∧ ComesToRest kernel event start steps reached
  | .overflow reached => GoesOn kernel event start limit reached

theorem runFrom_follows (unfolds : Unfolds kernel event start steps next before) :
    Yields (kernel.runFrom remaining steps next before)
      (Completion.Follows kernel event start (steps + remaining)) := by
  induction remaining generalizing steps next before with
  | zero =>
    unfold runFrom
    apply (Yields.self _).bind
    rintro ⟨chosen, reached⟩ selects
    cases chosen with
    | none => exact .pure ⟨Nat.le_refl _, next, before, unfolds, selects⟩
    | some transition => exact .pure ⟨next, before, transition, unfolds, selects⟩
  | succ remaining ih =>
    unfold runFrom
    apply (Yields.self _).bind
    rintro ⟨chosen, reached⟩ selects
    cases chosen with
    | none => exact .pure ⟨Nat.le_add_right .., next, before, unfolds, selects⟩
    | some transition =>
      apply (Yields.self _).bind
      intro after fires
      rw [Nat.add_comm remaining, ← Nat.add_assoc]
      exact ih (.taken unfolds selects fires)

/-- A run to completion settles exactly if no transition applies any more, after no more of them
than the limits allow. -/
theorem runToCompletion_eq_settled_iff :
    kernel.runToCompletion event before = .ok (.settled steps reached) ↔
      steps ≤ kernel.limits.rtcSteps.toNat ∧
        ComesToRest kernel event (withSteps 0 before) steps reached := by
  constructor
  · intro ran
    have follows := (runFrom_follows .begun).of_eq _ ran
    rwa [Nat.zero_add] at follows
  · rintro ⟨few, _, _, unfolds, rests⟩
    rw [runToCompletion, ← Nat.add_sub_cancel' few, unfolds.runFrom_eq, runFrom_of_none rests]

/-- A run to completion overflows exactly if one more transition applies after as many of them as
the limits allow. -/
theorem runToCompletion_eq_overflow_iff :
    kernel.runToCompletion event before = .ok (.overflow reached) ↔
      GoesOn kernel event (withSteps 0 before) kernel.limits.rtcSteps.toNat reached := by
  constructor
  · intro ran
    have follows := (runFrom_follows .begun).of_eq _ ran
    rwa [Nat.zero_add] at follows
  · rintro ⟨_, _, _, unfolds, applies⟩
    rw [runToCompletion, ← Nat.add_zero kernel.limits.rtcSteps.toNat, unfolds.runFrom_eq,
      runFrom_zero_of_some applies]

/-! ### The rest of a tick -/

/-- What a tick comes to that has come to one of its calls. Only the calls are meant that a tick
ends in. -/
def Call.rest? (kernel : Kernel User) : Call User → Option (Except Fault (Outcome × Progress User))
  | .tick delta scene => some (kernel.tick delta scene)
  | .resume budget transitions progress =>
      some (kernel.enterPhase (kernel.serve budget transitions) progress >>= kernel.conclude)
  | .serve budget transitions progress =>
      some (kernel.serve budget transitions progress >>= kernel.conclude)
  | .serveEvent budget transitions event progress =>
      some (kernel.serveEvent budget transitions (kernel.serve budget) event progress >>=
        kernel.conclude)
  | _ => none

variable {call callee : Call User} {delta : UInt32} {scene : Scene User}
  {run : Except Fault (Outcome × Progress User)} {after : Progress User}

theorem tick_of_phase? {phase : Phase} (fits : kernel.fits scene.inst = true)
    (stored : scene.inst.phase? = some phase) :
    kernel.tick delta scene = kernel.runPhases phase delta (.ofScene scene) := by
  simp only [tick, if_pos fits, stored]

theorem enterPhase_of_started {next : Progress User → Except Fault (Service User)}
    (started : (before.withPhase .entry).inst.isStarted = true) :
    kernel.enterPhase next before = next (before.withPhase .entry) := by
  simp only [enterPhase, if_pos started]

/-- The last thing that a part of a tick does is to call the next one. -/
theorem Calls.rest_eq (calls : kernel.Calls call callee) (rest : callee.rest? kernel = some run) :
    call.rest? kernel = some run := by
  cases calls with
  | idle fits stored ages goes =>
    cases rest
    refine congrArg some ((tick_of_phase? fits stored).trans ?_)
    simp only [runPhases, ages, ok_bind, goes]
    rfl
  | entry fits stored =>
    cases rest
    exact congrArg some (tick_of_phase? fits stored)
  | rtc fits stored =>
    cases rest
    exact congrArg some (tick_of_phase? fits stored)
  | started running =>
    cases rest
    exact congrArg (fun served => some (served >>= kernel.conclude)) (enterPhase_of_started running)
  | putBack takes deferred back =>
    cases rest
    refine congrArg (fun served => some (served >>= kernel.conclude)) ?_
    simp only [serve, takes, ok_bind, deferred, if_true, back]
  | take takes plain =>
    cases rest
    refine congrArg (fun served => some (served >>= kernel.conclude)) ?_
    simp only [serve, takes, ok_bind, plain]
    rfl
  | further ran left more =>
    cases rest
    refine congrArg (fun served => some (served >>= kernel.conclude)) ?_
    simp only [serveEvent, ran, ok_bind, decide_eq_true left, more]
    rfl
  | start | run | fire | again | exchange | last | onward | through | beside | region | initial |
      shallow | deep => cases rest

theorem Within.rest_eq (within : kernel.Within call callee)
    (rest : callee.rest? kernel = some run) : call.rest? kernel = some run := by
  induction within with
  | refl => exact rest
  | tail _ calls ih => exact ih (calls.rest_eq rest)

/-- A tick ends with the event that has settled when no more may be taken or none is left. -/
theorem tick_of_settled {budget transitions : Nat}
    (within : kernel.Within (.tick delta scene) (.serveEvent budget transitions event before))
    (settled : kernel.runToCompletion event (before.withPhase .rtc) = .ok (.settled steps reached))
    (last : budget = 0 ∨ reached.inst.queueIsEmpty = true) :
    kernel.tick delta scene = kernel.finish (.completed (kernel.limits.events.toNat - budget)
      (min (transitions + steps) maxTransitions)) reached := by
  have stops : (decide (0 < budget) && !reached.inst.queueIsEmpty) = false := by
    rcases last with rfl | none
    · rfl
    · rw [none, Bool.not_true, Bool.and_false]
  have ends : kernel.serveEvent budget transitions (kernel.serve budget) event before =
      .ok (.served budget (min (transitions + steps) maxTransitions) reached) := by
    simp only [serveEvent, settled, ok_bind, stops]
    rfl
  have rest : (Call.serveEvent budget transitions event before).rest? kernel =
      some (kernel.finish (.completed (kernel.limits.events.toNat - budget)
        (min (transitions + steps) maxTransitions)) reached) := by
    rw [Call.rest?, ends]
    rfl
  exact Option.some.inj (within.rest_eq rest)

/-! ### Overflows -/

/-- If serving events ends in an overflow, then one of them has overflown. -/
def Service.Overflown (kernel : Kernel User) (call : Call User) : Service User → Prop
  | .overflow reached => ∃ budget transitions event before,
      kernel.Within call (.serveEvent budget transitions event before) ∧
        kernel.runToCompletion event (before.withPhase .rtc) = .ok (.overflow reached)
  | _ => True

theorem Calls.overflown {service : Service User} (calls : kernel.Calls call callee)
    (overflown : service.Overflown kernel callee) : service.Overflown kernel call := by
  cases service with
  | overflow reached =>
    obtain ⟨budget, transitions, event, before, within, ran⟩ := overflown
    exact ⟨budget, transitions, event, before, .head calls within, ran⟩
  | _ => trivial

theorem enterPhase_overflown {budget transitions : Nat} {progress : Progress User}
    (goes : ∀ progress, Yields (kernel.serve budget transitions progress)
      (Service.Overflown kernel (.serve budget transitions progress))) :
    Yields (kernel.enterPhase (kernel.serve budget transitions) progress)
      (Service.Overflown kernel (.resume budget transitions progress)) := by
  unfold enterPhase
  show Yields (if _ then _ else _) _
  split
  · next running => exact (goes _).mono fun _ => (Calls.started running).overflown
  · exact (Yields.self _).bind fun _ _ => .pure trivial

theorem serveEvent_overflown {budget transitions : Nat} {event : Event} {progress : Progress User}
    (goes : ∀ transitions progress, Yields (kernel.serve budget transitions progress)
      (Service.Overflown kernel (.serve budget transitions progress))) :
    Yields (kernel.serveEvent budget transitions (kernel.serve budget) event progress)
      (Service.Overflown kernel (.serveEvent budget transitions event progress)) := by
  unfold serveEvent
  apply (Yields.self _).bind
  intro completion ran
  cases completion with
  | overflow reached =>
    have overflown : (Service.overflow reached).Overflown kernel
        (.serveEvent budget transitions event progress) :=
      ⟨budget, transitions, event, progress, .refl, ran⟩
    exact .pure overflown
  | settled steps after =>
    show Yields (if _ then _ else _) _
    split
    · next more =>
      obtain ⟨some, waiting⟩ := Bool.and_eq_true_iff.1 more
      have further : kernel.Calls (.serveEvent budget transitions event progress)
          (.resume budget (min (transitions + steps) maxTransitions) after) :=
        .further ran (of_decide_eq_true some) (Bool.not_eq_true' _ ▸ waiting)
      exact (enterPhase_overflown (goes _)).mono fun _ => further.overflown
    · exact .pure trivial

theorem serve_overflown (budget transitions : Nat) (progress : Progress User) :
    Yields (kernel.serve budget transitions progress)
      (Service.Overflown kernel (.serve budget transitions progress)) := by
  induction budget generalizing transitions progress with
  | zero => exact .ok trivial
  | succ budget ih =>
    unfold serve
    apply (Yields.self _).bind
    rintro ⟨next, inst⟩ takes
    cases next with
    | none => exact .pure trivial
    | some event =>
      show Yields (if _ then _ else _) _
      split
      · next deferred =>
        apply (Yields.self _).bind
        intro after back
        exact (ih transitions after).mono fun _ => (Calls.putBack takes deferred back).overflown
      · next plain =>
        exact (serveEvent_overflown ih).mono fun _ =>
          (Calls.take takes (Bool.eq_false_iff.2 plain)).overflown

/-- Only an overflow is told as one. -/
theorem conclude_overflow (service : Service User) :
    Yields (kernel.conclude service) fun answer => answer.1 = .rtcOverflow →
      ∃ reached, service = .overflow reached ∧ answer.2 = kernel.contain reached := by
  have finishing (outcome : Outcome) (normal : outcome ≠ .rtcOverflow)
      (progress : Progress User) : Yields (kernel.finish outcome progress) fun answer =>
        answer.1 = .rtcOverflow →
          ∃ reached, service = .overflow reached ∧ answer.2 = kernel.contain reached :=
    (Yields.self _).bind fun _ _ => .pure fun same => absurd same normal
  cases service with
  | started progress => exact finishing .started nofun progress
  | served budget transitions progress => exact finishing (.completed ..) nofun progress
  | overflow reached => exact .ok fun _ => ⟨reached, rfl, rfl⟩

/-- A tick that overflows gives up one of the runs to completion on its way. -/
theorem exists_of_tick_overflow (ran : kernel.tick delta scene = .ok (.rtcOverflow, after)) :
    ∃ budget transitions event before reached,
      kernel.Within (.tick delta scene) (.serveEvent budget transitions event before) ∧
        kernel.runToCompletion event (before.withPhase .rtc) = .ok (.overflow reached) ∧
        after = kernel.contain reached := by
  -- Serving events is the last thing that the tick does, wherever it was taken up.
  have serving {callee : Call User} {serving : Except Fault (Service User)}
      (calls : kernel.Calls (.tick delta scene) callee)
      (overflown : Yields serving (Service.Overflown kernel callee))
      (ends : serving >>= kernel.conclude = .ok (.rtcOverflow, after)) :
      ∃ budget transitions event before reached,
        kernel.Within (.tick delta scene) (.serveEvent budget transitions event before) ∧
          kernel.runToCompletion event (before.withPhase .rtc) = .ok (.overflow reached) ∧
          after = kernel.contain reached := by
    obtain ⟨service, served, concludes⟩ := Yields.exists_of_bind ends
    obtain ⟨reached, rfl, same⟩ := (conclude_overflow service).of_eq _ concludes rfl
    obtain ⟨budget, transitions, event, before, within, overflows⟩ :=
      overflown.of_eq _ served
    exact ⟨budget, transitions, event, before, reached, .head calls within, overflows, same⟩
  have resting {progress : Progress User}
      (ends : kernel.finish (.completed 0 0) progress = .ok (.rtcOverflow, after)) : False := by
    obtain ⟨_, _, same⟩ := Yields.exists_of_bind ends
    cases same
  have starting : ∀ progress, Yields (kernel.serve kernel.limits.events.toNat 0 progress) _ :=
    serve_overflown _ 0
  by_cases fits : kernel.fits scene.inst = true
  · cases stored : scene.inst.phase? with
    | none =>
      simp only [tick, if_pos fits, stored] at ran
      cases ran
    | some phase =>
      rw [tick_of_phase? fits stored] at ran
      cases phase with
      | idle =>
        obtain ⟨aged, ages, goes⟩ := Yields.exists_of_bind ran
        split at goes
        · exact absurd goes resting
        · next more =>
          exact serving (.idle fits stored ages (Bool.eq_false_iff.2 more))
            (enterPhase_overflown starting) goes
      | entry => exact serving (.entry fits stored) (enterPhase_overflown starting) ran
      | rtc => exact serving (.rtc fits stored) (serveEvent_overflown (serve_overflown _)) ran
      | activity => exact absurd ran resting
  · simp only [tick, if_neg fits] at ran
    cases ran

/-- A tick overflows exactly if one of the events that it serves sets off as many transitions as
the limits allow, and one more applies. -/
theorem tick_eq_overflow_iff :
    kernel.tick delta scene = .ok (.rtcOverflow, after) ↔
      ∃ budget transitions event before reached,
        kernel.Within (.tick delta scene) (.serveEvent budget transitions event before) ∧
          GoesOn kernel event (withSteps 0 (before.withPhase .rtc))
            kernel.limits.rtcSteps.toNat reached ∧
          after = kernel.contain reached := by
  constructor
  · intro ran
    obtain ⟨budget, transitions, event, before, reached, within, overflows, same⟩ :=
      exists_of_tick_overflow ran
    exact ⟨budget, transitions, event, before, reached, within,
      runToCompletion_eq_overflow_iff.1 overflows, same⟩
  · rintro ⟨budget, transitions, event, before, reached, within, goesOn, rfl⟩
    have ends : (Call.serveEvent budget transitions event before).rest? kernel =
        some (.ok (.rtcOverflow, kernel.contain reached)) := by
      rw [Call.rest?, serveEvent, runToCompletion_eq_overflow_iff.2 goesOn]
      rfl
    exact Option.some.inj (within.rest_eq ends)

end Statechart.Kernel
