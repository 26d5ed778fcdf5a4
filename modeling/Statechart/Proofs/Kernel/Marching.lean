/-
# Ticks in lockstep

Hosts whose callbacks keep two instances alike (`Lockstep`) keep them alike over a whole tick: over
time that passes, events that are served and activities that go on. The second host's tick comes to
the same end as the first one's (`Lockstep.tick_tracks`).
-/

import Statechart.Proofs.Kernel.Lockstep

namespace Statechart.Kernel

open Rom (Definition StateRecord TransitionRecord noIndex rootIndex)

variable {User Other : Type}

/-- Runs to completion that ended alike. -/
def Completion.Pairs (same : Progress User → Progress Other → Prop) :
    Completion User → Completion Other → Prop
  | .settled steps progress, .settled others partner => others = steps ∧ same progress partner
  | .overflow progress, .overflow partner => same progress partner
  | _, _ => False

/-- The events of two ticks that were served alike. -/
def Service.Pairs (same : Progress User → Progress Other → Prop) :
    Service User → Service Other → Prop
  | .started progress, .started partner => same progress partner
  | .served budget transitions progress, .served left taken partner =>
      left = budget ∧ taken = transitions ∧ same progress partner
  | .overflow progress, .overflow partner => same progress partner
  | _, _ => False

/-- Ticks that came to the same end. -/
def Outcome.Pairs (same : Progress User → Progress Other → Prop)
    (answer : Outcome × Progress User) (other : Outcome × Progress Other) : Prop :=
  other.1 = answer.1 ∧ same answer.2 other.2

/-- What was good in the end was good before events were served. -/
theorem Affords.clean {kernel : Kernel User} {delta : UInt32} {budget : Nat}
    {before : Progress User} {service : Service User} {good : Trace.Entry → Prop}
    (affords : Affords kernel delta budget before service) (clean : Clean good service.reached) :
    Clean good before := by
  obtain ⟨_, spends, _⟩ := affords
  exact spends.trace_prefix.clean clean

/-- Serving events does not clean up. -/
theorem serve_honest {kernel : Kernel User} (good : Trace.Entry → Prop) (budget transitions : Nat)
    (progress : Progress User) :
    Yields (kernel.serve budget transitions progress) fun service =>
      Clean good service.reached → Clean good progress := by
  have serving : Yields (kernel.serve budget transitions progress)
      (Affords kernel 0 budget progress) := serve_affords budget transitions progress
  exact serving.mono fun _ => Affords.clean

/-- Neither does entering the default configuration, or serving events instead. -/
theorem enter_honest {kernel : Kernel User} (good : Trace.Entry → Prop) (budget : Nat)
    (progress : Progress User) :
    Yields (kernel.enterPhase (kernel.serve budget 0) progress) fun service =>
      Clean good service.reached → Clean good progress := by
  have serving : Yields (kernel.enterPhase (kernel.serve budget 0) progress)
      (Affords kernel 0 budget progress) := enterPhase_affords (serve_affords budget 0) progress
  exact serving.mono fun _ => Affords.clean

theorem finish_honest {kernel : Kernel User} (good : Trace.Entry → Prop) (outcome : Outcome)
    (progress : Progress User) :
    Yields (kernel.finish outcome progress) fun answer =>
      Clean good answer.2 → Clean good progress := by
  unfold finish
  apply (runActivities_moves _).bind
  intro after moves
  exact .pure moves.grows.clean

theorem conclude_honest {kernel : Kernel User} (good : Trace.Entry → Prop)
    (service : Service User) :
    Yields (kernel.conclude service) fun answer =>
      Clean good answer.2 → Clean good service.reached := by
  cases service with
  | started progress => exact finish_honest good .started progress
  | served _ _ progress => exact finish_honest good _ progress
  | overflow progress =>
    have noted : Grows progress (kernel.contain progress) := .note _ _
    exact .ok noted.clean

namespace Lockstep

variable {kernel : Kernel User} {dispatch : Dispatch Other} {good : Trace.Entry → Prop}
  {like : Instance → Instance → Prop} {moreLeaves moreTimers : List Nat}
  {same : Progress User → Progress Other → Prop}
  (lockstep : Lockstep kernel dispatch good like moreLeaves moreTimers same)
  {progress : Progress User} {partner : Progress Other} {state : UInt16}

include lockstep

theorem pairs_withPhase (phase : Phase) (pairs : same progress partner) :
    same (progress.withPhase phase) (partner.withPhase phase) :=
  lockstep.withInst pairs (lockstep.toMirrors.withPhase phase (lockstep.alike pairs))

theorem pairs_withSteps (steps : Nat) (pairs : same progress partner) :
    same (withSteps steps progress) (withSteps steps partner) :=
  lockstep.withInst pairs (lockstep.toMirrors.withSteps _ (lockstep.alike pairs))

theorem isStarted_eq (pairs : same progress partner) :
    partner.inst.isStarted = progress.inst.isStarted := by
  rw [Instance.isStarted_eq, Instance.isStarted_eq, lockstep.activeLeaves (lockstep.alike pairs)]

theorem queueIsEmpty_eq (pairs : same progress partner) :
    partner.inst.queueIsEmpty = progress.inst.queueIsEmpty :=
  lockstep.queueIsEmpty (lockstep.alike pairs)

/-! ### Transitions -/

theorem fire_tracks {transition : TransitionRecord} (event : UInt16)
    (tabled : Tabled kernel.definition transition) (pairs : same progress partner) :
    Tracks (Clean good) same (kernel.fire transition event progress)
      ((kernel.withDispatch dispatch).fire transition event partner) := by
  have noted : same
      (progress.note (.transition transition.source transition.target event))
      (partner.note (.transition transition.source transition.target event)) :=
    lockstep.note pairs trivial
  cases internal : transition.flags.isInternal with
  | true =>
    unfold fire
    rw [internal]
    exact lockstep.runAction_tracks (.effect tabled) noted
  | false =>
    rw [fire_of_external kernel internal, fire_of_external (kernel.withDispatch dispatch) internal]
    refine .read (.self _) fun top _ => ?_
    refine (lockstep.exitBelow_tracks top noted).bind (fun left => ?_) fun left other pairs => ?_
    · apply (runAction_errands _ _ _ left).bind
      intro acted acting
      apply (Yields.self _).bind
      intro chain _
      apply (Yields.self _).bind
      intro record _
      exact (descend_errands.enterPath _ acted).mono fun _ entering =>
        Errands.clean (acting.trans entering)
    · refine (lockstep.runAction_tracks (.effect tabled) pairs).bind (fun acted => ?_)
        fun acted other pairs => ?_
      · apply (Yields.self _).bind
        intro chain _
        apply (Yields.self _).bind
        intro record _
        exact (descend_errands.enterPath _ acted).mono fun _ => Errands.clean
      · refine .read (.self _) fun chain _ => .read (.self _) fun record _ => ?_
        exact lockstep.enterPath_tracks descend_errands lockstep.descend_tracks _ pairs

theorem runFrom_tracks (remaining steps : Nat) (event : Event) (pairs : same progress partner) :
    Tracks (fun completion => Clean good completion.reached) (Completion.Pairs same)
      (kernel.runFrom remaining steps event progress)
      ((kernel.withDispatch dispatch).runFrom remaining steps event partner) := by
  induction remaining generalizing steps event progress partner with
  | zero =>
    unfold runFrom
    refine (lockstep.select_tracks event pairs).bind ?_ ?_
    · rintro ⟨chosen, reached⟩
      cases chosen with
      | none => exact .pure id
      | some transition => exact .pure id
    · rintro ⟨_, reached⟩ ⟨chosen, other⟩ ⟨rfl, _, pairs⟩
      cases chosen with
      | none => exact .pure fun _ => ⟨rfl, pairs⟩
      | some transition => exact .pure fun _ => pairs
  | succ remaining ih =>
    have further (taken : Progress User) : Yields
        (kernel.runFrom remaining (steps + 1) .completion (withSteps (steps + 1) taken))
        fun completion => Clean good completion.reached → Clean good taken := by
      apply (runFrom_fires _ _ _ _).mono
      rintro completion ⟨_, fires, _⟩
      exact fires.grows.clean
    unfold runFrom
    refine (lockstep.select_tracks event pairs).bind ?_ ?_
    · rintro ⟨chosen, reached⟩
      cases chosen with
      | none => exact .pure id
      | some transition =>
        apply (fire_fires transition event.id reached).bind
        intro taken fires
        exact (further taken).mono fun _ earlier last => fires.grows.clean (earlier last)
    · rintro ⟨_, reached⟩ ⟨chosen, other⟩ ⟨rfl, tabled, pairs⟩
      cases chosen with
      | none => exact .pure fun _ => ⟨rfl, pairs⟩
      | some transition =>
        refine (lockstep.fire_tracks event.id (tabled transition rfl) pairs).bind further
          fun taken other pairs => ?_
        exact ih _ _ (lockstep.pairs_withSteps _ pairs)

theorem runToCompletion_tracks (event : Event) (pairs : same progress partner) :
    Tracks (fun completion => Clean good completion.reached) (Completion.Pairs same)
      (kernel.runToCompletion event progress)
      ((kernel.withDispatch dispatch).runToCompletion event partner) :=
  lockstep.runFrom_tracks _ 0 event (lockstep.pairs_withSteps 0 pairs)

/-! ### Events -/

theorem enterPhase_tracks {next : Progress User → Except Fault (Service User)}
    {nextOther : Progress Other → Except Fault (Service Other)}
    (goes : ∀ progress partner, same progress partner →
      Tracks (fun service => Clean good service.reached) (Service.Pairs same) (next progress)
        (nextOther partner))
    (pairs : same progress partner) :
    Tracks (fun service => Clean good service.reached) (Service.Pairs same)
      (kernel.enterPhase next progress)
      ((kernel.withDispatch dispatch).enterPhase nextOther partner) := by
  have entry := lockstep.pairs_withPhase .entry pairs
  unfold enterPhase
  show Tracks _ _ (if _ then _ else _) (if _ then _ else _)
  rw [lockstep.isStarted_eq entry]
  split
  · exact goes _ _ entry
  · have descending := lockstep.descend_tracks rootIndex _ _ entry
    refine descending.bind (fun after => ?_) fun after other pairs => ?_
    · exact .pure id
    · exact .pure fun _ => pairs

theorem serveEvent_tracks {budget transitions : Nat} (event : Event)
    {next : Nat → Progress User → Except Fault (Service User)}
    {nextOther : Nat → Progress Other → Except Fault (Service Other)}
    (affords : ∀ transitions progress,
      Yields (next transitions progress) (Affords kernel 0 budget progress))
    (goes : ∀ transitions progress partner, same progress partner →
      Tracks (fun service => Clean good service.reached) (Service.Pairs same)
        (next transitions progress) (nextOther transitions partner))
    (pairs : same progress partner) :
    Tracks (fun service => Clean good service.reached) (Service.Pairs same)
      (kernel.serveEvent budget transitions next event progress)
      ((kernel.withDispatch dispatch).serveEvent budget transitions nextOther event partner) := by
  have running := lockstep.pairs_withPhase .rtc pairs
  unfold serveEvent
  refine (lockstep.runToCompletion_tracks event running).bind (fun completion => ?_)
    fun completion other pairs => ?_
  · cases completion with
    | overflow after => exact .pure id
    | settled steps after =>
      show Yields (if _ then _ else _) _
      split
      · exact (enterPhase_affords (affords _) after).mono fun _ => Affords.clean
      · exact .pure id
  · cases completion with
    | overflow after =>
      cases other with
      | overflow afterOther => exact .pure fun _ => pairs
      | settled _ _ => exact pairs.elim
    | settled steps after =>
      cases other with
      | overflow _ => exact pairs.elim
      | settled stepsOther afterOther =>
        obtain ⟨rfl, pairs⟩ := pairs
        show Tracks _ _ (if _ then _ else _) (if _ then _ else _)
        rw [lockstep.queueIsEmpty_eq pairs]
        split
        · exact lockstep.enterPhase_tracks (goes _) pairs
        · exact .pure fun _ => ⟨rfl, rfl, pairs⟩

theorem serve_tracks (budget transitions : Nat) (pairs : same progress partner) :
    Tracks (fun service => Clean good service.reached) (Service.Pairs same)
      (kernel.serve budget transitions progress)
      ((kernel.withDispatch dispatch).serve budget transitions partner) := by
  induction budget generalizing transitions progress partner with
  | zero => exact .ok fun _ => ⟨rfl, rfl, pairs⟩
  | succ budget ih =>
    have alike := lockstep.alike pairs
    unfold serve
    refine (lockstep.dequeue alike).known.bind_clean ?_
    rintro ⟨_, left⟩ ⟨next, leftOver⟩ ⟨takes, takesToo, rfl, stillAlike⟩
    cases next with
    | none => exact .pure fun _ => ⟨rfl, rfl, pairs⟩
    | some event =>
      have taken := lockstep.withInst pairs stillAlike
      show Tracks _ _ (if _ then _ else _) (if _ then _ else _)
      split
      · have queues := lockstep.requeue { event.flags with deferred := false } alike takes takesToo
          stillAlike
        have back : Tracks (Clean good) same (requeue event (progress.withInst left))
            (requeue event (partner.withInst leftOver)) := lockstep.queueing_tracks queues taken
        refine back.bind (fun queued => ?_) fun queued other pairs => ih transitions pairs
        exact serve_honest good _ _ queued
      · refine lockstep.serveEvent_tracks event (fun transitions => serve_affords _ transitions)
          (fun transitions _ _ => ih transitions) (lockstep.note taken trivial)

/-! ### Time -/

theorem advanceTimer_tracks (delta : UInt32) (slot : Nat) (pairs : same progress partner) :
    Tracks (Clean good) same (kernel.advanceTimer delta progress slot)
      ((kernel.withDispatch dispatch).advanceTimer delta partner slot) := by
  have alike := lockstep.alike pairs
  unfold advanceTimer
  refine .read (lockstep.timer slot alike) fun remaining _ => ?_
  split
  · exact .pure fun _ => pairs
  · split
    · refine (lockstep.setTimer slot _ alike).bind_clean fun small large alike => ?_
      exact .pure fun _ => lockstep.withInst pairs alike
    · refine (lockstep.setTimer slot 0 alike).bind_clean fun small large alike => ?_
      have disarmed := lockstep.withInst pairs alike
      unfold expire
      rw [lockstep.activeLeaves (lockstep.alike disarmed)]
      refine .read (.self _) fun owner _ => ?_
      cases owner with
      | none => exact .pure fun _ => disarmed
      | some owner =>
        refine .read (.self _) fun record looked => ?_
        obtain ⟨has, rfl⟩ := (kernel.definition.state_yields owner).of_eq _ looked
        have noted := lockstep.note disarmed
          (show (Trace.Entry.timerFired (UInt16.ofNat slot) owner).Uncalled from trivial)
        refine (lockstep.runAction_tracks (.timer has) noted).bind (fun acted => ?_)
          fun acted other pairs => ?_
        · exact (enqueueOrNote_grows _ _ acted).mono fun _ => Grows.clean
        · exact lockstep.enqueueOrNote_tracks _ nofun pairs

theorem advanceTimers_tracks (delta : UInt32) (pairs : same progress partner) :
    Tracks (Clean good) same (kernel.advanceTimers delta progress)
      ((kernel.withDispatch dispatch).advanceTimers delta partner) := by
  have counting (slots : List Nat) := Tracks.foldlM
    (fun progress slot => (advanceTimer_yields progress slot).mono fun _ tock => tock.grows.clean)
    (fun progress partner slot pairs => lockstep.advanceTimer_tracks delta slot pairs) slots pairs
  unfold advanceTimers
  split
  · exact .ok fun _ => pairs
  · rw [lockstep.timerRange (lockstep.alike pairs)]
    constructor
    intro after ran clean
    obtain ⟨other, ranToo, pairs⟩ := (counting _).of_eq after ran clean
    -- No timer runs in a slot that only the second instance has.
    have idle : Returns
        (moreTimers.foldlM ((kernel.withDispatch dispatch).advanceTimer delta) other)
        (· = other) := by
      refine Returns.foldlM_keeps (fun slot waiting beyond same => ?_) rfl
      rw [same]
      unfold advanceTimer
      rw [lockstep.timerBeyond (lockstep.alike pairs) beyond, ok_bind, if_pos rfl]
      exact .pure rfl
    obtain ⟨_, idles, rfl⟩ := idle
    exact ⟨_, by rw [List.foldlM_append, ranToo, ok_bind, idles], pairs⟩

/-! ### Activities -/

theorem continueActivity_tracks (has : kernel.definition.sections.Has state)
    (pairs : same progress partner) :
    Tracks (Clean good) same
      (kernel.continueActivity state (kernel.definition.sections.record state).activityAction
        progress)
      ((kernel.withDispatch dispatch).continueActivity state
        (kernel.definition.sections.record state).activityAction partner) := by
  unfold continueActivity
  split
  · exact .ok fun _ => pairs
  · next some => exact lockstep.invoke pairs (.activity has some) rfl

theorem runActivitiesFrom_tracks (slots : List Nat) (claims : List Claim)
    (pairs : same progress partner) :
    Tracks (Clean good) same (kernel.runActivitiesFrom slots claims progress)
      ((kernel.withDispatch dispatch).runActivitiesFrom (slots ++ moreLeaves) claims partner) := by
  induction slots generalizing claims progress partner with
  | nil =>
    rw [List.nil_append]
    cases empty : moreLeaves with
    | nil => exact .ok fun _ => pairs
    | cons slot rest =>
      have beyond : partner.inst.leaf slot = .ok noIndex :=
        lockstep.leafBeyond (lockstep.alike pairs) (empty ▸ List.mem_cons_self ..)
      unfold runActivitiesFrom
      rw [beyond, ok_bind, if_pos rfl]
      exact .pure fun _ => pairs
  | cons slot rest ih =>
    rw [List.cons_append]
    unfold runActivitiesFrom
    refine .read (lockstep.leaf slot (lockstep.alike pairs)) fun leaf _ => ?_
    split
    · exact .pure fun _ => pairs
    · refine .read (.self _) fun record _ => ?_
      show Tracks _ _ (if _ then _ else _) (if _ then _ else _)
      split
      · exact ih _ (lockstep.note pairs trivial)
      · have visiting (state : UInt16) (record : StateRecord) (progress : Progress User) :
            Yields (kernel.continueActivity state record.activityAction progress) fun after =>
              Clean good after → Clean good progress :=
          (continueActivity_moves state _ progress).mono fun _ => Moves.clean
        refine Tracks.bind (climb_tracks visiting ?_ ?_ pairs) ?_ fun _ _ => ih _
        · intro state progress partner pairs
          exact lockstep.isReached_yields (lockstep.alike pairs) _
        · intro state progress partner has pairs
          exact lockstep.continueActivity_tracks has pairs
        · intro after
          exact (runActivitiesFrom_moves rest _ after).mono fun _ => Moves.clean

theorem runActivities_tracks (pairs : same progress partner) :
    Tracks (Clean good) same (kernel.runActivities progress)
      ((kernel.withDispatch dispatch).runActivities partner) := by
  unfold runActivities
  rw [lockstep.leafRange (lockstep.alike pairs)]
  exact lockstep.runActivitiesFrom_tracks _ [] pairs

/-! ### Ticks -/

theorem finish_tracks (outcome : Outcome) (pairs : same progress partner) :
    Tracks (fun answer => Clean good answer.2) (Outcome.Pairs same)
      (kernel.finish outcome progress)
      ((kernel.withDispatch dispatch).finish outcome partner) := by
  unfold finish
  refine (lockstep.runActivities_tracks (lockstep.pairs_withPhase .activity pairs)).bind
    (fun after => ?_) fun after other pairs => ?_
  · exact .pure id
  · exact .pure fun _ => ⟨rfl, lockstep.pairs_withPhase .idle pairs⟩

theorem contain_pairs (pairs : same progress partner) :
    same (kernel.contain progress) ((kernel.withDispatch dispatch).contain partner) := by
  have dropped := lockstep.withInst pairs (lockstep.dropped (lockstep.alike pairs))
  exact lockstep.note (lockstep.pairs_withPhase .idle dropped) trivial

theorem conclude_tracks {service : Service User} {other : Service Other}
    (pairs : Service.Pairs same service other) :
    Tracks (fun answer => Clean good answer.2) (Outcome.Pairs same) (kernel.conclude service)
      ((kernel.withDispatch dispatch).conclude other) := by
  cases service with
  | started progress =>
    cases other with
    | started partner => exact lockstep.finish_tracks _ pairs
    | served _ _ _ => exact pairs.elim
    | overflow _ => exact pairs.elim
  | served budget transitions progress =>
    cases other with
    | started _ => exact pairs.elim
    | served left taken partner =>
      obtain ⟨rfl, rfl, pairs⟩ := pairs
      exact lockstep.finish_tracks _ pairs
    | overflow _ => exact pairs.elim
  | overflow progress =>
    cases other with
    | started _ => exact pairs.elim
    | served _ _ _ => exact pairs.elim
    | overflow partner => exact .ok fun _ => ⟨rfl, lockstep.contain_pairs pairs⟩

theorem enter_tracks (pairs : same progress partner) :
    Tracks (fun answer => Clean good answer.2) (Outcome.Pairs same)
      (kernel.enterPhase (kernel.serve kernel.limits.events.toNat 0) progress >>= kernel.conclude)
      ((kernel.withDispatch dispatch).enterPhase
        ((kernel.withDispatch dispatch).serve kernel.limits.events.toNat 0) partner >>=
          (kernel.withDispatch dispatch).conclude) :=
  (lockstep.enterPhase_tracks (fun _ _ => lockstep.serve_tracks _ 0) pairs).bind
    (conclude_honest good) fun _ _ => lockstep.conclude_tracks

theorem runPhases_tracks (phase : Phase) (delta : UInt32) (pairs : same progress partner) :
    Tracks (fun answer => Clean good answer.2) (Outcome.Pairs same)
      (kernel.runPhases phase delta progress)
      ((kernel.withDispatch dispatch).runPhases phase delta partner) := by
  cases phase with
  | idle =>
    unfold runPhases
    refine (lockstep.advanceTimers_tracks delta (lockstep.pairs_withPhase .idle pairs)).bind
      (fun aged => ?_) fun aged other pairs => ?_
    · split
      · exact finish_honest good _ aged
      · apply (enter_honest good _ aged).bind
        intro service earlier
        exact (conclude_honest good service).mono fun _ later last => earlier (later last)
    · rw [lockstep.isStarted_eq pairs, lockstep.queueIsEmpty_eq pairs]
      split
      · exact lockstep.finish_tracks _ pairs
      · exact lockstep.enter_tracks pairs
  | entry => exact lockstep.enter_tracks pairs
  | rtc =>
    refine Tracks.bind (lockstep.serveEvent_tracks .completion ?_ ?_ pairs) (conclude_honest good)
      fun _ _ => lockstep.conclude_tracks
    · exact fun _ => serve_affords _ _
    · exact fun transitions _ _ => lockstep.serve_tracks _ transitions
  | activity => exact lockstep.finish_tracks _ pairs

/-- Where both instances fit the definition, both ticks come to the same end. -/
theorem tick_tracks (delta : UInt32) {scene : Scene User} {other : Scene Other}
    (pairs : same (.ofScene scene) (.ofScene other))
    (fits : kernel.fits other.inst = kernel.fits scene.inst) :
    Tracks (fun answer => Clean good answer.2) (Outcome.Pairs same) (kernel.tick delta scene)
      ((kernel.withDispatch dispatch).tick delta other) := by
  have phase : other.inst.phase? = scene.inst.phase? := lockstep.phase (lockstep.alike pairs)
  have fitsToo : (kernel.withDispatch dispatch).fits other.inst = kernel.fits scene.inst := fits
  unfold tick
  simp only [fitsToo, phase]
  split
  · split
    · exact lockstep.runPhases_tracks _ delta pairs
    · exact .ok fun _ => ⟨rfl, pairs⟩
  · exact .ok fun _ => ⟨rfl, pairs⟩

end Lockstep

end Statechart.Kernel
