/-
# Starting over

A tick that starts an instance settles the root (`Reliable.exists_of_tick_started`), and settling a
state makes those leaves active that history leads to (`Reliable.descend_landing`). An instance that
is ticked for the first time has no history, so initial children alone lead to what becomes active.
An overflow leaves the history as it is. The next tick starts the instance over with it, and what is
active then is the same exactly if history leads there, too (`started_default_iff`).
-/

import Statechart.Proofs.Kernel.Arriving
import Statechart.Proofs.Kernel.Containment
import Statechart.Proofs.Kernel.History

namespace Statechart.Kernel

open Rom (Definition Sections StateRecord noIndex rootIndex)

variable {User : Type} {pledge : Instance.Pledge} {kernel : Kernel User}
  {progress before middle after : Progress User} {settle : Settle User}
  {history agenda others : List UInt16} {state child saved : UInt16}

/-! ### Descents -/

/-- What is restored is what a slot of history holds. -/
theorem restorable?_slot (state : UInt16) (record : StateRecord) (inst : Instance) :
    Yields (kernel.restorable? state record inst) fun named => ∀ saved, named = some saved →
      record.flags.history = true ∧ inst.history[record.historySlot.toNat]? = some saved := by
  have reading : Yields (inst.historyAt record.historySlot.toNat) fun saved =>
      inst.history[record.historySlot.toNat]? = some saved := by
    unfold Instance.historyAt Instance.slot
    split
    · next found => exact .ok found
    · exact .error
  unfold restorable?
  split
  · exact .pure nofun
  · next keeps =>
    have keeps : record.flags.history = true := by
      simp only [Bool.or_eq_true, Bool.not_eq_true', not_or, Bool.not_eq_false] at keeps
      exact keeps.1
    apply reading.bind
    intro held found
    have named {named : Option UInt16} (among : named = none ∨ named = some held) :
        Yields (pure named) fun named => ∀ saved, named = some saved →
          record.flags.history = true ∧ inst.history[record.historySlot.toNat]? = some saved := by
      refine .pure fun saved same => ?_
      rcases among with rfl | rfl
      · cases same
      · exact Option.some.inj same ▸ ⟨keeps, found⟩
    split
    · exact named (.inl rfl)
    · refine (Yields.self _).bind fun below _ => ?_
      split
      · exact named (.inl rfl)
      · split
        · exact named (.inr rfl)
        · refine (Yields.self _).bind fun parent _ => named ?_
          split
          · exact .inr rfl
          · exact .inl rfl

/-- What is restored is what the history of a state names. -/
theorem Reliable.restorable?_names (reliable : Reliable pledge kernel) (state : UInt16)
    (inst : Instance) :
    Yields (kernel.restorable? state (kernel.definition.sections.record state) inst) fun named =>
      ∀ saved, named = some saved ↔ kernel.definition.sections.Names inst.history state saved := by
  refine ⟨fun named ran saved => ⟨?_, fun names => ?_⟩⟩
  · rintro rfl
    obtain ⟨keeps, slot⟩ := (restorable?_slot state _ inst).of_eq _ ran _ rfl
    obtain ⟨beneath, proper, direct⟩ := (reliable.restorable?_yields state inst).of_eq _ ran _ rfl
    exact ⟨keeps, slot, beneath, proper, direct⟩
  · exact Except.ok.inj (ran.symm.trans (restorable?_of_names reliable.sound.wellFormed names))

/-- States were entered and settled, and those leaves became active that history leads to. No
history was written. -/
structure Landed (kernel : Kernel User) (history agenda : List UInt16)
    (before after : Progress User) : Prop where
  history_eq : after.inst.history = history
  exists_reached : ∃ entered filled,
    kernel.definition.sections.Reaches (kernel.definition.sections.Guides history) agenda filled ∧
      Arrives kernel entered filled before after

namespace Landed

theorem queueSound (landed : Landed kernel history agenda before after) :
    after.inst.QueueSound := by
  obtain ⟨-, _, _, -, arrives⟩ := landed
  exact arrives.queueSound

theorem append (first : Landed kernel history agenda before middle)
    (second : Landed kernel history others middle after) :
    Landed kernel history (agenda ++ others) before after := by
  obtain ⟨-, _, _, reaches, arrives⟩ := first
  obtain ⟨same, _, _, onward, arrivesToo⟩ := second
  exact ⟨same, _, _, reaches.append onward, arrives.append arrivesToo⟩

/-- Entering a state, and settling it. -/
theorem enter (entered : Arrives kernel [state] [] before middle)
    (landed : Landed kernel history [state] middle after) :
    Landed kernel history [state] before after := by
  obtain ⟨same, _, _, reaches, arrives⟩ := landed
  exact ⟨same, _, _, reaches, entered.append arrives⟩

/-- A state is settled that hands over to the child that it is to. -/
theorem serial (alone : (kernel.definition.sections.record state).flags.parallel = false)
    (linked : kernel.definition.sections.Child state child)
    (guides : kernel.definition.sections.Guides history state child)
    (landed : Landed kernel history [child] before after) :
    Landed kernel history [state] before after := by
  obtain ⟨same, _, _, reaches, arrives⟩ := landed
  exact ⟨same, _, _, .serial alone linked guides reaches, arrives⟩

/-- A parallel state is settled by entering its children. -/
theorem parallel (has : kernel.definition.sections.Has state)
    (inner : (kernel.definition.sections.record state).isLeaf = false)
    (parallel : (kernel.definition.sections.record state).flags.parallel = true)
    (landed : Landed kernel history (kernel.definition.sections.record state).children.words before
      after) : Landed kernel history [state] before after := by
  obtain ⟨same, _, _, reaches, arrives⟩ := landed
  exact ⟨same, _, _, .parallel has inner parallel (by rwa [List.append_nil]), arrives⟩

end Landed

/-- `settle` lands where history leads from every state whose history it looks at. -/
def Landing (kernel : Kernel User) (history : List UInt16) (settle : Settle User) : Prop :=
  ∀ state progress, kernel.definition.sections.Has state →
    kernel.definition.sections.Consults history state → progress.inst.QueueSound →
    progress.inst.history = history →
    Yields (settle state progress) (Landed kernel history [state] progress)

/-- States are entered and settled one after the other. -/
theorem foldlM_lands {step : Progress User → UInt16 → Except Fault (Progress User)}
    (each : ∀ child ∈ agenda, ∀ progress : Progress User, progress.inst.QueueSound →
      progress.inst.history = history →
      Yields (step progress child) (Landed kernel history [child] progress))
    (sound : progress.inst.QueueSound) (same : progress.inst.history = history) :
    Yields (agenda.foldlM step progress) (Landed kernel history agenda progress) := by
  induction agenda generalizing progress with
  | nil => exact .ok ⟨same, [], [], .nil, .refl sound⟩
  | cons child rest ih =>
    rw [List.foldlM_cons]
    apply (each child (List.mem_cons_self ..) progress sound same).bind
    intro middle landed
    apply (ih (fun other later => each other (List.mem_cons_of_mem _ later)) landed.queueSound
      landed.history_eq).mono
    exact fun after more => landed.append more

namespace Reliable

variable (reliable : Reliable pledge kernel) (spares : kernel.dispatch.Preserves Instance.history)

include reliable spares

theorem enterState_lands (state : UInt16) (sound : progress.inst.QueueSound) :
    Yields (kernel.enterState state progress) fun after =>
      Arrives kernel [state] [] progress after ∧
        after.inst.history = progress.inst.history := by
  apply ((reliable.enterState_arrives state sound).and
    (enterState_enters spares state progress)).mono
  exact fun after both => ⟨both.1, both.2.history_eq⟩

theorem enterAndSettle_lands (landing : Landing kernel history settle)
    (has : kernel.definition.sections.Has state)
    (consults : kernel.definition.sections.Consults history state)
    (sound : progress.inst.QueueSound) (same : progress.inst.history = history) :
    Yields (kernel.enterAndSettle settle state progress)
      (Landed kernel history [state] progress) := by
  apply (reliable.enterState_lands spares state sound).bind
  rintro middle ⟨entered, unwritten⟩
  exact (landing state middle has consults entered.queueSound (unwritten.trans same)).mono
    fun after landed => landed.enter entered

/-- Entering the way to what history names lands where history leads from the way's first state. -/
theorem enterPath_lands (landing : Landing kernel history settle) {top first target : UInt16}
    {rest : List UInt16} (way : kernel.definition.sections.Way first rest target)
    (linked : kernel.definition.sections.Child top first)
    (heads : kernel.definition.sections.Heads history top target)
    (sound : progress.inst.QueueSound) (same : progress.inst.history = history) :
    Yields (kernel.enterPath settle (first :: rest) progress)
      (Landed kernel history [first] progress) := by
  have wellFormed := reliable.sound.wellFormed
  induction way generalizing top progress with
  | @here first _ =>
    have consults : kernel.definition.sections.Consults history first :=
      Rom.Sections.consults_of_child wellFormed linked fun _ headsToo _ =>
        headsToo.unique wellFormed heads
    exact reliable.enterAndSettle_lands spares landing linked.has consults sound same
  | @down first next target rest onward way ih =>
    have below := way.beneath onward.has
    have proper : target ≠ first := by
      rintro rfl
      exact wellFormed.child_ne onward (below.antisymm wellFormed
        (wellFormed.beneath_of_child onward))
    have goesOn := heads.of_child linked ((wellFormed.beneath_of_child onward).trans below) proper
    rw [enterPath_cons_cons]
    apply (reliable.enterState_lands spares first sound).bind
    rintro middle ⟨entered, unwritten⟩
    have unchanged := unwritten.trans same
    simp only [Definition.state_eq linked.has, ok_bind]
    refine Yields.mono ?_ fun after landed => Landed.enter entered landed
    split
    · next parallel =>
      refine (foldlM_lands ?_ entered.queueSound unchanged).mono fun after landed =>
        landed.parallel linked.has (wellFormed.inner_of_child onward) parallel
      intro child listed progress sound same
      have own := (wellFormed.mem_words linked.has).1 listed
      unfold enterBeside
      split
      · next isNext => exact isNext ▸ ih onward goesOn sound same
      · next beside =>
        -- A region beside the way is settled by its own history.
        refine reliable.enterAndSettle_lands spares landing own.has ?_ sound same
        refine Rom.Sections.consults_of_child wellFormed own fun _ headsToo beneath => ?_
        rw [headsToo.unique wellFormed goesOn] at beneath
        exact absurd (wellFormed.child_eq own onward beneath below) beside
    · next serial =>
      refine (ih onward goesOn entered.queueSound unchanged).mono fun after landed =>
        landed.serial (Bool.eq_false_iff.2 serial) onward ⟨fun _ headsToo => ?_, fun none => ?_⟩
      · exact headsToo.unique wellFormed goesOn ▸ below
      · exact absurd goesOn (none target)

/-- A descent lands where history leads. -/
theorem descendFrom_landing (levels : Nat) :
    Landing kernel history (kernel.descendFrom levels) := by
  have wellFormed := reliable.sound.wellFormed
  induction levels with
  | zero => exact fun _ _ _ _ _ _ => .error
  | succ levels ih =>
    intro state progress has consults sound same
    have heads_iff (target : UInt16) : kernel.definition.sections.Heads history state target ↔
        kernel.definition.sections.Names history state target := consults.heads_iff wellFormed
    rw [descendFrom_succ, descendBy, Definition.state_eq has, ok_bind]
    split
    · next childless =>
      apply ((reliable.addLeaf_arrives has sound).and (addLeaf_idles state progress)).mono
      rintro after ⟨arrives, idles⟩
      exact ⟨idles.history_eq.trans same, _, _, .leaf has childless .nil, arrives⟩
    · next branching =>
      have inner := Bool.eq_false_iff.2 branching
      split
      · next parallel =>
        refine (foldlM_lands ?_ sound same).mono fun after landed =>
          landed.parallel has inner parallel
        intro child listed progress sound same
        have own := (wellFormed.mem_words has).1 listed
        refine reliable.enterAndSettle_lands spares ih own.has ?_ sound same
        refine Rom.Sections.consults_of_child wellFormed own fun target heads _ => ?_
        have alone := (wellFormed.history has ((heads_iff target).1 heads).keeps).2.1
        exact absurd (alone.symm.trans parallel) (by decide)
      · next serial =>
        have alone := Bool.eq_false_iff.2 serial
        apply (reliable.restorable?_names state progress.inst).bind
        intro named told
        rw [same] at told
        -- The child that is entered is where history leads, and it is on its own from there.
        have entering {child : UInt16} (linked : kernel.definition.sections.Child state child)
            (guides : kernel.definition.sections.Guides history state child)
            (ends : ∀ target, kernel.definition.sections.Names history state target →
              kernel.definition.sections.Beneath child target → target = child) :
            Yields (kernel.enterAndSettle (kernel.descendFrom levels) child progress)
              (Landed kernel history [state] progress) := by
          refine (reliable.enterAndSettle_lands spares ih linked.has ?_ sound same).mono
            fun after landed => landed.serial alone linked guides
          exact Rom.Sections.consults_of_child wellFormed linked fun target heads =>
            ends target ((heads_iff target).1 heads)
        cases named with
        | none =>
          have none (target : UInt16) : ¬ kernel.definition.sections.Names history state target :=
            fun names => Option.some_ne_none target ((told target).2 names).symm
          have guides : kernel.definition.sections.Guides history state
              (defaultChild (kernel.definition.sections.record state)) := by
            refine ⟨fun target heads => absurd ((heads_iff target).1 heads) (none target),
              fun _ => ?_⟩
            rw [defaultChild, if_neg (wellFormed.initialChild_ne_noIndex has inner alone)]
          exact entering (reliable.child_defaultChild has inner alone) guides
            fun target names => absurd names (none target)
        | some saved =>
          have names := (told saved).1 rfl
          have guides {child : UInt16}
              (beneath : kernel.definition.sections.Beneath child saved) :
              kernel.definition.sections.Guides history state child := by
            refine ⟨fun target heads => ?_, fun none => ?_⟩
            · exact ((heads_iff target).1 heads).unique names ▸ beneath
            · exact absurd ((heads_iff saved).2 names) (none saved)
          simp only [enterNamed]
          split
          · apply (reliable.restoredPath_returns names.beneath).yields.bind
            intro path way
            cases way with
            | here _ => exact absurd rfl names.proper
            | down linked rest =>
              exact (reliable.enterPath_lands spares ih rest linked ((heads_iff saved).2 names)
                sound same).mono fun after landed =>
                  landed.serial alone linked (guides (rest.beneath linked.has))
          · next shallow =>
            have linked := names.direct (Bool.eq_false_iff.2 shallow)
            exact entering linked (guides (.self linked.has))
              fun target namesToo _ => namesToo.unique names

/-- Settling a state lands where history leads. -/
theorem descend_landing : Landing kernel history kernel.descend :=
  reliable.descendFrom_landing spares maxLevels

end Reliable

/-! ### Starting -/

/-- A configuration has an active leaf. -/
theorem Configured.isStarted (wellFormed : kernel.definition.sections.WellFormed)
    (configured : Configured pledge kernel False progress) : progress.inst.isStarted = true := by
  obtain ⟨active, holds, standing | ⟨none, -⟩⟩ := configured.exists_active
  · obtain ⟨start, leaves, -, same, fills⟩ := standing
    obtain ⟨leaf, listed, -⟩ := fills.exists_mem wellFormed (List.mem_singleton.2 rfl)
    exact (Instance.isStarted_iff holds).2 (List.ne_nil_of_mem (same.mem_iff.2 listed))
  · exact none.elim

/-- The events of a tick have not ended with a start. -/
def Service.RunsOn : Service User → Prop
  | .started _ => False
  | _ => True

/-- Only a start is told as one. -/
theorem conclude_started (service : Service User) :
    Yields (kernel.conclude service) fun answer => answer.1 = .started →
      ∃ entered, service = .started entered ∧ kernel.finish .started entered = .ok answer := by
  cases service with
  | started entered => exact (Yields.self _).mono fun answer ran _ => ⟨entered, rfl, ran⟩
  | served budget transitions progress =>
    have finishing : Yields (kernel.conclude (.served budget transitions progress)) fun answer =>
        answer.1 ≠ .started := (Yields.self _).bind fun _ _ => .pure nofun
    exact finishing.mono fun _ other same => absurd same other
  | overflow progress => exact .ok nofun

namespace Reliable

variable (reliable : Reliable pledge kernel)

include reliable

theorem serveEvent_runsOn (budget transitions : Nat)
    {next : Nat → Progress User → Except Fault (Service User)} (event : Event)
    (goes : ∀ transitions progress, Configured pledge kernel False progress →
      Yields (next transitions progress) Service.RunsOn)
    (configured : Configured pledge kernel False progress) :
    Yields (kernel.serveEvent budget transitions next event progress) Service.RunsOn := by
  unfold serveEvent
  apply (reliable.runToCompletion_returns event (configured.withPhase .rtc)).yields.bind
  intro completion still
  cases completion with
  | overflow after => exact .pure trivial
  | settled steps after =>
    show Yields (if _ then _ else _) _
    split
    · have entry : Configured pledge kernel False (after.withPhase .entry) :=
        Configured.withPhase still .entry
      unfold enterPhase
      simp only [entry.isStarted reliable.sound.wellFormed, if_true]
      exact goes _ _ entry
    · exact .pure trivial

/-- A running instance does not start over while its events are served. -/
theorem serve_runsOn (budget : Nat) : ∀ transitions progress,
    Configured pledge kernel False progress →
      Yields (kernel.serve budget transitions progress) Service.RunsOn := by
  induction budget with
  | zero => exact fun _ _ _ => .ok trivial
  | succ budget ih =>
    intro transitions progress configured
    have taking : Returns progress.inst.dequeue fun answer =>
        progress.inst.Spares pledge answer.2 := configured.steady.queueSound.dequeue_returns
    unfold serve
    apply taking.yields.bind
    rintro ⟨next, inst⟩ spares
    have kept : Kept pledge kernel progress (progress.withInst inst) :=
      configured.steady.spare rfl spares
    cases next with
    | none => exact .pure trivial
    | some event =>
      show Yields (if _ then _ else _) _
      split
      · apply (kept.steady.enqueueOrNote_returns _ _).yields.bind
        intro after queued
        exact ih _ _ (configured.of_kept (kept.trans queued))
      · have other (state : UInt16) :
            Trace.Entry.leafOverflow state ≠ .event event.id event.priority := by
          intro same
          cases same
        have noted := kept.trans (kept.steady.note other)
        exact reliable.serveEvent_runsOn _ _ event ih (configured.of_kept noted)

/-- A tick that starts an idle instance lets time pass, settles the root, and lets the activities
go on. -/
theorem exists_of_tick_started {delta : UInt32} {scene : Scene User}
    (ready : Ready kernel.definition scene.inst) (pledged : pledge.Of scene.inst)
    (idle : scene.inst.phase? = some .idle)
    (ran : kernel.tick delta scene = .ok (.started, after)) :
    ∃ aged entered,
      kernel.advanceTimers delta ((Progress.ofScene scene).withPhase .idle) = .ok aged ∧
      Steady pledge kernel aged ∧ Holds aged.inst.leaves [] ∧
      kernel.descend rootIndex (aged.withPhase .entry) = .ok entered ∧
      kernel.finish .started entered = .ok (.started, after) := by
  have wellFormed := reliable.sound.wellFormed
  have begins : Configured pledge kernel True (.ofScene scene) :=
    ⟨⟨ready.room, ready.queueSound, pledged, fun _ => Array.not_mem_empty _⟩, ready.exists_active⟩
  have resting := begins.withPhase .idle
  obtain ⟨active, holds, -, states⟩ := resting.states wellFormed
  have fits : kernel.fits scene.inst = true := by
    apply Classical.byContradiction
    intro foreign
    simp only [tick, if_neg foreign] at ran
    cases ran
  rw [tick_of_phase? fits idle] at ran
  obtain ⟨aged, ages, goes⟩ := Yields.exists_of_bind ran
  have kept : Kept pledge kernel ((Progress.ofScene scene).withPhase .idle) aged :=
    (reliable.advanceTimers_returns delta holds states resting.steady).yields.of_eq _ ages
  have configured := resting.of_kept kept
  split at goes
  · obtain ⟨_, _, same⟩ := Yields.exists_of_bind goes
    cases same
  · obtain ⟨service, enters, concludes⟩ := Yields.exists_of_bind goes
    obtain ⟨entered, rfl, finishes⟩ := (conclude_started service).of_eq _ concludes rfl
    have entry := configured.withPhase .entry
    unfold enterPhase at enters
    cases running : (aged.withPhase .entry).inst.isStarted with
    | true =>
      simp only [running, if_true] at enters
      exact ((reliable.serve_runsOn _ _ _ (entry.started running)).of_eq _ enters).elim
    | false =>
      simp only [running, Bool.false_eq_true, if_false] at enters
      obtain ⟨reached, descends, same⟩ := Yields.exists_of_bind enters
      cases same
      obtain ⟨active, holds, -⟩ := entry.exists_active
      obtain rfl := Instance.eq_nil_of_not_started holds running
      exact ⟨aged, entered, ages, configured.steady, holds, descends, finishes⟩

/-- When a tick has started an idle instance, those leaves are active that history leads to. -/
theorem started_reaches (spares : kernel.dispatch.Preserves Instance.history) {delta : UInt32}
    {scene : Scene User} (ready : Ready kernel.definition scene.inst)
    (pledged : pledge.Of scene.inst) (idle : scene.inst.phase? = some .idle)
    (ran : kernel.tick delta scene = .ok (.started, after)) :
    ∃ active, Holds after.inst.leaves active ∧ kernel.definition.sections.Reaches
      (kernel.definition.sections.Guides scene.inst.history) [rootIndex] active := by
  have wellFormed := reliable.sound.wellFormed
  obtain ⟨aged, entered, ages, steady, vacant, descends, finishes⟩ :=
    reliable.exists_of_tick_started ready pledged idle ran
  have opening : Kept pledge kernel aged (aged.withPhase .entry) :=
    steady.spare rfl (.withPhase .entry)
  have remembers : (aged.withPhase .entry).inst.history = scene.inst.history :=
    ((advanceTimers_idles spares _ _).of_eq _ ages).history_eq
  have still := ((reliable.descend_root_settles opening.steady vacant).yields.of_eq _
    descends).steady
  obtain ⟨-, _, reached, reaches, -, told⟩ := (reliable.descend_landing spares rootIndex _
    wellFormed.has_root (Rom.Sections.consults_root wellFormed) opening.steady.queueSound
    remembers).of_eq _ descends
  -- There was a slot for every leaf.
  have holds : Holds entered.inst.leaves reached := by
    rcases told with ⟨state, full⟩ | ⟨-, seats⟩
    · exact absurd (Array.mem_toList_iff.1 full) (still.untraced state)
    · exact seats [] vacant
  have acting : Kept pledge kernel entered (entered.withPhase .activity) :=
    still.spare rfl (.withPhase .activity)
  have known : ∀ leaf ∈ reached, kernel.definition.sections.Has leaf := fun leaf listed => by
    obtain ⟨-, _, -, beneath⟩ := reaches.fills.of_mem wellFormed listed
    exact beneath.has
  obtain ⟨acted, acts, ends⟩ := Yields.exists_of_bind finishes
  have kept := (reliable.runActivities_returns (acting.holds holds) known
    acting.steady).yields.of_eq _ acts
  cases ends
  exact ⟨reached, kept.holds (acting.holds holds), reaches⟩

end Reliable

/-- Whatever happens to a reachable instance leaves it reachable. -/
theorem Happening.run_reachable {definition : Definition} (sound : definition.Sound)
    {happening : Happening User} (harmless : happening.Harmless .nothing) {inst : Instance}
    (reachable : Reachable User definition inst) :
    Yields (happening.run definition inst) fun answer => Reachable User definition answer.2 := by
  have ready := reachable.ready sound
  cases happening with
  | queued event priority =>
    have queueing : Yields (inst.enqueue event priority) fun answer =>
        inst.Waits .nothing answer.2 :=
      (ready.queueSound.enqueue_returns event priority).yields
    exact queueing.bind fun answer waits =>
      .pure (.rewritten reachable waits.leaves_eq (waits.queueSound ready.queueSound))
  | remembered saved =>
    exact .ok (.rewritten reachable rfl (ready.queueSound.of_ring_eq rfl))
  | ticked dispatch limits delta user commands =>
    let kernel : Kernel User := { definition, dispatch, limits }
    have careful : kernel.dispatch.Harmless .nothing := harmless
    exact (Yields.self (kernel.tick delta ⟨inst, user, commands⟩)).bind fun answer ran =>
      .pure (.ticked rfl careful reachable ran)

theorem Happening.leave_reachable {definition : Definition} (sound : definition.Sound)
    {happenings : List (Happening User)}
    (harmless : ∀ happening ∈ happenings, happening.Harmless .nothing) {inst : Instance}
    (reachable : Reachable User definition inst) :
    Yields (Happening.leave definition happenings inst) (Reachable User definition) := by
  refine Yields.foldlM_keeps (fun happening inst listed reachable => ?_) reachable
  exact (Happening.run_reachable sound (harmless happening listed) reachable).bind
    fun answer still => .pure still

/-! ### A machine that starts over elsewhere -/

open Chart.Graph

/-- After its overflow the machine starts over with the second child of the first state, and not
with the first child as a new instance does. -/
theorem treadmill_restarts :
    ∃ compiled, treadmill.compile = .ok (.ok compiled) ∧ ∃ inst after begun,
      Happening.leave compiled.definition [.beat 0, .beat 5, .beat 5]
          (.fresh .tier256 compiled.definition.structureHash 1) = .ok inst ∧
        inst.phase? = some .idle ∧
        (bare compiled.definition).tick 0 ⟨inst, (), .ofPage .blank⟩ = .ok (.started, after) ∧
        after.inst.activeLeaves = [4] ∧
        (bare compiled.definition).tick 0
            ⟨.fresh .tier256 compiled.definition.structureHash 1, (), .ofPage .blank⟩ =
          .ok (.started, begun) ∧
        begun.inst.activeLeaves = [3] := by
  obtain ⟨compiled, compiles⟩ := exists_compiled_treadmill
  have ran : (do
      let definition ← treadmill.definition?
      let fresh := Instance.fresh .tier256 definition.structureHash 1
      return decide ((do
        let inst ← Happening.leave definition [.beat 0, .beat 5, .beat 5] fresh
        let (outcome, after) ← (bare definition).tick 0 ⟨inst, (), .ofPage .blank⟩
        let (first, begun) ← (bare definition).tick 0 ⟨fresh, (), .ofPage .blank⟩
        return decide (inst.phase? = some .idle ∧ outcome = .started ∧
          after.inst.activeLeaves = [4] ∧ first = .started ∧
          begun.inst.activeLeaves = [3])) = Except.ok true)) = some true := by decide +kernel
  rw [drawn_treadmill.definition?_eq compiles] at ran
  have goes := of_decide_eq_true (Option.some.inj ran)
  obtain ⟨inst, left, goes⟩ := Yields.exists_of_bind goes
  obtain ⟨⟨outcome, after⟩, starts, goes⟩ := Yields.exists_of_bind goes
  obtain ⟨⟨first, begun⟩, begins, goes⟩ := Yields.exists_of_bind goes
  obtain ⟨idle, rfl, elsewhere, rfl, initial⟩ := of_decide_eq_true (Except.ok.inj goes)
  exact ⟨compiled, compiles, inst, after, begun, left, idle, starts, elsewhere, begins, initial⟩

/-! ### The default configuration -/

/-- A tick that starts an instance of a compiled machine enters the states that history leads to.
These are the ones that the first tick of a new instance enters, from the root through initial
children and all regions, exactly if every one of them whose history is looked at names one of
them or nothing. -/
theorem started_default_iff {graph : Chart.Graph} {compiled : Chart.Compiled}
    (drawn : graph.Drawn) (compiles : graph.compile = .ok (.ok compiled))
    (runs : kernel.definition = compiled.definition)
    (harmless : kernel.dispatch.Harmless .nothing)
    (spares : kernel.dispatch.Preserves Instance.history) {delta : UInt32} {scene : Scene User}
    (reachable : Reachable User compiled.definition scene.inst)
    (idle : scene.inst.phase? = some .idle)
    (ran : kernel.tick delta scene = .ok (.started, after)) {tier : Tier}
    (room : compiled.definition.tier ≤ tier) (seed wait : UInt32) (user : User)
    (commands : Command.Writer) :
    ∃ begun initial active,
      kernel.tick wait
          ⟨.fresh tier compiled.definition.structureHash seed, user, commands⟩ =
        .ok (.started, begun) ∧
      Holds begun.inst.leaves initial ∧ Holds after.inst.leaves active ∧
      compiled.definition.sections.Reaches compiled.definition.sections.Initial [rootIndex]
        initial ∧
      compiled.definition.sections.Reaches
        (compiled.definition.sections.Guides scene.inst.history) [rootIndex] active ∧
      (active = initial ↔ ∀ state saved, compiled.definition.sections.Active initial state →
        compiled.definition.sections.Consults scene.inst.history state →
        compiled.definition.sections.Names scene.inst.history state saved →
        compiled.definition.sections.Active initial saved) := by
  have sound := (drawn.sound compiles).1
  have wellFormed := sound.wellFormed
  have ready := reachable.ready sound
  rw [← runs] at sound wellFormed ready room ⊢
  have reliable : Reliable .nothing kernel := ⟨sound, harmless⟩
  let fresh : Instance := .fresh tier kernel.definition.structureHash seed
  have readyToo : Ready kernel.definition fresh := .fresh room _ seed
  have dormant : fresh.Dormant := .fresh tier _ seed
  have fits : kernel.fits fresh = true :=
    Bool.and_eq_true_iff.2 ⟨decide_eq_true rfl, decide_eq_true room⟩
  obtain ⟨⟨outcome, begun⟩, begins, -⟩ :=
    reliable.tick_ready wait (show Ready kernel.definition
      (⟨fresh, user, commands⟩ : Scene User).inst from readyToo) trivial
  obtain ⟨rfl, -⟩ := (tick_moves_of_dormant fits dormant).of_eq _ begins
  obtain ⟨active, holds, reaches⟩ := reliable.started_reaches spares ready trivial idle ran
  obtain ⟨initial, holdsToo, reachesToo⟩ :=
    reliable.started_reaches spares readyToo trivial dormant.idle begins
  -- The slots of a new instance name no state.
  have blank (state saved : UInt16) :
      ¬ kernel.definition.sections.Names fresh.history state saved := by
    intro names
    have listed := List.mem_of_getElem? names.slot
    exact wellFormed.ne_noIndex names.beneath.has (List.eq_of_mem_replicate listed)
  have straight := reachesToo.mono wellFormed (List.Subset.refl _)
    fun _ _ _ _ _ guides => guides.initial blank
  refine ⟨begun, initial, active, begins, holdsToo, holds, straight, reaches, ?_⟩
  rw [← straight.guides_iff wellFormed]
  constructor
  · rintro rfl
    exact reaches
  · exact fun guided => reaches.eq wellFormed guided

/-- The slot of the first state still names its second child, which is not active after the first
tick. -/
theorem started_default_iff_treadmill :
    ∃ compiled, treadmill.compile = .ok (.ok compiled) ∧ ∃ inst after begun initial,
      Happening.leave compiled.definition [.beat 0, .beat 5, .beat 5]
          (.fresh .tier256 compiled.definition.structureHash 1) = .ok inst ∧
        (bare compiled.definition).tick 0 ⟨inst, (), .ofPage .blank⟩ = .ok (.started, after) ∧
        (bare compiled.definition).tick 0
            ⟨.fresh .tier256 compiled.definition.structureHash 1, (), .ofPage .blank⟩ =
          .ok (.started, begun) ∧
        Holds begun.inst.leaves initial ∧ ¬ Holds after.inst.leaves initial ∧
        ∃ state saved, compiled.definition.sections.Active initial state ∧
          compiled.definition.sections.Consults inst.history state ∧
          compiled.definition.sections.Names inst.history state saved ∧
          ¬ compiled.definition.sections.Active initial saved := by
  obtain ⟨compiled, compiles, inst, after, begun, left, idle, starts, elsewhere, begins, first⟩ :=
    treadmill_restarts
  have sound := (drawn_treadmill.sound compiles).1
  have reachable : Reachable Unit compiled.definition inst :=
    (Happening.leave_reachable sound (by simp) (.fresh _ _ _ (Tier.le_tier256 _))).of_eq _ left
  obtain ⟨begunToo, initial, active, beginsToo, holdsFirst, holds, -, -, decides⟩ :=
    started_default_iff drawn_treadmill compiles rfl (.empty _) (Dispatch.preserves_empty _)
      reachable idle starts (Tier.le_tier256 _) 1 0 () (.ofPage .blank)
  obtain rfl : begun = begunToo :=
    congrArg Prod.snd (Except.ok.inj (begins.symm.trans beginsToo))
  have differs : active ≠ initial := by
    rw [← Instance.activeLeaves_eq holds, ← Instance.activeLeaves_eq holdsFirst, elsewhere, first]
    decide
  refine ⟨compiled, compiles, inst, after, begun, initial, left, starts, begins, holdsFirst,
    fun same => differs (holds_unique holds same), ?_⟩
  have strays := mt decides.2 differs
  simpa only [not_forall, exists_prop] using strays

/-- An instance that has only ever been ticked need not start over as it began. -/
theorem not_started_default :
    ¬ ∀ (graph : Chart.Graph) (compiled : Chart.Compiled), graph.Drawn →
      graph.compile = .ok (.ok compiled) → ∀ (waits : List UInt32) inst after begun,
        Happening.leave compiled.definition (waits.map Happening.beat)
          (.fresh .tier256 compiled.definition.structureHash 1) = .ok inst →
        (bare compiled.definition).tick 0 ⟨inst, (), .ofPage .blank⟩ = .ok (.started, after) →
        (bare compiled.definition).tick 0
            ⟨.fresh .tier256 compiled.definition.structureHash 1, (), .ofPage .blank⟩ =
          .ok (.started, begun) →
        after.inst.activeLeaves = begun.inst.activeLeaves := by
  intro claim
  obtain ⟨compiled, compiles, inst, after, begun, left, -, starts, elsewhere, begins, first⟩ :=
    treadmill_restarts
  have same := claim treadmill compiled drawn_treadmill compiles [0, 5, 5] inst after begun left
    starts begins
  rw [elsewhere, first] at same
  exact absurd same (by decide)

end Statechart.Kernel
