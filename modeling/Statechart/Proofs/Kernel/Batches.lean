/-
# Batches in any order

The instances of a batch share the host's value and the page of commands. If callbacks do with an
instance only what the instance tells them to (`Dispatch.Independent`), this makes no difference to
the instances: each one does the tick that it does alone (`Alone`). So a batch can be put in another
order or cut into parts, and its summary is the sum of the summaries of its parts
(`tickBatch_independent`).
-/

import Mathlib.Tactic.Choose
import Statechart.Kernel.Batch
import Statechart.Proofs.Kernel.Callees

namespace Statechart.Kernel

variable {User : Type} {kernel : Kernel User} {delta : UInt32}

/-! ### Independent callbacks -/

/-- What callbacks do to an instance and what guards answer depends on nothing but the instance and
the event. -/
structure Dispatch.Independent (dispatch : Dispatch User) : Prop where
  action : ∀ registration ∈ dispatch.actions.registrations, ∀ scene other after : Scene User,
    other.inst = scene.inst → registration.callback scene = .ok after →
    ∃ done, registration.callback other = .ok done ∧ done.inst = after.inst
  guard : ∀ registration ∈ dispatch.guards.registrations, ∀ event inst user other answer,
    registration.callback event inst user = .ok answer →
    ∃ told, registration.callback event inst other = .ok told ∧ told.1 = answer.1 ∧
      told.2.1 = answer.2.1

/-- The instance and the trace are the same. -/
structure Equal (progress partner : Progress User) : Prop where
  inst : partner.inst = progress.inst
  trace : partner.trace = progress.trace

theorem Equal.note {progress partner : Progress User} (equal : Equal progress partner)
    (entry : Trace.Entry) : Equal (progress.note entry) (partner.note entry) :=
  ⟨equal.inst, congrArg (Array.push · entry) equal.trace⟩

namespace Dispatch.Independent

variable {progress partner : Progress User} (independent : kernel.dispatch.Independent)

include independent

theorem invoke_tracks (action : UInt16) (equal : Equal progress partner) :
    Tracks (fun _ => True) Equal (kernel.invoke action progress)
      (kernel.invoke action partner) := by
  have called : Tracks (fun _ => True) (fun after done => done.inst = after.inst)
      (kernel.dispatch.invoke action progress.toScene)
      (kernel.dispatch.invoke action partner.toScene) := by
    rcases kernel.dispatch.invoke_cases action with ⟨registration, listed, calls⟩ | nothing
    · rw [calls]
      exact ⟨fun after ran _ => independent.action registration listed _ _ after equal.inst ran⟩
    · rw [nothing]
      exact .ok fun _ => equal.inst
  exact called.bind_clean fun after done same => .pure fun _ => ⟨same, equal.trace⟩

theorem checkGuard_tracks (guard event : UInt16) (equal : Equal progress partner) :
    Tracks (fun _ => True) (fun answer told => told.1 = answer.1 ∧ Equal answer.2 told.2)
      (kernel.checkGuard guard event progress) (kernel.checkGuard guard event partner) := by
  have asked : Tracks (fun _ => True)
      (fun answer told => told.1 = answer.1 ∧ told.2.1 = answer.2.1)
      (kernel.dispatch.check guard event progress.inst progress.user)
      (kernel.dispatch.check guard event partner.inst partner.user) := by
    rw [equal.inst]
    rcases kernel.dispatch.check_cases guard with ⟨registration, listed, calls⟩ | passes
    · rw [calls]
      exact ⟨fun answer ran _ => independent.guard registration listed _ _ _ _ answer ran⟩
    · rw [passes]
      exact .ok fun _ => ⟨rfl, rfl⟩
  unfold checkGuard
  split
  · exact .ok fun _ => ⟨rfl, equal⟩
  · refine asked.bind_clean ?_
    rintro ⟨_, _, user⟩ ⟨passed, inst, other⟩ ⟨rfl, rfl⟩
    have answered : Equal ({ progress with inst, user } : Progress User)
        { partner with inst, user := other } := ⟨rfl, equal.trace⟩
    exact .pure fun _ => ⟨rfl, answered.note _⟩

theorem lockstep :
    Lockstep kernel kernel.dispatch (fun _ => True) Eq [] [] Equal where
  toMirrors := mirrors_eq _
  alike equal := equal.inst.symm
  withInst := by rintro progress partner _ _ equal rfl; exact ⟨rfl, equal.trace⟩
  note equal _ := equal.note _
  invoke equal _ _ :=
    (independent.invoke_tracks _ (equal.note _)).mono (fun _ _ => trivial) fun _ _ => id
  checkGuard equal _ _ :=
    (independent.checkGuard_tracks _ _ equal).mono (fun _ _ => trivial) fun _ _ => id

end Dispatch.Independent

/-! ### Ticks alone -/

/-- How the tick of an instance ends, whatever the host's value and the page are. -/
def Alone (kernel : Kernel User) (delta : UInt32) (inst : Instance)
    (answer : Outcome × Instance) : Prop :=
  ∀ user commands, ∃ after, kernel.tick delta ⟨inst, user, commands⟩ = .ok (answer.1, after) ∧
    after.inst = answer.2

/-- Independent callbacks make every tick one that ends so alone. -/
theorem Dispatch.Independent.alone (independent : kernel.dispatch.Independent) {scene : Scene User}
    {answer : Outcome × Progress User} (ran : kernel.tick delta scene = .ok answer) :
    Alone kernel delta scene.inst (answer.1, answer.2.inst) := by
  intro user commands
  have begun : Equal (.ofScene scene) (.ofScene ⟨scene.inst, user, commands⟩) := ⟨rfl, rfl⟩
  have tracks := independent.lockstep.tick_tracks delta begun rfl
  obtain ⟨⟨outcome, after⟩, again, same, equal⟩ := tracks.of_eq answer ran fun _ _ => trivial
  obtain rfl : outcome = answer.1 := same
  exact ⟨after, again, equal.inst⟩

theorem finish_yields (outcome : Outcome) (progress : Progress User) :
    Yields (kernel.finish outcome progress) fun answer => answer.1 = outcome :=
  (Yields.self _).bind fun _ _ => .pure rfl

theorem conclude_yields (service : Service User) :
    Yields (kernel.conclude service) fun answer => answer.1 ≠ .skipped := by
  cases service with
  | started progress => exact (finish_yields .started progress).mono fun _ same => same ▸ nofun
  | served _ _ progress => exact (finish_yields _ progress).mono fun _ same => same ▸ nofun
  | overflow progress => exact .ok nofun

/-- A tick that skips an instance leaves everything as it was. -/
theorem tick_of_skipped (scene : Scene User) :
    Yields (kernel.tick delta scene) fun answer =>
      answer.1 = .skipped → answer.2 = .ofScene scene := by
  have resting (progress : Progress User) :
      Yields (kernel.finish (.completed 0 0) progress) fun answer => answer.1 ≠ .skipped :=
    (finish_yields _ progress).mono fun _ same => same ▸ nofun
  have taken (phase : Phase) (progress : Progress User) :
      Yields (kernel.runPhases phase delta progress) fun answer => answer.1 ≠ .skipped := by
    unfold runPhases
    cases phase with
    | idle =>
      apply (Yields.self _).bind
      intro aged _
      split
      · exact resting aged
      · exact (Yields.self _).bind fun service _ => conclude_yields service
    | entry => exact (Yields.self _).bind fun service _ => conclude_yields service
    | rtc => exact (Yields.self _).bind fun service _ => conclude_yields service
    | activity => exact resting progress
  unfold tick
  simp only
  split
  · split
    · exact (taken _ _).mono fun _ other skipped => absurd skipped other
    · exact .ok fun _ => rfl
  · exact .ok fun _ => rfl

/-! ### Summaries -/

namespace Summary

/-- Both summaries in one, field by field. -/
def plus (first second : Summary) : Summary where
  ticked := first.ticked + second.ticked
  skipped := first.skipped + second.skipped
  started := first.started + second.started
  overflowed := first.overflowed + second.overflowed
  events := first.events + second.events
  transitions := first.transitions + second.transitions

/-- What became of some ticks. -/
def total (outcomes : List Outcome) : Summary :=
  outcomes.foldl record zero

theorem record_plus (first second : Summary) (outcome : Outcome) :
    (first.plus second).record outcome = first.plus (second.record outcome) := by
  cases outcome <;> simp only [record, plus, Nat.add_assoc]

theorem foldl_record (summary : Summary) (outcomes : List Outcome) :
    outcomes.foldl record summary = summary.plus (total outcomes) := by
  have counting (second : Summary) : outcomes.foldl record (summary.plus second) =
      summary.plus (outcomes.foldl record second) := by
    induction outcomes generalizing second with
    | nil => rfl
    | cons outcome rest ih =>
      rw [List.foldl_cons, List.foldl_cons, record_plus, ih]
  exact counting zero

theorem total_append (first second : List Outcome) :
    total (first ++ second) = (total first).plus (total second) := by
  rw [total, List.foldl_append, foldl_record]
  rfl

/-- Ticks are counted in any order. -/
theorem total_perm {first second : List Outcome} (perm : first.Perm second) :
    total first = total second := by
  refine perm.foldl_eq' (fun one _ other _ summary => ?_) zero
  cases one <;> cases other <;> simp [record, Nat.add_right_comm]

end Summary

/-! ### Batches -/

/-- A batch of instances whose ticks end so alone. -/
theorem tickBatch_of_alone {alone : Instance → Outcome × Instance} {instances : List Instance}
    (all : ∀ inst ∈ instances, Alone kernel delta inst (alone inst)) (user : User)
    (commands : Command.Writer) :
    Returns (kernel.tickBatch delta instances user commands) fun batch =>
      batch.instances.toList = instances.map (fun inst => (alone inst).2) ∧
        batch.summary = Summary.total (instances.map fun inst => (alone inst).1) := by
  have going (batch : BatchProgress User) :
      Returns (instances.foldlM (kernel.tickNext delta) batch) fun after =>
        after.instances.toList =
            batch.instances.toList ++ instances.map (fun inst => (alone inst).2) ∧
          after.summary =
            (instances.map fun inst => (alone inst).1).foldl .record batch.summary := by
    induction instances generalizing batch with
    | nil => exact .pure ⟨(List.append_nil _).symm, rfl⟩
    | cons inst rest ih =>
      obtain ⟨after, ran, last⟩ := all inst (List.mem_cons_self ..) batch.user batch.commands
      rw [List.foldlM_cons, tickNext, ran, ok_bind]
      refine (ih (fun other later => all other (List.mem_cons_of_mem _ later)) _).mono ?_
      rintro final ⟨instances, summary⟩
      refine ⟨?_, summary⟩
      rw [instances, Array.toList_push, last, List.map_cons, List.append_assoc]
      rfl
  exact going _

/-- Every instance of a batch that returns has done the tick that it does alone. -/
theorem Dispatch.Independent.exists_alone (independent : kernel.dispatch.Independent)
    {instances : List Instance} {user : User} {commands : Command.Writer}
    {batch : BatchProgress User}
    (ran : kernel.tickBatch delta instances user commands = .ok batch) :
    ∀ inst ∈ instances, ∃ answer, Alone kernel delta inst answer := by
  intro inst listed
  obtain ⟨earlier, later, rfl⟩ := List.append_of_mem listed
  unfold tickBatch at ran
  rw [List.foldlM_append] at ran
  obtain ⟨middle, _, goes⟩ := Yields.exists_of_bind ran
  rw [List.foldlM_cons] at goes
  obtain ⟨next, ticked, _⟩ := Yields.exists_of_bind goes
  obtain ⟨answer, alone, _⟩ := Yields.exists_of_bind ticked
  exact ⟨_, independent.alone alone⟩

/-- Batches, one after the other. One of them goes on with what the one before it has left of the
host's value and the page, unless it is given its own. -/
def tickBatches (kernel : Kernel User) (delta : UInt32) :
    List (List Instance × Option (User × Command.Writer)) → User → Command.Writer →
      Except Fault (List (BatchProgress User))
  | [], _, _ => .ok []
  | (instances, own) :: rest, user, commands => do
      let (user, commands) := own.getD (user, commands)
      let batch ← kernel.tickBatch delta instances user commands
      let batches ← tickBatches kernel delta rest batch.user batch.commands
      return batch :: batches

/-- Batches of instances whose ticks end so alone. -/
theorem tickBatches_of_alone {alone : Instance → Outcome × Instance}
    {parts : List (List Instance × Option (User × Command.Writer))}
    (all : ∀ part ∈ parts, ∀ inst ∈ part.1, Alone kernel delta inst (alone inst)) (user : User)
    (commands : Command.Writer) :
    Returns (kernel.tickBatches delta parts user commands) fun batches =>
      batches.map (fun batch => batch.instances.toList) =
          parts.map (fun part => part.1.map fun inst => (alone inst).2) ∧
        (batches.map BatchProgress.summary).foldr .plus .zero =
          Summary.total ((parts.flatMap Prod.fst).map fun inst => (alone inst).1) := by
  induction parts generalizing user commands with
  | nil => exact .ok ⟨rfl, rfl⟩
  | cons part rest ih =>
    obtain ⟨instances, own⟩ := part
    have first := all (instances, own) (List.mem_cons_self ..)
    have later := fun other listed => all other (List.mem_cons_of_mem (instances, own) listed)
    unfold tickBatches
    apply (tickBatch_of_alone first _ _).bind
    rintro batch ⟨lasts, summary⟩
    apply (ih later batch.user batch.commands).bind
    rintro batches ⟨others, sum⟩
    refine .pure ⟨?_, ?_⟩
    · rw [List.map_cons, List.map_cons, lasts, others]
    · rw [List.map_cons, List.foldr_cons, summary, sum, List.flatMap_cons, List.map_append,
        Summary.total_append]

/-! ### Compiled machines -/

/-- A tick of an instance that is reachable, foreign or without a valid phase returns. -/
theorem exists_tick (sound : kernel.definition.Sound) (harmless : kernel.dispatch.Harmless .nothing)
    (scene : Scene User) (mixed : Reachable User kernel.definition scene.inst ∨
      kernel.fits scene.inst = false ∨ scene.inst.phase? = none) :
    ∃ answer, kernel.tick delta scene = .ok answer := by
  rcases mixed with reachable | foreign | invalid
  · have reliable : Reliable .nothing kernel := ⟨sound, harmless⟩
    obtain ⟨answer, ran, -⟩ := reliable.tick_ready delta (reachable.ready sound) trivial
    exact ⟨answer, ran⟩
  · unfold tick
    simp only [foreign]
    exact ⟨_, rfl⟩
  · unfold tick
    simp only [invalid]
    split
    · exact ⟨_, rfl⟩
    · exact ⟨_, rfl⟩

/-- Batches can be reordered and cut into parts. Callbacks that do with an instance only what the
instance and the event tell them to make each instance of a batch do the tick that it does alone,
and an instance that is skipped stays as it was. So every order of the instances and every cut into
consecutive batches, which may share the host's value and the page or be given their own, leaves
each instance the same, and the summaries of the parts add up to that of the whole.

The batch returns if its instances are reachable, foreign or without a valid phase and the callbacks
keep their promises. -/
theorem tickBatch_independent {graph : Chart.Graph} {compiled : Chart.Compiled}
    (drawn : graph.Drawn) (compiles : graph.compile = .ok (.ok compiled))
    (runs : kernel.definition = compiled.definition) (independent : kernel.dispatch.Independent)
    (delta : UInt32) (instances : List Instance) (user : User) (commands : Command.Writer) :
    (kernel.dispatch.Harmless .nothing →
      (∀ inst ∈ instances, Reachable User compiled.definition inst ∨ kernel.fits inst = false ∨
        inst.phase? = none) →
      ∃ batch, kernel.tickBatch delta instances user commands = .ok batch) ∧
    ∀ batch, kernel.tickBatch delta instances user commands = .ok batch →
      ∃ alone : Instance → Outcome × Instance,
        (∀ inst ∈ instances, Alone kernel delta inst (alone inst)) ∧
        (∀ inst ∈ instances, (alone inst).1 = .skipped → (alone inst).2 = inst) ∧
        batch.instances.toList = instances.map (fun inst => (alone inst).2) ∧
        batch.summary = Summary.total (instances.map fun inst => (alone inst).1) ∧
        (∀ order : List Instance, order.Perm instances → ∀ user commands, ∃ other,
          kernel.tickBatch delta order user commands = .ok other ∧
            other.instances.toList = order.map (fun inst => (alone inst).2) ∧
            other.summary = batch.summary) ∧
        ∀ parts user commands, parts.flatMap Prod.fst = instances → ∃ batches,
          kernel.tickBatches delta parts user commands = .ok batches ∧
            batches.map (fun part => part.instances.toList) =
              parts.map (fun part => part.1.map fun inst => (alone inst).2) ∧
            (batches.map BatchProgress.summary).foldr .plus .zero = batch.summary := by
  constructor
  · intro harmless mixed
    have sound : kernel.definition.Sound := runs ▸ (drawn.sound compiles).1
    rw [← runs] at mixed
    have ending : ∀ inst ∈ instances, ∃ answer, Alone kernel delta inst answer := by
      intro inst listed
      obtain ⟨answer, ran⟩ := exists_tick sound harmless ⟨inst, user, commands⟩ (mixed inst listed)
      exact ⟨_, independent.alone ran⟩
    have : Nonempty (Outcome × Instance) := ⟨.skipped, .fresh .tier64 0 0⟩
    choose! alone all using ending
    obtain ⟨batch, ran, -⟩ := tickBatch_of_alone all user commands
    exact ⟨batch, ran⟩
  · intro batch ran
    have : Nonempty (Outcome × Instance) := ⟨.skipped, .fresh .tier64 0 0⟩
    choose! alone all using independent.exists_alone ran
    obtain ⟨_, again, lasts, summary⟩ := tickBatch_of_alone all user commands
    cases ran.symm.trans again
    refine ⟨alone, all, ?_, lasts, summary, ?_, ?_⟩
    · intro inst listed skipped
      obtain ⟨after, ticked, last⟩ := all inst listed user commands
      have still := (tick_of_skipped _).of_eq _ ticked skipped
      exact last.symm.trans (congrArg (fun after : Progress User => after.inst) still)
    · intro order perm user commands
      have each := fun inst listed => all inst (perm.mem_iff.1 listed)
      obtain ⟨other, ran, others, sum⟩ := tickBatch_of_alone each user commands
      refine ⟨other, ran, others, ?_⟩
      rw [sum, summary]
      exact Summary.total_perm (perm.map _)
    · rintro parts user commands rfl
      have each := fun part listed inst inPart =>
        all inst (List.mem_flatMap.2 ⟨part, listed, inPart⟩)
      obtain ⟨batches, ran, others, sum⟩ := tickBatches_of_alone each user commands
      exact ⟨batches, ran, others, sum.trans summary.symm⟩

theorem independent_tallying : tallying.Independent where
  action := by
    rintro registration listed scene other after same ran
    obtain rfl := List.mem_singleton.1 listed
    cases ran
    exact ⟨_, rfl, by rw [same]⟩
  guard := nofun

theorem tickBatch_independent_actor :
    ∃ compiled, Chart.Graph.actor.compile = .ok (.ok compiled) ∧
      let kernel : Kernel Nat := ⟨compiled.definition, tallying, .default⟩
      let own := Instance.fresh .tier256 compiled.definition.structureHash 1
      let foreign := Instance.fresh .tier256 (compiled.definition.structureHash + 1) 1
      let invalid := { own with phaseByte := 9 }
      ∃ batch other, ∃ alone : Instance → Instance,
        kernel.tickBatch 16 [own, foreign, invalid] 0 (.ofPage .blank) = .ok batch ∧
          kernel.tickBatch 16 [invalid, own, foreign] 5 (.ofPage .blank) = .ok other ∧
          batch.instances.toList = [alone own, alone foreign, alone invalid] ∧
          other.instances.toList = [alone invalid, alone own, alone foreign] ∧
          other.summary = batch.summary := by
  obtain ⟨compiled, compiles⟩ := Chart.Graph.exists_compiled_actor
  refine ⟨compiled, compiles, ?_⟩
  intro kernel own foreign invalid
  have room : compiled.definition.tier ≤ Tier.tier256 := Tier.le_tier256 _
  have stranger : kernel.fits foreign = false := by
    have other : foreign.machineId ≠ kernel.definition.structureHash := by
      show compiled.definition.structureHash + 1 ≠ compiled.definition.structureHash
      simp
    unfold fits
    rw [decide_eq_false other]
    rfl
  obtain ⟨returns, separates⟩ := tickBatch_independent Chart.Graph.drawn_actor compiles
    (show kernel.definition = compiled.definition from rfl) independent_tallying 16
    [own, foreign, invalid] 0 (.ofPage .blank)
  obtain ⟨batch, ran⟩ := returns harmless_tallying (by
    intro inst listed
    rcases List.mem_cons.1 listed with rfl | listed
    · exact .inl (.fresh .tier256 _ 1 room)
    · rcases List.mem_cons.1 listed with rfl | listed
      · exact .inr (.inl stranger)
      · obtain rfl := List.mem_singleton.1 listed
        exact .inr (.inr rfl))
  obtain ⟨alone, -, -, lasts, -, reorders, -⟩ := separates batch ran
  have perm : ([invalid] ++ [own, foreign]).Perm ([own, foreign] ++ [invalid]) :=
    List.perm_append_comm
  obtain ⟨other, again, others, sum⟩ := reorders _ perm 5 (.ofPage .blank)
  exact ⟨batch, other, fun inst => (alone inst).2, ran, again, lasts, others, sum⟩

end Statechart.Kernel
