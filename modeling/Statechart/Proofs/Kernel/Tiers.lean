/-
# Ticks in a larger tier

A machine does in a larger tier what it does in a smaller one, as long as the smaller one has room
for what arrives. Callbacks that act alike on instances of both tiers (`Dispatch.ActsAlike`) keep
such instances alike, so both ticks come to the same end. This holds for a host that posts events
and lets time pass for as long as it likes: whatever it is answered, and whatever it sees of the
instance, it cannot tell the tiers apart (`tiers_transparent`).
-/

import Statechart.Kernel.Post
import Statechart.Proofs.Instance.Alike
import Statechart.Proofs.Kernel.Callees

namespace Statechart

/-- A step that does not tell of anything that there was no room for. -/
def Trace.Entry.Roomy : Trace.Entry → Prop
  | .eventDropped _ | .leafOverflow _ => False
  | _ => True

open Rom (Definition noIndex)

/-- To a tick, instances of two tiers look alike. -/
theorem Instance.mirrors_alike {small large : Tier} (smaller : small < large) :
    Kernel.Mirrors Trace.Entry.Roomy (Instance.Alike small large)
      (slotsBeyond small.leafCapacity large.leafCapacity)
      (slotsBeyond small.timerCapacity large.timerCapacity) where
  phase alike := alike.phase_eq
  activeLeaves alike := alike.activeLeaves_eq
  queueIsEmpty alike := alike.queueIsEmpty_eq
  leafRange alike := by
    rw [alike.tier_first, alike.tier_second]
    exact range_append_slotsBeyond (Tier.capacities_le smaller).1
  timerRange alike := by
    rw [alike.tier_first, alike.tier_second]
    exact range_append_slotsBeyond (Tier.capacities_le smaller).2.1
  leaf slot alike := alike.leaf_yields slot
  leafBeyond alike := alike.leaf_beyond
  timer slot alike := alike.timer_yields slot
  timerBeyond alike := alike.timer_beyond
  historyAt slot alike := alike.historyAt_yields slot
  setTimer slot remaining alike := alike.setTimer_tracks slot remaining
  setHistory slot saved alike := alike.setHistory_tracks slot saved
  seat state alike free := ⟨alike.findIdx?_leaves free, alike.setLeaf_tracks _ state⟩
  full _ _ roomy := roomy.elim
  withActiveLeaves alike few :=
    alike.withActiveLeaves smaller (few.trans alike.length_activeLeaves_le)
  withPhase phase alike := alike.withPhase phase
  withSteps steps alike := ⟨{ alike.toPadded with }, alike.toWidened.of_queue_eq rfl rfl⟩
  dropped alike := alike.dropped smaller
  dequeue alike := alike.dequeue_tracks
  enqueue event priority alike ordinary := by
    have low : { event with priority }.priority ≠ .interrupt := ordinary
    exact (alike.enqueue_tracks smaller event _ (Mailbox.spacious_of_ordinary low)).mono
      (fun _ roomy => Bool.of_not_eq_false roomy) fun _ _ => id
  requeue := by
    intro first second left leftOver event flags alike taken _ still
    have follows := alike.inLine.dequeue_follows.yields.of_eq _ taken
    have rest : left.mailbox = first.mailbox.dequeue.2 := congrArg Prod.snd follows.agrees
    have space : left.mailbox.Spacious := rest ▸ first.mailbox.spacious_dequeue
    exact (still.enqueue_tracks smaller _ _ fun _ => space).mono
      (fun _ roomy => Bool.of_not_eq_false roomy) fun _ _ => id

namespace Kernel

variable {User : Type} {small large : Tier}

/-- Callbacks that act alike on instances of two tiers. They write nothing of an instance but its
seed. On instances that are alike they write the same seed, do the same to the host's value and the
page, and answer the same. -/
structure Dispatch.ActsAlike (small large : Tier) (dispatch : Dispatch User) : Prop where
  action : ∀ registration ∈ dispatch.actions.registrations, ∀ scene : Scene User,
    scene.inst.QueueSound → ∃ seed user commands,
      registration.callback scene = .ok ⟨{ scene.inst with seed }, user, commands⟩ ∧
        ∀ other, scene.inst.Alike small large other →
          registration.callback ⟨other, scene.user, scene.commands⟩ =
            .ok ⟨{ other with seed }, user, commands⟩
  guard : ∀ registration ∈ dispatch.guards.registrations, ∀ event inst user,
    inst.QueueSound → ∃ passed seed after,
      registration.callback event inst user = .ok (passed, { inst with seed }, after) ∧
        ∀ other, inst.Alike small large other →
          registration.callback event other user = .ok (passed, { other with seed }, after)

theorem Dispatch.ActsAlike.harmless {dispatch : Dispatch User}
    (acts : dispatch.ActsAlike small large) : dispatch.Harmless .nothing where
  action := by
    intro registration listed scene sound
    obtain ⟨seed, user, commands, ran, -⟩ := acts.action registration listed scene sound
    exact ⟨_, ran, rfl, fun sound => sound.of_ring_eq rfl, id⟩
  guard := by
    intro registration listed event inst user sound
    obtain ⟨passed, seed, after, ran, -⟩ := acts.guard registration listed event inst user sound
    exact ⟨_, ran, rfl, fun sound => sound.of_ring_eq rfl, id⟩

/-- Two ticks have come equally far. -/
structure Abreast (small large : Tier) (progress partner : Progress User) : Prop where
  alike : progress.inst.Alike small large partner.inst
  user_eq : partner.user = progress.user
  commands_eq : partner.commands = progress.commands
  trace_eq : partner.trace = progress.trace

theorem Abreast.note {progress partner : Progress User}
    (abreast : Abreast small large progress partner) (entry : Trace.Entry) :
    Abreast small large (progress.note entry) (partner.note entry) :=
  { abreast with trace_eq := congrArg (Array.push · entry) abreast.trace_eq }

namespace Dispatch.ActsAlike

variable {kernel : Kernel User} {progress partner : Progress User}
  (acts : kernel.dispatch.ActsAlike small large)

include acts

theorem invoke_tracks (action : UInt16) (abreast : Abreast small large progress partner) :
    Tracks (fun _ => True) (Abreast small large) (kernel.invoke action progress)
      (kernel.invoke action partner) := by
  have here : partner.toScene = ⟨partner.inst, progress.user, progress.commands⟩ := by
    rw [← abreast.user_eq, ← abreast.commands_eq]
  have called : Tracks (fun _ => True)
      (fun after done => after.inst.Alike small large done.inst ∧ done.user = after.user ∧
        done.commands = after.commands)
      (kernel.dispatch.invoke action progress.toScene)
      (kernel.dispatch.invoke action partner.toScene) := by
    rw [here]
    rcases kernel.dispatch.invoke_cases action with ⟨registration, listed, calls⟩ | nothing
    · obtain ⟨seed, user, commands, ran, alike⟩ := acts.action registration listed
        progress.toScene abreast.alike.inLine.toQueueSound
      rw [calls, ran, alike partner.inst abreast.alike]
      exact .ok fun _ => ⟨abreast.alike.withSeed seed, rfl, rfl⟩
    · rw [nothing]
      exact .ok fun _ => ⟨abreast.alike, rfl, rfl⟩
  refine called.bind_clean ?_
  rintro after done ⟨alike, user, commands⟩
  exact .pure fun _ => ⟨alike, user, commands, abreast.trace_eq⟩

theorem checkGuard_tracks (guard event : UInt16) (abreast : Abreast small large progress partner) :
    Tracks (fun _ => True)
      (fun answer told => told.1 = answer.1 ∧ Abreast small large answer.2 told.2)
      (kernel.checkGuard guard event progress) (kernel.checkGuard guard event partner) := by
  have asked : Tracks (fun _ => True)
      (fun answer told => told.1 = answer.1 ∧ answer.2.1.Alike small large told.2.1 ∧
        told.2.2 = answer.2.2)
      (kernel.dispatch.check guard event progress.inst progress.user)
      (kernel.dispatch.check guard event partner.inst partner.user) := by
    rw [abreast.user_eq]
    rcases kernel.dispatch.check_cases guard with ⟨registration, listed, calls⟩ | passes
    · obtain ⟨passed, seed, after, ran, alike⟩ := acts.guard registration listed event
        progress.inst progress.user abreast.alike.inLine.toQueueSound
      rw [calls, ran, alike partner.inst abreast.alike]
      exact .ok fun _ => ⟨rfl, abreast.alike.withSeed seed, rfl⟩
    · rw [passes]
      exact .ok fun _ => ⟨rfl, abreast.alike, rfl⟩
  unfold checkGuard
  split
  · exact .ok fun _ => ⟨rfl, abreast⟩
  · refine asked.bind_clean ?_
    rintro ⟨_, inst, _⟩ ⟨passed, other, user⟩ ⟨rfl, alike, rfl⟩
    have answered : Abreast small large ({ progress with inst, user } : Progress User)
        { partner with inst := other, user } := ⟨alike, rfl, abreast.commands_eq, abreast.trace_eq⟩
    exact .pure fun _ => ⟨rfl, answered.note _⟩

theorem lockstep (smaller : small < large) :
    Lockstep kernel kernel.dispatch Trace.Entry.Roomy (Instance.Alike small large)
      (slotsBeyond small.leafCapacity large.leafCapacity)
      (slotsBeyond small.timerCapacity large.timerCapacity) (Abreast small large) where
  toMirrors := Instance.mirrors_alike smaller
  alike := Abreast.alike
  withInst abreast alike := { abreast with alike }
  note abreast _ := abreast.note _
  invoke abreast _ _ :=
    (acts.invoke_tracks _ (abreast.note _)).mono (fun _ _ => trivial) fun _ _ => id
  checkGuard abreast _ _ :=
    (acts.checkGuard_tracks _ _ abreast).mono (fun _ _ => trivial) fun _ _ => id

end Dispatch.ActsAlike

/-! ### What a host does -/

/-- What a host does with an instance. Callbacks and limits can be others for each tick. -/
inductive HostCall (User : Type)
  | post (id : UInt16)
  | tick (dispatch : Dispatch User) (limits : Limits) (delta : UInt32)

/-- What the host sees of it. -/
inductive HostAnswer
  /-- Whether the event was let in. -/
  | posted (accepted : Bool)
  | ticked (outcome : Outcome) (trace : Array Trace.Entry)
  deriving DecidableEq

/-- Do one thing with an instance of a definition. -/
def HostCall.perform (definition : Definition) (scene : Scene User) :
    HostCall User → Except Fault (HostAnswer × Scene User)
  | .post id => do
      let (accepted, inst) ← Kernel.post definition id scene.inst
      return (.posted accepted, { scene with inst })
  | .tick dispatch limits delta => do
      let (outcome, after) ← Kernel.tick ⟨definition, dispatch, limits⟩ delta scene
      return (.ticked outcome after.trace, after.toScene)

/-- Do one thing after the other. Each one is told with its answer and what it left behind. -/
def performAll (definition : Definition) :
    List (HostCall User) → Scene User → Except Fault (List (HostAnswer × Scene User))
  | [], _ => .ok []
  | call :: later, scene => do
      let step ← call.perform definition scene
      let rest ← performAll definition later step.2
      return step :: rest

/-- Nothing was refused, and no event had to make way for another one: an event that is let in
makes one more in the queue. -/
def HostAnswer.Lossless (before after : Instance) : HostAnswer → Prop
  | posted accepted => accepted = true ∧ after.queueCount = before.queueCount + 1
  | ticked _ trace => ∀ entry ∈ trace, entry.opcode ≠ .eventDropped

instance (before after : Instance) (answer : HostAnswer) :
    Decidable (answer.Lossless before after) :=
  match answer with
  | .posted accepted => inferInstanceAs (Decidable (accepted = true ∧ _))
  | .ticked _ trace => inferInstanceAs (Decidable (∀ entry ∈ trace, entry.opcode ≠ .eventDropped))

/-- No leaf was left without a slot. -/
def HostAnswer.Seated : HostAnswer → Prop
  | posted _ => True
  | ticked _ trace => ∀ state, Trace.Entry.leafOverflow state ∉ trace

/-- Nothing was lost in a series of steps that begins with an instance. -/
def Lossless : Instance → List (HostAnswer × Scene User) → Prop
  | _, [] => True
  | inst, (answer, scene) :: later => answer.Lossless inst scene.inst ∧ Lossless scene.inst later

instance decidableLossless : (inst : Instance) → (steps : List (HostAnswer × Scene User)) →
    Decidable (Lossless inst steps)
  | _, [] => .isTrue trivial
  | inst, (answer, scene) :: later =>
      have := decidableLossless scene.inst later
      inferInstanceAs (Decidable (answer.Lossless inst scene.inst ∧ _))

/-- A step in a larger tier that does the same. -/
structure Agrees (small : Tier) (step other : HostAnswer × Scene User) : Prop where
  answer_eq : other.1 = step.1
  user_eq : other.2.user = step.2.user
  commands_eq : other.2.commands = step.2.commands
  activeLeaves_eq : other.2.inst.activeLeaves = step.2.inst.activeLeaves
  timers_eq : other.2.inst.timers.take small.timerCapacity = step.2.inst.timers
  history_eq : other.2.inst.history.take small.historyCapacity = step.2.inst.history
  waiting_eq : other.2.inst.waiting = step.2.inst.waiting
  phase_eq : other.2.inst.phase? = step.2.inst.phase?
  seed_eq : other.2.inst.seed = step.2.inst.seed

/-- Two hosts stand equally. -/
structure Level (small large : Tier) (scene other : Scene User) : Prop where
  alike : scene.inst.Alike small large other.inst
  user_eq : other.user = scene.user
  commands_eq : other.commands = scene.commands

theorem Level.agrees {answer : HostAnswer} {scene other : Scene User}
    (level : Level small large scene other) : Agrees small (answer, scene) (answer, other) where
  answer_eq := rfl
  user_eq := level.user_eq
  commands_eq := level.commands_eq
  activeLeaves_eq := level.alike.activeLeaves_eq
  timers_eq := by
    rw [level.alike.timers_eq]
    exact List.take_left' (level.alike.tier_first ▸ scene.inst.length_timers)
  history_eq := by
    rw [level.alike.history_eq]
    exact List.take_left' (level.alike.tier_first ▸ scene.inst.length_history)
  waiting_eq := level.alike.waiting_eq
  phase_eq := level.alike.phase_eq
  seed_eq := level.alike.seed_eq

/-- The callbacks of a call act alike on instances of two tiers. -/
def HostCall.ActsAlike (small large : Tier) : HostCall User → Prop
  | post _ => True
  | tick dispatch _ _ => dispatch.ActsAlike small large

section Performing

variable {definition : Definition} {scene other : Scene User} {call : HostCall User}

/-- A call returns and leaves an instance for the next one, and what it traces tells of no leaf
without a slot. -/
theorem HostCall.perform_returns (sound : definition.Sound) (acts : call.ActsAlike small large)
    (ready : Ready definition scene.inst) :
    Returns (call.perform definition scene) fun step =>
      Ready definition step.2.inst ∧ step.1.Seated := by
  cases call with
  | post id =>
    have queues : Returns (Kernel.post definition id scene.inst) fun answer =>
        scene.inst.Waits .nothing answer.2 :=
      ready.queueSound.enqueue_returns _ _
    refine queues.bind fun answer waits => .pure ⟨?_, trivial⟩
    exact ready.of_leaves_eq waits.leaves_eq (waits.queueSound ready.queueSound)
  | tick dispatch limits delta =>
    have acts : dispatch.ActsAlike small large := acts
    let kernel : Kernel User := ⟨definition, dispatch, limits⟩
    have reliable : Reliable .nothing kernel := ⟨sound, acts.harmless⟩
    exact (reliable.tick_ready delta ready trivial).bind fun answer became =>
      .pure ⟨became.1, became.2.1.untraced⟩

theorem post_tracks (smaller : small < large) (id : UInt16) {first second : Instance}
    (alike : first.Alike small large second) :
    Tracks (fun answer => answer.1 = true ∧ answer.2.queueCount = first.queueCount + 1)
      (fun answer other => other.1 = answer.1 ∧ answer.2.Alike small large other.2)
      (post definition id first) (post definition id second) := by
  constructor
  rintro ⟨accepted, after⟩ ran ⟨taken, gained⟩
  have follows := (alike.inLine.enqueue_follows _ _).yields.of_eq _ ran
  have left : after.mailbox = (first.mailbox.enqueue _ _).2 := congrArg Prod.snd follows.agrees
  rw [follows.inLine.queueCount_eq, alike.inLine.queueCount_eq, left] at gained
  exact (alike.enqueue_tracks smaller _ _ fun _ => Mailbox.spacious_of_gained gained).of_eq _ ran
    taken

theorem fits_eq {kernel : Kernel User} {first second : Instance} (smaller : small < large)
    (room : kernel.definition.tier ≤ small) (alike : first.Alike small large second) :
    kernel.fits second = kernel.fits first := by
  have roomier : kernel.definition.tier ≤ large := Nat.le_trans room (Nat.le_of_lt smaller)
  unfold fits
  rw [alike.machineId_eq, alike.tier_first, alike.tier_second, decide_eq_true room,
    decide_eq_true roomier]

/-- A call by which nothing is lost does the same in a larger tier. -/
theorem HostCall.perform_tracks (smaller : small < large) (acts : call.ActsAlike small large)
    (room : definition.tier ≤ small) (level : Level small large scene other) :
    Tracks (fun step => step.1.Seated ∧ step.1.Lossless scene.inst step.2.inst)
      (fun step reply => reply.1 = step.1 ∧ Level small large step.2 reply.2)
      (call.perform definition scene) (call.perform definition other) := by
  cases call with
  | post id =>
    refine (post_tracks smaller id level.alike).bind (fun answer => .pure fun kept => kept.2) ?_
    rintro ⟨_, inst⟩ ⟨accepted, large⟩ ⟨rfl, alike⟩
    exact .pure fun _ => ⟨rfl, { level with alike }⟩
  | tick dispatch limits delta =>
    let kernel : Kernel User := ⟨definition, dispatch, limits⟩
    have acts : kernel.dispatch.ActsAlike small large := acts
    have begun : Abreast small large (.ofScene scene) (.ofScene other) :=
      { level with trace_eq := rfl }
    have ticking := (acts.lockstep smaller).tick_tracks delta begun
      (fits_eq smaller room level.alike)
    refine ticking.bind ?_ ?_
    · refine fun answer => .pure fun kept entry traced => ?_
      cases entry with
      | eventDropped id => exact kept.2 _ traced rfl
      | leafOverflow state => exact kept.1 state traced
      | _ => trivial
    · rintro ⟨_, after⟩ ⟨outcome, done⟩ ⟨rfl, abreast⟩
      refine .pure fun _ => ⟨?_, abreast.alike, abreast.user_eq, abreast.commands_eq⟩
      rw [abreast.trace_eq]

/-- A series of calls returns, and if nothing is lost it does the same in a larger tier. -/
theorem performAll_returns (sound : definition.Sound) (smaller : small < large)
    (room : definition.tier ≤ small) {calls : List (HostCall User)}
    (acts : ∀ call ∈ calls, call.ActsAlike small large) (ready : Ready definition scene.inst) :
    Returns (performAll definition calls scene) fun steps =>
      Lossless scene.inst steps → ∀ other, Level small large scene other →
        ∃ replies, performAll definition calls other = .ok replies ∧
          List.Forall₂ (Agrees small) steps replies := by
  induction calls generalizing scene with
  | nil => exact .ok fun _ _ _ => ⟨[], rfl, .nil⟩
  | cons call later ih =>
    have first := acts call (List.mem_cons_self ..)
    have others := fun call listed => acts call (List.mem_cons_of_mem _ listed)
    obtain ⟨step, ran, next, seated⟩ := call.perform_returns sound first ready
    obtain ⟨rest, went, follows⟩ := ih others next
    unfold performAll
    rw [ran, ok_bind, went]
    refine .pure fun lossless other level => ?_
    obtain ⟨kept, keeps⟩ := lossless
    obtain ⟨reply, ranToo, same, stays⟩ :=
      (call.perform_tracks smaller first room level).of_eq step ran ⟨seated, kept⟩
    obtain ⟨replies, wentToo, agree⟩ := follows keeps reply.2 stays
    rw [ranToo, ok_bind, wentToo]
    obtain ⟨answer, after⟩ := step
    obtain ⟨_, done⟩ := reply
    obtain rfl := same
    exact ⟨_, rfl, .cons stays.agrees agree⟩

end Performing

/-- A host cannot tell tiers apart by what a machine does. It starts an instance in a tier with room
for the machine, posts events and lets time pass, with callbacks that act alike on instances of this
tier and of a larger one. All of this returns. As long as no event was refused and none had to make
way for another one, an instance with the same machine id and seed in the larger tier does the
same: its queue lets in what the smaller one's lets in, each tick ends alike with the same trace,
and after each call the active leaves, timers, history, waiting events, phase and seed are the
same. -/
theorem tiers_transparent {graph : Chart.Graph} {compiled : Chart.Compiled} (drawn : graph.Drawn)
    (compiles : graph.compile = .ok (.ok compiled)) (smaller : small < large)
    (room : compiled.definition.tier ≤ small) (calls : List (HostCall User))
    (acts : ∀ call ∈ calls, call.ActsAlike small large) (machineId seed : UInt32) (user : User)
    (commands : Command.Writer) :
    ∃ steps, performAll compiled.definition calls
        ⟨.fresh small machineId seed, user, commands⟩ = .ok steps ∧
      (Lossless (.fresh small machineId seed) steps →
        ∃ others, performAll compiled.definition calls
            ⟨.fresh large machineId seed, user, commands⟩ = .ok others ∧
          List.Forall₂ (Agrees small) steps others) := by
  have sound := (drawn.sound compiles).1
  let start : Scene User := ⟨.fresh small machineId seed, user, commands⟩
  have ready : Ready compiled.definition start.inst := .fresh room machineId seed
  obtain ⟨steps, ran, follows⟩ := performAll_returns sound smaller room acts ready
  refine ⟨steps, ran, fun lossless => follows lossless _ ⟨?_, rfl, rfl⟩⟩
  exact Instance.alike_fresh smaller machineId seed

theorem actsAlike_tallying (small large : Tier) : tallying.ActsAlike small large where
  action := by
    intro registration listed scene _
    obtain rfl := List.mem_singleton.1 listed
    refine ⟨_, _, _, rfl, fun other alike => ?_⟩
    rw [← alike.seed_eq]
    rfl
  guard := nofun

theorem tiers_transparent_actor :
    ∃ compiled, Chart.Graph.actor.compile = .ok (.ok compiled) ∧
      let calls := [.tick tallying .default 0, .post 2, .tick tallying .default 16]
      let start (tier : Tier) : Scene Nat :=
        ⟨.fresh tier compiled.definition.structureHash 1, 0, .ofPage .blank⟩
      ∃ steps others, performAll compiled.definition calls (start .tier64) = .ok steps ∧
        Lossless (start .tier64).inst steps ∧
        performAll compiled.definition calls (start .tier256) = .ok others ∧
        List.Forall₂ (Agrees .tier64) steps others := by
  obtain ⟨compiled, compiles⟩ := Chart.Graph.exists_compiled_actor
  refine ⟨compiled, compiles, ?_⟩
  intro calls start
  have small : (Chart.Graph.actor.definition?.map Definition.tier) = some .tier64 := by
    decide +kernel
  have kept : (do
      let definition ← Chart.Graph.actor.definition?
      let start : Scene Nat := ⟨.fresh .tier64 definition.structureHash 1, 0, .ofPage .blank⟩
      return match performAll definition calls start with
        | .ok steps => decide (Lossless start.inst steps)
        | .error _ => false) = some true := by decide +kernel
  rw [Chart.Graph.drawn_actor.definition?_eq compiles] at small kept
  have smaller : Tier.tier64 < Tier.tier256 := by decide
  have room : compiled.definition.tier ≤ .tier64 := by
    rw [Option.some.inj small]
    decide
  have acts : ∀ call ∈ calls, call.ActsAlike .tier64 .tier256 := by
    intro call listed
    rcases List.mem_cons.1 listed with rfl | listed
    · exact actsAlike_tallying _ _
    · rcases List.mem_cons.1 listed with rfl | listed
      · trivial
      · obtain rfl := List.mem_singleton.1 listed
        exact actsAlike_tallying _ _
  obtain ⟨steps, ran, follows⟩ := tiers_transparent Chart.Graph.drawn_actor compiles smaller room
    calls acts compiled.definition.structureHash 1 0 (.ofPage .blank)
  have lossless : Lossless (start .tier64).inst steps := by
    have kept := Option.some.inj kept
    rw [ran] at kept
    exact of_decide_eq_true kept
  obtain ⟨others, ranToo, agree⟩ := follows lossless
  exact ⟨steps, others, ran, lossless, ranToo, agree⟩

end Kernel

end Statechart
