/-
# Calls

What goes on inside a tick. `Calls` follows the kernel's functions call by call: a tick serves
events, an event runs to completion, a transition is taken, a path is entered, a state is
settled, and what is settled enters and settles others. `Within` strings calls together, so
that something can be said of every state that is settled and of every transition that is taken
on the way, and not only of where a tick ends.

Settling is told without the bound on the levels of a descent. A descent that stays within the
bound does with any larger one what it does with this one, so it settles what lies below by
`descend` itself (`descend_yields`).
-/

import Mathlib.Logic.Relation
import Statechart.Kernel.Tick
import Statechart.Proofs.Yields

namespace Statechart.Kernel

open Rom (StateRecord TransitionRecord rootIndex)

variable {User : Type} (kernel : Kernel User)

/-! ### Descents of any depth -/

/-- How a state is settled. -/
abbrev Settle (User : Type) := UInt16 → Progress User → Except Fault (Progress User)

/-- Enter a state and settle it. -/
def enterAndSettle (settle : Settle User) (state : UInt16) (progress : Progress User) :
    Except Fault (Progress User) := do
  let progress ← kernel.enterState state progress
  settle state progress

/-- Enter a child of a parallel state that a path passes through: the one that is next on the
path by the path, and any other by itself. -/
def enterBeside (settle : Settle User) (next : UInt16) (rest : List UInt16)
    (progress : Progress User) (child : UInt16) : Except Fault (Progress User) :=
  if child = next then kernel.enterPath settle (next :: rest) progress
  else kernel.enterAndSettle settle child progress

theorem enterPath_cons_cons (settle : Settle User) (state next : UInt16) (rest : List UInt16)
    (progress : Progress User) :
    kernel.enterPath settle (state :: next :: rest) progress = (do
      let progress ← kernel.enterState state progress
      let record ← kernel.definition.state state
      if record.flags.parallel then
        record.children.words.foldlM (kernel.enterBeside settle next rest) progress
      else kernel.enterPath settle (next :: rest) progress) := rfl

/-- Enter what history names, or else the child that a state enters by default. -/
def enterNamed (settle : Settle User) (record : StateRecord) (progress : Progress User) :
    Option UInt16 → Except Fault (Progress User)
  | some saved =>
      if record.flags.deepHistory then do
        let path ← kernel.restoredPath record.depth saved
        kernel.enterPath settle path progress
      else kernel.enterAndSettle settle saved progress
  | none => kernel.enterAndSettle settle (defaultChild record) progress

/-- One level of a descent, where `settle` goes on below. -/
def descendBy (settle : Settle User) (state : UInt16) (progress : Progress User) :
    Except Fault (Progress User) := do
  let record ← kernel.definition.state state
  if record.isLeaf then
    addLeaf state progress
  else if record.flags.parallel then
    record.children.words.foldlM
      (fun progress child => kernel.enterAndSettle settle child progress) progress
  else
    let named ← kernel.restorable? state record progress.inst
    kernel.enterNamed settle record progress named

/-- How a state is settled that enters one of its children. -/
theorem descendBy_of_restorable? {kernel : Kernel User} {settle : Settle User} {state : UInt16}
    {record : StateRecord} {progress : Progress User} {named : Option UInt16}
    (known : kernel.definition.state state = .ok record) (inner : record.isLeaf = false)
    (serial : record.flags.parallel = false)
    (restores : kernel.restorable? state record progress.inst = .ok named) :
    kernel.descendBy settle state progress = kernel.enterNamed settle record progress named := by
  rw [descendBy, known, ok_bind, if_neg (Bool.eq_false_iff.1 inner),
    if_neg (Bool.eq_false_iff.1 serial), restores, ok_bind]

theorem descendFrom_succ (levels : Nat) :
    kernel.descendFrom (levels + 1) = kernel.descendBy (kernel.descendFrom levels) := rfl

/-- What the first way to settle states returns, the second one returns, too. -/
def Agree (settle other : Settle User) : Prop :=
  ∀ state progress, Yields (settle state progress) fun after => other state progress = .ok after

section

variable {kernel} {settle other : Settle User} {state : UInt16} {progress after : Progress User}

namespace Agree

variable (agree : Agree settle other)

include agree

theorem enterAndSettle : Agree (kernel.enterAndSettle settle) (kernel.enterAndSettle other) :=
  fun state _ => .bind_agrees fun entered _ => agree state entered

theorem enterPath (path : List UInt16) (progress : Progress User) :
    Yields (kernel.enterPath settle path progress) fun after =>
      kernel.enterPath other path progress = .ok after := by
  induction path generalizing progress with
  | nil => exact .ok rfl
  | cons state rest ih =>
    cases rest with
    | nil => exact agree.enterAndSettle state progress
    | cons next rest =>
      rw [enterPath_cons_cons, enterPath_cons_cons]
      refine .bind_agrees fun entered _ => .bind_agrees fun record _ => ?_
      have beside (progress : Progress User) (child : UInt16) :
          Yields (kernel.enterBeside settle next rest progress child) fun after =>
            kernel.enterBeside other next rest progress child = .ok after := by
        unfold enterBeside
        split
        · exact ih progress
        · exact agree.enterAndSettle child progress
      split
      · exact .foldlM_agrees beside _ entered
      · exact ih entered

theorem descendBy : Agree (kernel.descendBy settle) (kernel.descendBy other) := by
  intro state progress
  unfold Kernel.descendBy
  refine .bind_agrees fun record _ => ?_
  split
  · exact .self _
  · split
    · exact .foldlM_agrees (fun progress child => agree.enterAndSettle child progress) _ progress
    · refine .bind_agrees fun named _ => ?_
      cases named with
      | none => exact agree.enterAndSettle _ progress
      | some saved =>
        simp only [enterNamed]
        split
        · exact .bind_agrees fun path _ => agree.enterPath path progress
        · exact agree.enterAndSettle saved progress

end Agree

/-- More levels make no difference to a descent that comes to its end. -/
theorem descendFrom_agree (levels : Nat) :
    Agree (kernel.descendFrom levels) (kernel.descendFrom (levels + 1)) := by
  induction levels with
  | zero => exact fun _ _ => .error
  | succ levels ih =>
    rw [descendFrom_succ, descendFrom_succ]
    exact ih.descendBy

/-- A descent settles what lies below by descents. -/
theorem descend_yields (state : UInt16) (progress : Progress User) :
    Yields (kernel.descend state progress) fun after =>
      kernel.descendBy kernel.descend state progress = .ok after :=
  (descendFrom_agree (maxLevels - 1)).descendBy state progress

end

/-- The state that a transition stays within. -/
def scopeOf (transition : TransitionRecord) : Except Fault UInt16 :=
  if transition.flags.isGlobal then .ok rootIndex
  else kernel.scope transition.source transition.target

/-- Taking a transition that is not internal. -/
theorem fire_of_external {transition : TransitionRecord}
    (external : transition.flags.isInternal = false) (event : UInt16) (progress : Progress User) :
    kernel.fire transition event progress = (do
      let top ← kernel.scopeOf transition
      let progress ← kernel.exitBelow top
        (progress.note (.transition transition.source transition.target event))
      let progress ← kernel.runAction .effect transition.action transition.source progress
      let chain ← kernel.chainTo transition.target
      let record ← kernel.definition.state top
      kernel.enterPath kernel.descend (chain.drop (record.depth.toNat + 1)) progress) := by
  unfold fire scopeOf
  rw [external]
  cases transition.flags.isGlobal <;> rfl

/-! ### Calls -/

/-- A part of a tick that is called, with what it is called on. -/
inductive Call (User : Type)
  | tick (delta : UInt32) (scene : Scene User)
  /-- The entry phase, and the events that follow it. -/
  | resume (budget transitions : Nat) (progress : Progress User)
  | serve (budget transitions : Nat) (progress : Progress User)
  | serveEvent (budget transitions : Nat) (event : Event) (progress : Progress User)
  /-- The transitions that an event sets off. -/
  | complete (remaining steps : Nat) (event : Event) (progress : Progress User)
  | fire (transition : TransitionRecord) (event : UInt16) (progress : Progress User)
  | enter (path : List UInt16) (progress : Progress User)
  | settle (state : UInt16) (progress : Progress User)

/-- One part of a tick calls another. -/
inductive Calls : Call User → Call User → Prop
  | idle {delta : UInt32} {scene : Scene User} {aged : Progress User} :
      kernel.fits scene.inst = true → scene.inst.phase? = some .idle →
      kernel.advanceTimers delta ((Progress.ofScene scene).withPhase .idle) = .ok aged →
      (aged.inst.isStarted && aged.inst.queueIsEmpty) = false →
      Calls (.tick delta scene) (.resume kernel.limits.events.toNat 0 aged)
  /-- A tick that is taken up in its entry phase. -/
  | entry {delta : UInt32} {scene : Scene User} :
      kernel.fits scene.inst = true → scene.inst.phase? = some .entry →
      Calls (.tick delta scene) (.resume kernel.limits.events.toNat 0 (.ofScene scene))
  /-- A tick that is taken up while it serves an event. -/
  | rtc {delta : UInt32} {scene : Scene User} :
      kernel.fits scene.inst = true → scene.inst.phase? = some .rtc →
      Calls (.tick delta scene)
        (.serveEvent kernel.limits.events.toNat 0 .completion (.ofScene scene))
  /-- An instance without active states enters its default configuration. -/
  | start {budget transitions : Nat} {progress : Progress User} :
      (progress.withPhase .entry).inst.isStarted = false →
      Calls (.resume budget transitions progress) (.settle rootIndex (progress.withPhase .entry))
  | started {budget transitions : Nat} {progress : Progress User} :
      (progress.withPhase .entry).inst.isStarted = true →
      Calls (.resume budget transitions progress)
        (.serve budget transitions (progress.withPhase .entry))
  /-- A deferred event is put back, and the next one is looked at. -/
  | putBack {budget transitions : Nat} {progress after : Progress User} {event : Event}
      {inst : Instance} :
      progress.inst.dequeue = .ok (some event, inst) → event.flags.deferred = true →
      requeue event (progress.withInst inst) = .ok after →
      Calls (.serve (budget + 1) transitions progress) (.serve budget transitions after)
  | take {budget transitions : Nat} {progress : Progress User} {event : Event} {inst : Instance} :
      progress.inst.dequeue = .ok (some event, inst) → event.flags.deferred = false →
      Calls (.serve (budget + 1) transitions progress)
        (.serveEvent budget transitions event
          ((progress.withInst inst).note (.event event.id event.priority)))
  | run {budget transitions : Nat} {event : Event} {progress : Progress User} :
      Calls (.serveEvent budget transitions event progress)
        (.complete kernel.limits.rtcSteps.toNat 0 event (withSteps 0 (progress.withPhase .rtc)))
  /-- There is another event that may be taken. -/
  | further {budget transitions steps : Nat} {event : Event} {progress after : Progress User} :
      kernel.runToCompletion event (progress.withPhase .rtc) = .ok (.settled steps after) →
      0 < budget → after.inst.queueIsEmpty = false →
      Calls (.serveEvent budget transitions event progress)
        (.resume budget (min (transitions + steps) maxTransitions) after)
  | fire {remaining steps : Nat} {event : Event} {progress chosen : Progress User}
      {transition : TransitionRecord} :
      kernel.select event progress = .ok (some transition, chosen) →
      Calls (.complete (remaining + 1) steps event progress) (.fire transition event.id chosen)
  /-- Completion is served after a transition. -/
  | again {remaining steps : Nat} {event : Event} {progress chosen after : Progress User}
      {transition : TransitionRecord} :
      kernel.select event progress = .ok (some transition, chosen) →
      kernel.fire transition event.id chosen = .ok after →
      Calls (.complete (remaining + 1) steps event progress)
        (.complete remaining (steps + 1) .completion (withSteps (steps + 1) after))
  /-- A transition enters the way down to its target, after it has left what is in the way. -/
  | exchange {transition : TransitionRecord} {event top : UInt16}
      {progress left acted : Progress User} {chain : List UInt16} {record : StateRecord} :
      transition.flags.isInternal = false → kernel.scopeOf transition = .ok top →
      kernel.exitBelow top
        (progress.note (.transition transition.source transition.target event)) = .ok left →
      kernel.runAction .effect transition.action transition.source left = .ok acted →
      kernel.chainTo transition.target = .ok chain → kernel.definition.state top = .ok record →
      Calls (.fire transition event progress)
        (.enter (chain.drop (record.depth.toNat + 1)) acted)
  /-- The last state of a path is settled. -/
  | last {state : UInt16} {progress entered : Progress User} :
      kernel.enterState state progress = .ok entered →
      Calls (.enter [state] progress) (.settle state entered)
  | onward {state next : UInt16} {rest : List UInt16} {progress entered : Progress User}
      {record : StateRecord} :
      kernel.enterState state progress = .ok entered →
      kernel.definition.state state = .ok record → record.flags.parallel = false →
      Calls (.enter (state :: next :: rest) progress) (.enter (next :: rest) entered)
  /-- A path goes on through a parallel state. -/
  | through {state next : UInt16} {rest earlier later : List UInt16}
      {progress entered middle : Progress User} {record : StateRecord} :
      kernel.enterState state progress = .ok entered →
      kernel.definition.state state = .ok record → record.flags.parallel = true →
      record.children.words = earlier ++ next :: later →
      earlier.foldlM (kernel.enterBeside kernel.descend next rest) entered = .ok middle →
      Calls (.enter (state :: next :: rest) progress) (.enter (next :: rest) middle)
  /-- A child of a parallel state that is not on the path is entered and settled. -/
  | beside {state next child : UInt16} {rest earlier later : List UInt16}
      {progress entered middle inside : Progress User} {record : StateRecord} :
      kernel.enterState state progress = .ok entered →
      kernel.definition.state state = .ok record → record.flags.parallel = true →
      record.children.words = earlier ++ child :: later → child ≠ next →
      earlier.foldlM (kernel.enterBeside kernel.descend next rest) entered = .ok middle →
      kernel.enterState child middle = .ok inside →
      Calls (.enter (state :: next :: rest) progress) (.settle child inside)
  /-- Each child of a parallel state is entered and settled. -/
  | region {state child : UInt16} {earlier later : List UInt16}
      {progress middle inside : Progress User} {record : StateRecord} :
      kernel.definition.state state = .ok record → record.isLeaf = false →
      record.flags.parallel = true → record.children.words = earlier ++ child :: later →
      earlier.foldlM
        (fun progress child => kernel.enterAndSettle kernel.descend child progress) progress =
          .ok middle →
      kernel.enterState child middle = .ok inside →
      Calls (.settle state progress) (.settle child inside)
  | initial {state : UInt16} {progress entered : Progress User} {record : StateRecord} :
      kernel.definition.state state = .ok record → record.isLeaf = false →
      record.flags.parallel = false →
      kernel.restorable? state record progress.inst = .ok none →
      kernel.enterState (defaultChild record) progress = .ok entered →
      Calls (.settle state progress) (.settle (defaultChild record) entered)
  /-- The child that shallow history names is entered and settled. -/
  | shallow {state saved : UInt16} {progress entered : Progress User} {record : StateRecord} :
      kernel.definition.state state = .ok record → record.isLeaf = false →
      record.flags.parallel = false →
      kernel.restorable? state record progress.inst = .ok (some saved) →
      record.flags.deepHistory = false → kernel.enterState saved progress = .ok entered →
      Calls (.settle state progress) (.settle saved entered)
  /-- The path down to the state that deep history names is entered. -/
  | deep {state saved : UInt16} {path : List UInt16} {progress : Progress User}
      {record : StateRecord} :
      kernel.definition.state state = .ok record → record.isLeaf = false →
      record.flags.parallel = false →
      kernel.restorable? state record progress.inst = .ok (some saved) →
      record.flags.deepHistory = true → kernel.restoredPath record.depth saved = .ok path →
      Calls (.settle state progress) (.enter path progress)

/-- One part of a tick is called in the course of another. -/
abbrev Within : Call User → Call User → Prop :=
  Relation.ReflTransGen kernel.Calls

/-! ### The first transition of a tick -/

/-- The target of a transition that a tick begins with, and where it was entered to be settled; as
long as it is entered alone. -/
def firstTarget (delta : UInt32) (scene : Scene User) :
    Except Fault (UInt16 × Progress User) := do
  let aged ← kernel.advanceTimers delta ((Progress.ofScene scene).withPhase .idle)
  let entry := aged.withPhase .entry
  let (some event, queue) ← entry.inst.dequeue | throw .endless
  let taken := (entry.withInst queue).note (.event event.id event.priority)
  let (some transition, chosen) ← kernel.select event (withSteps 0 (taken.withPhase .rtc))
    | throw .endless
  let noted := chosen.note (.transition transition.source transition.target event.id)
  let top ← kernel.scopeOf transition
  let left ← kernel.exitBelow top noted
  let acted ← kernel.runAction .effect transition.action transition.source left
  let chain ← kernel.chainTo transition.target
  let record ← kernel.definition.state top
  let entered ← kernel.enterState transition.target acted
  if kernel.fits scene.inst ∧ scene.inst.phase? = some .idle ∧
      (aged.inst.isStarted && aged.inst.queueIsEmpty) = false ∧ entry.inst.isStarted ∧
      0 < kernel.limits.events.toNat ∧ event.flags.deferred = false ∧
      0 < kernel.limits.rtcSteps.toNat ∧ transition.flags.isInternal = false ∧
      chain.drop (record.depth.toNat + 1) = [transition.target] then
    return (transition.target, entered)
  else throw .endless

/-- The target is settled in the course of the tick. -/
theorem within_of_firstTarget {kernel : Kernel User} {delta : UInt32} {scene : Scene User}
    {state : UInt16} {before : Progress User}
    (ran : kernel.firstTarget delta scene = .ok (state, before)) :
    kernel.Within (.tick delta scene) (.settle state before) := by
  obtain ⟨aged, ages, ran⟩ := Yields.exists_of_bind ran
  obtain ⟨⟨_ | event, queue⟩, taken, ran⟩ := Yields.exists_of_bind ran
  · cases ran
  obtain ⟨⟨_ | transition, chosen⟩, selects, ran⟩ := Yields.exists_of_bind ran
  · cases ran
  obtain ⟨top, within, ran⟩ := Yields.exists_of_bind ran
  obtain ⟨left, leaves, ran⟩ := Yields.exists_of_bind ran
  obtain ⟨acted, acts, ran⟩ := Yields.exists_of_bind ran
  obtain ⟨chain, down, ran⟩ := Yields.exists_of_bind ran
  obtain ⟨record, known, ran⟩ := Yields.exists_of_bind ran
  obtain ⟨entered, enters, ran⟩ := Yields.exists_of_bind ran
  split at ran
  · next holds =>
    cases ran
    obtain ⟨fits, idle, some, running, events, plain, steps, external, path⟩ := holds
    obtain ⟨budget, budgetEq⟩ := Nat.exists_eq_add_one_of_ne_zero (Nat.ne_of_gt events)
    obtain ⟨remaining, remainingEq⟩ := Nat.exists_eq_add_one_of_ne_zero (Nat.ne_of_gt steps)
    let entry := aged.withPhase .entry
    let serving := (entry.withInst queue).note (.event event.id event.priority)
    let stepping := withSteps 0 (serving.withPhase .rtc)
    have idles : kernel.Calls (.tick delta scene) (.resume (budget + 1) 0 aged) :=
      budgetEq ▸ .idle fits idle ages some
    have starts : kernel.Calls (.resume (budget + 1) 0 aged) (.serve (budget + 1) 0 entry) :=
      .started running
    have takes : kernel.Calls (.serve (budget + 1) 0 entry) (.serveEvent budget 0 event serving) :=
      .take taken plain
    have runs : kernel.Calls (.serveEvent budget 0 event serving)
        (.complete (remaining + 1) 0 event stepping) := remainingEq ▸ .run
    have exchanges : kernel.Calls (.fire transition event.id chosen)
        (.enter [transition.target] acted) :=
      path ▸ .exchange external within leaves acts down known
    exact ((((((Relation.ReflTransGen.single idles).tail starts).tail takes).tail runs).tail
      (.fire selects)).tail exchanges).tail (.last enters)
  · cases ran

end Statechart.Kernel
