/-
# Expiries and the transitions taken on them

A timer that runs out puts an event into the queue, and when this event is served, a
transition of the state may be taken on it. The event names the state and nothing more. If the
state is left and entered again while the event waits, the event is served all the same, and a
transition is taken though the timer of the new stay has not run out.

So the account is kept for the state and not for its stays (`Covered`): of its expiries, each
is waiting, or being served, or gone, and a transition on the timer is paid for by the one
that is being served. In a whole run there are at any time at least as many expiries as there
are transitions on the timer (`timer_transitions_backed`), and if all expiries before the last
entry have been spent, then the timer has run out since.
-/

import Statechart.Kernel.Post
import Statechart.Proofs.Chart.Sharing
import Statechart.Proofs.Instance.Mailbox
import Statechart.Proofs.Kernel.Chronicle

namespace Statechart

open Rom (Definition Sections TransitionRecord noIndex rootIndex)

/-- Whether an event announces that the timer of a state has run out. -/
def Event.announces (state : UInt16) (event : Event) : Bool :=
  event.timerSource?.map Prod.snd = some state

theorem Event.announces_timer (slot owner state : UInt16) :
    (timer slot owner).announces state = decide (owner = state) := by
  rw [announces, timerSource?_timer, Option.map_some]
  exact decide_eq_decide.2 Option.some_inj

/-- An event that is posted by its id announces no state but the root. -/
theorem Kernel.announces_eventFor (definition : Definition) (id : UInt16) {state : UInt16}
    (inner : state ≠ rootIndex) : (eventFor definition id).announces state = false := by
  have payload : (eventFor definition id).payload = Block.zeros 16 := by
    unfold eventFor
    split <;> rfl
  apply decide_eq_false
  unfold Event.timerSource?
  rw [payload]
  split
  · exact fun named => inner (Option.some.inj named).symm
  · exact nofun

namespace Trace

/-- Whether a transition is taken from a state on a timer event. -/
def Entry.spends (state : UInt16) : Entry → Bool
  | .transition source _ trigger => source = state && trigger = Event.timerId
  | _ => false

/-- Whether the timer of a state runs out. -/
def Entry.expires (state : UInt16) : Entry → Bool
  | .timerFired _ owner => owner = state
  | _ => false

/-- How many transitions have been taken from a state on timer events. -/
def spent (state : UInt16) (trace : List Entry) : Nat :=
  trace.countP (Entry.spends state)

/-- How often the timer of a state has run out. -/
def expiries (state : UInt16) (trace : List Entry) : Nat :=
  trace.countP (Entry.expires state)

variable {state : UInt16} {trace others : List Entry}

@[simp]
theorem spent_append : spent state (trace ++ others) = spent state trace + spent state others :=
  List.countP_append ..

@[simp]
theorem expiries_append :
    expiries state (trace ++ others) = expiries state trace + expiries state others :=
  List.countP_append ..

@[simp]
theorem spent_enter_cons (other : UInt16) :
    spent state (.enter other :: trace) = spent state trace :=
  rfl

@[simp]
theorem expiries_enter_cons (other : UInt16) :
    expiries state (.enter other :: trace) = expiries state trace :=
  rfl

theorem Entry.Aside.spends_eq {entry : Entry} (aside : entry.Aside) (state : UInt16) :
    entry.spends state = false := by
  cases entry with
  | transition _ _ _ => cases aside
  | _ => rfl

end Trace

namespace Instance

/-- How many of the events in the queue announce a state. -/
def announced (inst : Instance) (state : UInt16) : Nat :=
  inst.waiting.countP (Event.announces state)

variable {before after : Instance} {event : Event} {state : UInt16}

theorem announced_congr (same : after.queue = before.queue) :
    after.announced state = before.announced state :=
  congrArg _ (waiting_congr same)

theorem announced_of_waiting (waiting : before.waiting = event :: after.waiting) :
    before.announced state = (event.announces state).toNat + after.announced state := by
  rw [announced, waiting, List.countP_cons, Nat.add_comm, Bool.toNat, cond_eq_ite]
  rfl

theorem Joins.announced_le (joins : Joins event before after) :
    after.announced state ≤ (event.announces state).toNat + before.announced state := by
  have least := joins.subperm.countP_le (Event.announces state)
  rwa [List.countP_cons, Nat.add_comm, ← cond_eq_ite] at least

end Instance

namespace Kernel

open Trace (spent expiries)

variable {User : Type} {kernel : Kernel User} {start : Stays} {delta : UInt32}
  {state : UInt16} {held : Nat} {event next : Event} {progress before middle after : Progress User}

/-- Every transition taken from a state on a timer event so far is paid for by an expiry, or by
one of the events that waited at first; and so is the event that is being served and are those
that are waiting. -/
structure Covered (state : UInt16) (held : Nat) (event : Event) (progress : Progress User) :
    Prop where
  inLine : progress.inst.InLine
  spent_le (front : List Trace.Entry) : front <+: progress.trace.toList →
    spent state front ≤ held + expiries state front
  balance : spent state progress.trace.toList + (event.announces state).toNat +
    progress.inst.announced state ≤ held + expiries state progress.trace.toList

namespace Covered

/-- Before a transition is taken on a timer event, there is something to pay for it. -/
theorem spent_lt (covered : Covered state held event progress) {front back : List Trace.Entry}
    {target : UInt16}
    (split : progress.trace.toList = front ++ .transition state target Event.timerId :: back) :
    spent state front < held + expiries state front := by
  let taken : Trace.Entry := .transition state target Event.timerId
  have spends : taken.spends state = true := by
    simp [taken, Trace.Entry.spends]
  have bound := covered.spent_le (front ++ [taken])
    ⟨back, by rw [split, List.append_assoc, List.singleton_append]⟩
  rw [Trace.spent_append, Trace.expiries_append] at bound
  have one : spent state [taken] = 1 := by
    rw [spent, List.countP_singleton, if_pos spends]
  have none : expiries state [taken] = 0 := rfl
  omega

/-- A tick begins with the events that wait. -/
theorem ofScene {scene : Scene User} (inLine : scene.inst.InLine) :
    Covered state (scene.inst.announced state) .completion (.ofScene scene) where
  inLine := inLine
  spent_le front listed := by
    rw [List.prefix_nil.1 listed]
    exact Nat.zero_le _
  balance := by
    show 0 + 0 + scene.inst.announced state ≤ _ + 0
    omega

/-- The account goes on if what is spent was there before, and what is there afterwards was
there before or has been added. -/
theorem advance (covered : Covered state held event before) {entries : List Trace.Entry}
    (grows : after.trace.toList = before.trace.toList ++ entries) (inLine : after.inst.InLine)
    (paid : spent state entries ≤ (event.announces state).toNat + before.inst.announced state)
    (remains : spent state entries + (next.announces state).toNat + after.inst.announced state ≤
      (event.announces state).toNat + before.inst.announced state + expiries state entries) :
    Covered state held next after := by
  have balance := covered.balance
  refine ⟨inLine, fun front listed => ?_, ?_⟩
  · rw [grows] at listed
    rcases List.prefix_or_prefix_of_prefix listed (List.prefix_append _ entries) with early | late
    · exact covered.spent_le front early
    · obtain ⟨added, rfl⟩ := late
      have among := (List.prefix_append_right_inj _).1 listed
      have few : spent state added ≤ spent state entries := among.sublist.countP_le
      rw [Trace.spent_append, Trace.expiries_append]
      omega
  · rw [grows, Trace.spent_append, Trace.expiries_append]
    omega

/-- Nothing is spent, and what is announced in the queue was announced before. -/
theorem idle (covered : Covered state held event before) {entries : List Trace.Entry}
    (grows : after.trace.toList = before.trace.toList ++ entries)
    (none : spent state entries = 0) (inLine : after.inst.InLine)
    (fewer : after.inst.announced state ≤ before.inst.announced state) :
    Covered state held event after := by
  refine covered.advance grows inLine (none ▸ Nat.zero_le _) ?_
  rw [none]
  omega

/-- Nothing is spent, and the queue stays as it is. -/
theorem still (covered : Covered state held event before) {entries : List Trace.Entry}
    (grows : after.trace.toList = before.trace.toList ++ entries)
    (none : spent state entries = 0) (same : after.inst.queue = before.inst.queue) :
    Covered state held event after :=
  covered.idle grows none (covered.inLine.of_queue_eq same)
    (Nat.le_of_eq (Instance.announced_congr same))

theorem note (covered : Covered state held event before) {entry : Trace.Entry}
    (other : entry.spends state = false) : Covered state held event (before.note entry) := by
  refine covered.still Array.toList_push ?_ rfl
  rw [spent, List.countP_singleton, other]
  rfl

end Covered

/-! ### Time -/

/-- What passes for one slot keeps the account: an expiry pays for the event that it queues. -/
theorem Tock.covered {slot : Nat} (tock : Tock kernel delta slot before after)
    (spares : kernel.dispatch.Preserves Instance.queue)
    (covered : Covered state held event before) :
    Covered state held event after := by
  have writes {value : UInt32} {inst : Instance}
      (written : before.inst.setTimer slot value = .ok inst) :
      inst.queue = before.inst.queue := by
    obtain ⟨_, rfl⟩ := (Instance.setTimer_yields _).of_eq _ written
    rfl
  cases tock with
  | unarmed _ => exact covered
  | waned _ _ written => exact covered.still (List.append_nil _).symm rfl (writes written)
  | lapsed _ _ _ written _ => exact covered.still (List.append_nil _).symm rfl (writes written)
  | @expired _ inst owner acted _ _ _ _ written _ ran queued =>
    obtain ⟨lost, dropped, grows⟩ := expiry_trace ran queued
    have acting : acted.inst.queue = before.inst.queue :=
      ((runAction_preserves spares _ _ _ _).of_eq _ ran).trans (writes written)
    obtain ⟨accepted, queue, put, same⟩ := (enqueueOrNote_yields _ _ _).of_eq _ queued
    have inst : after.inst = queue := by
      rw [same]
      split <;> rfl
    have joins := ((covered.inLine.of_queue_eq acting).enqueue_yields _ _).of_eq _ put
    have least : queue.announced state ≤
        (decide (owner = state)).toNat + before.inst.announced state := by
      rw [← Event.announces_timer, ← Instance.announced_congr acting]
      exact joins.announced_le
    have unspent : spent state (expirySteps kernel.definition (UInt16.ofNat slot) owner ++ lost) =
        0 := by
      refine List.countP_eq_zero.2 fun entry listed => ?_
      rcases List.mem_append.1 listed with own | gone
      · rcases mem_expirySteps own with rfl | rfl <;> exact nofun
      · exact dropped entry gone ▸ nofun
    have earned : (decide (owner = state)).toNat ≤
        expiries state (expirySteps kernel.definition (UInt16.ofNat slot) owner ++ lost) := by
      rw [expiries, expirySteps, List.cons_append, List.countP_cons, Bool.toNat, cond_eq_ite]
      exact Nat.le_add_left _ _
    refine covered.advance grows (inst ▸ joins.inLine) (unspent ▸ Nat.zero_le _) ?_
    rw [unspent, inst]
    omega

theorem Elapses.covered {slots : List Nat} (elapses : Elapses kernel delta slots before after)
    (spares : kernel.dispatch.Preserves Instance.queue)
    (covered : Covered state held event before) :
    Covered state held event after := by
  induction elapses with
  | nil => exact covered
  | cons tock _ ih => exact ih (tock.covered spares covered)

theorem advanceTimers_covered (delta : UInt32) (spares : kernel.dispatch.Preserves Instance.queue)
    (covered : Covered state held event progress) :
    Yields (kernel.advanceTimers delta progress) (Covered state held event) := by
  apply (advanceTimers_yields progress).mono
  rintro after (⟨_, rfl⟩ | ⟨_, elapses⟩)
  · exact covered
  · exact elapses.covered spares covered

/-! ### Steps -/

section

variable (wellFormed : kernel.definition.sections.WellFormed)
  (sourceless : ∀ transition ∈ kernel.definition.sections.globals, transition.source = noIndex)
  (has : kernel.definition.sections.Has state)

include wellFormed sourceless has

/-- Only a transition of the state itself is taken on its timer, and only on an event that
announces the state. -/
theorem Chosen.announces {transition : TransitionRecord}
    (chosen : Chosen kernel.definition event transition)
    (spends : (Trace.Entry.transition transition.source transition.target event.id).spends state =
      true) : event.announces state = true := by
  simp only [Trace.Entry.spends, Bool.and_eq_true, decide_eq_true_eq] at spends
  obtain ⟨own, timed⟩ := spends
  cases chosen with
  | anywhere listed _ =>
    exact absurd (own.symm.trans (sourceless transition listed)) (wellFormed.ne_noIndex has)
  | locally _ awaited =>
    simp only [awaits, Bool.and_eq_true, Bool.or_eq_true, decide_eq_true_eq, bne_iff_ne] at awaited
    rw [awaited.1, own] at awaited
    exact decide_eq_true (awaited.2.resolve_left fun other => other timed)

variable (spares : kernel.dispatch.Preserves Instance.queue)

include spares

/-- Every step keeps the account. -/
theorem Step.covered {first second : Stage User} (step : Step kernel start first second)
    (covered : Covered state held first.serving first.progress) :
    Covered state held second.serving second.progress := by
  cases step with
  | called touches same =>
    exact covered.still (by rw [same, List.append_nil]) rfl (spares _ _ touches)
  | noted aside => exact covered.note (aside.spends_eq state)
  | paced _ _ => exact covered.still (List.append_nil _).symm rfl rfl
  | @taken event next progress inst taken _ =>
    obtain ⟨inLine, waiting⟩ := covered.inLine.dequeue_yields.of_eq _ taken
    have served : progress.inst.announced state =
        (next.announces state).toNat + inst.announced state :=
      Instance.announced_of_waiting (waiting next rfl)
    refine covered.advance Array.toList_push inLine (Nat.zero_le _) ?_
    show 0 + (next.announces state).toNat + inst.announced state ≤
      (event.announces state).toNat + progress.inst.announced state + 0
    omega
  | @putBack event next progress after inst taken _ queued =>
    obtain ⟨inLine, waiting⟩ := covered.inLine.dequeue_yields.of_eq _ taken
    obtain ⟨accepted, queue, put, rfl⟩ := (enqueueOrNote_yields _ _ _).of_eq _ queued
    have joins := (inLine.enqueue_yields _ _).of_eq _ put
    have fewer : queue.announced state ≤ progress.inst.announced state := by
      rw [Instance.announced_of_waiting (waiting next rfl)]
      exact joins.announced_le
    have queueing : Covered state held event (progress.withInst queue) :=
      covered.idle (List.append_nil _).symm rfl joins.inLine fewer
    split
    · exact queueing
    · exact queueing.note rfl
  | @fired event progress transition chosen =>
    have paid := chosen.announces wellFormed sourceless has
    have spends : spent state [.transition transition.source transition.target event.id] ≤
        (event.announces state).toNat := by
      rw [spent, List.countP_singleton]
      split
      · next own => rw [paid own]; rfl
      · exact Nat.zero_le _
    refine covered.advance Array.toList_push covered.inLine (Nat.le_add_right_of_le spends) ?_
    show _ + 0 + progress.inst.announced state ≤
      (event.announces state).toNat + progress.inst.announced state + 0
    omega
  | @entered event progress _ other _ armed =>
    have entering : Covered state held event (progress.note (.enter other)) := covered.note rfl
    rcases (armTimer_yields _ _ _).of_eq _ armed with ⟨_, rfl⟩ | ⟨_, inst, written, rfl⟩
    · exact entering
    · obtain ⟨_, rfl⟩ := (Instance.setTimer_yields _).of_eq _ written
      exact entering.still Array.toList_push rfl rfl
  | @left event progress other saved inst _ remembered disarmed =>
    have same : inst.queue = progress.inst.queue := by
      obtain ⟨history, fits, rfl⟩ := (remember_yields _ _ _ _).of_eq _ remembered
      rcases (disarm_yields _ _).of_eq _ disarmed with ⟨_, rfl⟩ | ⟨_, _, rfl⟩ <;> rfl
    exact covered.still Array.toList_push rfl same
  | @seated event progress _ other added =>
    rcases (addLeaf_yields _ _).of_eq _ added with ⟨_, inst, _, written, rfl⟩ | ⟨_, rfl⟩
    · obtain ⟨_, rfl⟩ := (Instance.setLeaf_yields _).of_eq _ written
      exact covered.still (List.append_nil _).symm rfl rfl
    · exact covered.still Array.toList_push rfl rfl
  | vacated _ => exact covered.still (List.append_nil _).symm rfl rfl
  | contained => exact covered.still Array.toList_push rfl rfl

theorem Path.covered {first second : Stage User} (path : Path kernel start first second)
    (covered : Covered state held first.serving first.progress) :
    Covered state held second.serving second.progress := by
  induction path with
  | refl => exact covered
  | tail _ step ih => exact step.covered wellFormed sourceless has spares ih

/-- Over a tick the account is kept, and it begins with the events that wait. -/
theorem Done.covered {pledge : Instance.Pledge} {stays : Stays} {scene : Scene User}
    {outcome : Outcome} (done : Done pledge kernel stays delta scene outcome after)
    (inLine : scene.inst.InLine) :
    ∃ last, Covered state (scene.inst.announced state) last after := by
  have begins : Covered state (scene.inst.announced state) .completion (.ofScene scene) :=
    .ofScene inLine
  rcases done.became with ⟨_, rfl⟩ | ⟨_, course⟩
  · exact ⟨_, begins⟩
  · obtain ⟨aged, passed, lands⟩ := course
    obtain ⟨last, path⟩ := lands.exists_path
    have paced : Covered state (scene.inst.announced state) .completion
        ((Progress.ofScene scene).withPhase .idle) :=
      begins.still (List.append_nil _).symm rfl rfl
    have aging := (advanceTimers_covered delta spares paced).of_eq _ passed
    exact ⟨last, path.covered wellFormed sourceless has spares aging⟩

end

/-! ### Runs -/

/-- What pays for the transitions that a tick takes from a state on timer events. -/
structure Backed (state : UInt16) (past : List Tick) (tick : Tick) : Prop where
  /-- In the whole run so far the timer of the state has run out more often than such
  transitions have been taken. -/
  expired_before {front back : List Trace.Entry} {target : UInt16} :
    tick.trace = front ++ .transition state target Event.timerId :: back →
    spent state (past.flatMap Tick.trace ++ front) <
      expiries state (past.flatMap Tick.trace ++ front)
  /-- If all expiries before the last entry had been spent, then the timer has run out since. -/
  expired_since {front back early since : List Trace.Entry} {target : UInt16} :
    tick.trace = front ++ .transition state target Event.timerId :: back →
    past.flatMap Tick.trace ++ front = early ++ .enter state :: since →
    expiries state early ≤ spent state early → spent state since < expiries state since
  /-- When the tick began an event of the timer was waiting, or the timer has run out in it. -/
  announced {front back : List Trace.Entry} {target : UInt16} :
    tick.trace = front ++ .transition state target Event.timerId :: back →
    spent state front < tick.before.announced state + expiries state front
  /-- What waits when the tick is over waited before or was put in, and was not spent. -/
  remains : spent state tick.trace + tick.after.announced state ≤
    tick.before.announced state + expiries state tick.trace

/-- No callback of a happening writes the queue. -/
def Happening.KeepsQueue : Happening User → Prop
  | ticked dispatch _ _ _ _ => dispatch.Preserves Instance.queue
  | _ => True

/-- No event that the host queues in a run announces a state. -/
def Happening.Unannounced (happenings : List (Happening User)) (state : UInt16) : Prop :=
  ∀ event priority, .queued event priority ∈ happenings → event.announces state = false

/-- Every state that is not announced by the host is backed in a tick. -/
def AllBacked (definition : Definition) (happenings : List (Happening User)) (past : List Tick)
    (tick : Tick) : Prop :=
  ∀ state, definition.sections.Has state → Happening.Unannounced happenings state →
    Backed state past tick

/-- Between two ticks, every event in the queue that announces a state has been paid for by an
expiry that was not spent. -/
structure Solvent (definition : Definition) (happenings : List (Happening User))
    (past : List Tick) (inst : Instance) : Prop where
  inLine : inst.InLine
  owed (state : UInt16) : definition.sections.Has state →
    Happening.Unannounced happenings state →
    spent state (past.flatMap Tick.trace) + inst.announced state ≤
      expiries state (past.flatMap Tick.trace)

/-- What is owed for the events that wait when a tick begins pays for what it spends. -/
theorem Covered.backed {past : List Tick} {scene : Scene User} {outcome : Outcome}
    (covered : Covered state (scene.inst.announced state) event after)
    (owed : spent state (past.flatMap Tick.trace) + scene.inst.announced state ≤
      expiries state (past.flatMap Tick.trace)) :
    Backed state past (.of delta scene.inst outcome after) := by
  have whole {front back : List Trace.Entry} {target : UInt16}
      (split : after.trace.toList = front ++ .transition state target Event.timerId :: back) :
      spent state (past.flatMap Tick.trace ++ front) <
        expiries state (past.flatMap Tick.trace ++ front) := by
    have paid := covered.spent_lt split
    rw [Trace.spent_append, Trace.expiries_append]
    omega
  refine ⟨whole, ?_, covered.spent_lt, ?_⟩
  · intro front back early since target split entered repaid
    have more := whole split
    rw [entered, Trace.spent_append, Trace.expiries_append, Trace.spent_enter_cons,
      Trace.expiries_enter_cons] at more
    omega
  · have balance := covered.balance
    show spent state after.trace.toList + after.inst.announced state ≤
      scene.inst.announced state + expiries state after.trace.toList
    omega

namespace Solvent

variable {definition : Definition} {happenings : List (Happening User)} {past : List Tick}
  {inst : Instance}

theorem fresh (tier : Tier) (machineId seed : UInt32) :
    Solvent definition happenings [] (.fresh tier machineId seed) where
  inLine := .fresh tier machineId seed
  owed state _ _ := by
    rw [Instance.announced, Instance.waiting_fresh]
    exact Nat.le_refl 0

/-- An event that is queued between two ticks announces no state that matters. -/
theorem enqueue (solvent : Solvent definition happenings past inst) {priority : Priority}
    (listed : .queued event priority ∈ happenings) {accepted : Bool} {after : Instance}
    (queued : inst.enqueue event priority = .ok (accepted, after)) :
    Solvent definition happenings past after := by
  have joins := (solvent.inLine.enqueue_yields event priority).of_eq _ queued
  refine ⟨joins.inLine, fun state has untold => ?_⟩
  have fewer : after.announced state ≤ (event.announces state).toNat + inst.announced state :=
    joins.announced_le
  rw [untold event priority listed, Bool.toNat_false, Nat.zero_add] at fewer
  exact Nat.le_trans (Nat.add_le_add_left fewer _) (solvent.owed state has untold)

theorem withHistory (solvent : Solvent definition happenings past inst) (saved : Nat → UInt16) :
    Solvent definition happenings past (inst.withHistory saved) :=
  ⟨solvent.inLine.of_queue_eq rfl, solvent.owed⟩

/-- A tick spends what was paid for, and what it leaves in the queue has been paid for. -/
theorem tick {pledge : Instance.Pledge} {scene : Scene User} {outcome : Outcome}
    (solvent : Solvent kernel.definition happenings past scene.inst)
    (done : Done pledge kernel (.past past) delta scene outcome after)
    (wellFormed : kernel.definition.sections.WellFormed)
    (sourceless : ∀ transition ∈ kernel.definition.sections.globals, transition.source = noIndex)
    (spares : kernel.dispatch.Preserves Instance.queue) :
    AllBacked kernel.definition happenings past (.of delta scene.inst outcome after) ∧
      Solvent kernel.definition happenings (past ++ [.of delta scene.inst outcome after])
        after.inst := by
  have covered (state : UInt16) (has : kernel.definition.sections.Has state) :=
    done.covered wellFormed sourceless has spares solvent.inLine
  have backed : AllBacked kernel.definition happenings past
      (.of delta scene.inst outcome after) := by
    intro state has untold
    obtain ⟨_, covered⟩ := covered state has
    exact covered.backed (solvent.owed state has untold)
  refine ⟨backed, ?_, fun state has untold => ?_⟩
  · obtain ⟨_, covered⟩ := covered rootIndex wellFormed.has_root
    exact covered.inLine
  · have paid := solvent.owed state has untold
    have remains : spent state after.trace.toList + after.inst.announced state ≤
        scene.inst.announced state + expiries state after.trace.toList :=
      (backed state has untold).remains
    have same : (Tick.of delta scene.inst outcome after).trace = after.trace.toList := rfl
    rw [List.flatMap_append, List.flatMap_singleton, Trace.spent_append, Trace.expiries_append,
      same]
    omega

end Solvent

/-- In every run of a compiled machine, a transition is taken from a state on a timer event only
if the timer of the state has run out more often so far than such transitions have been taken,
as long as no event that the host queues announces the state. -/
theorem timer_transitions_backed {graph : Chart.Graph} {compiled : Chart.Compiled}
    (drawn : graph.Drawn) (compiles : graph.compile = .ok (.ok compiled)) {tier : Tier}
    (room : compiled.definition.tier ≤ tier) (seed : UInt32) (happenings : List (Happening User))
    (harmless : ∀ happening ∈ happenings, happening.Harmless .nothing)
    (spares : ∀ happening ∈ happenings, happening.KeepsQueue) :
    ∃ ticks,
      Happening.chronicle compiled.definition happenings
          (.fresh tier compiled.definition.structureHash seed) = .ok ticks ∧
        ∀ state, compiled.definition.sections.Has state →
          Happening.Unannounced happenings state →
          ∀ before tick later, ticks = before ++ tick :: later → Backed state before tick := by
  have sound := (drawn.sound compiles).1
  have telling : Returns (Happening.chronicle compiled.definition happenings
      (.fresh tier compiled.definition.structureHash seed)) fun ticks =>
        ∀ before tick later, ticks = before ++ tick :: later →
          AllBacked compiled.definition happenings ([] ++ before) tick := by
    have begins : Solvent compiled.definition happenings []
        (.fresh tier compiled.definition.structureHash seed) := .fresh tier _ seed
    refine chronicle_returns sound harmless ?_ ?_ ?_ [] _ (.fresh room seed trivial)
      (.fresh tier _ seed) begins
    · exact fun _ _ _ _ listed _ solvent _ _ => solvent.enqueue listed
    · exact fun _ _ saved _ solvent => solvent.withHistory saved
    · intro past dispatch limits delta scene outcome after listed solvent done
      exact solvent.tick done sound.wellFormed
        (fun _ global => drawn.source_of_global compiles global) (spares _ listed)
  obtain ⟨ticks, told, backed⟩ := telling
  exact ⟨ticks, told, fun state has untold before tick later split =>
    backed before tick later split state has untold⟩

theorem timer_transitions_backed_clock :
    ∃ compiled, Chart.Graph.clock.compile = .ok (.ok compiled) ∧ ∃ ticks,
      Happening.chronicle compiled.definition
          [.ticked .empty .default 16 () (.ofPage .blank),
            .queued (eventFor compiled.definition 2) .normal,
            .ticked .empty .default 16 () (.ofPage .blank)]
          (.fresh .tier256 compiled.definition.structureHash 1) = .ok ticks ∧
        ∀ state, compiled.definition.sections.Has state → state ≠ rootIndex →
          ∀ before tick later, ticks = before ++ tick :: later → Backed state before tick := by
  obtain ⟨compiled, compiles⟩ := Chart.Graph.exists_compiled_clock
  let ticking : Happening Unit := .ticked .empty .default 16 () (.ofPage .blank)
  let posting : Happening Unit := .queued (eventFor compiled.definition 2) .normal
  have harmless : ∀ happening ∈ [ticking, posting, ticking], happening.Harmless .nothing :=
    List.forall_mem_cons.2 ⟨.empty _, List.forall_mem_cons.2 ⟨trivial,
      List.forall_mem_singleton.2 (.empty _)⟩⟩
  have spares : ∀ happening ∈ [ticking, posting, ticking], happening.KeepsQueue :=
    List.forall_mem_cons.2 ⟨Dispatch.preserves_empty _, List.forall_mem_cons.2 ⟨trivial,
      List.forall_mem_singleton.2 (Dispatch.preserves_empty _)⟩⟩
  obtain ⟨ticks, told, backed⟩ := timer_transitions_backed Chart.Graph.drawn_clock compiles
    (Tier.le_tier256 _) 1 [ticking, posting, ticking] harmless spares
  refine ⟨compiled, compiles, ticks, told, fun state has inner => backed state has ?_⟩
  intro event priority listed
  simp only [ticking, posting, List.mem_cons, List.not_mem_nil, reduceCtorEq, false_or, or_false,
    Happening.queued.injEq] at listed
  rw [listed.1]
  exact announces_eventFor _ _ inner

end Kernel

end Statechart
