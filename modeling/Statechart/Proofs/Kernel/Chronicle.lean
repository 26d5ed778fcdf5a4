/-
# Chronicles

A chronicle is what can be told of a run afterwards: for each tick how much time it let pass,
what became of it, the instance before and after it, and its trace. `Stays.past` adds up what
the ticks have done to the active states, and for how long each one has been active.

`chronicle_returns` is the rule by which properties of whole runs are shown. It asks for an
invariant that every happening keeps, and for what a tick does to be told from the invariant
and the course of the tick. The active states are those above the active leaves all the time.

`entries_balanced` is the first such property. Over the whole life of an instance states are
entered and left in order, and what was entered and not left is what is active.
-/

import Statechart.Proofs.Kernel.Course
import Statechart.Proofs.Kernel.Legality

namespace Statechart

open Rom (Definition Sections noIndex rootIndex)

namespace Kernel

/-- What can be told of a tick afterwards. -/
structure Tick where
  delta : UInt32
  outcome : Outcome
  before : Instance
  after : Instance
  trace : List Trace.Entry

/-- How much time a tick lets pass for an instance. -/
def Tick.elapsed (tick : Tick) : Nat :=
  if tick.outcome = .skipped then 0 else tick.delta.toNat

end Kernel

namespace Stays

open Kernel (Tick)

/-- Time passes, and then the steps of a tick are made. -/
def through (stays : Stays) (tick : Tick) : Stays :=
  (stays.age tick.elapsed).replay tick.trace

/-- The active states after some ticks of an instance that was new. -/
def past (ticks : List Tick) : Stays :=
  ticks.foldl through nowhere

theorem past_concat (ticks : List Tick) (tick : Tick) :
    past (ticks ++ [tick]) = (past ticks).through tick :=
  List.foldl_concat ..

/-! ### Forgetting how long -/

variable {sections : Sections} {stays others : Stays}

/-- The same states are active. -/
def Alike (stays others : Stays) : Prop :=
  ∀ state, stays.Open state ↔ others.Open state

namespace Alike

theorem step (alike : Alike stays others) (entry : Trace.Entry) :
    Alike (stays.step entry) (others.step entry) := by
  intro state
  cases entry with
  | enter other => rw [open_enter, open_enter, alike]
  | exit other => rw [open_exit, open_exit, alike]
  | rtcOverflow _ => rfl
  | _ => exact alike state

theorem inOrder (alike : Alike stays others) {entry : Trace.Entry}
    (inOrder : InOrder sections stays entry) : InOrder sections others entry := by
  cases entry with
  | enter state =>
    obtain ⟨has, inner, closed, above, alone⟩ := inOrder
    exact ⟨has, inner, fun isOpen => closed ((alike _).2 isOpen), above.imp_right (alike _).1,
      fun serial sibling linked isOpen => alone serial sibling linked ((alike _).2 isOpen)⟩
  | exit state =>
    obtain ⟨isOpen, childless⟩ := inOrder
    exact ⟨(alike _).1 isOpen, fun child linked still => childless child linked ((alike _).2 still)⟩
  | _ => trivial

theorem replay (alike : Alike stays others) (trace : List Trace.Entry) :
    Alike (stays.replay trace) (others.replay trace) := by
  induction trace generalizing stays others with
  | nil => exact alike
  | cons entry rest ih => exact ih (alike.step entry)

theorem orderly (alike : Alike stays others) {trace : List Trace.Entry}
    (orderly : Orderly sections stays trace) : Orderly sections others trace := by
  induction trace generalizing stays others with
  | nil => trivial
  | cons entry rest ih => exact ⟨alike.inOrder orderly.1, ih (alike.step entry) orderly.2⟩

end Alike

/-- The active states after some ticks are told by their traces alone. -/
theorem alike_past (ticks : List Tick) :
    Alike (past ticks) (nowhere.replay (ticks.flatMap Tick.trace)) := by
  induction ticks using List.reverseRecOn with
  | nil => exact fun _ => Iff.rfl
  | append_singleton before tick ih =>
    have aged : Alike ((past before).age tick.elapsed)
        (nowhere.replay (before.flatMap Tick.trace)) := fun state => open_age.trans (ih state)
    rw [List.flatMap_append, List.flatMap_singleton, past_concat, replay_append]
    exact aged.replay tick.trace

/-- Ticks that are orderly one by one are orderly as a whole. -/
theorem orderly_flatMap {ticks : List Tick}
    (each : ∀ before tick later, ticks = before ++ tick :: later →
      Orderly sections ((past before).age tick.elapsed) tick.trace) :
    Orderly sections nowhere (ticks.flatMap Tick.trace) ∧
      Alike (past ticks) (nowhere.replay (ticks.flatMap Tick.trace)) := by
  refine ⟨?_, alike_past ticks⟩
  induction ticks using List.reverseRecOn with
  | nil => trivial
  | append_singleton before tick ih =>
    have earlier := ih fun front other back split =>
      each front other (back ++ [tick]) (by rw [split, List.append_assoc, List.cons_append])
    have aged : Alike ((past before).age tick.elapsed)
        (nowhere.replay (before.flatMap Tick.trace)) :=
      fun state => open_age.trans (alike_past before state)
    rw [List.flatMap_append, List.flatMap_singleton]
    exact orderly_append.2 ⟨earlier, aged.orderly (each before tick [] rfl)⟩

end Stays

namespace Kernel

variable {User : Type} {definition : Definition} {pledge : Instance.Pledge} {inst : Instance}

namespace Happening

/-- What a happening does to an instance of a definition, and what can be told of it. -/
def tell (definition : Definition) (inst : Instance) :
    Happening User → Except Fault (List Tick × Instance)
  | queued event priority => do
      let (_, after) ← inst.enqueue event priority
      return ([], after)
  | remembered saved => .ok ([], inst.withHistory saved)
  | ticked dispatch limits delta user commands => do
      let kernel : Kernel User := { definition, dispatch, limits }
      let (outcome, progress) ← kernel.tick delta { inst, user, commands }
      return ([⟨delta, outcome, inst, progress.inst, progress.trace.toList⟩], progress.inst)

/-- All that can be told of a run, tick by tick. -/
def chronicle (definition : Definition) :
    List (Happening User) → Instance → Except Fault (List Tick)
  | [], _ => .ok []
  | happening :: rest, inst => do
      let (ticks, after) ← happening.tell definition inst
      let later ← chronicle definition rest after
      return ticks ++ later

end Happening

/-- The active states of an instance are those that were entered and not left. -/
structure Accounted (definition : Definition) (stays : Stays) (inst : Instance) : Prop where
  nested : stays.Nested definition.sections
  exists_active : ∃ active, Holds inst.leaves active ∧
    ∀ state, stays.Open state ↔ state ≠ rootIndex ∧ definition.sections.Active active state

namespace Accounted

variable {stays : Stays}

theorem fresh (tier : Tier) (machineId seed : UInt32) :
    Accounted definition .nowhere (.fresh tier machineId seed) where
  nested := .nowhere
  exists_active := by
    refine ⟨[], .nil_of_replicate _, fun state => iff_of_false Stays.not_open_nowhere ?_⟩
    rintro ⟨_, leaf, listed, _⟩
    cases listed

theorem age (accounted : Accounted definition stays inst) (delta : Nat) :
    Accounted definition (stays.age delta) inst where
  nested := accounted.nested.age delta
  exists_active := accounted.exists_active.imp fun _ found =>
    ⟨found.1, fun state => Stays.open_age.trans (found.2 state)⟩

theorem of_leaves_eq {after : Instance} (accounted : Accounted definition stays inst)
    (same : after.leaves = inst.leaves) : Accounted definition stays after :=
  ⟨accounted.nested, same.symm ▸ accounted.exists_active⟩

end Accounted

/-- A tick, as the chronicle has it. -/
def Tick.of (delta : UInt32) (before : Instance) (outcome : Outcome) (after : Progress User) :
    Tick :=
  ⟨delta, outcome, before, after.inst, after.trace.toList⟩

/-- What is known of a tick that was done while some states were active. -/
structure Done (pledge : Instance.Pledge) (kernel : Kernel User) (stays : Stays) (delta : UInt32)
    (scene : Scene User) (outcome : Outcome) (after : Progress User) : Prop where
  resting : Resting pledge kernel.definition scene.inst
  accounted : Accounted kernel.definition stays scene.inst
  became : outcome = .skipped ∧ after = .ofScene scene ∨
    Ended pledge kernel False outcome after ∧
      Course kernel (stays.age delta.toNat) delta (.ofScene scene) after
  left : Accounted kernel.definition (stays.through (.of delta scene.inst outcome after)) after.inst

/-- A tick of a resting instance is done, and the instance rests again. -/
theorem Reliable.tick_done {kernel : Kernel User} (reliable : Reliable pledge kernel)
    (delta : UInt32) {scene : Scene User} {stays : Stays}
    (resting : Resting pledge kernel.definition scene.inst)
    (accounted : Accounted kernel.definition stays scene.inst) :
    Returns (kernel.tick delta scene) fun answer =>
      Done pledge kernel stays delta scene answer.1 answer.2 ∧
        Resting pledge kernel.definition answer.2.inst := by
  have aged := accounted.age delta.toNat
  have matched : ∃ active, Holds scene.inst.leaves active ∧
      Matched kernel (stays.age delta.toNat) active (.ofScene scene) :=
    aged.exists_active.imp fun active found => ⟨found.1, aged.nested, found.2⟩
  have running := reliable.tick_ready delta resting.ready resting.pledged
  apply (running.and (reliable.tick_course delta resting.ready resting.idle resting.pledged
    matched)).mono
  rintro ⟨outcome, after⟩ ⟨⟨ready, steady, ended⟩, course⟩
  -- A tick was skipped, or it has run its course.
  have became : outcome = .skipped ∧ after = .ofScene scene ∨
      Ended pledge kernel False outcome after ∧
        Course kernel (stays.age delta.toNat) delta (.ofScene scene) after := by
    rcases ended with ⟨_, same⟩ | ended
    · cases same
      exact .inl ⟨rfl, rfl⟩
    · rcases course with same | course
      · cases same
        exact absurd rfl ended.taken
      · refine .inr ⟨{ ended with configured := fun normal => ?_ }, course⟩
        exact (ended.configured normal).weaken fun other => other resting.idle
  refine ⟨⟨resting, accounted, became, ?_⟩, ⟨ready, ?_, steady.pledged⟩⟩
  · rcases became with ⟨rfl, rfl⟩ | ⟨ended, course⟩
    · exact accounted.age 0
    · obtain ⟨aged, _, lands⟩ := course
      obtain ⟨active, holds, matched⟩ := lands.exists_matched
      have passed : (Tick.of delta scene.inst outcome after).elapsed = delta.toNat :=
        if_neg ended.taken
      refine ⟨?_, active, holds, ?_⟩
      · rw [Stays.through, passed]
        exact matched.nested
      · rw [Stays.through, passed]
        exact matched.open_iff
  · rcases became with ⟨_, rfl⟩ | ⟨ended, _⟩
    · exact resting.idle
    · exact ended.phase

/-- A tick enters and leaves states in order. -/
theorem Done.orderly {kernel : Kernel User} {stays : Stays} {delta : UInt32} {scene : Scene User}
    {outcome : Outcome} {after : Progress User}
    (done : Done pledge kernel stays delta scene outcome after) :
    (stays.age (Tick.of delta scene.inst outcome after).elapsed).Orderly
      kernel.definition.sections after.trace.toList := by
  rcases done.became with ⟨_, rfl⟩ | ⟨ended, course⟩
  · trivial
  · obtain ⟨aged, passed, lands⟩ := course
    obtain ⟨next, path⟩ := lands.exists_path
    have first : Extends kernel (stays.age delta.toNat) (.ofScene scene) aged :=
      ((advanceTimers_extends _).of_eq _ passed).1
    obtain ⟨more, grows, orderly⟩ := first.trans path.extends
    have whole : after.trace.toList = more := grows
    rw [whole, Tick.elapsed, if_neg (show (Tick.of delta scene.inst outcome after).outcome ≠ _
      from ended.taken)]
    exact orderly

/-- A property of ticks, in terms of the ticks before them, holds throughout some ticks. -/
def Throughout (claim : List Tick → Tick → Prop) (past ticks : List Tick) : Prop :=
  ∀ before tick later, ticks = before ++ tick :: later → claim (past ++ before) tick

namespace Throughout

variable {claim : List Tick → Tick → Prop} {past first second : List Tick} {tick : Tick}

theorem nil : Throughout claim past [] := fun before _ _ split =>
  absurd split.symm (List.append_ne_nil_of_right_ne_nil before (List.cons_ne_nil _ _))

theorem singleton (claimed : claim past tick) : Throughout claim past [tick] := by
  intro before other later split
  rcases List.append_eq_singleton_iff.1 split.symm with ⟨rfl, ⟨⟩⟩ | ⟨_, ⟨⟩⟩
  rw [List.append_nil]
  exact claimed

theorem append (now : Throughout claim past first)
    (onward : Throughout claim (past ++ first) second) :
    Throughout claim past (first ++ second) := by
  intro before tick later split
  rcases List.append_eq_append_iff.1 split with ⟨passed, rfl, rest⟩ | ⟨left, rfl, rest⟩
  · rw [← List.append_assoc]
    exact onward passed tick later rest
  · cases left with
    | nil =>
      have soon := onward [] tick later rest.symm
      rwa [List.append_nil, List.append_nil] at soon
    | cons next left =>
      obtain ⟨rfl, _⟩ := List.cons.inj rest
      exact now before tick left rfl

end Throughout

section

variable {invariant : List Tick → Instance → Prop} {claim : List Tick → Tick → Prop}
  {happenings : List (Happening User)} (sound : definition.Sound)
  (harmless : ∀ happening ∈ happenings, happening.Harmless pledge)
  (queued : ∀ past inst event priority, .queued event priority ∈ happenings →
    Resting pledge definition inst → invariant past inst →
    ∀ accepted after, inst.enqueue event priority = .ok (accepted, after) → invariant past after)
  (remembered : ∀ past inst saved, .remembered saved ∈ happenings → invariant past inst →
    invariant past (inst.withHistory saved))
  (ticked : ∀ past dispatch limits delta (scene : Scene User) outcome after,
    .ticked dispatch limits delta scene.user scene.commands ∈ happenings →
    invariant past scene.inst →
    Done pledge ⟨definition, dispatch, limits⟩ (.past past) delta scene outcome after →
    claim past (.of delta scene.inst outcome after) ∧
      invariant (past ++ [.of delta scene.inst outcome after]) after.inst)

include sound harmless queued remembered ticked

/-- What is kept and what is claimed of every tick, over one happening. -/
theorem tell_returns {happening : Happening User} (listed : happening ∈ happenings)
    {past : List Tick} (resting : Resting pledge definition inst)
    (accounted : Accounted definition (.past past) inst) (holds : invariant past inst) :
    Returns (happening.tell definition inst) fun answer =>
      Throughout claim past answer.1 ∧ Resting pledge definition answer.2 ∧
        Accounted definition (.past (past ++ answer.1)) answer.2 ∧
          invariant (past ++ answer.1) answer.2 := by
  have careful := harmless happening listed
  cases happening with
  | queued event priority =>
    have queueing : Returns (inst.enqueue event priority) fun answer =>
        inst.Waits pledge answer.2 := resting.ready.queueSound.enqueue_returns event priority
    obtain ⟨⟨accepted, after⟩, ran, waits⟩ := queueing
    have kept := queued past inst event priority listed resting holds accepted after ran
    simp only [Happening.tell, ran, ok_bind]
    refine .pure ⟨.nil, resting.of_waits waits, ?_⟩
    rw [List.append_nil]
    exact ⟨accounted.of_leaves_eq waits.leaves_eq, kept⟩
  | remembered saved =>
    refine .ok ⟨.nil, resting.withHistory saved, ?_⟩
    rw [List.append_nil]
    exact ⟨accounted.of_leaves_eq rfl, remembered past inst saved listed holds⟩
  | ticked dispatch limits delta user commands =>
    have reliable : Reliable pledge { definition, dispatch, limits : Kernel User } :=
      ⟨sound, careful⟩
    have running : Returns ((⟨definition, dispatch, limits⟩ : Kernel User).tick delta
        ⟨inst, user, commands⟩) _ := reliable.tick_done delta resting accounted
    obtain ⟨⟨outcome, after⟩, ran, done, rests⟩ := running
    obtain ⟨claimed, kept⟩ := ticked past dispatch limits delta ⟨inst, user, commands⟩ outcome
      after listed holds done
    have counted := done.left
    rw [← Stays.past_concat] at counted
    simp only [Happening.tell, ran, ok_bind]
    exact .pure ⟨.singleton claimed, rests, counted, kept⟩

/-- Properties of whole runs. An invariant that every happening keeps tells what is claimed of
each tick. -/
theorem chronicle_returns (past : List Tick) (inst : Instance)
    (resting : Resting pledge definition inst) (accounted : Accounted definition (.past past) inst)
    (holds : invariant past inst) :
    Returns (Happening.chronicle definition happenings inst) fun ticks =>
      ∀ before tick later, ticks = before ++ tick :: later → claim (past ++ before) tick := by
  suffices running : ∀ rest, rest ⊆ happenings → ∀ past inst, Resting pledge definition inst →
      Accounted definition (.past past) inst → invariant past inst →
      Returns (Happening.chronicle definition rest inst) (Throughout claim past) from
    running happenings (List.Subset.refl _) past inst resting accounted holds
  intro rest
  induction rest with
  | nil => exact fun _ _ _ _ _ _ => .ok .nil
  | cons happening rest ih =>
    intro within past inst resting accounted holds
    have first := tell_returns sound harmless queued remembered ticked
      (within (List.mem_cons_self ..)) resting accounted holds
    apply first.bind
    rintro ⟨ticks, after⟩ ⟨now, rests, counted, kept⟩
    have onward := ih (List.subset_of_cons_subset within) _ after rests counted kept
    exact onward.bind fun _ later => .pure (now.append later)

end

/-! ### Entries and exits -/

/-- In every run of a compiled machine, states are entered and left in order over the whole
life of the instance, and after each tick the states that were entered and not left are those
above the active leaves, except for the root. -/
theorem entries_balanced {graph : Chart.Graph} {compiled : Chart.Compiled} (drawn : graph.Drawn)
    (compiles : graph.compile = .ok (.ok compiled)) {tier : Tier}
    (room : compiled.definition.tier ≤ tier) (seed : UInt32) (happenings : List (Happening User))
    (harmless : ∀ happening ∈ happenings, happening.Harmless .nothing) :
    ∃ ticks,
      Happening.chronicle compiled.definition happenings
          (.fresh tier compiled.definition.structureHash seed) = .ok ticks ∧
        Stays.nowhere.Orderly compiled.definition.sections (ticks.flatMap Tick.trace) ∧
        ∀ before tick later, ticks = before ++ tick :: later →
          ∃ active, Holds tick.after.leaves active ∧ ∀ state,
            (Stays.nowhere.replay ((before ++ [tick]).flatMap Tick.trace)).Open state ↔
              state ≠ rootIndex ∧ compiled.definition.sections.Active active state := by
  have sound := (drawn.sound compiles).1
  let claim (past : List Tick) (tick : Tick) : Prop :=
    ((Stays.past past).age tick.elapsed).Orderly compiled.definition.sections tick.trace ∧
      Accounted compiled.definition (.past (past ++ [tick])) tick.after
  have telling : Returns (Happening.chronicle compiled.definition happenings
      (.fresh tier compiled.definition.structureHash seed)) fun ticks =>
        ∀ before tick later, ticks = before ++ tick :: later → claim ([] ++ before) tick := by
    refine chronicle_returns sound harmless (fun _ _ _ _ _ _ _ _ _ _ => trivial)
      (fun _ _ _ _ _ => trivial) ?_ [] _ (.fresh room seed trivial) (.fresh tier _ seed) trivial
    intro past dispatch limits delta scene outcome after _ _ done
    exact ⟨⟨done.orderly, Stays.past_concat past _ ▸ done.left⟩, trivial⟩
  obtain ⟨ticks, told, claimed⟩ := telling
  refine ⟨ticks, told, ?_, ?_⟩
  · exact (Stays.orderly_flatMap fun before tick later split =>
      (claimed before tick later split).1).1
  · intro before tick later split
    obtain ⟨_, active, holds, isOpen⟩ := (claimed before tick later split).2
    have both : Stays.nowhere.Orderly compiled.definition.sections
          ((before ++ [tick]).flatMap Tick.trace) ∧
        Stays.Alike (.past (before ++ [tick]))
          (Stays.nowhere.replay ((before ++ [tick]).flatMap Tick.trace)) := by
      refine Stays.orderly_flatMap fun front other back cut => ?_
      refine (claimed front other (back ++ later) ?_).1
      rw [split, ← List.singleton_append, ← List.append_assoc, cut, List.append_assoc,
        List.cons_append]
    exact ⟨active, holds, fun state => (both.2 state).symm.trans (isOpen state)⟩

theorem entries_balanced_lone :
    ∃ compiled, Chart.Graph.lone.compile = .ok (.ok compiled) ∧ ∃ ticks,
      Happening.chronicle compiled.definition twoTicks
          (.fresh .tier256 compiled.definition.structureHash 1) = .ok ticks ∧
        Stays.nowhere.Orderly compiled.definition.sections (ticks.flatMap Tick.trace) := by
  obtain ⟨compiled, compiles⟩ := Chart.Graph.exists_compiled_lone
  obtain ⟨ticks, told, orderly, _⟩ := entries_balanced Chart.Graph.drawn_lone compiles
    (Tier.le_tier256 _) 1 twoTicks (harmless_twoTicks _)
  exact ⟨compiled, compiles, ticks, told, orderly⟩

end Kernel

end Statechart
