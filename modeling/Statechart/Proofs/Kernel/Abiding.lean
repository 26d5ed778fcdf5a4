/-
# What is kept over whole runs

Something may be known of the life of an instance and of the instance itself, such as what the
life tells of its slots. If all that a tick does keeps it (`Keeper`), then it is known between
the happenings of every run in which no callback writes history (`chronicle_abides`), and of
every call that is made in the course of a tick that follows (`Abides.heard`).
-/

import Statechart.Proofs.Kernel.Chronicle
import Statechart.Proofs.Kernel.Keeping
import Statechart.Proofs.Kernel.Reloading

namespace Statechart.Kernel

open Rom (Definition)

variable {User : Type} {pledge : Instance.Pledge} {definition : Definition}
  {rests goes : List Trace.Entry → Instance → Prop} {ticks : List Tick} {inst : Instance}

namespace Happening

/-- No callback of a happening writes history, and it is not overwritten from outside. -/
def SparesHistory : Happening User → Prop
  | queued _ _ => True
  | remembered _ => False
  | ticked dispatch _ _ _ _ => dispatch.Preserves Instance.history

/-- What a happening does is told together with what can be told of it. -/
theorem run_of_tell {happening : Happening User} {told : List Tick} {after : Instance}
    (tells : happening.tell definition inst = .ok (told, after)) :
    ∃ outcomes, happening.run definition inst = .ok (outcomes, after) := by
  cases happening with
  | queued event priority =>
    obtain ⟨answer, queued, same⟩ := Yields.exists_of_bind tells
    cases same
    exact ⟨[], by rw [run, queued, ok_bind]; rfl⟩
  | remembered saved =>
    cases tells
    exact ⟨[], rfl⟩
  | ticked dispatch limits delta user commands =>
    obtain ⟨answer, ticked, same⟩ := Yields.exists_of_bind tells
    cases same
    exact ⟨[_], by rw [run, ticked, ok_bind]; rfl⟩

end Happening

/-- The active states at the start of a tick are those of the life so far. -/
theorem alike_past_age (ticks : List Tick) (delta : Nat) :
    ((Stays.past ticks).age delta).Alike (Stays.nowhere.replay (ticks.flatMap Tick.trace)) :=
  fun other => Stays.open_age.trans (Stays.alike_past ticks other)

/-- What is known of lives and instances is kept by all that happens to an instance. -/
structure Abiding (User : Type) (pledge : Instance.Pledge) (definition : Definition)
    (rests goes : List Trace.Entry → Instance → Prop) : Prop where
  still {life : List Trace.Entry} {inst after : Instance} : rests life inst →
    after.leaves = inst.leaves → after.history = inst.history → rests life after
  keeper {kernel : Kernel User} {start : Stays} {past : List Trace.Entry} :
    kernel.definition = definition → Reliable pledge kernel →
    kernel.dispatch.Preserves Instance.history → start.Alike (Stays.nowhere.replay past) →
    Keeper pledge kernel start (Throughlife rests past) (Throughlife goes past)

/-- What is known of an instance between the happenings of a run: it rests, what is active is told
by its life, and so is something else. -/
structure Abides (pledge : Instance.Pledge) (definition : Definition)
    (rests : List Trace.Entry → Instance → Prop) (ticks : List Tick) (inst : Instance) : Prop where
  resting : Resting pledge definition inst
  accounted : Accounted definition (.past ticks) inst
  rests : rests (ticks.flatMap Tick.trace) inst

namespace Abides

theorem fresh {tier : Tier} (room : definition.tier ≤ tier) (seed : UInt32)
    (pledged : pledge false definition.structureHash)
    (begins : rests [] (.fresh tier definition.structureHash seed)) :
    Abides pledge definition rests [] (.fresh tier definition.structureHash seed) where
  resting := .fresh room seed pledged
  accounted := .fresh tier _ seed
  rests := begins

/-- A tick begins with all that is known between its parts. -/
theorem keeps {kernel : Kernel User} (abides : Abides pledge kernel.definition rests ticks inst)
    (delta : Nat) (user : User) (commands : Command.Writer) :
    Keeps pledge kernel True ((Stays.past ticks).age delta)
      (Throughlife rests (ticks.flatMap Tick.trace)) (.ofScene ⟨inst, user, commands⟩) where
  underway := by
    have aged := abides.accounted.age delta
    refine Reliable.underway_ofScene abides.resting.ready abides.resting.pledged ?_
    exact aged.exists_active.imp fun _ found => ⟨found.1, aged.nested, found.2⟩
  rests := by
    have now : rests (ticks.flatMap Tick.trace ++ []) inst :=
      (List.append_nil _).symm ▸ abides.rests
    exact now

/-- Every part of a tick is heard. -/
theorem heard {kernel : Kernel User} (abides : Abides pledge kernel.definition rests ticks inst)
    (abiding : Abiding User pledge kernel.definition rests goes)
    (reliable : Reliable pledge kernel) (spares : kernel.dispatch.Preserves Instance.history)
    {delta : UInt32} {user : User} {commands : Command.Writer} {call : Call User}
    (within : kernel.Within (.tick delta ⟨inst, user, commands⟩) call) :
    Heard pledge kernel ((Stays.past ticks).age delta.toNat)
      (Throughlife rests (ticks.flatMap Tick.trace)) (Throughlife goes (ticks.flatMap Tick.trace))
      call :=
  reliable.within_heard spares (abiding.keeper rfl reliable spares (alike_past_age ticks _))
    (.tick abides.resting.idle (abides.keeps _ user commands)) within

end Abides

namespace Happening

/-- One happening. -/
theorem tell_abides (sound : definition.Sound)
    (abiding : Abiding User pledge definition rests goes)
    {happening : Happening User} (harmless : happening.Harmless pledge)
    (spares : happening.SparesHistory) (abides : Abides pledge definition rests ticks inst) :
    Returns (happening.tell definition inst) fun answer =>
      Abides pledge definition rests (ticks ++ answer.1) answer.2 := by
  cases happening with
  | queued event priority =>
    have queueing : Returns (inst.enqueue event priority) fun answer =>
        inst.Waits pledge answer.2 := abides.resting.ready.queueSound.enqueue_returns event priority
    apply (queueing.and (Instance.enqueue_sameSlots event priority)).bind
    rintro answer ⟨waits, same⟩
    refine .pure ?_
    rw [List.append_nil]
    exact ⟨abides.resting.of_waits waits, abides.accounted.of_leaves_eq waits.leaves_eq,
      abiding.still abides.rests waits.leaves_eq same.history_eq⟩
  | remembered saved => cases spares
  | ticked dispatch limits delta user commands =>
    let kernel : Kernel User := ⟨definition, dispatch, limits⟩
    have reliable : Reliable pledge kernel := ⟨sound, harmless⟩
    have keeps : Keeps pledge kernel True _ _ (.ofScene ⟨inst, user, commands⟩) :=
      abides.keeps delta.toNat user commands
    have ticking : Returns (kernel.tick delta ⟨inst, user, commands⟩) _ :=
      (reliable.tick_done delta abides.resting abides.accounted).and
        (reliable.tick_keeps spares (abiding.keeper rfl reliable spares (alike_past_age ticks _))
          delta abides.resting.idle keeps)
    apply ticking.bind
    rintro ⟨outcome, after⟩ ⟨⟨done, rests⟩, kept⟩
    refine .pure ⟨rests, Stays.past_concat ticks _ ▸ done.left, ?_⟩
    rw [List.flatMap_append, List.flatMap_singleton]
    exact kept

/-- A whole run. -/
theorem chronicle_abides (sound : definition.Sound)
    (abiding : Abiding User pledge definition rests goes) {happenings : List (Happening User)}
    (harmless : ∀ happening ∈ happenings, happening.Harmless pledge)
    (spares : ∀ happening ∈ happenings, happening.SparesHistory)
    (abides : Abides pledge definition rests ticks inst) :
    ∃ told after, chronicle definition happenings inst = .ok told ∧
      leave definition happenings inst = .ok after ∧
        Abides pledge definition rests (ticks ++ told) after := by
  induction happenings generalizing ticks inst with
  | nil => exact ⟨[], inst, rfl, rfl, (List.append_nil ticks).symm ▸ abides⟩
  | cons happening rest ih =>
    obtain ⟨firstHarmless, restHarmless⟩ := List.forall_mem_cons.1 harmless
    obtain ⟨firstSpares, restSpares⟩ := List.forall_mem_cons.1 spares
    obtain ⟨⟨now, middle⟩, tells, onward⟩ :=
      tell_abides sound abiding firstHarmless firstSpares abides
    obtain ⟨outcomes, ran⟩ := run_of_tell tells
    obtain ⟨later, after, chronicles, leaves, last⟩ := ih restHarmless restSpares onward
    refine ⟨now ++ later, after, ?_, ?_, List.append_assoc ticks now later ▸ last⟩
    · rw [chronicle, tells, ok_bind]
      show (chronicle definition rest middle >>= fun later => pure (now ++ later)) = _
      rw [chronicles]
      rfl
    · rw [leave, List.foldlM_cons, ran]
      exact leaves

end Happening

end Statechart.Kernel
