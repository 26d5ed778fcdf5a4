/-
# History restores what was active

Whenever a state that keeps history is settled, its slot still remembers what the life so far
tells, and nothing below it is active. So it is settled the way the life tells (`Restored`): a
state that was never left enters its initial child, shallow history enters the child that was
active when the state was last left, and deep history makes exactly those states active that
were, if none of the states below the state is parallel. Deep history is restored by entering
a path and not by settling state after state, so the two have to come to the same.

This is known of every state that is settled in the course of a tick, wherever the call comes
from: a transition, the initial child of another state, the history of another state, or a
region beside a path.
-/

import Statechart.Proofs.Chart.Slots
import Statechart.Proofs.Kernel.Abiding
import Statechart.Proofs.Kernel.Recounting
import Statechart.Proofs.Rom.Landing

namespace Statechart.Kernel

open Rom (Definition Sections TransitionRecord noIndex rootIndex)
open Stays (Recalls)

variable {User : Type} {pledge : Instance.Pledge} {kernel : Kernel User} {start was : Stays}
  {past : List Trace.Entry} {state saved : UInt16} {inst : Instance}
  {progress before after : Progress User}

/-! ### Reading the slot -/

/-- A slot that nothing was saved in names no state. -/
theorem restorable?_of_never (own : kernel.definition.sections.KeepsHistory state)
    (wellFormed : kernel.definition.sections.WellFormed)
    (slot : inst.history[(kernel.definition.sections.record state).historySlot.toNat]? =
      some noIndex) :
    kernel.restorable? state (kernel.definition.sections.record state) inst = .ok none := by
  unfold restorable? Instance.historyAt Instance.slot
  rw [own.keeps, decide_eq_false (own.slot_ne wellFormed), slot]
  rfl

/-- What the history of a state names is restored. -/
theorem restorable?_of_names (wellFormed : kernel.definition.sections.WellFormed)
    (names : kernel.definition.sections.Names inst.history state saved) :
    kernel.restorable? state (kernel.definition.sections.record state) inst = .ok (some saved) := by
  have has := names.beneath.has
  have inside : ¬ kernel.definition.stateCount ≤ saved.toNat := Nat.not_le.2 has
  have admitted : (saved = noIndex || saved = state ||
      kernel.definition.stateCount ≤ saved.toNat) = false := by
    rw [decide_eq_false (wellFormed.ne_noIndex has), decide_eq_false names.proper,
      decide_eq_false inside]
    rfl
  obtain ⟨below, asked, decided⟩ :=
    Definition.isAncestorOrSelf_returns wellFormed (.inl has : _ ∨ saved = noIndex)
  obtain rfl := decided.2 names.beneath
  have slot := wellFormed.historySlot_ne names.beneath.has_top names.keeps
  unfold restorable? Instance.historyAt Instance.slot
  rw [names.keeps, decide_eq_false slot, names.slot]
  simp only [Bool.not_true, Bool.or_self, Bool.false_eq_true, if_false, ok_bind, admitted, asked]
  cases kind : (kernel.definition.sections.record state).flags.deepHistory with
  | true => rfl
  | false =>
    simp only [Bool.false_eq_true, if_false, Definition.parent_eq has, ok_bind,
      (names.direct kind).parent_eq, if_true]
    rfl

/-- A slot that tells what was active names what it tells. -/
theorem restorable?_of_recalls (own : kernel.definition.sections.KeepsHistory state)
    (wellFormed : kernel.definition.sections.WellFormed)
    (slot : inst.history[(kernel.definition.sections.record state).historySlot.toNat]? =
      some saved)
    (recalls : was.Recalls kernel.definition.sections state saved) :
    kernel.restorable? state (kernel.definition.sections.record state) inst = .ok (some saved) :=
  restorable?_of_names wellFormed ⟨own.keeps, slot, recalls.beneath, recalls.proper,
    fun kind => (recalls.shallow kind).1⟩

/-! ### Entering a path to a leaf -/

/-- A leaf is settled without entering anything. -/
theorem descend_leaf_idles (has : kernel.definition.sections.Has state)
    (childless : (kernel.definition.sections.record state).isLeaf = true)
    (progress : Progress User) : Yields (kernel.descend state progress) (Idles progress) := by
  refine ⟨fun after ran => ?_⟩
  have ran := (descend_yields state progress).of_eq _ ran
  rw [descendBy, Definition.state_eq has, ok_bind, if_pos childless] at ran
  exact (addLeaf_idles state progress).of_eq _ ran

/-- Entering a path that passes through no parallel state and ends in a leaf makes the states of
the path active, and no others. -/
theorem enterPath_open_iff (spares : kernel.dispatch.Preserves Instance.history)
    {top leaf : UInt16} {path : List UInt16} (way : kernel.definition.sections.Way top path leaf)
    (childless : (kernel.definition.sections.record leaf).isLeaf = true)
    (serial : ∀ inner ∈ path, (kernel.definition.sections.record inner).flags.parallel = false)
    (progress : Progress User) : Yields (kernel.enterPath kernel.descend path progress)
      fun after => ∀ other, (after.stays start).Open other ↔
        (progress.stays start).Open other ∨ other ∈ path := by
  induction way generalizing progress with
  | here _ => exact .ok fun other => (or_iff_left List.not_mem_nil).symm
  | @down top next leaf path linked way ih =>
    obtain ⟨alone, below⟩ := List.forall_mem_cons.1 serial
    cases way with
    | here has =>
      apply (enterState_enters spares next progress).bind
      intro entered enters
      apply (descend_leaf_idles has childless entered).mono
      intro after idles other
      rw [idles.stays_eq, enters.open_iff, List.mem_singleton]
    | @down _ onward _ rest onwardLinked onwardWay =>
      rw [enterPath_cons_cons]
      apply (enterState_enters spares next progress).bind
      intro entered enters
      simp only [Definition.state_eq linked.has, ok_bind, alone, Bool.false_eq_true, if_false]
      apply (ih childless below entered).mono
      intro after opens other
      rw [opens, enters.open_iff, or_assoc]
      exact or_congr_right List.mem_cons.symm

/-! ### Settling -/

/-- When a state is settled, its slot remembers what the life so far tells, and nothing below it
is active. -/
structure Settling (kernel : Kernel User) (start : Stays) (past : List Trace.Entry)
    (state : UInt16) (before after : Progress User) : Prop where
  settles : kernel.descend state before = .ok after
  remembers : Remembers kernel.definition.sections state (past ++ before.trace.toList) before.inst
  closed : ∀ inner, kernel.definition.sections.Beneath state inner → inner ≠ state →
    ¬ (before.stays start).Open inner

theorem Told.exists_settling (spares : kernel.dispatch.Preserves Instance.history)
    (inner : state ≠ rootIndex)
    (told : Told pledge kernel start past state (.settle state before)) :
    ∃ after, Settling kernel start past state before after := by
  cases told with
  | root _ _ => exact absurd rfl inner
  | below onset underneath =>
    cases underneath with
    | @settle _ outside _ after runs since enters onward =>
      cases runs with
      | settle settles =>
        have advances := (descend_advances spares state before).of_eq _ settles
        refine ⟨after, settles, ?_, fun inner beneath proper => ?_⟩
        · exact (onset.remembers.advances since).advances enters.advances
        · exact enters.closed onset.nested since (advances.trans onward) onset.grows beneath proper

/-- A state that keeps history is settled the way its life tells. The states that were active when
the state was last left are those that were entered and not left until then. -/
structure Restored (kernel : Kernel User) (state : UInt16) (past : List Trace.Entry)
    (before after : Progress User) : Prop where
  settles : kernel.descend state before = .ok after
  /-- A state that was never left enters its initial child. -/
  initial : .exit state ∉ past ++ before.trace.toList →
    kernel.enterAndSettle kernel.descend (kernel.definition.sections.record state).initialChild
      before = .ok after
  /-- Shallow history enters the child that was active, which then is settled. -/
  shallow : .exit state ∈ past ++ before.trace.toList →
    (kernel.definition.sections.record state).flags.deepHistory = false →
    ∃ child, (∀ other, kernel.definition.sections.Child state other ∧
        (Stays.nowhere.replay (Trace.departure state (past ++ before.trace.toList))).Open other ↔
          other = child) ∧
      kernel.enterAndSettle kernel.descend child before = .ok after
  /-- Deep history makes the same states active below the state, unless one of them could be
  parallel. -/
  deep : .exit state ∈ past ++ before.trace.toList →
    (kernel.definition.sections.record state).flags.deepHistory = true →
    kernel.definition.sections.SerialBelow state →
    ∀ inner, kernel.definition.sections.Beneath state inner → inner ≠ state →
      ((Stays.nowhere.replay (past ++ after.trace.toList)).Open inner ↔
        (Stays.nowhere.replay (Trace.departure state (past ++ before.trace.toList))).Open inner)

namespace Settling

variable (settling : Settling kernel start past state before after)
  (own : kernel.definition.sections.KeepsHistory state)
  (wellFormed : kernel.definition.sections.WellFormed)

include settling own wellFormed

theorem enterNamed_eq {named : Option UInt16}
    (restores : kernel.restorable? state (kernel.definition.sections.record state) before.inst =
      .ok named) :
    kernel.enterNamed kernel.descend (kernel.definition.sections.record state) before named =
      .ok after := by
  rw [← descendBy_of_restorable? (Definition.state_eq own.has) (own.branches wellFormed)
    (own.serial wellFormed) restores]
  exact (descend_yields state before).of_eq _ settling.settles

/-- Deep history enters the way down to the leaf that it names. -/
theorem deep_open_iff (reliable : Reliable pledge kernel)
    (spares : kernel.dispatch.Preserves Instance.history)
    (slot : before.inst.history[(kernel.definition.sections.record state).historySlot.toNat]? =
      some saved)
    (recalls : was.Recalls kernel.definition.sections state saved)
    (kind : (kernel.definition.sections.record state).flags.deepHistory = true)
    (serial : kernel.definition.sections.SerialBelow state) {inner : UInt16}
    (beneath : kernel.definition.sections.Beneath state inner) (proper : inner ≠ state) :
    (after.stays start).Open inner ↔ was.Open inner := by
  obtain ⟨childless, told⟩ := recalls.deep kind
  have ran := settling.enterNamed_eq own wellFormed
    (restorable?_of_recalls own wellFormed slot recalls)
  obtain ⟨path, found, way⟩ := reliable.restoredPath_returns recalls.beneath
  rw [Kernel.enterNamed, if_pos kind, found, ok_bind] at ran
  have alone : ∀ other ∈ path,
      (kernel.definition.sections.record other).flags.parallel = false := by
    intro other listed
    obtain ⟨below, differs, -⟩ := (way.mem_iff wellFormed other).1 listed
    exact serial other below differs
  calc (after.stays start).Open inner
      ↔ (before.stays start).Open inner ∨ inner ∈ path :=
        (enterPath_open_iff spares way childless alone before).of_eq _ ran inner
    _ ↔ inner ∈ path := or_iff_right (settling.closed inner beneath proper)
    _ ↔ kernel.definition.sections.Beneath inner saved :=
      (way.mem_iff wellFormed inner).trans
        ⟨fun between => between.2.2, fun above => ⟨beneath, proper, above⟩⟩
    _ ↔ was.Open inner := (told serial inner beneath proper).symm

/-- A state that keeps history is settled the way its life tells. -/
theorem restored (reliable : Reliable pledge kernel)
    (spares : kernel.dispatch.Preserves Instance.history)
    (alike : start.Alike (Stays.nowhere.replay past)) :
    Restored kernel state past before after where
  settles := settling.settles
  initial absent := by
    have ran := settling.enterNamed_eq own wellFormed
      (restorable?_of_never own wellFormed (settling.remembers.never absent))
    have named := wellFormed.initialChild_ne_noIndex own.has (own.branches wellFormed)
      (own.serial wellFormed)
    rwa [Kernel.enterNamed, defaultChild, if_neg named] at ran
  shallow left kind := by
    obtain ⟨saved, slot, recalls⟩ := settling.remembers.last left
    have ran := settling.enterNamed_eq own wellFormed
      (restorable?_of_recalls own wellFormed slot recalls)
    rw [Kernel.enterNamed, if_neg (Bool.eq_false_iff.1 kind)] at ran
    exact ⟨saved, (recalls.shallow kind).2, ran⟩
  deep left kind serial inner beneath proper := by
    obtain ⟨saved, slot, recalls⟩ := settling.remembers.last left
    rw [Stays.replay_append, ← alike.replay after.trace.toList inner]
    exact settling.deep_open_iff own wellFormed reliable spares slot recalls kind serial beneath
      proper

end Settling

/-! ### Transitions -/

/-- When a transition sets out, the states that were entered and not left are those above the
active leaves. If it does not leave a state, it does not write the state's slot. -/
structure SetsOut (kernel : Kernel User) (state : UInt16) (past : List Trace.Entry)
    (before after : Progress User) : Prop where
  active : ∃ active, Holds before.inst.leaves active ∧ ∀ other,
    (Stays.nowhere.replay (past ++ before.trace.toList)).Open other ↔
      other ≠ rootIndex ∧ kernel.definition.sections.Active active other
  unwritten : ∃ more, after.trace.toList = before.trace.toList ++ more ∧
    (.exit state ∉ more →
      after.inst.history[(kernel.definition.sections.record state).historySlot.toNat]? =
        before.inst.history[(kernel.definition.sections.record state).historySlot.toNat]?)

theorem Told.fire_setsOut (reliable : Reliable pledge kernel)
    (spares : kernel.dispatch.Preserves Instance.history)
    (own : kernel.definition.sections.KeepsHistory state)
    (alike : start.Alike (Stays.nowhere.replay past)) {transition : TransitionRecord}
    {event : UInt16} (told : Told pledge kernel start past state (.fire transition event before)) :
    Returns (kernel.fire transition event before) (SetsOut kernel state past before) := by
  cases told with
  | fire recounts firing =>
    have departing : Yields (kernel.fire transition event before)
        (Departs kernel past state before) := reliable.fire_departs spares own alike recounts
    apply (firing.and departing).mono
    rintro after ⟨-, departs⟩
    obtain ⟨active, holds, matched⟩ := recounts.underway.exists_matched
    refine ⟨⟨active, holds, fun other => ?_⟩, departs.exists_more⟩
    rw [Stays.replay_append, ← alike.replay before.trace.toList other]
    exact matched.open_iff other
  | below _ underneath => nomatch underneath

/-! ### Whole runs -/

/-- What holds of an instance between the happenings of a run: it rests, what is active is told
by its life, and so is the slot of a state. -/
structure Minded (pledge : Instance.Pledge) (definition : Definition) (state : UInt16)
    (ticks : List Tick) (inst : Instance) : Prop where
  resting : Resting pledge definition inst
  accounted : Accounted definition (.past ticks) inst
  remembers : Remembers definition.sections state (ticks.flatMap Tick.trace) inst

namespace Minded

variable {definition : Definition} {ticks : List Tick}

theorem fresh (sound : definition.Sound) (own : definition.sections.KeepsHistory state)
    {tier : Tier} (room : definition.tier ≤ tier) (seed : UInt32)
    (pledged : pledge false definition.structureHash) :
    Minded pledge definition state [] (.fresh tier definition.structureHash seed) where
  resting := .fresh room seed pledged
  accounted := .fresh tier _ seed
  remembers :=
    { never := fun _ => by
        have inside := Nat.lt_of_lt_of_le
          (Sections.historySlot_lt sound.shaped own.has (own.slot_ne sound.wellFormed))
          (sound.modest.fits room).histories
        exact List.getElem?_replicate_of_lt inside
      last := fun left => absurd left List.not_mem_nil }

theorem alike_age (delta : Nat) :
    ((Stays.past ticks).age delta).Alike (Stays.nowhere.replay (ticks.flatMap Tick.trace)) :=
  alike_past_age ticks delta

/-- What the slot remembers is known of lives and instances. -/
theorem abides (minded : Minded pledge definition state ticks inst) :
    Abides pledge definition (Remembers definition.sections state) ticks inst :=
  ⟨minded.resting, minded.accounted, minded.remembers⟩

/-- A tick begins with all that is known between its parts. -/
theorem recounts (minded : Minded pledge kernel.definition state ticks inst) (delta : Nat)
    (user : User) (commands : Command.Writer) :
    Recounts pledge kernel True ((Stays.past ticks).age delta) (ticks.flatMap Tick.trace) state
      (.ofScene ⟨inst, user, commands⟩) :=
  (minded.abides.keeps delta user commands).recounts

end Minded

/-- All that happens keeps what a slot of its own remembers. -/
theorem abiding_remembers {definition : Definition}
    (own : definition.sections.KeepsHistory state) :
    Abiding User pledge definition (Remembers definition.sections state)
      (Remembers definition.sections state) where
  still remembers _ history := ⟨fun absent => history ▸ remembers.never absent,
    fun left => history ▸ remembers.last left⟩
  keeper same reliable spares alike := by
    subst same
    exact reliable.remembering_keeper spares own alike

/-- A whole run. -/
theorem Happening.chronicle_minded {definition : Definition} {ticks : List Tick}
    (sound : definition.Sound) (own : definition.sections.KeepsHistory state)
    {happenings : List (Happening User)}
    (harmless : ∀ happening ∈ happenings, happening.Harmless pledge)
    (spares : ∀ happening ∈ happenings, happening.SparesHistory)
    (minded : Minded pledge definition state ticks inst) :
    ∃ told after, chronicle definition happenings inst = .ok told ∧
      leave definition happenings inst = .ok after ∧
        Minded pledge definition state (ticks ++ told) after := by
  obtain ⟨told, after, chronicles, leaves, abides⟩ :=
    chronicle_abides sound (abiding_remembers own) harmless spares minded.abides
  exact ⟨told, after, chronicles, leaves, abides.resting, abides.accounted, abides.rests⟩

/-- History restores what was active. Whenever a state is settled in the course of a tick, after
any run in which no callback has written history, it is settled the way its life tells, if it
keeps history in a slot of its own. And whenever a transition is taken, it leaves the slot alone
unless it leaves the state. -/
theorem history_restored {graph : Chart.Graph} {compiled : Chart.Compiled} (drawn : graph.Drawn)
    (compiles : graph.compile = .ok (.ok compiled)) {tier : Tier}
    (room : compiled.definition.tier ≤ tier) (seed : UInt32) (happenings : List (Happening User))
    (harmless : ∀ happening ∈ happenings, happening.Harmless .nothing)
    (spares : ∀ happening ∈ happenings, happening.SparesHistory)
    {state : UInt16} (own : compiled.definition.sections.KeepsHistory state) :
    ∃ ticks inst,
      Happening.chronicle compiled.definition happenings
          (.fresh tier compiled.definition.structureHash seed) = .ok ticks ∧
        Happening.leave compiled.definition happenings
          (.fresh tier compiled.definition.structureHash seed) = .ok inst ∧
        ∀ kernel : Kernel User, kernel.definition = compiled.definition →
          kernel.dispatch.Harmless .nothing → kernel.dispatch.Preserves Instance.history →
          ∀ delta user commands,
            (∀ before,
              kernel.Within (.tick delta ⟨inst, user, commands⟩) (.settle state before) →
              ∃ after, Restored kernel state (ticks.flatMap Tick.trace) before after) ∧
            ∀ transition event before,
              kernel.Within (.tick delta ⟨inst, user, commands⟩) (.fire transition event before) →
              ∃ after, kernel.fire transition event before = .ok after ∧
                SetsOut kernel state (ticks.flatMap Tick.trace) before after := by
  have sound := (drawn.sound compiles).1
  have fresh : Minded .nothing compiled.definition state []
      (.fresh tier compiled.definition.structureHash seed) := .fresh sound own room seed trivial
  obtain ⟨ticks, inst, told, left, minded⟩ :=
    Happening.chronicle_minded sound own harmless spares fresh
  refine ⟨ticks, inst, told, left, fun kernel same harmlessNow sparesNow delta user commands => ?_⟩
  have reliable : Reliable .nothing kernel := ⟨same ▸ sound, harmlessNow⟩
  have owned : kernel.definition.sections.KeepsHistory state := same ▸ own
  have minding : Minded .nothing kernel.definition state ticks inst := same ▸ minded
  have alike : ((Stays.past ticks).age delta.toNat).Alike
      (Stays.nowhere.replay (ticks.flatMap Tick.trace)) := Minded.alike_age delta.toNat
  have begins : Told .nothing kernel ((Stays.past ticks).age delta.toNat)
      (ticks.flatMap Tick.trace) state (.tick delta ⟨inst, user, commands⟩) :=
    .tick minding.resting.idle (minding.recounts delta.toNat user commands)
  constructor
  · intro before within
    have told := reliable.within_told sparesNow owned alike begins within
    obtain ⟨after, settling⟩ := told.exists_settling sparesNow own.inner
    exact ⟨after, settling.restored owned reliable.sound.wellFormed reliable sparesNow alike⟩
  · intro transition event before within
    have told := reliable.within_told sparesNow owned alike begins within
    exact told.fire_setsOut reliable sparesNow owned alike

/-- A tick without callbacks. -/
def Happening.beat (delta : UInt32) : Happening Unit :=
  .ticked .empty .default delta () (.ofPage .blank)

@[simp]
theorem Happening.beat_harmless (delta : UInt32) : (Happening.beat delta).Harmless .nothing :=
  .empty _

@[simp]
theorem Happening.beat_sparesHistory (delta : UInt32) : (Happening.beat delta).SparesHistory :=
  Dispatch.preserves_empty _

section

open Chart.Graph

/-- The state starts over after its first child has given way to the second: the second child is
entered again, although the first one is the initial child. -/
theorem history_restored_hall :
    ∃ compiled, hall.compile = .ok (.ok compiled) ∧
      (compiled.definition.sections.record 1).initialChild = 2 ∧
      ∃ ticks inst before after,
        Happening.chronicle compiled.definition [.beat 0, .beat 5]
            (.fresh .tier256 compiled.definition.structureHash 1) = .ok ticks ∧
          (⟨compiled.definition, .empty, .default⟩ : Kernel Unit).Within
            (.tick 5 ⟨inst, (), .ofPage .blank⟩) (.settle 1 before) ∧
          Restored ⟨compiled.definition, .empty, .default⟩ 1 (ticks.flatMap Tick.trace) before
            after ∧
          enterAndSettle ⟨compiled.definition, .empty, .default⟩
            (descend ⟨compiled.definition, .empty, .default⟩) 3 before = .ok after := by
  obtain ⟨compiled, compiles⟩ := exists_compiled_hall
  have ran : (do
      let definition ← hall.definition?
      let sections := definition.sections
      let kernel : Kernel Unit := ⟨definition, .empty, .default⟩
      let fresh := Instance.fresh .tier256 definition.structureHash 1
      return decide (sections.states.size = 4 ∧ (sections.record 1).initialChild = 2 ∧
        (sections.record 1).flags.history = true ∧
        (sections.record 1).flags.deepHistory = false ∧ (sections.record 3).parent = 1 ∧
        (∀ other : Nat, other < 4 →
          (sections.record (.ofNat other)).flags.history = true → other = 1) ∧
        (do
          let ticks ← Happening.chronicle definition [.beat 0, .beat 5] fresh
          let inst ← Happening.leave definition [.beat 0, .beat 5] fresh
          let (state, before) ← kernel.firstTarget 5 ⟨inst, (), .ofPage .blank⟩
          let life := ticks.flatMap Tick.trace ++ before.trace.toList
          return decide (state = 1 ∧ .exit 1 ∈ life ∧
            (Stays.nowhere.replay (Trace.departure 1 life) 3).isSome)) = Except.ok true)) =
      some true := by decide +kernel
  rw [drawn_hall.definition?_eq compiles] at ran
  obtain ⟨size, initial, keeps, shallow, linked, alone, goes⟩ :=
    of_decide_eq_true (Option.some.inj ran)
  have has {other : UInt16} (small : other.toNat < 4) : compiled.definition.sections.Has other := by
    rwa [← size] at small
  have own : compiled.definition.sections.KeepsHistory 1 := by
    refine ⟨has (by decide), by decide, keeps, fun other hasToo keepsToo _ => ?_⟩
    refine UInt16.toNat_inj.1 (alone other.toNat (size ▸ hasToo) ?_)
    rwa [UInt16.ofNat_toNat]
  have careful (delta : UInt32) : (Happening.beat delta).Harmless .nothing ∧
      (Happening.beat delta).SparesHistory := ⟨.empty _, Dispatch.preserves_empty _⟩
  have harmless : ∀ happening ∈ [Happening.beat 0, .beat 5],
      happening.Harmless .nothing ∧ happening.SparesHistory :=
    List.forall_mem_cons.2 ⟨careful 0, List.forall_mem_singleton.2 (careful 5)⟩
  obtain ⟨ticks, inst, told, left, each⟩ := history_restored drawn_hall compiles
    (Tier.le_tier256 _) 1 [.beat 0, .beat 5] (fun happening listed => (harmless happening listed).1)
    (fun happening listed => (harmless happening listed).2) own
  rw [told, ok_bind, left, ok_bind] at goes
  obtain ⟨⟨state, before⟩, first, goes⟩ := Yields.exists_of_bind goes
  obtain ⟨rfl, wasLeft, wasOpen⟩ := of_decide_eq_true (Except.ok.inj goes)
  have within := within_of_firstTarget first
  obtain ⟨after, restored⟩ := (each _ rfl (.empty _) (Dispatch.preserves_empty _) _ _ _).1 before
    within
  obtain ⟨child, only, enters⟩ := restored.shallow wasLeft shallow
  have was : compiled.definition.sections.Child 1 3 ∧ (Stays.nowhere.replay
      (Trace.departure 1 (ticks.flatMap Tick.trace ++ before.trace.toList))).Open 3 :=
    ⟨⟨has (by decide), by decide, linked⟩, Option.isSome_iff_ne_none.1 wasOpen⟩
  obtain rfl := (only 3).1 was
  exact ⟨compiled, compiles, initial, ticks, inst, before, after, told, within, restored, enters⟩

end

end Statechart.Kernel
