/-
# What deep history restores

One leaf is saved for a state that keeps deep history: of the leaves that were active below it
when it was left, the first in the order of the leaf slots. When the state is settled again, the
way down to this leaf is entered, so all that lies on the way is active again. Where the way
passes through a parallel state, the regions beside it are entered and settled on their own,
whatever was active in them before. Nothing else becomes active (`Resumed`).

So a region that had moved on starts over (`region_forgotten_estate`). An action that writes
the slot between can send the whole state elsewhere.
-/

import Statechart.Proofs.Chart.Naming
import Statechart.Proofs.Kernel.Retaining
import Statechart.Proofs.Kernel.Safety

namespace Statechart

open Rom (Sections rootIndex)

namespace Rom.Sections

variable {sections : Sections} {top next leaf child : UInt16}

/-- A child of a parallel state on the way from a state down to a leaf, that is not on the way
itself. -/
structure BesideWay (sections : Sections) (top leaf child : UInt16) : Prop where
  exists_owner : ∃ owner, sections.Beneath top owner ∧ sections.Beneath owner leaf ∧
    (sections.record owner).flags.parallel = true ∧ sections.Child owner child
  beside : ¬ sections.Beneath child leaf

/-- A state on the way is the first one, or it is on the way from the next one on. -/
theorem Child.on_way (linked : sections.Child top next) (wellFormed : sections.WellFormed)
    (beneath : sections.Beneath next leaf) {inner : UInt16} (lower : sections.Beneath top inner)
    (upper : sections.Beneath inner leaf) : inner = top ∨ sections.Beneath next inner := by
  by_cases same : inner = top
  · exact .inl same
  · exact .inr (.of_child wellFormed linked lower same beneath upper)

namespace BesideWay

/-- A region beside the way lies beside the first state, or beside the way from the next one on. -/
theorem down (region : sections.BesideWay top leaf child) (wellFormed : sections.WellFormed)
    (linked : sections.Child top next) (beneath : sections.Beneath next leaf) :
    (sections.record top).flags.parallel = true ∧ sections.Child top child ∧ child ≠ next ∨
      sections.BesideWay next leaf child := by
  obtain ⟨⟨owner, lower, upper, parallel, own⟩, beside⟩ := region
  rcases linked.on_way wellFormed beneath lower upper with rfl | further
  · refine .inl ⟨parallel, own, ?_⟩
    rintro rfl
    exact beside beneath
  · exact .inr ⟨⟨owner, further, upper, parallel, own⟩, beside⟩

theorem up (region : sections.BesideWay next leaf child) (wellFormed : sections.WellFormed)
    (linked : sections.Child top next) : sections.BesideWay top leaf child := by
  obtain ⟨⟨owner, lower, upper, parallel, own⟩, beside⟩ := region
  exact ⟨⟨owner, (wellFormed.beneath_of_child linked).trans lower, upper, parallel, own⟩, beside⟩

/-- The other children of a parallel state are regions beside the way. -/
theorem of_child (wellFormed : sections.WellFormed)
    (parallel : (sections.record top).flags.parallel = true) (linked : sections.Child top next)
    (beneath : sections.Beneath next leaf) (other : sections.Child top child)
    (differs : child ≠ next) : sections.BesideWay top leaf child where
  exists_owner := ⟨top, .self (wellFormed.has_of_child linked),
    (wellFormed.beneath_of_child linked).trans beneath, parallel, other⟩
  beside met := differs (wellFormed.child_eq other linked met beneath)

/-- What lies below a region beside the way from the next state on lies below the next state. -/
theorem beneath_next (region : sections.BesideWay next leaf child)
    (wellFormed : sections.WellFormed) : sections.Beneath next child := by
  obtain ⟨⟨owner, lower, -, -, own⟩, -⟩ := region
  exact lower.trans (wellFormed.beneath_of_child own)

end BesideWay

end Rom.Sections

namespace Trace

variable {sections : Sections}

/-- Only leaves hold leaf slots. -/
theorem isLeaf_of_mem_seats {life : List Entry} {leaf : UInt16}
    (seated : leaf ∈ seats sections life) : (sections.record leaf).isLeaf = true := by
  induction life using List.reverseRecOn with
  | nil => cases seated
  | append_singleton earlier entry ih =>
    rw [seats_append, List.foldl_cons, List.foldl_nil] at seated
    cases entry with
    | enter state =>
      rw [reseat] at seated
      split at seated
      · next childless =>
        rcases List.mem_append.1 seated with early | now
        · exact ih early
        · exact List.mem_singleton.1 now ▸ childless
      · exact ih seated
    | exit state => exact ih (List.mem_of_mem_filter seated)
    | rtcOverflow _ => cases seated
    | _ => exact ih seated

end Trace

namespace Kernel

open Stays (Clear Unopened)

variable {User : Type} {pledge : Instance.Pledge} {kernel : Kernel User} {start : Stays}
  {past : List Trace.Entry} {call callee : Call User} {state top next leaf child : UInt16}
  {rest : List UInt16} {progress before middle done after : Progress User}

/-! ### Regions that settle on their own -/

/-- In the course of a call, a region was entered and settled where nothing in it was active. What
is active in it afterwards is what was active in it when it had settled. -/
structure SettlesAlone (kernel : Kernel User) (start : Stays) (call : Call User) (child : UInt16)
    (after : Progress User) : Prop where
  exists_done : ∃ middle inside done, kernel.enterState child middle = .ok inside ∧
    kernel.Within call (.settle child inside) ∧
    Clear kernel.definition.sections (inside.stays start) child ∧
    kernel.descend child inside = .ok done ∧
    ∀ inner, kernel.definition.sections.Beneath child inner →
      ((after.stays start).Open inner ↔ (done.stays start).Open inner)

theorem SettlesAlone.widen (settles : SettlesAlone kernel start callee child done)
    (within : kernel.Within call callee)
    (same : ∀ inner, kernel.definition.sections.Beneath child inner →
      ((after.stays start).Open inner ↔ (done.stays start).Open inner)) :
    SettlesAlone kernel start call child after := by
  obtain ⟨middle, inside, last, enters, inner, clear, descends, told⟩ := settles
  exact ⟨middle, inside, last, enters, within.trans inner, clear, descends,
    fun state beneath => (same state beneath).trans (told state beneath)⟩

/-- After a call, the way from a state down to a leaf is active, the regions beside it have settled
on their own, and nothing else is active below the state. -/
structure Resumed (kernel : Kernel User) (start : Stays) (call : Call User) (top leaf : UInt16)
    (after : Progress User) : Prop where
  way : ∀ inner, kernel.definition.sections.Beneath top inner →
    kernel.definition.sections.Beneath inner leaf → (after.stays start).Open inner
  beside : ∀ child, kernel.definition.sections.BesideWay top leaf child →
    SettlesAlone kernel start call child after
  only : ∀ inner, kernel.definition.sections.Beneath top inner → (after.stays start).Open inner →
    kernel.definition.sections.Beneath inner leaf ∨
      ∃ child, kernel.definition.sections.BesideWay top leaf child ∧
        kernel.definition.sections.Beneath child inner

/-- What is resumed from the next state on is resumed from its parent on, if the other children of
the parent settle on their own or stay inactive. -/
theorem Resumed.up (wellFormed : kernel.definition.sections.WellFormed)
    (resumed : Resumed kernel start callee next leaf done) (within : kernel.Within call callee)
    (linked : kernel.definition.sections.Child top next)
    (beneath : kernel.definition.sections.Beneath next leaf)
    (isOpen : (after.stays start).Open top)
    (same : ∀ inner, kernel.definition.sections.Beneath next inner →
      ((after.stays start).Open inner ↔ (done.stays start).Open inner))
    (regions : (kernel.definition.sections.record top).flags.parallel = true →
      ∀ child, kernel.definition.sections.Child top child → child ≠ next →
        SettlesAlone kernel start call child after)
    (closed : (kernel.definition.sections.record top).flags.parallel = false →
      ∀ child, kernel.definition.sections.Child top child → child ≠ next →
        ∀ inner, kernel.definition.sections.Beneath child inner →
          ¬ (after.stays start).Open inner) :
    Resumed kernel start call top leaf after where
  way inner lower upper := by
    rcases linked.on_way wellFormed beneath lower upper with rfl | further
    · exact isOpen
    · exact (same inner further).2 (resumed.way inner further upper)
  beside child region := by
    rcases region.down wellFormed linked beneath with ⟨parallel, own, differs⟩ | further
    · exact regions parallel child own differs
    · exact (resumed.beside child further).widen within fun inner lower =>
        same inner ((further.beneath_next wellFormed).trans lower)
  only inner lower innerOpen := by
    by_cases itself : inner = top
    · subst itself
      exact .inl ((wellFormed.beneath_of_child linked).trans beneath)
    obtain ⟨child, own, further⟩ := lower.exists_child itself
    by_cases onWay : child = next
    · subst onWay
      refine (resumed.only inner further ((same inner further).1 innerOpen)).imp_right ?_
      rintro ⟨other, region, below⟩
      exact ⟨other, region.up wellFormed linked, below⟩
    · cases kind : (kernel.definition.sections.record top).flags.parallel with
      | true => exact .inr ⟨child, .of_child wellFormed kind linked beneath own onWay, further⟩
      | false => exact absurd innerOpen (closed kind child own onWay inner further)

namespace Reliable

variable (reliable : Reliable pledge kernel)

include reliable

/-! ### Ways -/

/-- What becomes of one child of a parallel state while all of them are entered in turn. -/
theorem region_turn {step : Progress User → UInt16 → Except Fault (Progress User)}
    (has : kernel.definition.sections.Has top)
    (parallel : (kernel.definition.sections.record top).flags.parallel = true)
    (sound : before.inst.QueueSound)
    (clear : Clear kernel.definition.sections (before.stays start) top)
    (opens : ∀ child, ∀ progress : Progress User, progress.inst.QueueSound →
      Unopened kernel.definition.sections (progress.stays start) child →
      Yields (step progress child) (Opened kernel start [child] progress))
    (ran : (kernel.definition.sections.record top).children.words.foldlM step before = .ok after)
    (own : kernel.definition.sections.Child top child) :
    ∃ earlier later middle done,
      (kernel.definition.sections.record top).children.words = earlier ++ child :: later ∧
      earlier.foldlM step before = .ok middle ∧ middle.inst.QueueSound ∧
      Unopened kernel.definition.sections (middle.stays start) child ∧
      step middle child = .ok done ∧ ∀ inner, kernel.definition.sections.Beneath child inner →
        ((after.stays start).Open inner ↔ (done.stays start).Open inner) := by
  have wellFormed := reliable.sound.wellFormed
  obtain ⟨earlier, later, words⟩ := List.append_of_mem ((wellFormed.mem_words has).2 own)
  rw [words, List.foldlM_append] at ran
  obtain ⟨middle, reached, ran⟩ := Yields.exists_of_bind ran
  rw [List.foldlM_cons] at ran
  obtain ⟨done, stepped, onward⟩ := Yields.exists_of_bind ran
  obtain ⟨opened, unopened⟩ :=
    reliable.region_unopened has parallel sound clear opens words reached
  have turn : Opened kernel start [child] middle done :=
    (opens child middle opened.queueSound unopened).of_eq _ stepped
  have cut : (kernel.definition.sections.record top).children.words =
      (earlier ++ [child]) ++ (later ++ []) := by
    rw [words, List.append_nil, List.append_assoc, List.singleton_append]
  have rest : Opened kernel start later done after :=
    (regions_open_from wellFormed has parallel (fun child _ => opens child) cut clear
      (opened.append turn)).of_eq _ onward
  have apart := wellFormed.nodup_words has
  rw [words] at apart
  have fresh : child ∉ later := (List.nodup_cons.1 (List.nodup_append.1 apart).2.1).1
  refine ⟨earlier, later, middle, done, words, reached, opened.queueSound, unopened, stepped,
    fun inner beneath => rest.open_iff_of_beside wellFormed (fun sibling listed => ?_) own fresh
      beneath⟩
  exact (wellFormed.mem_words has).1
    (words ▸ List.mem_append_right _ (List.mem_cons_of_mem _ listed))

/-- A way is entered from a state with a single active child on. -/
theorem resumed_of_serial (clear : Clear kernel.definition.sections (before.stays start) top)
    (inner : top ≠ rootIndex)
    (serial : (kernel.definition.sections.record top).flags.parallel = false)
    (linked : kernel.definition.sections.Child top next)
    (way : kernel.definition.sections.Way next rest leaf) (sound : before.inst.QueueSound)
    (ran : kernel.enterPath kernel.descend (next :: rest) before = .ok after)
    (within : kernel.Within call (.enter (next :: rest) before))
    (resumed : Resumed kernel start (.enter (next :: rest) before) next leaf after) :
    Resumed kernel start call top leaf after := by
  have wellFormed := reliable.sound.wellFormed
  have opened : Opened kernel start [next] before after :=
    (reliable.enterPath_opens reliable.descend_opens way sound
      (clear.unopened wellFormed linked)).of_eq _ ran
  refine resumed.up wellFormed within linked (way.beneath linked.has)
    (opened.keeps (clear.standing.resolve_left inner)) (fun _ _ => .rfl)
    (fun parallel => absurd (serial.symm.trans parallel) (by decide)) ?_
  intro _ child own differs state beneath
  rw [opened.open_iff_of_beside wellFormed
    (fun sibling only => List.mem_singleton.1 only ▸ linked) own
    (fun only => differs (List.mem_singleton.1 only)) beneath]
  exact (clear.unopened wellFormed own).closed state beneath

/-- A way is entered from a parallel state on. -/
theorem resumed_of_parallel
    (clear : Clear kernel.definition.sections (middle.stays start) top) (inner : top ≠ rootIndex)
    (parallel : (kernel.definition.sections.record top).flags.parallel = true)
    (linked : kernel.definition.sections.Child top next)
    (way : kernel.definition.sections.Way next rest leaf) (sound : middle.inst.QueueSound)
    (enters : kernel.enterState top before = .ok middle)
    (ran : (kernel.definition.sections.record top).children.words.foldlM
      (kernel.enterBeside kernel.descend next rest) middle = .ok after)
    (resumes : ∀ inside done : Progress User, inside.inst.QueueSound →
      Unopened kernel.definition.sections (inside.stays start) next →
      kernel.enterPath kernel.descend (next :: rest) inside = .ok done →
      Resumed kernel start (.enter (next :: rest) inside) next leaf done) :
    Resumed kernel start (.enter (top :: next :: rest) before) top leaf after := by
  have wellFormed := reliable.sound.wellFormed
  have has := wellFormed.has_of_child linked
  have known := kernel.definition.state_eq has
  have opens (child : UInt16) (progress : Progress User) (sound : progress.inst.QueueSound)
      (unopened : Unopened kernel.definition.sections (progress.stays start) child) :
      Yields (kernel.enterBeside kernel.descend next rest progress child)
        (Opened kernel start [child] progress) := reliable.enterBeside_opens way sound unopened
  obtain ⟨earlier, later, inside, done, words, reached, soundNow, unopened, stepped, same⟩ :=
    reliable.region_turn has parallel sound clear opens ran linked
  rw [enterBeside, if_pos rfl] at stepped
  have all : Opened kernel start (kernel.definition.sections.record top).children.words middle
      after := (regions_open_from wellFormed has parallel (fun child _ => opens child)
        (List.append_nil _).symm clear (.nil sound)).of_eq _ ran
  refine (resumes inside done soundNow unopened stepped).up wellFormed
    (.single (.through enters known parallel words reached)) linked (way.beneath linked.has)
    (all.keeps (clear.standing.resolve_left inner)) same ?_
    fun serial => absurd (serial.symm.trans parallel) (by decide)
  intro _ child own differs
  obtain ⟨before, after, outside, last, cut, came, soundThen, closed, turned, told⟩ :=
    reliable.region_turn has parallel sound clear opens ran own
  rw [enterBeside, if_neg differs] at turned
  obtain ⟨settling, entered, settles⟩ := Yields.exists_of_bind turned
  have admitted := (reliable.enterState_admits soundThen closed.enterable).of_eq _ entered
  exact ⟨outside, settling, last, entered,
    .single (.beside enters known parallel cut differs came entered),
    admitted.stays_eq ▸ closed.clear, settles, told⟩

/-- A way down to a leaf is entered, and the regions beside it settle on their own. -/
theorem enterPath_resumes (way : kernel.definition.sections.Way top rest leaf)
    (childless : (kernel.definition.sections.record leaf).isLeaf = true)
    (sound : before.inst.QueueSound)
    (unopened : Unopened kernel.definition.sections (before.stays start) top)
    (ran : kernel.enterPath kernel.descend (top :: rest) before = .ok after) :
    Resumed kernel start (.enter (top :: rest) before) top leaf after := by
  have wellFormed := reliable.sound.wellFormed
  induction way generalizing before after with
  | @here leaf has =>
    have opened : Opened kernel start [leaf] before after :=
      (reliable.enterPath_opens reliable.descend_opens (.here has) sound unopened).of_eq _ ran
    have itself := opened.isOpen (List.mem_singleton_self leaf) unopened.enterable.ne_root
    refine ⟨fun inner lower _ => lower.eq_of_isLeaf wellFormed childless ▸ itself, ?_, ?_⟩
    · rintro child ⟨⟨owner, lower, -, -, own⟩, -⟩
      obtain rfl := lower.eq_of_isLeaf wellFormed childless
      exact absurd own (wellFormed.not_child childless)
    · intro inner lower _
      obtain rfl := lower.eq_of_isLeaf wellFormed childless
      exact .inl (.self has)
  | @down top next leaf rest linked way ih =>
    rw [enterPath_cons_cons] at ran
    obtain ⟨middle, enters, ran⟩ := Yields.exists_of_bind ran
    have has := unopened.enterable.has
    have inner := unopened.enterable.ne_root
    have admitted := (reliable.enterState_admits sound unopened.enterable).of_eq _ enters
    have clear := admitted.stays_eq ▸ unopened.clear
    have known := kernel.definition.state_eq has
    rw [known, ok_bind] at ran
    split at ran
    · next parallel =>
      exact reliable.resumed_of_parallel clear inner parallel linked way admitted.queueSound enters
        ran fun _ _ soundNow closed => ih childless soundNow closed
    · next alone =>
      have serial := Bool.eq_false_iff.2 alone
      exact reliable.resumed_of_serial clear inner serial linked way admitted.queueSound ran
        (.single (.onward enters known serial))
        (ih childless admitted.queueSound (clear.unopened wellFormed linked) ran)

end Reliable

/-! ### Settling -/

/-- A state is settled: the way down to a leaf is resumed, and what is active below the state lies
above the leaves that took the slots behind the others. -/
structure Reopened (kernel : Kernel User) (start : Stays) (state leaf : UInt16)
    (before after : Progress User) : Prop where
  settles : kernel.descend state before = .ok after
  resumed : Resumed kernel start (.settle state before) state leaf after
  exists_added : ∃ added, (∀ active, Seated active before → Seated (active ++ added) after) ∧
    ∀ inner, kernel.definition.sections.Below state inner →
      ((after.stays start).Open inner ↔ kernel.definition.sections.Active added inner)

/-- Where nothing is active below a state, what is active below it once it has settled lies above
the leaves that were added. -/
theorem Opened.exists_seated (wellFormed : kernel.definition.sections.WellFormed)
    (opened : Opened kernel start [state] before after)
    (clear : Clear kernel.definition.sections (before.stays start) state) :
    ∃ added, (∀ active, Seated active before → Seated (active ++ added) after) ∧
      ∀ inner, kernel.definition.sections.Below state inner →
        ((after.stays start).Open inner ↔ kernel.definition.sections.Active added inner) := by
  obtain ⟨-, added, -, -, opens, seats⟩ := opened
  refine ⟨added, seats, fun inner below => ?_⟩
  have proper : inner ≠ rootIndex := by
    rintro rfl
    exact below.2 (wellFormed.eq_root_of_beneath below.1).symm
  rw [opens, or_iff_right (clear.closed inner below.1 below.2), and_iff_right proper]

/-- A state that keeps deep history and was left is settled by entering the way down to the leaf
that was recorded for it. -/
theorem Heard.exists_reopened {rests : Progress User → Prop} (reliable : Reliable pledge kernel)
    (own : kernel.definition.sections.KeepsHistory state)
    (deep : (kernel.definition.sections.record state).flags.deepHistory = true)
    (heard : Heard pledge kernel start rests
      (Throughlife (Retains kernel.definition.sections state) past) (.settle state before))
    (left : .exit state ∈ past ++ before.trace.toList) :
    ∃ leaf after, kernel.definition.sections.Recorded (Trace.seats kernel.definition.sections
        (Trace.departure state (past ++ before.trace.toList))) state leaf ∧
      Reopened kernel start state leaf before after := by
  have wellFormed := reliable.sound.wellFormed
  have known := kernel.definition.state_eq own.has
  have branches := own.branches wellFormed
  have serial := own.serial wellFormed
  cases heard with
  | @entering _ _ after entering runs retains =>
    cases entering with
    | settle has sound clear =>
      cases runs with
      | settle settles =>
        obtain ⟨saved, slot, recorded⟩ := retains left fun other shares =>
          absurd shares own.not_shares
        obtain ⟨leaf, first, same, -⟩ := id recorded
        obtain rfl := same deep
        obtain ⟨seated, beneath, proper⟩ := Rom.Sections.below_of_find? first
        have childless := Trace.isLeaf_of_mem_seats seated
        have restores := restorable?_of_names wellFormed ⟨own.keeps, slot, beneath, proper,
          fun shallow => absurd (deep.symm.trans shallow) (by decide)⟩
        have ran := (descend_yields state before).of_eq _ settles
        obtain ⟨path, found, way⟩ := reliable.restoredPath_returns beneath
        rw [descendBy_of_restorable? known branches serial restores, enterNamed, if_pos deep, found,
          ok_bind] at ran
        have opened := (reliable.descend_opens state before has sound clear).of_eq _ settles
        refine ⟨saved, after, recorded, settles, ?_, opened.exists_seated wellFormed clear⟩
        cases way with
        | here _ => exact absurd rfl proper
        | down linked way =>
          exact reliable.resumed_of_serial clear own.inner serial linked way sound ran
            (.single (.deep known branches serial restores deep found))
            (reliable.enterPath_resumes way childless sound (clear.unopened wellFormed linked) ran)

/-- Deep history resumes one way. Whenever a state that keeps deep history in a slot of its own is
settled in the course of a tick after it was left, in a run in which no callback has written
history, the way down to one leaf is active afterwards: of the leaves that were active below it
when it was last left, the first in the order of the leaf slots. The regions beside the way have
settled on their own, and nothing else is active below the state. Which leaves were active is
told by the life, as it tells the leaf slots whenever a transition is taken. -/
theorem deep_history_resumed {graph : Chart.Graph} {compiled : Chart.Compiled}
    (drawn : graph.Drawn) (compiles : graph.compile = .ok (.ok compiled)) {tier : Tier}
    (room : compiled.definition.tier ≤ tier) (seed : UInt32) (happenings : List (Happening User))
    (harmless : ∀ happening ∈ happenings, happening.Harmless .nothing)
    (spares : ∀ happening ∈ happenings, happening.SparesHistory)
    (own : compiled.definition.sections.KeepsHistory state)
    (deep : (compiled.definition.sections.record state).flags.deepHistory = true) :
    ∃ ticks inst,
      Happening.chronicle compiled.definition happenings
          (.fresh tier compiled.definition.structureHash seed) = .ok ticks ∧
        Happening.leave compiled.definition happenings
          (.fresh tier compiled.definition.structureHash seed) = .ok inst ∧
        ∀ kernel : Kernel User, kernel.definition = compiled.definition →
          kernel.dispatch.Harmless .nothing → kernel.dispatch.Preserves Instance.history →
          ∀ delta user commands,
            (∀ before,
              kernel.Within (.tick delta ⟨inst, user, commands⟩) (.settle state before) →
              .exit state ∈ ticks.flatMap Tick.trace ++ before.trace.toList →
              ∃ leaf after,
                compiled.definition.sections.Recorded (Trace.seats compiled.definition.sections
                  (Trace.departure state (ticks.flatMap Tick.trace ++ before.trace.toList)))
                  state leaf ∧
                Reopened kernel ((Stays.past ticks).age delta.toNat) state leaf before after) ∧
            ∀ transition event before,
              kernel.Within (.tick delta ⟨inst, user, commands⟩) (.fire transition event before) →
              Holds before.inst.leaves (Trace.seats compiled.definition.sections
                (ticks.flatMap Tick.trace ++ before.trace.toList)) := by
  obtain ⟨ticks, inst, told, stays, -, hears⟩ := Happening.chronicle_recites drawn compiles room
    seed happenings harmless spares own.has own.keeps
  refine ⟨ticks, inst, told, stays, fun kernel same harmlessNow sparesNow delta user commands => ?_⟩
  have reliable : Reliable .nothing kernel := ⟨same ▸ (drawn.sound compiles).1, harmlessNow⟩
  have hears := hears kernel same harmlessNow sparesNow delta user commands
  rw [← same] at own deep ⊢
  constructor
  · intro before within left
    exact (hears _ within).exists_reopened reliable own deep left
  · intro transition event before within
    exact (hears _ within).fire_rests.seated

end Kernel

/-! ### A state with regions that keeps deep history -/

namespace Chart.Graph

/-- A state with two children, of which the first one has two children in turn, and so has the
second of these. -/
def wings : Graph :=
  let outer := ((lone.insertState "P" 1).2.insertState "Q" 1).2
  let regions := ((outer.insertState "C" 2).2.insertState "D" 2).2
  ((regions.insertState "E" 5).2.insertState "F" 5).2

theorem drawn_wings : Drawn wings := by
  have outer := (namedBy_lone.insertState "P" 1 (by decide +kernel) (by decide)
    (by decide)).insertState "Q" 1 (by decide +kernel) (by decide) (by decide)
  have regions := (outer.insertState "C" 2 (by decide +kernel) (by decide)
    (by decide)).insertState "D" 2 (by decide +kernel) (by decide) (by decide)
  exact ((regions.insertState "E" 5 (by decide +kernel) (by decide) (by decide)).insertState "F" 5
    (by decide +kernel) (by decide) (by decide)).drawn

/-- The outer state keeps deep history, runs an action when it is left, and starts over every
10 ms. Its first child is parallel. In the second region of this child, the first state gives
way to the second one after 5 ms. -/
def estate : Graph :=
  let resuming := wings.modifyState 1 fun node =>
    { node with history := .deep, exit := some "Action378", timer := some ⟨10, none, some 0⟩ }
  let parallel := resuming.modifyState 2 fun node => { node with parallel := true }
  let timed := parallel.modifyState 6 fun node => { node with timer := some ⟨5, none, some 1⟩ }
  ((timed.addTransition 1 (some 1) .timer).2.addTransition 6 (some 7) .timer).2.registerAction
    "Action378"

theorem drawn_estate : Drawn estate := by
  refine .registerAction "Action378" (.addTransition (some 7) .timer
    (.addTransition (some 1) .timer ?_ (by decide +kernel)) (by decide +kernel))
  refine .configure 6 (.configure 2 ?_ (fun _ => rfl) (fun _ => rfl) fun _ => rfl)
    (fun _ => rfl) (fun _ => rfl) fun _ => rfl
  exact .configure 1 drawn_wings (fun _ => rfl) (fun _ => rfl) fun _ => rfl

theorem stateFindings_estate : estate.layOut.stateFindings 1 = [] := by
  have known : "Action378" ∈ estate.layOut.actions.names := mem_names_registerAction _ _
  have acts : (estate.layOut.state 1).exit = some "Action378" := by decide +kernel
  unfold stateFindings
  simp only [acts]
  rw [List.flatMap_cons, List.flatMap_cons, actionFindings_eq_nil known]
  decide +kernel

theorem exists_compiled_estate : ∃ compiled, estate.compile = .ok (.ok compiled) := by
  refine drawn_estate.exists_compiled ?_ (by decide +kernel)
  have order : estate.layOut.order.toList = [0, 1, 2, 3, 4, 5, 6, 7] := by decide +kernel
  rw [findings, stableIdFindings_eq_nil (by decide +kernel), slotFindings,
    sharedSlotFindings_eq_nil "timer" Placement.timerSlot (by decide +kernel), order,
    List.flatMap_cons, List.flatMap_cons, stateFindings_estate]
  decide +kernel

end Chart.Graph

namespace Kernel

open Chart.Graph
open Rom (Definition)

theorem keepsHistory_estate {compiled : Chart.Compiled}
    (compiles : estate.compile = .ok (.ok compiled)) :
    compiled.definition.sections.KeepsHistory 1 ∧
      (compiled.definition.sections.record 1).flags.deepHistory = true ∧
      (compiled.definition.sections.record 2).flags.parallel = true ∧
      compiled.definition.sections.Child 1 2 ∧ compiled.definition.sections.Child 2 4 := by
  have drawing : estate.definition?.map (fun definition =>
      let sections := definition.sections
      decide (sections.states.size = 8 ∧ (sections.record 1).flags.history = true ∧
        (∀ other : Nat, other < 8 →
          (sections.record (.ofNat other)).flags.history = true → other = 1) ∧
        (sections.record 1).flags.deepHistory = true ∧
        (sections.record 2).flags.parallel = true ∧ (sections.record 2).parent = 1 ∧
        (sections.record 4).parent = 2)) = some true := by decide +kernel
  rw [drawn_estate.definition?_eq compiles] at drawing
  obtain ⟨size, keeps, alone, deep, parallel, outer, inner⟩ :=
    of_decide_eq_true (Option.some.inj drawing)
  have has {other : UInt16} (small : other.toNat < 8) : compiled.definition.sections.Has other := by
    rwa [← size] at small
  refine ⟨⟨has (by decide), by decide, keeps, fun other hasToo keepsToo _ => ?_⟩, deep, parallel,
    ⟨has (by decide), by decide, outer⟩, ⟨has (by decide), by decide, inner⟩⟩
  refine UInt16.toNat_inj.1 (alone other.toNat (size ▸ hasToo) ?_)
  rwa [UInt16.ofNat_toNat]

/-- In the third tick the outer state is left while some leaves are active, and when it has been
settled again others are. -/
def Restarts (definition : Definition) (dispatch : Dispatch Unit) (was now : List UInt16) : Prop :=
  let kernel : Kernel Unit := ⟨definition, dispatch, .default⟩
  ∃ ticks inst before after,
    Happening.chronicle definition [.beat 0, .beat 5]
        (.fresh .tier256 definition.structureHash 1) = .ok ticks ∧
      Happening.leave definition [.beat 0, .beat 5]
        (.fresh .tier256 definition.structureHash 1) = .ok inst ∧
      kernel.Within (.tick 5 ⟨inst, (), .ofPage .blank⟩) (.settle 1 before) ∧
      .exit 1 ∈ ticks.flatMap Tick.trace ++ before.trace.toList ∧
      Trace.seats definition.sections
        (Trace.departure 1 (ticks.flatMap Tick.trace ++ before.trace.toList)) = was ∧
      kernel.descend 1 before = .ok after ∧ after.inst.activeLeaves = now

/-- The leaves before and after the third tick has left the outer state and settled it again. -/
def restart (definition : Definition) (dispatch : Dispatch Unit) :
    Except Fault (List UInt16 × List UInt16) := do
  let kernel : Kernel Unit := ⟨definition, dispatch, .default⟩
  let fresh := Instance.fresh .tier256 definition.structureHash 1
  let ticks ← Happening.chronicle definition [.beat 0, .beat 5] fresh
  let inst ← Happening.leave definition [.beat 0, .beat 5] fresh
  let (state, before) ← kernel.firstTarget 5 ⟨inst, (), .ofPage .blank⟩
  let after ← kernel.descend 1 before
  if state = 1 ∧ .exit 1 ∈ ticks.flatMap Tick.trace ++ before.trace.toList then
    let departure := Trace.departure 1 (ticks.flatMap Tick.trace ++ before.trace.toList)
    return (Trace.seats definition.sections departure, after.inst.activeLeaves)
  else throw .endless

theorem restarts_of_restart {definition : Definition} {dispatch : Dispatch Unit}
    {was now : List UInt16} (ran : restart definition dispatch = .ok (was, now)) :
    Restarts definition dispatch was now := by
  obtain ⟨ticks, told, ran⟩ := Yields.exists_of_bind ran
  obtain ⟨inst, stays, ran⟩ := Yields.exists_of_bind ran
  obtain ⟨⟨state, before⟩, first, ran⟩ := Yields.exists_of_bind ran
  obtain ⟨after, settles, goes⟩ := Yields.exists_of_bind ran
  split at goes
  · next holds =>
    obtain ⟨rfl, left⟩ := holds
    cases goes
    exact ⟨ticks, inst, before, after, told, stays, within_of_firstTarget first, left, rfl, settles,
      rfl⟩
  · cases goes

/-- An action that writes a history slot. -/
def divert : Action Unit := fun scene => do
  let inst ← scene.inst.setHistory 0 3
  return { scene with inst }

/-- The state is left after the first state of its second region has given way to the second one. -/
theorem restarts_estate {compiled : Chart.Compiled}
    (compiles : estate.compile = .ok (.ok compiled)) :
    Restarts compiled.definition .empty [4, 7] [4, 6] ∧
      Restarts compiled.definition (.ofAction "Action378" divert) [4, 7] [3] := by
  have ran : estate.definition?.map (fun definition =>
      decide (restart definition .empty = .ok ([4, 7], [4, 6]) ∧
        restart definition (.ofAction "Action378" divert) = .ok ([4, 7], [3]))) = some true := by
    decide +kernel
  rw [drawn_estate.definition?_eq compiles] at ran
  obtain ⟨alone, diverted⟩ := of_decide_eq_true (Option.some.inj ran)
  exact ⟨restarts_of_restart alone, restarts_of_restart diverted⟩

/-- The state starts over, and the way down to the leaf in its first region is active again. -/
theorem deep_history_resumed_estate :
    ∃ compiled, estate.compile = .ok (.ok compiled) ∧
      ∃ ticks inst before after,
        Happening.chronicle compiled.definition [.beat 0, .beat 5]
            (.fresh .tier256 compiled.definition.structureHash 1) = .ok ticks ∧
          (⟨compiled.definition, .empty, .default⟩ : Kernel Unit).Within
            (.tick 5 ⟨inst, (), .ofPage .blank⟩) (.settle 1 before) ∧
          Reopened ⟨compiled.definition, .empty, .default⟩ ((Stays.past ticks).age 5) 1 4 before
            after := by
  obtain ⟨compiled, compiles⟩ := exists_compiled_estate
  obtain ⟨own, deep, -, outer, inner⟩ := keepsHistory_estate compiles
  obtain ⟨ticks, inst, told, stays, each⟩ := deep_history_resumed drawn_estate compiles
    (Tier.le_tier256 _) 1 [.beat 0, .beat 5] (by simp) (by simp) own deep
  obtain ⟨⟨others, other, before, -, again, remains, within, left, seats, -⟩, -⟩ :=
    restarts_estate compiles
  obtain rfl := Except.ok.inj (told.symm.trans again)
  obtain rfl := Except.ok.inj (stays.symm.trans remains)
  obtain ⟨leaf, after, ⟨first, found, same, -⟩, reopened⟩ :=
    (each _ rfl (.empty _) (Dispatch.preserves_empty _) 5 () _).1 before within left
  have below : compiled.definition.sections.Below 1 4 :=
    ⟨.under (.under (.self own.has) outer) inner, by decide⟩
  simp only [seats, List.find?_cons, below, decide_true] at found
  obtain rfl := (same deep).trans (Option.some.inj found).symm
  exact ⟨compiled, compiles, ticks, inst, before, after, told, within, reopened⟩

/-- When the state has started over, its second region is back in its first state. If the action
that runs when the state is left writes the slot, the state does not even come back to its
regions. -/
theorem region_forgotten_estate :
    ∃ compiled, estate.compile = .ok (.ok compiled) ∧
      compiled.definition.sections.KeepsHistory 1 ∧
      (compiled.definition.sections.record 1).flags.deepHistory = true ∧
      (compiled.definition.sections.record 2).flags.parallel = true ∧
      compiled.definition.sections.Child 1 2 ∧
      Restarts compiled.definition .empty [4, 7] [4, 6] ∧
      Restarts compiled.definition (.ofAction "Action378" divert) [4, 7] [3] := by
  obtain ⟨compiled, compiles⟩ := exists_compiled_estate
  obtain ⟨own, deep, parallel, linked, -⟩ := keepsHistory_estate compiles
  exact ⟨compiled, compiles, own, deep, parallel, linked, restarts_estate compiles⟩

end Kernel

end Statechart
