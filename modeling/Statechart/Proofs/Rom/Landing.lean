/-
# Where a descent leads

A descent from the root leads down to the leaves that become active. At a parallel state it goes on
below every child, elsewhere below one, and history says which (`Guides`). A state's own history is
not always looked at: where deep history further up has named a state below it, the descent passes
through (`Consults`). With the history given, the leaves are determined (`Reaches.unique`).

Without history a descent goes on with initial children only. It leads to the same leaves with
history if and only if every state that it comes to, and whose history it looks at, names a state
that is active then in any case (`Reaches.guides_iff`).
-/

import Statechart.Proofs.Rom.Tour

namespace Statechart.Rom.Sections

variable {sections : Sections} {history agenda active others all : List UInt16}
  {leads otherwise : UInt16 → UInt16 → Prop} {state child saved target : UInt16}

/-! ### What history names -/

/-- The slot of a state that keeps history holds a state strictly below it, right below it unless
the history is deep. -/
structure Names (sections : Sections) (history : List UInt16) (state saved : UInt16) : Prop where
  keeps : (sections.record state).flags.history = true
  slot : history[(sections.record state).historySlot.toNat]? = some saved
  beneath : sections.Beneath state saved
  proper : saved ≠ state
  direct : (sections.record state).flags.deepHistory = false → sections.Child state saved

theorem Names.unique {other : UInt16} (names : sections.Names history state saved)
    (namesToo : sections.Names history state other) : saved = other :=
  Option.some.inj (names.slot.symm.trans namesToo.slot)

/-- A descent from the root that comes to a state looks at the state's own history, since no state
above whose history it has looked at names another one below. -/
def Consults (sections : Sections) (history : List UInt16) (state : UInt16) : Prop :=
  ∀ upper target, upper.toNat < state.toNat → sections.Beneath upper state →
    Consults sections history upper → sections.Names history upper target →
    sections.Beneath state target → target = state
termination_by state.toNat

/-- A descent that has come to a state is on its way to one further down. -/
structure Heads (sections : Sections) (history : List UInt16) (state target : UInt16) : Prop where
  exists_upper : ∃ upper, sections.Beneath upper state ∧ sections.Consults history upper ∧
    sections.Names history upper target
  beneath : sections.Beneath state target
  proper : target ≠ state

/-- A descent goes on from a state with the child on the way to where it heads for, or else with the
initial child. -/
structure Guides (sections : Sections) (history : List UInt16) (state child : UInt16) :
    Prop where
  toward : ∀ target, sections.Heads history state target → sections.Beneath child target
  otherwise : (∀ target, ¬ sections.Heads history state target) →
    child = (sections.record state).initialChild

/-- Above a state whose history is looked at, history names no other state below it. -/
theorem Consults.eq_of_names {upper : UInt16} (wellFormed : sections.WellFormed)
    (consults : sections.Consults history state) (above : sections.Beneath upper state)
    (proper : upper ≠ state) (consultsUpper : sections.Consults history upper)
    (names : sections.Names history upper target) (beneath : sections.Beneath state target) :
    target = state := by
  have before : upper.toNat < state.toNat :=
    Nat.lt_of_le_of_ne (above.le wellFormed) fun same => proper (UInt16.toNat_inj.1 same)
  unfold Consults at consults
  exact consults upper target before above consultsUpper names beneath

theorem consults_root (wellFormed : sections.WellFormed) :
    sections.Consults history rootIndex := by
  unfold Consults
  intro upper _ before above
  rw [wellFormed.eq_root_of_beneath above] at before
  exact absurd before (Nat.lt_irrefl _)

/-- From a state whose history is looked at, a descent heads for what this names. -/
theorem Consults.heads_iff (wellFormed : sections.WellFormed)
    (consults : sections.Consults history state) :
    sections.Heads history state target ↔ sections.Names history state target := by
  constructor
  · rintro ⟨⟨upper, above, consultsUpper, names⟩, beneath, proper⟩
    by_cases same : upper = state
    · exact same ▸ names
    · exact absurd (consults.eq_of_names wellFormed above same consultsUpper names beneath) proper
  · intro names
    have itself : sections.Beneath state state := .self names.beneath.has_top
    exact ⟨⟨state, itself, consults, names⟩, names.beneath, names.proper⟩

/-- A descent heads for one state at most. -/
theorem Heads.unique {other : UInt16} (wellFormed : sections.WellFormed)
    (heads : sections.Heads history state target)
    (headsToo : sections.Heads history state other) : target = other := by
  -- What a state names from above another one that is consulted, too, lies not below this one.
  have passed {upper lower first second : UInt16} (above : sections.Beneath upper lower)
      (between : sections.Beneath lower state) (consultsUpper : sections.Consults history upper)
      (names : sections.Names history upper first) (consultsLower : sections.Consults history lower)
      (namesToo : sections.Names history lower second) (beneath : sections.Beneath state first)
      (proper : first ≠ state) : first = second := by
    by_cases same : upper = lower
    · exact names.unique (same ▸ namesToo)
    · have reached := consultsLower.eq_of_names wellFormed above same consultsUpper names
        (between.trans beneath)
      subst reached
      exact absurd (between.antisymm wellFormed beneath) proper
  obtain ⟨⟨upper, above, consults, names⟩, beneath, proper⟩ := heads
  obtain ⟨⟨lower, aboveToo, consultsToo, namesToo⟩, beneathToo, properToo⟩ := headsToo
  rcases above.comparable aboveToo with upper | under
  · exact passed upper aboveToo consults names consultsToo namesToo beneath proper
  · exact (passed under above consultsToo namesToo consults names beneathToo properToo).symm

/-- On its way a descent goes on heading for the same state. -/
theorem Heads.of_child (heads : sections.Heads history state target)
    (linked : sections.Child state child) (beneath : sections.Beneath child target)
    (proper : target ≠ child) : sections.Heads history child target := by
  obtain ⟨⟨upper, above, consults, names⟩, -, -⟩ := heads
  exact ⟨⟨upper, .under above linked, consults, names⟩, beneath, proper⟩

/-- Beside its way, and at its end, a descent looks at the history of the states that it enters. -/
theorem consults_of_child (wellFormed : sections.WellFormed) (linked : sections.Child state child)
    (ends : ∀ target, sections.Heads history state target → sections.Beneath child target →
      target = child) : sections.Consults history child := by
  unfold Consults
  intro upper target before above consultsUpper names beneath
  cases above with
  | self _ => exact absurd before (Nat.lt_irrefl _)
  | under above link =>
    rw [← link.parent_eq, linked.parent_eq] at above
    refine ends target ⟨⟨upper, above, consultsUpper, names⟩, ?_, ?_⟩ beneath
    · exact (wellFormed.beneath_of_child linked).trans beneath
    · rintro rfl
      exact wellFormed.child_ne linked (beneath.antisymm wellFormed
        (wellFormed.beneath_of_child linked))

/-- A descent goes on with one child. -/
theorem Guides.unique {other : UInt16} (wellFormed : sections.WellFormed)
    (linked : sections.Child state child) (linkedToo : sections.Child state other)
    (guides : sections.Guides history state child)
    (guidesToo : sections.Guides history state other) : child = other := by
  by_cases some : ∃ target, sections.Heads history state target
  · obtain ⟨target, heads⟩ := some
    exact wellFormed.child_eq linked linkedToo (guides.toward target heads)
      (guidesToo.toward target heads)
  · have none := not_exists.1 some
    exact (guides.otherwise none).trans (guidesToo.otherwise none).symm

/-! ### Where it ends -/

/-- The states of an agenda are filled by the leaves, and each state on the way that is not parallel
hands over to a child that it leads to. -/
inductive Reaches (sections : Sections) (leads : UInt16 → UInt16 → Prop) :
    List UInt16 → List UInt16 → Prop
  | nil : Reaches sections leads [] []
  | leaf {state : UInt16} {rest leaves : List UInt16} : sections.Has state →
      (sections.record state).isLeaf = true → Reaches sections leads rest leaves →
      Reaches sections leads (state :: rest) (state :: leaves)
  | serial {state child : UInt16} {rest leaves : List UInt16} :
      (sections.record state).flags.parallel = false → sections.Child state child →
      leads state child → Reaches sections leads (child :: rest) leaves →
      Reaches sections leads (state :: rest) leaves
  | parallel {state : UInt16} {rest leaves : List UInt16} : sections.Has state →
      (sections.record state).isLeaf = false → (sections.record state).flags.parallel = true →
      Reaches sections leads ((sections.record state).children.words ++ rest) leaves →
      Reaches sections leads (state :: rest) leaves

/-- Each of the states that is not parallel and no leaf hands over to another one of them, a child
that it leads to. -/
def HandsOver (sections : Sections) (leads : UInt16 → UInt16 → Prop) (entered : List UInt16) :
    Prop :=
  ∀ state ∈ entered, (sections.record state).flags.parallel = false →
    (sections.record state).isLeaf = false →
    ∃ child ∈ entered, sections.Child state child ∧ leads state child

theorem HandsOver.cons {entered : List UInt16} (handsOver : sections.HandsOver leads entered)
    (own : (sections.record state).flags.parallel = false →
      (sections.record state).isLeaf = false →
      ∃ child ∈ entered, sections.Child state child ∧ leads state child) :
    sections.HandsOver leads (state :: entered) := by
  have each : ∀ inner ∈ state :: entered, (sections.record inner).flags.parallel = false →
      (sections.record inner).isLeaf = false →
      ∃ child ∈ entered, sections.Child inner child ∧ leads inner child :=
    List.forall_mem_cons.2 ⟨own, handsOver⟩
  intro inner listed alone branches
  obtain ⟨child, later, linked, led⟩ := each inner listed alone branches
  exact ⟨child, List.mem_cons_of_mem _ later, linked, led⟩

namespace Reaches

theorem append {front back first second : List UInt16}
    (reaches : sections.Reaches leads front first) (next : sections.Reaches leads back second) :
    sections.Reaches leads (front ++ back) (first ++ second) := by
  induction reaches with
  | nil => exact next
  | leaf has childless _ ih => exact .leaf has childless ih
  | serial alone linked led _ ih => exact .serial alone linked led ih
  | parallel has inner parallel _ ih =>
    rw [List.append_assoc] at ih
    exact .parallel has inner parallel ih

theorem fills (reaches : sections.Reaches leads agenda active) : sections.Fills agenda active := by
  induction reaches with
  | nil => exact .nil
  | leaf has childless _ ih => exact .leaf has childless ih
  | serial alone linked _ _ ih => exact .serial alone linked ih
  | parallel has inner parallel _ ih => exact .parallel has inner parallel ih

/-- Some states are met on the way that hand over as they lead, those of the agenda among them. -/
theorem exists_tour (wellFormed : sections.WellFormed)
    (reaches : sections.Reaches leads agenda active) :
    ∃ entered, sections.Tour agenda entered ∧ sections.leaves entered = active ∧
      agenda ⊆ entered ∧ sections.HandsOver leads entered := by
  induction reaches with
  | nil => exact ⟨[], .nil, rfl, List.Subset.refl _, nofun⟩
  | leaf has childless _ ih =>
    obtain ⟨entered, tour, rfl, met, handsOver⟩ := ih
    refine ⟨_, .leaf has childless tour, leaves_cons_of_leaf childless,
      List.cons_subset_cons _ met, handsOver.cons fun _ inner => ?_⟩
    exact absurd (childless.symm.trans inner) (by decide)
  | @serial state child _ _ alone linked led _ ih =>
    obtain ⟨entered, tour, rfl, met, handsOver⟩ := ih
    obtain ⟨first, later⟩ := List.cons_subset.1 met
    exact ⟨_, .serial alone linked tour, leaves_cons_of_inner (wellFormed.inner_of_child linked),
      List.cons_subset_cons _ later, handsOver.cons fun _ _ => ⟨child, first, linked, led⟩⟩
  | parallel has inner parallel _ ih =>
    obtain ⟨entered, tour, rfl, met, handsOver⟩ := ih
    refine ⟨_, .parallel has inner parallel tour, leaves_cons_of_inner inner,
      List.cons_subset_cons _ (List.append_subset.1 met).2, handsOver.cons fun alone _ => ?_⟩
    exact absurd (alone.symm.trans parallel) (by decide)

/-- If every state leads to one child at most, the leaves are determined. -/
theorem unique (wellFormed : sections.WellFormed)
    (one : ∀ state child other, sections.Child state child → sections.Child state other →
      leads state child → leads state other → child = other)
    (reaches : sections.Reaches leads agenda active)
    (reachesToo : sections.Reaches leads agenda others) : active = others := by
  induction reaches generalizing others with
  | nil =>
    cases reachesToo
    rfl
  | leaf _ childless _ ih =>
    cases reachesToo with
    | leaf _ _ rest => rw [ih rest]
    | serial _ linked _ _ => exact absurd linked (wellFormed.not_child childless)
    | parallel _ inner _ _ =>
      rw [childless] at inner
      cases inner
  | serial alone linked led _ ih =>
    cases reachesToo with
    | leaf _ childless _ => exact absurd linked (wellFormed.not_child childless)
    | serial _ linkedToo ledToo rest =>
      obtain rfl := one _ _ _ linked linkedToo led ledToo
      exact ih rest
    | parallel _ _ parallel _ =>
      rw [alone] at parallel
      cases parallel
  | parallel _ inner parallel _ ih =>
    cases reachesToo with
    | leaf _ childless _ =>
      rw [childless] at inner
      cases inner
    | serial alone _ _ _ =>
      rw [alone] at parallel
      cases parallel
    | parallel _ _ _ rest => exact ih rest

/-- The leaves are the same if the states above them lead there in another way, too. -/
theorem mono (wellFormed : sections.WellFormed) (reaches : sections.Reaches leads agenda active)
    (among : active ⊆ all)
    (also : ∀ state child, (sections.record state).flags.parallel = false →
      sections.Child state child → sections.Active all child → leads state child →
      otherwise state child) :
    sections.Reaches otherwise agenda active := by
  induction reaches with
  | nil => exact .nil
  | leaf has childless _ ih =>
    exact .leaf has childless (ih (List.subset_of_cons_subset among))
  | serial alone linked led rest ih =>
    obtain ⟨leaf, listed, beneath⟩ := rest.fills.exists_mem wellFormed (List.mem_cons_self ..)
    have led := also _ _ alone linked ⟨leaf, among listed, beneath⟩ led
    exact .serial alone linked led (ih among)
  | parallel has inner parallel _ ih => exact .parallel has inner parallel (ih among)

/-- An active state that is not parallel leads to the child of it that is active. -/
theorem leads_of_active (wellFormed : sections.WellFormed)
    (reaches : sections.Reaches leads [rootIndex] active)
    (alone : (sections.record state).flags.parallel = false) (linked : sections.Child state child)
    (isActive : sections.Active active child) : leads state child := by
  obtain ⟨entered, tour, rfl, -, handsOver⟩ := reaches.exists_tour wellFormed
  have inner := wellFormed.inner_of_child linked
  obtain ⟨leaf, listed, beneath⟩ := isActive
  have upper := wellFormed.beneath_of_child linked
  have above : sections.Active (sections.leaves entered) state :=
    ⟨leaf, listed, upper.trans beneath⟩
  have met := (tour.mem_iff wellFormed).2 ⟨wellFormed.beneath_root upper.has_top, above⟩
  obtain ⟨other, metToo, otherLinked, led⟩ := handsOver state met alone inner
  obtain ⟨_, -, only⟩ := ((tour.fills wellFormed).legal wellFormed).one state above
    (wellFormed.composite_of_inner upper.has_top inner) alone
  have otherActive := ((tour.mem_iff wellFormed).1 metToo).2
  rwa [only child linked ⟨leaf, listed, beneath⟩, ← only other otherLinked otherActive]

end Reaches

/-! ### With history and without -/

/-- The leaves that history leads to. -/
theorem Reaches.eq (wellFormed : sections.WellFormed)
    (reaches : sections.Reaches (sections.Guides history) agenda active)
    (reachesToo : sections.Reaches (sections.Guides history) agenda others) : active = others :=
  reaches.unique wellFormed (fun _ _ _ linked linkedToo guides guidesToo =>
    guides.unique wellFormed linked linkedToo guidesToo) reachesToo

/-- A state hands over to its initial child. -/
def Initial (sections : Sections) (state child : UInt16) : Prop :=
  child = (sections.record state).initialChild

/-- Where history names nothing, a descent goes on with initial children. -/
theorem Guides.initial (none : ∀ state saved, ¬ sections.Names history state saved)
    (guides : sections.Guides history state child) : sections.Initial state child :=
  guides.otherwise fun target heads => by
    obtain ⟨⟨upper, -, -, names⟩, -⟩ := heads
    exact none upper target names

/-- What history names, where a descent leads that it guides. -/
theorem Reaches.active_of_heads (wellFormed : sections.WellFormed)
    (reaches : sections.Reaches (sections.Guides history) [rootIndex] active)
    (heads : sections.Heads history state target) (isActive : sections.Active active state) :
    sections.Active active target := by
  obtain ⟨⟨upper, above, consults, names⟩, beneath, -⟩ := heads
  have legal := reaches.fills.legal wellFormed
  -- Each state on the way is active, and heads for the target.
  have onward {inner : UInt16} (between : sections.Beneath state inner)
      (toward : sections.Beneath inner target) : sections.Active active inner := by
    induction between with
    | self _ => exact isActive
    | @under parent child between linked ih =>
      have upper := wellFormed.beneath_of_child linked
      have parentActive := ih (upper.trans toward)
      have proper : target ≠ parent := by
        rintro rfl
        exact wellFormed.child_ne linked (toward.antisymm wellFormed upper)
      have heads : sections.Heads history parent target :=
        ⟨⟨_, above.trans between, consults, names⟩, upper.trans toward, proper⟩
      cases parallel : (sections.record parent).flags.parallel with
      | true => exact legal.all parent parentActive parallel child linked
      | false =>
        obtain ⟨next, ⟨nextLinked, nextActive⟩, -⟩ := legal.one parent parentActive
          (wellFormed.composite_of_inner between.has (wellFormed.inner_of_child linked)) parallel
        have guides := reaches.leads_of_active wellFormed parallel nextLinked nextActive
        rwa [wellFormed.child_eq linked nextLinked toward (guides.toward target heads)]
  exact onward beneath (.self beneath.has)

/-- History leads to the leaves that initial children lead to exactly if every active state whose
history is looked at names an active state, if any. -/
theorem Reaches.guides_iff (wellFormed : sections.WellFormed)
    (reaches : sections.Reaches sections.Initial [rootIndex] active) :
    sections.Reaches (sections.Guides history) [rootIndex] active ↔
      ∀ state saved, sections.Active active state → sections.Consults history state →
        sections.Names history state saved → sections.Active active saved := by
  have legal := reaches.fills.legal wellFormed
  constructor
  · intro guided state saved isActive consults names
    exact guided.active_of_heads wellFormed ((consults.heads_iff wellFormed).2 names) isActive
  · intro within
    refine reaches.mono wellFormed (List.Subset.refl _) ?_
    rintro state child alone linked ⟨leaf, listed, beneath⟩ initial
    refine ⟨?_, fun _ => initial⟩
    rintro target ⟨⟨upper, above, consults, names⟩, lower, proper⟩
    have down := wellFormed.beneath_of_child linked
    have active (inner : UInt16) (upper : sections.Beneath inner state) :
        sections.Active active inner := ⟨leaf, listed, (upper.trans down).trans beneath⟩
    obtain ⟨other, otherListed, otherBeneath⟩ :=
      within upper target (active upper above) consults names
    obtain ⟨next, nextLinked, toward⟩ := lower.exists_child proper
    obtain ⟨_, -, only⟩ := legal.one state (active state (.self lower.has_top))
      (wellFormed.composite_of_inner lower.has_top (wellFormed.inner_of_child linked)) alone
    have same := (only child linked ⟨leaf, listed, beneath⟩).trans
      (only next nextLinked ⟨other, otherListed, toward.trans otherBeneath⟩).symm
    exact same ▸ toward

end Statechart.Rom.Sections
