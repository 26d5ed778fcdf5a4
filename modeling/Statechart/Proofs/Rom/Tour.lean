/-
# Tours

Entering a state and settling it goes through the states below it from the top down. `Tour`
names them in the order in which they are met: a state, then those below the child it hands
over to or, if it is parallel, below all of its children, one after the other. The leaves
that are met fill the agenda (`Tour.fills`). Every state is met once and after those above it
(`Tour.pairwise`), and what is met below a state are the states above the leaves that are
met (`Tour.mem_iff`).
-/

import Statechart.Proofs.Rom.Legal

namespace Statechart.Rom.Sections

variable {sections : Sections} {agenda entered : List UInt16} {top state child leaf : UInt16}

/-- The states that are met when the states of an agenda are entered and settled. -/
inductive Tour (sections : Sections) : List UInt16 → List UInt16 → Prop
  | nil : Tour sections [] []
  | leaf {state : UInt16} {rest entered : List UInt16} : sections.Has state →
      (sections.record state).isLeaf = true → Tour sections rest entered →
      Tour sections (state :: rest) (state :: entered)
  | serial {state child : UInt16} {rest entered : List UInt16} :
      (sections.record state).flags.parallel = false → sections.Child state child →
      Tour sections (child :: rest) entered → Tour sections (state :: rest) (state :: entered)
  | parallel {state : UInt16} {rest entered : List UInt16} : sections.Has state →
      (sections.record state).isLeaf = false → (sections.record state).flags.parallel = true →
      Tour sections ((sections.record state).children.words ++ rest) entered →
      Tour sections (state :: rest) (state :: entered)

/-- The leaves among some states. -/
def leaves (sections : Sections) (states : List UInt16) : List UInt16 :=
  states.filter fun state => (sections.record state).isLeaf

theorem leaves_append (first second : List UInt16) :
    sections.leaves (first ++ second) = sections.leaves first ++ sections.leaves second :=
  List.filter_append ..

theorem leaves_cons_of_inner {states : List UInt16}
    (inner : (sections.record state).isLeaf = false) :
    sections.leaves (state :: states) = sections.leaves states :=
  List.filter_cons_of_neg (by rw [inner]; decide)

theorem leaves_cons_of_leaf {states : List UInt16}
    (childless : (sections.record state).isLeaf = true) :
    sections.leaves (state :: states) = state :: sections.leaves states :=
  List.filter_cons_of_pos childless

namespace Tour

theorem append {others more : List UInt16} (tour : sections.Tour agenda entered)
    (next : sections.Tour others more) : sections.Tour (agenda ++ others) (entered ++ more) := by
  induction tour with
  | nil => exact next
  | leaf has childless _ ih => exact .leaf has childless ih
  | serial alone linked _ ih => exact .serial alone linked ih
  | parallel has inner parallel _ ih =>
    rw [List.append_assoc] at ih
    exact .parallel has inner parallel ih

/-- The leaves that are met fill the agenda. -/
theorem fills (wellFormed : sections.WellFormed) (tour : sections.Tour agenda entered) :
    sections.Fills agenda (sections.leaves entered) := by
  induction tour with
  | nil => exact .nil
  | leaf has childless _ ih =>
    rw [leaves_cons_of_leaf childless]
    exact .leaf has childless ih
  | serial alone linked _ ih =>
    rw [leaves_cons_of_inner (wellFormed.inner_of_child linked)]
    exact .serial alone linked ih
  | parallel has inner parallel _ ih =>
    rw [leaves_cons_of_inner inner]
    exact .parallel has inner parallel ih

/-- What lies between the agenda and a state that is met is met, too. -/
theorem exists_between (wellFormed : sections.WellFormed) (tour : sections.Tour agenda entered)
    (met : state ∈ entered) : ∃ top ∈ agenda, sections.Beneath top state ∧
      ∀ inner, sections.Beneath top inner → sections.Beneath inner state → inner ∈ entered := by
  -- A state itself, when it is the one that is met.
  have itself {states : List UInt16} (has : sections.Has state) :
      sections.Beneath state state ∧ ∀ inner, sections.Beneath state inner →
        sections.Beneath inner state → inner ∈ state :: states :=
    ⟨.self has, fun inner down up => List.mem_cons.2 (.inl (up.antisymm wellFormed down))⟩
  -- What is met below a child, seen from the parent.
  have lift {parent child : UInt16} {states : List UInt16}
      (linked : sections.Child parent child) (beneath : sections.Beneath child state)
      (between : ∀ inner, sections.Beneath child inner → sections.Beneath inner state →
        inner ∈ states) : sections.Beneath parent state ∧ ∀ inner, sections.Beneath parent inner →
          sections.Beneath inner state → inner ∈ parent :: states := by
    refine ⟨(wellFormed.beneath_of_child linked).trans beneath, fun inner down up => ?_⟩
    by_cases same : inner = parent
    · exact List.mem_cons.2 (.inl same)
    · have lower := Beneath.of_child wellFormed linked down same beneath up
      exact List.mem_cons_of_mem _ (between inner lower up)
  induction tour with
  | nil => cases met
  | @leaf first rest _ has _ _ ih =>
    rcases List.mem_cons.1 met with rfl | later
    · exact ⟨state, List.mem_cons_self .., itself has⟩
    · obtain ⟨top, listed, beneath, between⟩ := ih later
      exact ⟨top, List.mem_cons_of_mem _ listed, beneath, fun inner down up =>
        List.mem_cons_of_mem _ (between inner down up)⟩
  | @serial first child rest _ _ linked _ ih =>
    rcases List.mem_cons.1 met with rfl | later
    · exact ⟨state, List.mem_cons_self .., itself (wellFormed.has_of_child linked)⟩
    · obtain ⟨top, listed, beneath, between⟩ := ih later
      rcases List.mem_cons.1 listed with rfl | behind
      · exact ⟨first, List.mem_cons_self .., lift linked beneath between⟩
      · exact ⟨top, List.mem_cons_of_mem _ behind, beneath, fun inner down up =>
          List.mem_cons_of_mem _ (between inner down up)⟩
  | @parallel first rest _ has _ _ _ ih =>
    rcases List.mem_cons.1 met with rfl | later
    · exact ⟨state, List.mem_cons_self .., itself has⟩
    · obtain ⟨top, listed, beneath, between⟩ := ih later
      rcases List.mem_append.1 listed with own | behind
      · have linked := (wellFormed.mem_words has).1 own
        exact ⟨first, List.mem_cons_self .., lift linked beneath between⟩
      · exact ⟨top, List.mem_cons_of_mem _ behind, beneath, fun inner down up =>
          List.mem_cons_of_mem _ (between inner down up)⟩

/-- What is met lies beneath the agenda. -/
theorem exists_top (wellFormed : sections.WellFormed) (tour : sections.Tour agenda entered)
    (met : state ∈ entered) : ∃ top ∈ agenda, sections.Beneath top state := by
  obtain ⟨top, listed, beneath, -⟩ := tour.exists_between wellFormed met
  exact ⟨top, listed, beneath⟩

/-- Below what is met there is a leaf that is met. -/
theorem active (wellFormed : sections.WellFormed) (tour : sections.Tour agenda entered)
    (met : state ∈ entered) : sections.Active (sections.leaves entered) state := by
  have widen {first : UInt16} {states : List UInt16}
      (isActive : sections.Active (sections.leaves states) state) :
      sections.Active (sections.leaves (first :: states)) state := by
    obtain ⟨leaf, listed, beneath⟩ := isActive
    obtain ⟨inside, childless⟩ := List.mem_filter.1 listed
    exact ⟨leaf, List.mem_filter.2 ⟨List.mem_cons_of_mem _ inside, childless⟩, beneath⟩
  -- The first state of an agenda is filled.
  have first {rest states : List UInt16} (tour : sections.Tour (state :: rest) states) :
      sections.Active (sections.leaves states) state :=
    (tour.fills wellFormed).exists_mem wellFormed (List.mem_cons_self ..)
  induction tour with
  | nil => cases met
  | leaf has childless rest ih =>
    rcases List.mem_cons.1 met with rfl | later
    · exact first (.leaf has childless rest)
    · exact widen (ih later)
  | serial alone linked rest ih =>
    rcases List.mem_cons.1 met with rfl | later
    · exact first (.serial alone linked rest)
    · exact widen (ih later)
  | parallel has inner parallel rest ih =>
    rcases List.mem_cons.1 met with rfl | later
    · exact first (.parallel has inner parallel rest)
    · exact widen (ih later)

/-- What is met below a state: those above the leaves that are met. -/
theorem mem_iff (wellFormed : sections.WellFormed) (tour : sections.Tour [top] entered) :
    state ∈ entered ↔
      sections.Beneath top state ∧ sections.Active (sections.leaves entered) state := by
  constructor
  · intro met
    obtain ⟨first, only, beneath⟩ := tour.exists_top wellFormed met
    exact ⟨List.mem_singleton.1 only ▸ beneath, tour.active wellFormed met⟩
  · rintro ⟨below, leaf, listed, above⟩
    obtain ⟨first, only, -, between⟩ :=
      tour.exists_between wellFormed (List.mem_filter.1 listed).1
    exact between state (List.mem_singleton.1 only ▸ below) above

/-- No state is met again, or after one below it. -/
theorem pairwise (wellFormed : sections.WellFormed) (tour : sections.Tour agenda entered)
    (apart : sections.Apart agenda) :
    entered.Pairwise fun first second => ¬ sections.Beneath second first := by
  induction tour with
  | nil => exact .nil
  | @leaf state rest entered _ _ tour ih =>
    obtain ⟨behind, others⟩ := List.pairwise_cons.1 apart
    refine List.pairwise_cons.2 ⟨fun later met above => ?_, ih others⟩
    obtain ⟨top, listed, beneath⟩ := tour.exists_top wellFormed met
    exact (behind top listed).2 (beneath.trans above)
  | @serial state child rest entered _ linked tour ih =>
    obtain ⟨behind, others⟩ := List.pairwise_cons.1 apart
    have upper := wellFormed.beneath_of_child linked
    refine List.pairwise_cons.2 ⟨fun later met above => ?_, ih ?_⟩
    · obtain ⟨top, listed, beneath⟩ := tour.exists_top wellFormed met
      rcases List.mem_cons.1 listed with rfl | member
      · have back := beneath.trans above
        exact wellFormed.child_ne linked (back.antisymm wellFormed upper)
      · exact (behind top member).2 (beneath.trans above)
    · refine List.pairwise_cons.2 ⟨fun other member => ?_, others⟩
      exact ⟨fun beneath => (behind other member).1 (upper.trans beneath),
        Apart.not_beneath (behind other member) upper⟩
  | @parallel state rest entered has _ _ tour ih =>
    obtain ⟨behind, others⟩ := List.pairwise_cons.1 apart
    refine List.pairwise_cons.2 ⟨fun later met above => ?_, ih ?_⟩
    · obtain ⟨top, listed, beneath⟩ := tour.exists_top wellFormed met
      rcases List.mem_append.1 listed with own | member
      · have linked := (wellFormed.mem_words has).1 own
        have upper := wellFormed.beneath_of_child linked
        exact wellFormed.child_ne linked ((beneath.trans above).antisymm wellFormed upper)
      · exact (behind top member).2 (beneath.trans above)
    · refine List.pairwise_append.2 ⟨Apart.words wellFormed has, others, ?_⟩
      intro child own other member
      have upper := wellFormed.beneath_of_child ((wellFormed.mem_words has).1 own)
      exact ⟨fun beneath => (behind other member).1 (upper.trans beneath),
        Apart.not_beneath (behind other member) upper⟩

/-- No state is met twice. -/
theorem nodup (wellFormed : sections.WellFormed) (tour : sections.Tour agenda entered)
    (apart : sections.Apart agenda) : entered.Nodup := by
  refine (tour.pairwise wellFormed apart).imp_of_mem fun met _ after same => ?_
  obtain ⟨_, _, beneath⟩ := tour.exists_top wellFormed met
  exact after (same ▸ .self beneath.has)

end Tour

end Statechart.Rom.Sections
