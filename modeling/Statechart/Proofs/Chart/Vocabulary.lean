/-
# The names of actions and guards

Writing the tables of a graph mentions names of actions and guards one after the other
(`mentions`). A name is given its id when it is mentioned first, so the table of ids lists what was
mentioned, each name once. Names can be told apart by their ids unless two of one kind clash, and
then the first clash is what flattening ends with (`FirstClash`).

The main statement (`flatten_vocabulary`) says when a drawn graph without errors ends with a clash,
with which one, and else what the tables and the name maps hold and what the ids in the records
stand for.
-/

import Statechart.Proofs.Chart.Naming
import Statechart.Proofs.Folds

namespace Statechart

/-! ### Names by id -/

namespace NameMap

variable {id : UInt16} {name : String} {entry : UInt16 × String}
  {entries : List (UInt16 × String)} {map : NameMap}

theorem mem_place_iff (fresh : ∀ other ∈ entries, other.1 ≠ id) :
    entry ∈ place id name entries ↔ entry = (id, name) ∨ entry ∈ entries := by
  induction entries with
  | nil => rw [place, List.mem_singleton, or_iff_left List.not_mem_nil]
  | cons head tail ih =>
    have differs := fresh head (List.mem_cons_self ..)
    rw [place]
    split
    · exact List.mem_cons
    · rw [if_neg differs.symm, List.mem_cons,
        ih fun other later => fresh other (List.mem_cons_of_mem _ later), List.mem_cons,
        or_left_comm]

/-- The map of entries with different ids has all of them. -/
theorem mem_ofList (apart : (entries.map Prod.fst).Nodup) :
    entry ∈ (ofList entries).entries ↔ entry ∈ entries := by
  induction entries generalizing entry with
  | nil => rfl
  | cons head tail ih =>
    obtain ⟨fresh, apart⟩ := List.nodup_cons.1 apart
    have others : ∀ other ∈ (ofList tail).entries, other.1 ≠ head.1 := fun other listed same =>
      fresh (same ▸ List.mem_map_of_mem ((ih apart).1 listed))
    show entry ∈ place head.1 head.2 (ofList tail).entries ↔ _
    rw [mem_place_iff others, ih apart, List.mem_cons]

theorem name?_eq_some_iff : map.name? id = some name ↔ (id, name) ∈ map.entries := by
  rw [name?, Option.map_eq_some_iff]
  constructor
  · rintro ⟨⟨other, _⟩, found, rfl⟩
    obtain rfl : other = id := by simpa using List.find?_some found
    exact List.mem_of_find?_eq_some found
  · intro listed
    cases found : map.entries.find? fun entry => entry.1 == id with
    | none => exact absurd (beq_self_eq_true id) (List.find?_eq_none.1 found _ listed)
    | some entry =>
      have apart : (map.entries.map Prod.fst).Nodup :=
        List.pairwise_map.2 (map.ascending.imp fun less => UInt16.ne_of_lt less)
      have same : entry.1 = id := by simpa using List.find?_some found
      exact ⟨entry, rfl, congrArg Prod.snd
        (List.inj_on_of_nodup_map apart (List.mem_of_find?_eq_some found) listed same)⟩

/-- In a map in which a name has one id, this id is found. -/
theorem id?_eq_some_iff
    (only : ∀ other, (other, name) ∈ map.entries → (id, name) ∈ map.entries → other = id) :
    map.id? name = some id ↔ (id, name) ∈ map.entries := by
  rw [id?, Option.map_eq_some_iff]
  constructor
  · rintro ⟨⟨_, other⟩, found, rfl⟩
    obtain rfl : other = name := by simpa using List.find?_some found
    exact List.mem_of_find?_eq_some found
  · intro listed
    cases found : map.entries.find? fun entry => entry.2 == name with
    | none => exact absurd (beq_self_eq_true name) (List.find?_eq_none.1 found _ listed)
    | some entry =>
      obtain ⟨other, known⟩ := entry
      obtain rfl : known = name := by simpa using List.find?_some found
      exact ⟨_, rfl, only other (List.mem_of_find?_eq_some found) listed⟩

end NameMap

namespace Chart

/-! ### Mentions -/

/-- Actions and guards are named apart. -/
inductive NameKind
  | action
  | guard
  deriving DecidableEq, Repr

/-- A name that is mentioned while tables are written. -/
structure Mention where
  kind : NameKind
  name : String
  deriving DecidableEq, Repr

/-- What an optional name mentions. -/
def NameKind.mention (kind : NameKind) (name : Option String) : List Mention :=
  (name.map (Mention.mk kind)).toList

/-- The names of one kind among what was mentioned. -/
def NameKind.among (kind : NameKind) (mentions : List Mention) : List String :=
  (mentions.filter fun mention => mention.kind = kind).map Mention.name

/-- The name that is needed, if it is one. -/
def Need.mention? : Need → Option Mention
  | .placement _ => none
  | .action name => some ⟨.action, name⟩
  | .guard name => some ⟨.guard, name⟩

section Clashes

variable {kind : NameKind} {mentions before after : List Mention} {name : String}
  {first second : IdCollision}

theorem NameKind.mem_among : name ∈ kind.among mentions ↔ ⟨kind, name⟩ ∈ mentions := by
  rw [among, List.mem_map]
  constructor
  · rintro ⟨⟨other, _⟩, listed, rfl⟩
    obtain ⟨listed, same⟩ := List.mem_filter.1 listed
    have kinds : other = kind := of_decide_eq_true same
    exact kinds ▸ listed
  · intro listed
    exact ⟨_, List.mem_filter.2 ⟨listed, decide_eq_true rfl⟩, rfl⟩

/-- Names of one kind are told apart by their ids. -/
def Clashless (mentions : List Mention) : Prop :=
  ∀ kind first second, Mention.mk kind first ∈ mentions → Mention.mk kind second ∈ mentions →
    Name.hash16 first = Name.hash16 second → first = second

/-- What is mentioned next has the id of another name of its kind that was mentioned before, and
nothing clashed before. -/
structure ClashesBehind (kind : NameKind) (before : List Mention) (collision : IdCollision) :
    Prop where
  clashless : Clashless before
  known : ⟨kind, collision.first⟩ ∈ before
  differ : collision.first ≠ collision.second
  id_first : Name.hash16 collision.first = collision.id
  id_second : Name.hash16 collision.second = collision.id

/-- Where the names that are mentioned clash first. -/
def FirstClash (mentions : List Mention) (collision : IdCollision) : Prop :=
  ∃ kind before after, mentions = before ++ ⟨kind, collision.second⟩ :: after ∧
    ClashesBehind kind before collision

/-- Behind a clash names are not told apart. -/
theorem ClashesBehind.not_clashless (behind : ClashesBehind kind before first) :
    ¬ Clashless (before ++ ⟨kind, first.second⟩ :: after) := fun clashless =>
  behind.differ (clashless kind _ _ (List.mem_append_left _ behind.known)
    (List.mem_append_right _ (List.mem_cons_self ..))
    (behind.id_first.trans behind.id_second.symm))

theorem ClashesBehind.unique (behind : ClashesBehind kind before first)
    (other : ClashesBehind kind before second) (same : first.second = second.second) :
    first = second := by
  have ids : first.id = second.id := by
    rw [← behind.id_second, same, other.id_second]
  have firsts := behind.clashless kind _ _ behind.known other.known
    (behind.id_first.trans (ids.trans other.id_first.symm))
  cases first
  cases second
  exact IdCollision.mk.injEq .. ▸ ⟨firsts, same, ids⟩

/-- There is one first clash at most. -/
theorem FirstClash.unique (clash : FirstClash mentions first) (other : FirstClash mentions second) :
    first = second := by
  obtain ⟨kind, before, after, rfl, behind⟩ := clash
  obtain ⟨kindToo, beforeToo, afterToo, same, behindToo⟩ := other
  rcases List.append_eq_append_iff.1 same with ⟨more, rfl, rest⟩ | ⟨more, rfl, rest⟩
  · cases more with
    | cons mention more =>
      obtain ⟨rfl, -⟩ := List.cons.inj rest
      exact absurd behindToo.clashless behind.not_clashless
    | nil =>
      obtain ⟨kinds, seconds⟩ := Mention.mk.inj (List.cons.inj rest).1
      rw [← kinds, List.append_nil] at behindToo
      exact behind.unique behindToo seconds
  · cases more with
    | cons mention more =>
      obtain ⟨rfl, -⟩ := List.cons.inj rest
      exact absurd behind.clashless behindToo.not_clashless
    | nil =>
      obtain ⟨kinds, seconds⟩ := Mention.mk.inj (List.cons.inj rest).1
      rw [← kinds, List.append_nil] at behind
      exact (behindToo.unique behind seconds).symm

theorem FirstClash.not_clashless (clash : FirstClash mentions first) : ¬ Clashless mentions := by
  obtain ⟨kind, before, after, rfl, behind⟩ := clash
  exact behind.not_clashless

end Clashes

/-! ### Giving ids -/

section Interning

variable {kind : NameKind} {before : List Mention} {name : String} {table : NameTable}

theorem Clashless.concat (clashless : Clashless before)
    (told : ∀ other, ⟨kind, other⟩ ∈ before → Name.hash16 other = Name.hash16 name → other = name) :
    Clashless (before ++ [⟨kind, name⟩]) := by
  intro which first second known knownToo same
  rcases List.mem_append.1 known with early | last <;>
    rcases List.mem_append.1 knownToo with earlyToo | lastToo
  · exact clashless which first second early earlyToo same
  · obtain ⟨rfl, rfl⟩ := Mention.mk.inj (List.mem_singleton.1 lastToo)
    exact told first early same
  · obtain ⟨rfl, rfl⟩ := Mention.mk.inj (List.mem_singleton.1 last)
    exact (told second earlyToo same.symm).symm
  · exact (Mention.mk.inj (List.mem_singleton.1 last)).2.trans
      (Mention.mk.inj (List.mem_singleton.1 lastToo)).2.symm

/-- The names of one kind that were mentioned, in the order in which they were mentioned first. -/
def NameTable.Tells (kind : NameKind) (mentions : List Mention) (table : NameTable) : Prop :=
  table.names.toList = (kind.among mentions).eraseDups

namespace NameTable.Tells

theorem mem_names (tells : table.Tells kind before) :
    name ∈ table.names ↔ ⟨kind, name⟩ ∈ before := by
  rw [← Array.mem_toList_iff, tells, List.mem_eraseDups, NameKind.mem_among]

/-- A name of the other kind is none of its business. -/
theorem concat_of_ne (tells : table.Tells kind before) {mention : Mention}
    (other : mention.kind ≠ kind) : table.Tells kind (before ++ [mention]) := by
  have unchanged : kind.among (before ++ [mention]) = kind.among before := by
    rw [NameKind.among, List.filter_append, List.filter_singleton, decide_eq_false other]
    simp [NameKind.among]
  rw [Tells, unchanged]
  exact tells

/-- A name that is mentioned is given its id, unless it clashes. -/
theorem intern (tells : table.Tells kind before) (clashless : Clashless before) (name : String) :
    (∃ collision, table.intern name = .error collision ∧ collision.second = name ∧
      ClashesBehind kind before collision) ∨
    ∃ next, table.intern name = .ok next ∧ next.Tells kind (before ++ [⟨kind, name⟩]) ∧
      Clashless (before ++ [⟨kind, name⟩]) := by
  have goesOn : kind.among (before ++ [⟨kind, name⟩]) = kind.among before ++ [name] := by
    rw [NameKind.among, List.filter_append, List.filter_singleton, decide_eq_true rfl]
    simp [NameKind.among]
  unfold NameTable.intern
  split
  · next listed =>
    have known := tells.mem_names.1 (Array.contains_iff_mem.1 listed)
    refine .inr ⟨table, rfl, ?_, clashless.concat fun other earlier => ?_⟩
    · rw [Tells, goesOn, eraseDups_concat, if_pos (NameKind.mem_among.2 known)]
      exact tells
    · exact clashless kind other name earlier known
  · next unlisted =>
    have unknown : ⟨kind, name⟩ ∉ before := fun known =>
      unlisted (Array.contains_iff_mem.2 (tells.mem_names.2 known))
    simp only
    split
    · next first found =>
      have listed := tells.mem_names.1 (Array.mem_of_find?_eq_some found)
      have same : Name.hash16 first = Name.hash16 name := by simpa using Array.find?_some found
      have differ : first ≠ name := fun equal => unknown (equal ▸ listed)
      exact .inl ⟨_, rfl, rfl, clashless, listed, differ, same, rfl⟩
    · next unused =>
      refine .inr ⟨_, rfl, ?_, clashless.concat fun other earlier same => ?_⟩
      · rw [Tells, goesOn, eraseDups_concat, if_neg fun known =>
          unknown (NameKind.mem_among.1 known), Array.toList_push, tells]
      · have differs := Array.find?_eq_none.1 unused other (tells.mem_names.2 earlier)
        simp [same] at differs

end NameTable.Tells

end Interning

namespace Graph

open Rom (StateRecord TransitionRecord)

variable {graph : Graph}

/-- With placements for everything that is asked for, satisfying needs ends with the first clash of
what is mentioned, or with tables of what was mentioned. -/
theorem satisfy_tells {needs : List Need}
    (placed : ∀ id, Need.placement id ∈ needs → (graph.state id).placement.isSome = true)
    {before : List Mention} {actions guards : NameTable} (clashless : Clashless before)
    (tells : actions.Tells .action before) (tellsToo : guards.Tells .guard before) :
    (∃ collision, graph.satisfy actions guards needs = .ok (.error collision) ∧
      FirstClash (before ++ needs.filterMap Need.mention?) collision) ∨
    ∃ lastActions lastGuards,
      graph.satisfy actions guards needs = .ok (.ok (lastActions, lastGuards)) ∧
      Clashless (before ++ needs.filterMap Need.mention?) ∧
      lastActions.Tells .action (before ++ needs.filterMap Need.mention?) ∧
      lastGuards.Tells .guard (before ++ needs.filterMap Need.mention?) := by
  have differ : NameKind.action ≠ .guard := by decide
  induction needs generalizing before actions guards with
  | nil =>
    rw [List.filterMap_nil, List.append_nil]
    exact .inr ⟨actions, guards, rfl, clashless, tells, tellsToo⟩
  | cons need rest ih =>
    have later := fun id member => placed id (List.mem_cons_of_mem need member)
    cases need with
    | placement id =>
      obtain ⟨placement, here⟩ := Option.isSome_iff_exists.1 (placed id (List.mem_cons_self ..))
      have found : (graph.state id).place = .ok placement := by rw [StateNode.place, here]
      rw [satisfy, found]
      exact ih later clashless tells tellsToo
    | action name =>
      have split : before ++ (Need.action name :: rest).filterMap Need.mention? =
          before ++ [⟨.action, name⟩] ++ rest.filterMap Need.mention? := by
        simp [Need.mention?]
      rw [satisfy]
      rcases tells.intern clashless name with ⟨collision, clashed, rfl, behind⟩ |
        ⟨next, interned, tellsNext, free⟩
      · rw [clashed]
        exact .inl ⟨collision, rfl, .action, before, _, rfl, behind⟩
      · rw [interned, split]
        exact ih later free tellsNext (tellsToo.concat_of_ne differ)
    | guard name =>
      have split : before ++ (Need.guard name :: rest).filterMap Need.mention? =
          before ++ [⟨.guard, name⟩] ++ rest.filterMap Need.mention? := by
        simp [Need.mention?]
      rw [satisfy]
      rcases tellsToo.intern clashless name with ⟨collision, clashed, rfl, behind⟩ |
        ⟨next, interned, tellsNext, free⟩
      · rw [clashed]
        exact .inl ⟨collision, rfl, .guard, before, _, rfl, behind⟩
      · rw [interned, split]
        exact ih later free (tells.concat_of_ne differ.symm) tellsNext

/-! ### What a graph mentions -/

variable (graph) in
/-- The names that the record of a transition mentions. -/
def transitionMentions (id : TransitionId) : List Mention :=
  NameKind.guard.mention (graph.transition id).guard ++
    NameKind.action.mention (graph.transition id).action

variable (graph) in
/-- The names that a state's record and those of its transitions mention. -/
def stateMentions (id : StateId) : List Mention :=
  let node := graph.state id
  NameKind.action.mention node.entry ++ NameKind.action.mention node.exit ++
    NameKind.action.mention node.activity ++
    NameKind.action.mention (node.timer.bind TimerSpec.action) ++
    (graph.localTransitions id).flatMap graph.transitionMentions

variable (graph) in
/-- The names that the tables mention, in the order in which they are written. -/
def mentions : List Mention :=
  graph.order.toList.flatMap graph.stateMentions ++
    (graph.byPriority graph.globals).flatMap graph.transitionMentions

theorem toList_mention (kind : NameKind) (name : Option String) :
    (name.bind fun name => some (Mention.mk kind name)).toList = kind.mention name := by
  cases name <;> rfl

theorem mentions_transitionNeeds (id : TransitionId) :
    (graph.transitionNeeds id).filterMap Need.mention? = graph.transitionMentions id := by
  rw [filterMap_transitionNeeds fun _ => rfl]
  simp only [Need.mention?, toList_mention, transitionMentions]

theorem mentions_stateNeeds (id : StateId) :
    (graph.stateNeeds id).filterMap Need.mention? = graph.stateMentions id := by
  rw [filterMap_stateNeeds fun _ => rfl]
  simp only [mentions_transitionNeeds, Need.mention?, toList_mention, stateMentions]

/-- The names that are asked for are those that are mentioned. -/
theorem mentions_needs : graph.needs.filterMap Need.mention? = graph.mentions := by
  rw [filterMap_needs fun _ => rfl]
  simp only [mentions_stateNeeds, mentions_transitionNeeds, mentions]

end Graph

/-! ### Tables and maps of names -/

/-- A table of ids and a map of names for what was mentioned: the ids of the names in the order in
which they were mentioned first, and each id with its name. -/
structure Glossary (mentioned : List String) (ids : Array UInt16) (names : NameMap) : Prop where
  ids_eq : ids.toList = mentioned.eraseDups.map Name.hash16
  nodup : ids.toList.Nodup
  name?_iff : ∀ id name, names.name? id = some name ↔ name ∈ mentioned ∧ Name.hash16 name = id
  id?_iff : ∀ id name, names.id? name = some id ↔ name ∈ mentioned ∧ Name.hash16 name = id
  mem_ids : ∀ id, id ∈ ids ↔ ∃ name, names.name? id = some name

/-- An id in a record stands for an optional name: the id that means none for no name, and else one
of the table under which the name is found. -/
structure Coded (ids : Array UInt16) (names : NameMap) (name : Option String) (id : UInt16) :
    Prop where
  eq_noId_iff : id = Name.noId ↔ name = none
  mem_ids : id ≠ Name.noId → id ∈ ids
  name? : id ≠ Name.noId → names.name? id = name

/-- A table of names that are told apart makes a glossary. -/
theorem NameTable.Tells.glossary {kind : NameKind} {mentions : List Mention} {table : NameTable}
    (tells : table.Tells kind mentions) (clashless : Clashless mentions) :
    Glossary (kind.among mentions) table.ids table.toMap := by
  have listed : table.ids.toList = (kind.among mentions).eraseDups.map Name.hash16 := by
    rw [NameTable.ids, Array.toList_map, tells]
  have distinct : (table.names.toList.map Name.hash16).Nodup := by
    rw [tells]
    refine List.Nodup.map_on (fun first one second other same => ?_) (nodup_eraseDups _)
    exact clashless kind first second (NameKind.mem_among.1 (List.mem_eraseDups.1 one))
      (NameKind.mem_among.1 (List.mem_eraseDups.1 other)) same
  have entry (id : UInt16) (name : String) : (id, name) ∈ table.toMap.entries ↔
      name ∈ kind.among mentions ∧ Name.hash16 name = id := by
    have apart : ((table.names.toList.map fun name => (Name.hash16 name, name)).map
        Prod.fst).Nodup := by
      rw [List.map_map]
      exact distinct
    rw [NameTable.toMap, NameMap.mem_ofList apart, List.mem_map]
    constructor
    · rintro ⟨other, known, same⟩
      obtain ⟨rfl, rfl⟩ := Prod.mk.inj same
      rw [tells] at known
      exact ⟨List.mem_eraseDups.1 known, rfl⟩
    · rintro ⟨known, rfl⟩
      refine ⟨name, ?_, rfl⟩
      rw [tells]
      exact List.mem_eraseDups.2 known
  refine ⟨listed, ?_, fun id name => NameMap.name?_eq_some_iff.trans (entry id name),
    fun id name => (NameMap.id?_eq_some_iff fun other one same => ?_).trans (entry id name),
    fun id => ?_⟩
  · rw [NameTable.ids, Array.toList_map]
    exact distinct
  · exact ((entry other name).1 one).2.symm.trans ((entry id name).1 same).2
  · simp only [NameMap.name?_eq_some_iff, entry, ← Array.mem_toList_iff, listed, List.mem_map,
      List.mem_eraseDups]

/-- The ids of names that were mentioned stand for them. -/
theorem Glossary.coded {mentioned : List String} {ids : Array UInt16} {names : NameMap}
    (glossary : Glossary mentioned ids names) {name : Option String}
    (known : ∀ given, name = some given → given ∈ mentioned) :
    Coded ids names name (Graph.idOf name) := by
  cases name with
  | none => exact ⟨iff_of_true rfl rfl, fun some => absurd rfl some, fun some => absurd rfl some⟩
  | some given =>
    have found := (glossary.name?_iff _ given).2 ⟨known given rfl, rfl⟩
    exact ⟨iff_of_false (Name.hash16_ne_noId given) nofun,
      fun _ => (glossary.mem_ids _).2 ⟨given, found⟩, fun _ => found⟩

/-- The ids in the record of a state stand for the actions that its graph gives it. -/
structure Flat.CodesState (flat : Flat) (node : StateNode) (record : Rom.StateRecord) : Prop where
  entry : Coded flat.sections.actions flat.actionNames node.entry record.entryAction
  exit : Coded flat.sections.actions flat.actionNames node.exit record.exitAction
  activity : Coded flat.sections.actions flat.actionNames node.activity record.activityAction
  timer : Coded flat.sections.actions flat.actionNames (node.timer.bind TimerSpec.action)
    record.timerAction

/-- The ids in the record of a transition stand for the guard and the action that its graph gives
it. -/
structure Flat.CodesTransition (flat : Flat) (node : TransitionNode)
    (record : Rom.TransitionRecord) : Prop where
  guard : Coded flat.sections.guards flat.guardNames node.guard record.guard
  action : Coded flat.sections.actions flat.actionNames node.action record.action

namespace Graph

variable {graph : Graph}

/-- The tables of a graph without a clash: ids and names of what was mentioned, and ids in the
records for what the graph names there. -/
structure Vocabulary (graph : Graph) (flat : Flat) : Prop where
  actions : Glossary (NameKind.action.among graph.mentions) flat.sections.actions flat.actionNames
  guards : Glossary (NameKind.guard.among graph.mentions) flat.sections.guards flat.guardNames
  states : List.Forall₂ (fun id => flat.CodesState (graph.state id)) graph.order.toList
    flat.sections.states.toList
  transitions : List.Forall₂ (fun id => flat.CodesTransition (graph.transition id))
    (graph.order.toList.flatMap graph.localTransitions) flat.sections.transitions.toList
  globals : List.Forall₂ (fun id => flat.CodesTransition (graph.transition id))
    (graph.byPriority graph.globals) flat.sections.globals.toList

theorem mem_mention {kind : NameKind} {name : Option String} {given : String}
    (named : name = some given) : ⟨kind, given⟩ ∈ kind.mention name := by
  subst named
  exact List.mem_singleton.2 rfl

theorem forall₂_recordsFrom {Codes : StateId → Rom.StateRecord → Prop} {ids : List StateId}
    (each : ∀ id ∈ ids, ∀ transitions regions, Codes id (graph.stateRecord id transitions regions))
    (transitions regions : Nat) :
    List.Forall₂ Codes ids (graph.recordsFrom ids transitions regions) := by
  induction ids generalizing transitions regions with
  | nil => exact .nil
  | cons id rest ih =>
    exact .cons (each id (List.mem_cons_self ..) ..)
      (ih (fun other later => each other (List.mem_cons_of_mem _ later)) ..)

/-- Tables of what was mentioned code the records. -/
theorem vocabulary_of_tells {actions guards : NameTable} (clashless : Clashless graph.mentions)
    (tells : actions.Tells .action graph.mentions)
    (tellsToo : guards.Tells .guard graph.mentions) :
    graph.Vocabulary {
      sections := graph.sections actions guards
      actionNames := actions.toMap
      guardNames := guards.toMap } := by
  have glossary := tells.glossary clashless
  have glossaryToo := tellsToo.glossary clashless
  have transition {id : TransitionId}
      (mentioned : ∀ mention ∈ graph.transitionMentions id, mention ∈ graph.mentions) :
      Flat.CodesTransition ⟨graph.sections actions guards, actions.toMap, guards.toMap⟩
        (graph.transition id) (graph.transitionRecord id) :=
    ⟨glossaryToo.coded fun given named => NameKind.mem_among.2
        (mentioned _ (List.mem_append_left _ (mem_mention named))),
      glossary.coded fun given named => NameKind.mem_among.2
        (mentioned _ (List.mem_append_right _ (mem_mention named)))⟩
  refine ⟨glossary, glossaryToo, ?_, ?_, ?_⟩
  · show List.Forall₂ _ _ graph.stateRecords.toList
    rw [toList_stateRecords]
    refine forall₂_recordsFrom (fun id inOrder transitions regions => ?_) 0 0
    have asked {name : Option String} {given : String} (named : name = some given)
        (listed : ∀ mention ∈ NameKind.action.mention name, mention ∈ graph.stateMentions id) :
        given ∈ NameKind.action.among graph.mentions :=
      NameKind.mem_among.2 (List.mem_append_left _
        (List.mem_flatMap.2 ⟨id, inOrder, listed _ (mem_mention named)⟩))
    constructor
    all_goals
      refine glossary.coded fun given named => asked named fun mention listed => ?_
      simp only [stateMentions, List.mem_append, listed, true_or, or_true]
  · show List.Forall₂ _ _ (List.map graph.transitionRecord _)
    rw [List.forall₂_map_right_iff, List.forall₂_same]
    intro id listed
    obtain ⟨state, inOrder, inRun⟩ := List.mem_flatMap.1 listed
    exact transition fun mention known => List.mem_append_left _ (List.mem_flatMap.2
      ⟨state, inOrder, List.mem_append_right _ (List.mem_flatMap.2 ⟨id, inRun, known⟩)⟩)
  · show List.Forall₂ _ _ (List.map graph.transitionRecord _)
    rw [List.forall₂_map_right_iff, List.forall₂_same]
    intro id listed
    exact transition fun mention known => List.mem_append_right _ (List.mem_flatMap.2
      ⟨id, listed, known⟩)

/-- A ready graph is flattened with a vocabulary of what it mentions, unless this clashes. -/
theorem Ready.flatten_mentions (ready : graph.Ready) :
    (∃ collision, graph.flatten = .ok (.error collision) ∧
        FirstClash graph.mentions collision) ∨
      ∃ flat, graph.flatten = .ok (.ok flat) ∧ Clashless graph.mentions ∧
        graph.Vocabulary flat := by
  have nothing : Clashless [] := nofun
  have actionsTell : NameTable.empty.Tells .action [] := rfl
  have guardsTell : NameTable.empty.Tells .guard [] := rfl
  have satisfied :=
    satisfy_tells (fun id => ready.placed_of_mem_needs) nothing actionsTell guardsTell
  rw [List.nil_append, mentions_needs] at satisfied
  rcases satisfied with ⟨collision, found, clash⟩ | ⟨actions, guards, found, free, tells, tellsToo⟩
  · refine .inl ⟨collision, ?_, clash⟩
    rw [flatten, found]
    rfl
  · refine .inr ⟨_, ?_, free, vocabulary_of_tells free tells tellsToo⟩
    rw [flatten, found]
    rfl

/-- A drawn graph without errors whose names are told apart compiles. -/
theorem Drawn.exists_compiled_of_clashless (drawn : Drawn graph)
    (clean : graph.layOut.findings.hasErrors = false)
    (clashless : Clashless graph.layOut.mentions) :
    ∃ compiled, graph.compile = .ok (.ok compiled) := by
  have ready := drawn.ready (accepted_iff.2 clean)
  rcases ready.compileLaidOut_eq with ⟨collision, collided, -⟩ | ⟨compiled, -, -, done, -⟩
  · rcases ready.flatten_mentions with ⟨_, -, clash⟩ | ⟨flat, found, -⟩
    · exact absurd clashless clash.not_clashless
    · cases collided.symm.trans found
  · exact ⟨compiled, done⟩

/-- A drawn graph without errors is not flattened exactly when two names that it mentions as actions
or two that it mentions as guards have one id, and then the clash is the first one in the order in
which the tables are written. Else its tables and name maps hold what it mentions, and the ids in
its records stand for that. -/
theorem flatten_vocabulary (drawn : Drawn graph)
    (clean : graph.layOut.findings.hasErrors = false) :
    ((∃ collision, graph.layOut.flatten = .ok (.error collision)) ↔
        ∃ kind first second, ⟨kind, first⟩ ∈ graph.layOut.mentions ∧
          ⟨kind, second⟩ ∈ graph.layOut.mentions ∧ first ≠ second ∧
          Name.hash16 first = Name.hash16 second) ∧
      (∀ collision, graph.layOut.flatten = .ok (.error collision) ↔
        FirstClash graph.layOut.mentions collision) ∧
      (Clashless graph.layOut.mentions →
        ∃ flat, graph.layOut.flatten = .ok (.ok flat) ∧ graph.layOut.Vocabulary flat) := by
  have ready := drawn.ready (accepted_iff.2 clean)
  have clashes : ¬ Clashless graph.layOut.mentions ↔
      ∃ kind first second, ⟨kind, first⟩ ∈ graph.layOut.mentions ∧
        ⟨kind, second⟩ ∈ graph.layOut.mentions ∧ first ≠ second ∧
        Name.hash16 first = Name.hash16 second := by
    simp only [Clashless, not_forall]
    exact exists₃_congr fun kind first second =>
      ⟨fun ⟨one, other, same, differ⟩ => ⟨one, other, differ, same⟩,
        fun ⟨one, other, differ, same⟩ => ⟨one, other, same, differ⟩⟩
  rw [← clashes]
  rcases ready.flatten_mentions with ⟨collision, found, clash⟩ | ⟨flat, found, free, vocabulary⟩
  · refine ⟨iff_of_true ⟨collision, found⟩ clash.not_clashless, fun other => ?_,
      fun free => absurd free clash.not_clashless⟩
    rw [found]
    constructor
    · intro same
      cases same
      exact clash
    · intro otherClash
      rw [clash.unique otherClash]
  · have noClash : ∀ collision, graph.layOut.flatten ≠ .ok (.error collision) := by
      intro collision same
      rw [found] at same
      cases same
    exact ⟨iff_of_false (fun ⟨collision, same⟩ => noClash collision same) (absurd free),
      fun collision => iff_of_false (noClash collision) fun clash => clash.not_clashless free,
      fun _ => ⟨flat, found, vocabulary⟩⟩

/-- A machine whose one state runs an action when it is entered and another with the same id when it
is left. -/
def rivals : Graph :=
  ((lone.modifyState 1 fun node =>
      { node with entry := some "Action378", exit := some "Action1920" }).registerAction
    "Action378").registerAction "Action1920"

theorem drawn_rivals : Drawn rivals :=
  .registerAction "Action1920" (.registerAction "Action378"
    (.configure 1 drawn_lone (fun _ => rfl) (fun _ => rfl) fun _ => rfl))

theorem mentions_rivals :
    rivals.layOut.mentions = [⟨.action, "Action378"⟩, ⟨.action, "Action1920"⟩] := by
  decide +kernel

theorem mentions_actor : actor.layOut.mentions = [⟨.action, "Action378"⟩] := by
  decide +kernel

theorem stateFindings_rivals : rivals.layOut.stateFindings 1 = [] := by
  have known : "Action378" ∈ rivals.layOut.actions.names :=
    mem_names_of_registerAction (mem_names_registerAction _ _) _
  have knownToo : "Action1920" ∈ rivals.layOut.actions.names := mem_names_registerAction _ _
  have enters : (rivals.layOut.state 1).entry = some "Action378" := by decide +kernel
  have leaves : (rivals.layOut.state 1).exit = some "Action1920" := by decide +kernel
  unfold stateFindings
  simp only [enters, leaves]
  rw [List.flatMap_cons, actionFindings_eq_nil known, List.flatMap_cons,
    actionFindings_eq_nil knownToo]
  decide +kernel

theorem clean_rivals : rivals.layOut.findings.hasErrors = false := by
  have order : rivals.layOut.order.toList = [0, 1] := by decide +kernel
  have root : rivals.layOut.stateFindings 0 = [] := by decide +kernel
  rw [findings, order, List.flatMap_cons, List.flatMap_singleton, root, stateFindings_rivals]
  decide +kernel

theorem flatten_vocabulary_rivals :
    rivals.layOut.findings.hasErrors = false ∧
      rivals.layOut.flatten =
        .ok (.error ⟨"Action378", "Action1920", Name.hash16 "Action378"⟩) ∧
      actor.layOut.findings.hasErrors = false ∧
      ∃ flat, actor.layOut.flatten = .ok (.ok flat) ∧
        flat.sections.actions = #[Name.hash16 "Action378"] ∧
        flat.actionNames.name? (Name.hash16 "Action378") = some "Action378" := by
  obtain ⟨-, clashes, -⟩ := flatten_vocabulary drawn_rivals clean_rivals
  obtain ⟨-, -, tells⟩ := flatten_vocabulary drawn_actor clean_actor
  have same : Name.hash16 "Action1920" = Name.hash16 "Action378" := by decide +kernel
  have alone : Clashless [⟨.action, "Action378"⟩] := by
    intro kind first second one other _
    rw [List.mem_singleton, Mention.mk.injEq] at one other
    exact one.2.trans other.2.symm
  rw [mentions_actor] at tells
  obtain ⟨flat, flattened, vocabulary⟩ := tells alone
  have glossary := vocabulary.actions
  rw [mentions_actor] at glossary
  refine ⟨clean_rivals, (clashes _).2 ?_, clean_actor, flat, flattened,
    Array.toList_inj.1 (glossary.ids_eq.trans (by rfl)),
    (glossary.name?_iff _ _).2 ⟨List.mem_singleton.2 rfl, rfl⟩⟩
  rw [mentions_rivals]
  exact ⟨.action, [⟨.action, "Action378"⟩], [], rfl, alone, List.mem_singleton.2 rfl, by decide,
    rfl, same⟩

end Graph

end Chart

end Statechart
