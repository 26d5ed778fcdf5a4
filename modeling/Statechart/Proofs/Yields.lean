/-
# Computations that yield

`Yields` says what holds of a computation's value, should there be one; that there is one
is the business of `Returns`. Most of what a kernel does can be told without it: whoever has
read a record knows that there is a state, so nothing has to be assumed for reading it. The
two are brought together at the end (`Returns.and`).
-/

import Statechart.Proofs.Rom.Tree

namespace Statechart

/-- Of the value of a computation, if it has one, `holds`. -/
structure Yields {Value : Type} (run : Except Fault Value) (holds : Value → Prop) : Prop where
  of_eq : ∀ value, run = .ok value → holds value

namespace Yields

variable {Value Next : Type} {run : Except Fault Value} {holds : Value → Prop}

theorem ok {value : Value} (is : holds value) : Yields (.ok value) holds := by
  constructor
  intro _ same
  cases same
  exact is

theorem pure {value : Value} (is : holds value) : Yields (Pure.pure value) holds :=
  ok is

theorem error {fault : Fault} : Yields (.error fault) holds := by
  constructor
  intro _ same
  cases same

/-- What holds of the value is enough for something weaker. -/
theorem mono (yields : Yields run holds) {weaker : Value → Prop}
    (enough : ∀ value, holds value → weaker value) : Yields run weaker :=
  ⟨fun value same => enough value (yields.of_eq value same)⟩

/-- A step, and what follows it. -/
theorem bind (yields : Yields run holds) {next : Value → Except Fault Next}
    {after : Next → Prop} (follows : ∀ value, holds value → Yields (next value) after) :
    Yields (run >>= next) after := by
  constructor
  intro final same
  cases ran : run with
  | error fault =>
    rw [ran] at same
    cases same
  | ok value =>
    rw [ran] at same
    exact (follows value (yields.of_eq value ran)).of_eq final same

theorem map (yields : Yields run holds) {change : Value → Next} {after : Next → Prop}
    (follows : ∀ value, holds value → after (change value)) : Yields (run.map change) after := by
  constructor
  intro final same
  cases ran : run with
  | error fault =>
    rw [ran] at same
    cases same
  | ok value =>
    rw [ran] at same
    cases same
    exact follows value (yields.of_eq value ran)

/-- A computation with nothing known of its value but where it comes from. -/
theorem self (run : Except Fault Value) : Yields run fun value => run = .ok value :=
  ⟨fun _ => id⟩

/-- What a chain of two steps returns, the second one returns for what the first one does. -/
theorem exists_of_bind {next : Value → Except Fault Next} {final : Next}
    (ran : (run >>= next) = .ok final) : ∃ value, run = .ok value ∧ next value = .ok final := by
  cases run with
  | error fault => cases ran
  | ok value => exact ⟨value, rfl, ran⟩

/-- A loop that returns has returned from each of its turns. -/
theorem exists_of_foldlM {Entry : Type} {step : Value → Entry → Except Fault Value}
    {earlier later : List Entry} {entry : Entry} {start middle final : Value}
    (ran : (earlier ++ entry :: later).foldlM step start = .ok final)
    (reached : earlier.foldlM step start = .ok middle) :
    ∃ next, step middle entry = .ok next ∧ later.foldlM step next = .ok final := by
  rw [List.foldlM_append, reached, ok_bind, List.foldlM_cons] at ran
  exact exists_of_bind ran

/-- All that is known of a value. -/
theorem and (first : Yields run holds) {also : Value → Prop} (second : Yields run also) :
    Yields run fun value => holds value ∧ also value :=
  ⟨fun value same => ⟨first.of_eq value same, second.of_eq value same⟩⟩

/-- A loop whose step keeps an invariant on what is left to do. -/
theorem foldlM {Entry : Type} {step : Value → Entry → Except Fault Value}
    {invariant : List Entry → Value → Prop} {entries : List Entry} {start : Value}
    (keeps : ∀ entry rest value, entry ∈ entries → invariant (entry :: rest) value →
      Yields (step value entry) (invariant rest))
    (begins : invariant entries start) : Yields (entries.foldlM step start) (invariant []) := by
  induction entries generalizing start with
  | nil => exact ok begins
  | cons entry rest ih =>
    rw [List.foldlM_cons]
    apply (keeps entry rest start (List.mem_cons_self ..) begins).bind
    intro value is
    exact ih (fun other others value member => keeps other others value
      (List.mem_cons_of_mem _ member)) is

/-- A loop whose step keeps what holds of its value. -/
theorem foldlM_keeps {Entry : Type} {step : Value → Entry → Except Fault Value}
    {entries : List Entry} {start : Value}
    (keeps : ∀ entry value, entry ∈ entries → holds value → Yields (step value entry) holds)
    (begins : holds start) : Yields (entries.foldlM step start) holds := by
  have looped : Yields (entries.foldlM step start) ((fun _ : List Entry => holds) []) :=
    foldlM (fun entry _ value listed is => keeps entry value listed is) begins
  exact looped

/-- No more entries are left than were sorted out. -/
theorem length_filterM {Entry : Type} (ask : Entry → Except Fault Bool) (entries : List Entry) :
    Yields (entries.filterM ask) fun kept => kept.length ≤ entries.length := by
  have sorting (kept : List Entry) : Yields (entries.filterAuxM ask kept) fun all =>
      all.length ≤ entries.length + kept.length := by
    induction entries generalizing kept with
    | nil => exact .pure (Nat.le_add_left ..)
    | cons entry rest ih =>
      rw [List.filterAuxM]
      apply (Yields.self _).bind
      intro answer _
      refine (ih _).mono fun all few => Nat.le_trans few ?_
      cases answer <;> simp only [cond_true, cond_false, List.length_cons] <;> omega
  exact (sorting []).bind fun all few => .pure (by simpa using few)

/-! ### Computations that do the same -/

/-- A step that both computations begin with, and two ways on that yield the same. -/
theorem bind_agrees {next other : Value → Except Fault Next}
    (agrees : ∀ value, run = .ok value →
      Yields (next value) fun final => other value = .ok final) :
    Yields (run >>= next) fun final => (run >>= other) = .ok final := by
  cases ran : run with
  | error fault => exact .error
  | ok value => exact agrees value ran

/-- Loops whose steps yield the same. -/
theorem foldlM_agrees {Entry : Type} {step other : Value → Entry → Except Fault Value}
    (agrees : ∀ value entry, Yields (step value entry) fun next => other value entry = .ok next)
    (entries : List Entry) (start : Value) :
    Yields (entries.foldlM step start) fun final => entries.foldlM other start = .ok final := by
  induction entries generalizing start with
  | nil => exact .ok rfl
  | cons entry rest ih =>
    rw [List.foldlM_cons, List.foldlM_cons]
    apply (agrees start entry).bind
    intro next same
    rw [same]
    exact ih next

end Yields

namespace Returns

variable {Value : Type} {run : Except Fault Value} {holds : Value → Prop}

theorem yields (returns : Returns run holds) : Yields run holds := by
  obtain ⟨value, rfl, is⟩ := returns
  exact .ok is

/-- A computation that returns has all that it yields. -/
theorem and (returns : Returns run holds) {also : Value → Prop} (yields : Yields run also) :
    Returns run fun value => holds value ∧ also value := by
  obtain ⟨value, rfl, is⟩ := returns
  exact .ok ⟨is, yields.of_eq value rfl⟩

end Returns

namespace Rom.Definition

/-- Whoever has read a record knows that there is a state. -/
theorem state_yields (definition : Definition) (state : UInt16) :
    Yields (definition.state state) fun record =>
      definition.sections.Has state ∧ record = definition.sections.record state := by
  by_cases has : definition.sections.Has state
  · rw [state_eq has]
    exact .ok ⟨has, rfl⟩
  · unfold Definition.state entry
    rw [Array.getElem?_eq_none (Nat.le_of_not_lt has)]
    exact .error

end Rom.Definition

end Statechart
