/-
# Computations that return

`Returns` says of a computation that may end in a fault that it does not, and what holds
of its value. A chain of steps returns when each step does, given what the one before
returned; a loop returns when its step keeps an invariant.
-/

import Statechart.Fault

namespace Statechart

/-- The computation ends without fault, with a value of which `holds`. -/
def Returns {Value : Type} (run : Except Fault Value) (holds : Value → Prop) : Prop :=
  ∃ value, run = .ok value ∧ holds value

@[simp]
theorem ok_bind {Value Next : Type} (value : Value) (next : Value → Except Fault Next) :
    (Except.ok value >>= next) = next value := rfl

namespace Returns

variable {Value Next : Type} {run : Except Fault Value} {holds : Value → Prop}

theorem ok {value : Value} (is : holds value) : Returns (.ok value) holds :=
  ⟨value, rfl, is⟩

theorem pure {value : Value} (is : holds value) : Returns (Pure.pure value) holds :=
  ⟨value, rfl, is⟩

/-- What holds of the value is enough for something weaker. -/
theorem mono (returns : Returns run holds) {weaker : Value → Prop}
    (enough : ∀ value, holds value → weaker value) : Returns run weaker := by
  obtain ⟨value, same, is⟩ := returns
  exact ⟨value, same, enough value is⟩

/-- A step and what follows it. -/
theorem bind (returns : Returns run holds) {next : Value → Except Fault Next}
    {after : Next → Prop} (follows : ∀ value, holds value → Returns (next value) after) :
    Returns (run >>= next) after := by
  obtain ⟨value, rfl, is⟩ := returns
  exact follows value is

theorem map (returns : Returns run holds) {change : Value → Next} {after : Next → Prop}
    (follows : ∀ value, holds value → after (change value)) : Returns (run.map change) after := by
  obtain ⟨value, rfl, is⟩ := returns
  exact ⟨change value, rfl, follows value is⟩

/-- A loop whose step keeps an invariant on what is left to do. -/
theorem foldlM {Entry : Type} {step : Value → Entry → Except Fault Value}
    {invariant : List Entry → Value → Prop} {entries : List Entry} {start : Value}
    (keeps : ∀ entry rest value, entry ∈ entries → invariant (entry :: rest) value →
      Returns (step value entry) (invariant rest))
    (begins : invariant entries start) : Returns (entries.foldlM step start) (invariant []) := by
  induction entries generalizing start with
  | nil => exact ⟨start, rfl, begins⟩
  | cons entry rest ih =>
    rw [List.foldlM_cons]
    apply (keeps entry rest start (List.mem_cons_self ..) begins).bind
    intro value is
    exact ih (fun other others value member => keeps other others value
      (List.mem_cons_of_mem _ member)) is

/-- A loop whose step keeps what holds of its value. -/
theorem foldlM_keeps {Entry : Type} {step : Value → Entry → Except Fault Value}
    {entries : List Entry} {start : Value}
    (keeps : ∀ entry value, entry ∈ entries → holds value → Returns (step value entry) holds)
    (begins : holds start) : Returns (entries.foldlM step start) holds := by
  have looped : Returns (entries.foldlM step start) ((fun _ : List Entry => holds) []) :=
    foldlM (fun entry _ value listed is => keeps entry value listed is) begins
  exact looped

/-- Sorting out entries by a question that is always answered. -/
theorem filterM {Entry : Type} {ask : Entry → Except Fault Bool} {keep : Entry → Bool}
    {entries : List Entry} (asked : ∀ entry ∈ entries, ask entry = .ok (keep entry)) :
    entries.filterM ask = .ok (entries.filter keep) := by
  have aux (kept : List Entry) :
      entries.filterAuxM ask kept = .ok ((entries.filter keep).reverse ++ kept) := by
    induction entries generalizing kept with
    | nil => rfl
    | cons entry rest ih =>
      rw [List.filterAuxM, asked entry (List.mem_cons_self ..), ok_bind,
        ih fun other later => asked other (List.mem_cons_of_mem _ later)]
      cases answer : keep entry with
      | true => rw [List.filter_cons_of_pos answer, List.reverse_cons, List.append_assoc]; rfl
      | false => rw [List.filter_cons_of_neg (by rw [answer]; decide)]; rfl
  rw [List.filterM, aux, List.append_nil, ok_bind, List.reverse_reverse]
  rfl

end Returns

end Statechart
