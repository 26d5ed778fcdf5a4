/-
# Computations that end

`Ends` says of a computation that it comes to an end, either with a value of which something
holds or with one of the faults that are allowed. `Returns` is the case in which none is
allowed. The rules for steps and loops are the same.
-/

import Statechart.Proofs.Returns

namespace Statechart

/-- The computation ends with a value of which `holds`, or with a fault that is allowed. -/
def Ends {Value : Type} (allowed : Fault → Prop) (run : Except Fault Value)
    (holds : Value → Prop) : Prop :=
  Returns run holds ∨ ∃ fault, run = .error fault ∧ allowed fault

/-- A computation that returns ends, whatever faults are allowed. -/
theorem Returns.ends {Value : Type} {run : Except Fault Value} {holds : Value → Prop}
    (returns : Returns run holds) (allowed : Fault → Prop) : Ends allowed run holds :=
  .inl returns

namespace Ends

variable {Value Next : Type} {allowed : Fault → Prop} {run : Except Fault Value}
  {holds : Value → Prop}

theorem ok {value : Value} (is : holds value) : Ends allowed (.ok value) holds :=
  .inl (.ok is)

theorem pure {value : Value} (is : holds value) : Ends allowed (Pure.pure value) holds :=
  .inl (.pure is)

theorem error {fault : Fault} (is : allowed fault) :
    Ends allowed (.error fault : Except Fault Value) holds :=
  .inr ⟨fault, rfl, is⟩

/-- Where no fault is allowed, what ends returns. -/
theorem returns (ends : Ends allowed run holds) (none : ∀ fault, ¬ allowed fault) :
    Returns run holds :=
  ends.resolve_right fun ⟨fault, _, is⟩ => none fault is

/-- What is known of the value, whether or not there might have been a fault. -/
theorem of_eq (ends : Ends allowed run holds) {value : Value} (ran : run = .ok value) :
    holds value := by
  rcases ends with ⟨_, same, is⟩ | ⟨_, same, _⟩
  · rw [ran] at same
    cases same
    exact is
  · rw [ran] at same
    cases same

/-- A fault that is not allowed is not what the computation ends with. -/
theorem ne_error (ends : Ends allowed run holds) {fault : Fault} (forbidden : ¬ allowed fault) :
    run ≠ .error fault := by
  rintro rfl
  rcases ends with ⟨_, same, _⟩ | ⟨_, same, is⟩
  · cases same
  · cases same
    exact forbidden is

/-- What holds of the value and of the fault is enough for something weaker. -/
theorem weaken (ends : Ends allowed run holds) {more : Fault → Prop} {weaker : Value → Prop}
    (tolerates : ∀ fault, allowed fault → more fault)
    (enough : ∀ value, holds value → weaker value) : Ends more run weaker := by
  rcases ends with returns | ⟨fault, same, is⟩
  · exact .inl (returns.mono enough)
  · exact .inr ⟨fault, same, tolerates fault is⟩

theorem mono (ends : Ends allowed run holds) {weaker : Value → Prop}
    (enough : ∀ value, holds value → weaker value) : Ends allowed run weaker :=
  ends.weaken (fun _ => id) enough

/-- A step and what follows it. -/
theorem bind (ends : Ends allowed run holds) {next : Value → Except Fault Next}
    {after : Next → Prop} (follows : ∀ value, holds value → Ends allowed (next value) after) :
    Ends allowed (run >>= next) after := by
  rcases ends with ⟨value, rfl, is⟩ | ⟨fault, rfl, is⟩
  · exact follows value is
  · exact .inr ⟨fault, rfl, is⟩

theorem map (ends : Ends allowed run holds) {change : Value → Next} {after : Next → Prop}
    (follows : ∀ value, holds value → after (change value)) :
    Ends allowed (run.map change) after := by
  rcases ends with returns | ⟨fault, rfl, is⟩
  · exact .inl (returns.map follows)
  · exact .inr ⟨fault, rfl, is⟩

/-- Looking up entry after entry. -/
theorem mapM {Entry : Type} {look : Entry → Except Fault Value} {entries : List Entry}
    {there : Entry → Prop}
    (ends : ∀ entry ∈ entries, Ends allowed (look entry) fun _ => there entry) :
    Ends allowed (entries.mapM look) fun _ => ∀ entry ∈ entries, there entry := by
  induction entries with
  | nil => exact .pure nofun
  | cons entry rest ih =>
    rw [List.mapM_cons]
    apply (ends entry (List.mem_cons_self ..)).bind
    intro _ first
    apply (ih fun other member => ends other (List.mem_cons_of_mem _ member)).bind
    intro _ others
    exact .pure (List.forall_mem_cons.2 ⟨first, others⟩)

/-- A loop whose step keeps an invariant on what is left to do. -/
theorem foldlM {Entry : Type} {step : Value → Entry → Except Fault Value}
    {invariant : List Entry → Value → Prop} {entries : List Entry} {start : Value}
    (keeps : ∀ entry rest value, entry ∈ entries → invariant (entry :: rest) value →
      Ends allowed (step value entry) (invariant rest))
    (begins : invariant entries start) :
    Ends allowed (entries.foldlM step start) (invariant []) := by
  induction entries generalizing start with
  | nil => exact .pure begins
  | cons entry rest ih =>
    rw [List.foldlM_cons]
    apply (keeps entry rest start (List.mem_cons_self ..) begins).bind
    intro value is
    exact ih (fun other others value member => keeps other others value
      (List.mem_cons_of_mem _ member)) is

/-- A loop whose step keeps what holds of its value. -/
theorem foldlM_keeps {Entry : Type} {step : Value → Entry → Except Fault Value}
    {entries : List Entry} {start : Value}
    (keeps : ∀ entry value, entry ∈ entries → holds value →
      Ends allowed (step value entry) holds)
    (begins : holds start) : Ends allowed (entries.foldlM step start) holds := by
  have looped : Ends allowed (entries.foldlM step start) ((fun _ : List Entry => holds) []) :=
    foldlM (fun entry _ value listed is => keeps entry value listed is) begins
  exact looped

end Ends

end Statechart
