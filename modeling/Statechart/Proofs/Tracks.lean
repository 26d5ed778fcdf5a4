/-
# Computations that follow one another

`Tracks` says of two computations that the second one keeps up with the first one: where the
first one has a value that is clean, the second one has a value that goes with it. Nothing is
said of a first computation whose value is not clean. A step that was not clean must therefore
show in the end; a chain of steps that track each other does so if none of them wipes out what
another one has left behind.
-/

import Statechart.Proofs.Yields

namespace Statechart

/-- A clean value of the first computation has a partner among the values of the second one. -/
structure Tracks {Value Answer : Type} (clean : Value → Prop) (pairs : Value → Answer → Prop)
    (run : Except Fault Value) (other : Except Fault Answer) : Prop where
  of_eq : ∀ value, run = .ok value → clean value → ∃ answer, other = .ok answer ∧ pairs value answer

namespace Tracks

variable {Value Answer Next Reply : Type} {clean : Value → Prop} {pairs : Value → Answer → Prop}
  {run : Except Fault Value} {other : Except Fault Answer}

theorem ok {value : Value} {answer : Answer} (is : clean value → pairs value answer) :
    Tracks clean pairs (.ok value) (.ok answer) := by
  constructor
  intro _ same unspoilt
  cases same
  exact ⟨answer, rfl, is unspoilt⟩

theorem pure {value : Value} {answer : Answer} (is : clean value → pairs value answer) :
    Tracks clean pairs (Pure.pure value) (Pure.pure answer) :=
  ok is

theorem error {fault : Fault} : Tracks clean pairs (.error fault) other := by
  constructor
  intro _ same
  cases same

/-- What holds of a pair is enough for something weaker. -/
theorem mono (tracks : Tracks clean pairs run other) {cleaner : Value → Prop}
    {weaker : Value → Answer → Prop} (cleans : ∀ value, cleaner value → clean value)
    (enough : ∀ value answer, pairs value answer → weaker value answer) :
    Tracks cleaner weaker run other := by
  constructor
  intro value same unspoilt
  obtain ⟨answer, ran, is⟩ := tracks.of_eq value same (cleans value unspoilt)
  exact ⟨answer, ran, enough value answer is⟩

/-- All that is known of a pair. -/
theorem known (tracks : Tracks clean pairs run other) :
    Tracks clean (fun value answer => run = .ok value ∧ other = .ok answer ∧ pairs value answer)
      run other := by
  constructor
  intro value same unspoilt
  obtain ⟨answer, ran, is⟩ := tracks.of_eq value same unspoilt
  exact ⟨answer, ran, same, ran, is⟩

section

variable {cleanNext : Next → Prop} {pairsNext : Next → Reply → Prop}
  {next : Value → Except Fault Next} {reply : Answer → Except Fault Reply}

/-- A step and what follows it, where what follows does not clean up. -/
theorem bind (tracks : Tracks clean pairs run other)
    (honest : ∀ value, Yields (next value) fun final => cleanNext final → clean value)
    (follows : ∀ value answer, pairs value answer →
      Tracks cleanNext pairsNext (next value) (reply answer)) :
    Tracks cleanNext pairsNext (run >>= next) (other >>= reply) := by
  constructor
  intro final same unspoilt
  obtain ⟨value, ran, goes⟩ := Yields.exists_of_bind same
  obtain ⟨answer, rfl, is⟩ := tracks.of_eq value ran ((honest value).of_eq final goes unspoilt)
  exact (follows value answer is).of_eq final goes unspoilt

/-- A step that is always clean, and what follows it. -/
theorem bind_clean (tracks : Tracks (fun _ => True) pairs run other)
    (follows : ∀ value answer, pairs value answer →
      Tracks cleanNext pairsNext (next value) (reply answer)) :
    Tracks cleanNext pairsNext (run >>= next) (other >>= reply) :=
  tracks.bind (fun _ => (Yields.self _).mono fun _ _ _ => trivial) follows

end

/-- A step that both computations take alike, and what follows it. -/
theorem read {run other : Except Fault Value} {cleanNext : Next → Prop}
    {pairsNext : Next → Reply → Prop} {next : Value → Except Fault Next}
    {reply : Value → Except Fault Reply} (same : Yields run fun value => other = .ok value)
    (follows : ∀ value, run = .ok value →
      Tracks cleanNext pairsNext (next value) (reply value)) :
    Tracks cleanNext pairsNext (run >>= next) (other >>= reply) := by
  cases ran : run with
  | error fault => exact .error
  | ok value =>
    rw [same.of_eq value ran]
    exact follows value ran

theorem map (tracks : Tracks clean pairs run other) {change : Value → Next}
    {changeOther : Answer → Reply} {cleanNext : Next → Prop} {pairsNext : Next → Reply → Prop}
    (honest : ∀ value, cleanNext (change value) → clean value)
    (follows : ∀ value answer, pairs value answer →
      pairsNext (change value) (changeOther answer)) :
    Tracks cleanNext pairsNext (run.map change) (other.map changeOther) := by
  constructor
  intro final same unspoilt
  cases ran : run with
  | error fault =>
    rw [ran] at same
    cases same
  | ok value =>
    rw [ran] at same
    cases same
    obtain ⟨answer, rfl, is⟩ := tracks.of_eq value ran (honest value unspoilt)
    exact ⟨changeOther answer, rfl, follows value answer is⟩

/-- Loops whose turns track each other. -/
theorem foldlM {Entry : Type} {step : Value → Entry → Except Fault Value}
    {stepOther : Answer → Entry → Except Fault Answer}
    (honest : ∀ value entry, Yields (step value entry) fun after => clean after → clean value)
    (each : ∀ value answer entry, pairs value answer →
      Tracks clean pairs (step value entry) (stepOther answer entry))
    (entries : List Entry) {start : Value} {startOther : Answer} (begins : pairs start startOther) :
    Tracks clean pairs (entries.foldlM step start) (entries.foldlM stepOther startOther) := by
  induction entries generalizing start startOther with
  | nil => exact .pure fun _ => begins
  | cons entry rest ih =>
    rw [List.foldlM_cons, List.foldlM_cons]
    refine (each start startOther entry begins).bind (fun value => ?_) fun value answer => ih
    let unspoilt (after : Value) : Prop := clean after → clean value
    have looped : Yields (rest.foldlM step value) unspoilt :=
      .foldlM_keeps (fun other middle _ kept =>
        (honest middle other).mono fun _ earlier last => kept (earlier last)) id
    exact looped

end Tracks

end Statechart
