/-
# Gathering

What is found by going through a list entry by entry, where most entries yield nothing or
one thing. It is what the entries yield that were kept (`flatMap_filter`), and when there
are two kinds of things to find the one kind can be gathered before the other
(`flatMap_ite_perm`).
-/

import Mathlib.Data.List.Basic
import Mathlib.Data.List.Perm.Basic

namespace Statechart

variable {Entry Finding : Type}

theorem flatMap_filter (keep : Entry → Bool) (found : Entry → List Finding)
    (entries : List Entry) :
    (entries.filter keep).flatMap found =
      entries.flatMap fun entry => if keep entry then found entry else [] := by
  induction entries with
  | nil => rfl
  | cons entry rest ih =>
    rw [List.flatMap_cons, ← ih]
    cases kept : keep entry <;> simp [kept]

theorem flatMap_ite_singleton (keep : Entry → Bool) (found : Entry → Finding)
    (entries : List Entry) :
    (entries.flatMap fun entry => if keep entry then [found entry] else []) =
      (entries.filter keep).map found := by
  rw [List.map_eq_flatMap, flatMap_filter]

/-- Two kinds of things, gathered one after the other. -/
theorem flatMap_ite_perm (one other : Entry → Prop) [DecidablePred one] [DecidablePred other]
    (first second : Entry → Finding) (entries : List Entry) :
    (entries.flatMap fun entry =>
      (if one entry then [first entry] else []) ++
        (if other entry then [second entry] else [])).Perm
      ((entries.filter one).map first ++ (entries.filter other).map second) := by
  rw [← flatMap_ite_singleton, ← flatMap_ite_singleton]
  simp only [decide_eq_true_eq]
  exact (List.flatMap_append_perm ..).symm

end Statechart
