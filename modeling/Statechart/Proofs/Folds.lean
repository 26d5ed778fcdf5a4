/-
# Folds

What is known after a fold without knowing every step of it. Something that some entry
brings about and that no entry undoes holds in the end (`foldl_of_mem`); running maxima are
of this kind. A table that is filled entry by entry holds, at each place that was written,
the value of an entry for that place (`exists_getD_foldl`). A list without its repetitions is
filled at its end (`eraseDups_concat`).
-/

import Mathlib.Data.List.Induction

namespace Statechart

/-- What one entry brings about and no entry undoes. -/
theorem foldl_of_mem {Value Entry : Type} {step : Value → Entry → Value}
    (holds : Value → Prop) {entry : Entry} {entries : List Entry} (listed : entry ∈ entries)
    (reaches : ∀ value, holds (step value entry))
    (keeps : ∀ value other, holds value → holds (step value other)) (start : Value) :
    holds (entries.foldl step start) := by
  obtain ⟨before, after, rfl⟩ := List.append_of_mem listed
  rw [List.foldl_append, List.foldl_cons]
  generalize reached : step (before.foldl step start) entry = value
  have is : holds value := reached ▸ reaches _
  clear reached listed
  induction after generalizing value with
  | nil => exact is
  | cons other rest ih => exact ih _ (keeps value other is)

/-! ### Tables filled entry by entry -/

theorem getD_set {Value : Type} (table : Array Value) (place other : Nat) (value none : Value) :
    (table.set! place value).getD other none =
      if place = other ∧ place < table.size then value else table.getD other none := by
  simp only [Array.getD_eq_getD_getElem?, Array.set!_eq_setIfInBounds,
    Array.getElem?_setIfInBounds]
  by_cases same : place = other
  · subst same
    by_cases inside : place < table.size <;> simp [inside]
  · simp [same]

section Filling

variable {Entry Value : Type} (place : Entry → Nat) (value : Entry → Value)

theorem size_foldl_set (entries : List Entry) (table : Array (Option Value)) :
    (entries.foldl (fun table entry => table.set! (place entry) (some (value entry)))
      table).size = table.size := by
  induction entries generalizing table with
  | nil => rfl
  | cons entry rest ih => rw [List.foldl_cons, ih, Array.set!_eq_setIfInBounds,
      Array.size_setIfInBounds]

/-- Where an entry belongs the table holds the value of one that belongs there. -/
theorem exists_getD_foldl {entries : List Entry} {id : Nat} (table : Array (Option Value))
    (inside : id < table.size) (listed : ∃ entry ∈ entries, place entry = id) :
    ∃ entry ∈ entries, place entry = id ∧
      (entries.foldl (fun table entry => table.set! (place entry) (some (value entry)))
        table).getD id none = some (value entry) := by
  induction entries using List.reverseRecOn with
  | nil =>
    obtain ⟨entry, member, -⟩ := listed
    cases member
  | append_singleton rest last ih =>
    rw [List.foldl_append, List.foldl_cons, List.foldl_nil, getD_set]
    by_cases own : place last = id
    · refine ⟨last, List.mem_append_right _ (List.mem_singleton_self _), own, ?_⟩
      rw [if_pos]
      exact ⟨own, by rw [size_foldl_set, own]; exact inside⟩
    · have earlier : ∃ entry ∈ rest, place entry = id := by
        obtain ⟨entry, member, same⟩ := listed
        rcases List.mem_append.1 member with early | late
        · exact ⟨entry, early, same⟩
        · obtain rfl := List.mem_singleton.1 late
          exact absurd same own
      obtain ⟨entry, member, same, found⟩ := ih earlier
      refine ⟨entry, List.mem_append_left _ member, same, ?_⟩
      rw [if_neg fun both => own both.1, found]

/-- Where no entry belongs the table is as it was. -/
theorem getD_foldl_of_forall_ne {entries : List Entry} {id : Nat}
    (elsewhere : ∀ entry ∈ entries, place entry ≠ id) (table : Array (Option Value)) :
    (entries.foldl (fun table entry => table.set! (place entry) (some (value entry)))
      table).getD id none = table.getD id none := by
  induction entries generalizing table with
  | nil => rfl
  | cons entry rest ih =>
    rw [List.foldl_cons, ih fun other later => elsewhere other (List.mem_cons_of_mem _ later),
      getD_set, if_neg fun both => elsewhere entry (List.mem_cons_self ..) both.1]

end Filling

/-! ### Lists without their repetitions -/

section Repetitions

variable {Entry : Type} [DecidableEq Entry]

/-- A list without its repetitions goes on with what is new. -/
theorem eraseDups_concat (entries : List Entry) (entry : Entry) :
    (entries ++ [entry]).eraseDups =
      if entry ∈ entries then entries.eraseDups else entries.eraseDups ++ [entry] := by
  rw [List.eraseDups_append, List.removeAll]
  by_cases listed : entry ∈ entries <;> simp [listed, List.eraseDups_cons]

theorem nodup_eraseDups (entries : List Entry) : entries.eraseDups.Nodup := by
  induction entries using List.reverseRecOn with
  | nil => exact List.nodup_nil
  | append_singleton entries entry ih =>
    rw [eraseDups_concat]
    split
    · exact ih
    · next fresh =>
      refine List.nodup_append.2
        ⟨ih, List.pairwise_singleton _ _, fun other listed last inEnd => ?_⟩
      rw [List.mem_singleton.1 inEnd]
      exact fun same => fresh (same ▸ List.mem_eraseDups.1 listed)

theorem eraseDups_of_nodup {entries : List Entry} (apart : entries.Nodup) :
    entries.eraseDups = entries := by
  induction entries using List.reverseRecOn with
  | nil => rfl
  | append_singleton entries entry ih =>
    obtain ⟨earlier, -, differ⟩ := List.nodup_append.1 apart
    rw [eraseDups_concat, if_neg fun listed => differ entry listed entry
      (List.mem_singleton.2 rfl) rfl, ih earlier]

end Repetitions

end Statechart
