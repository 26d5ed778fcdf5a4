/-
# Trace rings

A ring keeps the newest records of a trace in a fixed number of places. While there
are places left, records are added behind each other; from then on each record takes
the place of the oldest one. Records whose detail the ring's level does not include
are passed over, and every record is stamped with the current tick.

`Ring.records` is the view on a ring: the records it keeps, oldest first. The main
statements say what each operation does to that view.
-/

import Statechart.Bytes.Room
import Statechart.Trace.Record

namespace Statechart.Trace

/-- The newest records of a trace. -/
structure Ring where
  /-- How many records are kept at most. -/
  capacity : Nat
  /-- The kept records, in the order of their places. -/
  places : Array Record
  /-- The place of the oldest record. -/
  oldest : Nat
  level : Level
  /-- The low half of the current tick's number. -/
  tick : UInt16
  /-- How many records were written since the ring was last emptied. -/
  written : Nat
  size_places_le : places.size ≤ capacity
  oldest_lt : oldest < capacity
  /-- As long as there are places left, the first record is the oldest. -/
  oldest_eq_zero : places.size < capacity → oldest = 0

namespace Ring

/-- An empty ring with room for `capacity` records, one at least. -/
def ofCapacity (capacity : Nat) (level : Level) : Ring where
  capacity := max capacity 1
  places := #[]
  oldest := 0
  level := level
  tick := 0
  written := 0
  size_places_le := Nat.zero_le _
  oldest_lt := by omega
  oldest_eq_zero := fun _ => rfl

/-- An empty ring that has its places in memory. -/
def reserve (capacity : Nat) (level : Level) : Except Fault Ring := do
  return ofCapacity (← Room.reserve (max capacity 1) Record.size) level

/-- How many records are kept. -/
def size (ring : Ring) : Nat :=
  ring.places.size

/-- Whether no record is kept. -/
def isEmpty (ring : Ring) : Bool :=
  ring.size == 0

/-- How many records have lost their place to a newer one. -/
def overwritten (ring : Ring) : Nat :=
  ring.written - ring.size

/-- The kept records, oldest first. -/
def records (ring : Ring) : List Record :=
  ring.places.toList.drop ring.oldest ++ ring.places.toList.take ring.oldest

/-- Show another level of detail from now on. -/
def withLevel (ring : Ring) (level : Level) : Ring :=
  { ring with level }

/-- Stamp the following records with the tick of this number. -/
def withTick (ring : Ring) (tick : UInt32) : Ring :=
  { ring with tick := tick.toUInt16 }

/-- Forget every record. -/
def clear (ring : Ring) : Ring :=
  { ring with
    places := #[]
    oldest := 0
    written := 0
    size_places_le := Nat.zero_le _
    oldest_lt := Nat.lt_of_le_of_lt (Nat.zero_le _) ring.oldest_lt
    oldest_eq_zero := fun _ => rfl }

/-- Keep a record, in place of the oldest one if there is no place left. -/
def keep (ring : Ring) (record : Record) : Ring :=
  if room : ring.places.size < ring.capacity then
    { ring with
      places := ring.places.push record
      written := ring.written + 1
      size_places_le := by rw [Array.size_push]; omega
      oldest_eq_zero := fun _ => ring.oldest_eq_zero room }
  else
    { ring with
      places := ring.places.setIfInBounds ring.oldest record
      oldest := (ring.oldest + 1) % ring.capacity
      written := ring.written + 1
      size_places_le := by rw [Array.size_setIfInBounds]; exact ring.size_places_le
      oldest_lt := Nat.mod_lt _ (Nat.lt_of_le_of_lt (Nat.zero_le _) ring.oldest_lt)
      oldest_eq_zero := fun less => absurd (Array.size_setIfInBounds ▸ less) room }

/-- Write a record: stamp it and keep it, or pass it over if it is not to be shown. -/
def push (ring : Ring) (record : Record) : Ring :=
  if ring.level.includes record.opcode.detail then
    ring.keep { record with tick := ring.tick }
  else ring

/-- Write the steps of the instance at `position`. -/
def pushEntries (ring : Ring) (position : UInt32) (entries : Array Entry) : Ring :=
  entries.foldl (fun ring entry => ring.push (entry.record position)) ring

@[simp]
theorem records_ofCapacity (capacity : Nat) (level : Level) :
    (ofCapacity capacity level).records = [] := rfl

@[simp]
theorem records_clear (ring : Ring) : ring.clear.records = [] := rfl

@[simp]
theorem length_records (ring : Ring) : ring.records.length = ring.size := by
  simp only [records, size, List.length_append, List.length_drop, List.length_take,
    Array.length_toList]
  omega

/-- Where there is a place left, a kept record comes last. -/
theorem records_keep_of_lt (ring : Ring) (record : Record)
    (room : ring.size < ring.capacity) :
    (ring.keep record).records = ring.records ++ [record] := by
  have first := ring.oldest_eq_zero room
  unfold size at room
  simp [keep, room, records, first]

/-- A ring without a place left keeps a record at the expense of the oldest one. -/
theorem records_keep_of_full (ring : Ring) (record : Record)
    (full : ring.size = ring.capacity) :
    (ring.keep record).records = ring.records.tail ++ [record] := by
  have noRoom : ¬ ring.places.size < ring.capacity := by unfold size at full; omega
  have before : ring.oldest < ring.places.toList.length := by
    have lt := ring.oldest_lt
    unfold size at full
    simpa [full] using lt
  have split := List.drop_eq_getElem_cons before
  have taken : (ring.places.toList.take ring.oldest).length = ring.oldest := by
    rw [List.length_take]; omega
  simp only [keep, noRoom, dite_false, records, Array.toList_setIfInBounds]
  rw [List.set_eq_take_append_cons_drop, if_pos before, split, List.cons_append,
    List.tail_cons]
  unfold size at full
  by_cases last : ring.oldest + 1 = ring.capacity
  · have rest : ring.places.toList.drop ring.capacity = [] := by
      apply List.drop_eq_nil_of_le
      simp only [Array.length_toList]
      omega
    simp [last, rest]
  · have inside : (ring.oldest + 1) % ring.capacity = ring.oldest + 1 :=
      Nat.mod_eq_of_lt (by have := ring.oldest_lt; omega)
    have behind : (ring.places.toList.take ring.oldest).drop (ring.oldest + 1) = [] :=
      List.drop_eq_nil_of_le (by omega)
    have within : (ring.places.toList.take ring.oldest).take (ring.oldest + 1) =
        ring.places.toList.take ring.oldest :=
      List.take_of_length_le (by omega)
    rw [inside, List.drop_append, List.take_append, taken, behind, within]
    simp

end Ring

end Statechart.Trace
