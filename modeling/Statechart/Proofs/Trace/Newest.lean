/-
# The newest records

A ring passes over the records that its level does not ask for, and stamps the others with the
tick. A `Log` does the same and forgets nothing before it is cleared. A ring tells as much of the
log as it has places for: the newest records, the oldest of them first (`Tells`).

Keeping one more record and then the newest ones is the same as keeping the newest of all
(`rtake_of_rtake_concat`), so each call keeps a ring in step with the log, and so does a whole
sequence of calls, whatever it does to level and tick in between (`newest_kept`).
-/

import Mathlib.Data.List.DropRight
import Statechart.Trace.Ring

namespace Statechart.Trace

/-- One call on a trace. -/
inductive Call
  | push (record : Record)
  | setLevel (level : Level)
  | setTick (tick : UInt32)
  | clear

/-! ### Traces without an end -/

/-- A trace that loses nothing. -/
structure Log where
  level : Level
  /-- The number of the current tick. -/
  tick : UInt32
  /-- The records that were to be shown since the log was cleared last, oldest first. -/
  shown : List Record

namespace Log

/-- A log in which nothing is written. -/
def opened (level : Level) : Log where
  level := level
  tick := 0
  shown := []

/-- A record with the low half of the current tick's number in place of its own. -/
def stamp (log : Log) (record : Record) : Record :=
  { record with tick := UInt16.ofNat (log.tick.toNat % 65536) }

/-- Carry out a call. -/
def perform (log : Log) : Call → Log
  | .push record =>
      if log.level.includes record.opcode.detail then
        { log with shown := log.shown ++ [log.stamp record] }
      else log
  | .setLevel level => { log with level }
  | .setTick tick => { log with tick }
  | .clear => { log with shown := [] }

/-- Carry out calls one after the other. -/
def performAll (log : Log) (calls : List Call) : Log :=
  calls.foldl perform log

end Log

/-! ### The end of a list -/

/-- Of a list that is cut down to its newest entries and then grows by one, the newest entries are
those of the whole list. -/
theorem rtake_of_rtake_concat {Entry : Type} (entries : List Entry) (entry : Entry) (count : Nat) :
    (entries.rtake count ++ [entry]).rtake count = (entries ++ [entry]).rtake count := by
  simp only [List.rtake, List.length_append, List.length_drop, List.length_singleton,
    List.drop_append, List.drop_drop]
  congr 2 <;> omega

namespace Ring

variable {ring : Ring} {log : Log}

/-! ### One call -/

/-- Carry out a call. -/
def perform (ring : Ring) : Call → Ring
  | .push record => ring.push record
  | .setLevel level => ring.withLevel level
  | .setTick tick => ring.withTick tick
  | .clear => ring.clear

/-- Carry out calls one after the other. -/
def performAll (ring : Ring) (calls : List Call) : Ring :=
  calls.foldl perform ring

theorem size_le_capacity (ring : Ring) : ring.size ≤ ring.capacity :=
  ring.size_places_le

/-- A ring keeps the newest records, as many as it has places for. -/
theorem records_keep (ring : Ring) (record : Record) :
    (ring.keep record).records = (ring.records ++ [record]).rtake ring.capacity := by
  have count := ring.length_records
  rcases Nat.lt_or_eq_of_le ring.size_le_capacity with room | full
  · rw [records_keep_of_lt ring record room, List.rtake,
      List.length_append, List.length_singleton, count, Nat.sub_eq_zero_of_le room, List.drop_zero]
  · have filled : 0 < ring.records.length := by
      rw [count, full]
      exact Nat.zero_lt_of_lt ring.oldest_lt
    rw [records_keep_of_full ring record full, List.rtake, List.length_append,
      List.length_singleton, count, full, Nat.add_sub_cancel_left, List.drop_append_of_le_length
        filled, List.drop_one]

@[simp]
theorem capacity_keep (ring : Ring) (record : Record) :
    (ring.keep record).capacity = ring.capacity := by
  unfold keep
  split <;> rfl

@[simp]
theorem level_keep (ring : Ring) (record : Record) : (ring.keep record).level = ring.level := by
  unfold keep
  split <;> rfl

@[simp]
theorem tick_keep (ring : Ring) (record : Record) : (ring.keep record).tick = ring.tick := by
  unfold keep
  split <;> rfl

@[simp]
theorem written_keep (ring : Ring) (record : Record) :
    (ring.keep record).written = ring.written + 1 := by
  unfold keep
  split <;> rfl

/-- A ring tells the newest records of a log, and how many there are in all. -/
structure Tells (ring : Ring) (log : Log) : Prop where
  level_eq : ring.level = log.level
  tick_eq : ring.tick = UInt16.ofNat (log.tick.toNat % 65536)
  records_eq : ring.records = log.shown.rtake ring.capacity
  written_eq : ring.written = log.shown.length

namespace Tells

theorem ofCapacity (capacity : Nat) (level : Level) :
    (Ring.ofCapacity capacity level).Tells (Log.opened level) where
  level_eq := rfl
  tick_eq := rfl
  records_eq := (List.rtake_nil _).symm
  written_eq := rfl

/-- Stamping a record and keeping it is writing it into the log. -/
theorem keep (tells : ring.Tells log) (record : Record) :
    (ring.keep { record with tick := ring.tick }).Tells
      { log with shown := log.shown ++ [log.stamp record] } where
  level_eq := (level_keep ..).trans tells.level_eq
  tick_eq := (tick_keep ..).trans tells.tick_eq
  records_eq := by
    rw [records_keep, capacity_keep, tells.records_eq, rtake_of_rtake_concat, Log.stamp,
      tells.tick_eq]
  written_eq := by
    rw [written_keep, tells.written_eq, List.length_append, List.length_singleton]

/-- Each call keeps a ring in step with the log. -/
theorem perform (tells : ring.Tells log) (call : Call) :
    (ring.perform call).Tells (log.perform call) := by
  cases call with
  | push record =>
    simp only [Ring.perform, Log.perform, push, tells.level_eq]
    split
    · exact tells.keep record
    · exact tells
  | setLevel level => exact { tells with level_eq := rfl }
  | setTick tick =>
    refine { tells with tick_eq := ?_ }
    apply UInt16.toNat_inj.1
    show tick.toUInt16.toNat = _
    rw [UInt32.toNat_toUInt16, UInt16.toNat_ofNat']
    exact (Nat.mod_mod ..).symm
  | clear =>
    exact { tells with records_eq := (List.rtake_nil _).symm, written_eq := rfl }

theorem performAll (tells : ring.Tells log) (calls : List Call) :
    (ring.performAll calls).Tells (log.performAll calls) := by
  induction calls generalizing ring log with
  | nil => exact tells
  | cons call later ih => exact ih (tells.perform call)

end Tells

/-- No call changes how many places there are. -/
theorem capacity_performAll (ring : Ring) (calls : List Call) :
    (ring.performAll calls).capacity = ring.capacity := by
  induction calls generalizing ring with
  | nil => rfl
  | cons call later ih =>
    refine (ih (ring.perform call)).trans ?_
    cases call with
    | push record =>
      simp only [perform, push]
      split
      · exact capacity_keep ..
      · rfl
    | setLevel level => rfl
    | setTick tick => rfl
    | clear => rfl

/-- After any calls a ring holds the newest of the records that were to be shown since it was
cleared last, as many as it has places for, oldest first, and it counts the others as lost. Its
places hold records as bytes, and these are read back without loss. -/
theorem newest_kept (capacity : Nat) (level : Level) (calls : List Call) :
    let ring := (Ring.ofCapacity capacity level).performAll calls
    let shown := ((Log.opened level).performAll calls).shown
    let kept := min shown.length (max capacity 1)
    ring.records = shown.rtake kept ∧
      (ring.records.map Record.toBytes).filterMap Record.ofBytes? = shown.rtake kept ∧
      ring.size = kept ∧ ring.overwritten = shown.length - kept := by
  intro ring shown kept
  have tells : ring.Tells _ := (Tells.ofCapacity capacity level).performAll calls
  have places : ring.capacity = max capacity 1 := capacity_performAll _ calls
  have told : ring.records = shown.rtake kept := by
    refine tells.records_eq.trans ?_
    show shown.rtake ring.capacity = shown.rtake kept
    rw [places, List.rtake, List.rtake]
    congr 1
    omega
  have count : ring.size = kept := by
    rw [← length_records, told, List.rtake, List.length_drop]
    omega
  have decoded (records : List Record) :
      (records.map Record.toBytes).filterMap Record.ofBytes? = records := by
    simp [List.filterMap_map]
  refine ⟨told, (decoded _).trans told, count, ?_⟩
  rw [overwritten, tells.written_eq, count]

end Ring

end Statechart.Trace
