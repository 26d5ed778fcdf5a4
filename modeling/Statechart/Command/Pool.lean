/-
# Page pools

Pages that the host has read are handed back to a pool, which hands them out again,
the one handed back last first. Every page handed out gets the next number; numbers
start over after the largest one. A full pool lets go of the pages it is given.
-/

import Statechart.Bytes.Room
import Statechart.Command.Page

namespace Statechart.Command

/-- Pages waiting to be used again. -/
structure Pool where
  /-- The page handed back last comes first. -/
  free : List Page
  /-- How many pages are kept at most. -/
  maxFree : Nat
  /-- The number of the next page that is handed out. -/
  nextSequence : UInt32
  length_free_le : free.length ≤ maxFree

namespace Pool

/-- A pool without pages that keeps `maxFree` of them at most. -/
def ofSize (maxFree : Nat) : Pool where
  free := []
  maxFree := maxFree
  nextSequence := 0
  length_free_le := Nat.zero_le _

/-- The bytes that tell where a waiting page is. -/
def addressSize : Nat := 8

/-- A pool without pages that has its places in memory. -/
def reserve (maxFree : Nat) : Except Fault Pool := do
  return ofSize (← Room.reserve maxFree addressSize)

/-- How many pages a pool keeps unless told otherwise. -/
def defaultSize : Nat := 16

instance : Inhabited Pool := ⟨ofSize defaultSize⟩

/-- Hand out a page without commands, a new one if none is waiting. -/
def rent (pool : Pool) : Page × Pool :=
  match waiting : pool.free with
  | [] =>
      (Page.blank.withSequence pool.nextSequence,
        { pool with nextSequence := pool.nextSequence + 1 })
  | page :: others =>
      (page.clear.withSequence pool.nextSequence,
        { pool with
          free := others
          nextSequence := pool.nextSequence + 1
          length_free_le := by
            have le := pool.length_free_le
            rw [waiting, List.length_cons] at le
            omega })

/-- Hand a page back. -/
def release (pool : Pool) (page : Page) : Pool :=
  if room : pool.free.length < pool.maxFree then
    { pool with free := page :: pool.free, length_free_le := room }
  else pool

/-- How many pages are waiting. -/
def pooled (pool : Pool) : Nat :=
  pool.free.length

/-- A page that is handed out carries no command. -/
theorem requests_rent (pool : Pool) : pool.rent.1.requests = #[] := by
  unfold rent
  split <;> rfl

end Pool

end Statechart.Command
