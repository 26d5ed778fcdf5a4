/-
# Activities

At the end of a tick the activities of the active states go on, leaf by leaf and from
the leaf upwards, each state once. Leaves claim output lanes: a leaf that wants a
lane already claimed in this tick is passed over, together with the ancestors that
only it would reach, and the conflict is traced with the leaf that owns the lowest of
the lanes in question.
-/

import Statechart.Kernel.Basic

namespace Statechart.Kernel

open Rom (noIndex)

variable {User : Type} (kernel : Kernel User)

/-- A leaf whose activities go on, with the lanes it has claimed. -/
structure Claim where
  slot : Nat
  leaf : UInt16
  lanes : UInt8
  deriving DecidableEq, Repr

namespace Claim

/-- The lanes that are claimed. -/
def lanesOf (claims : List Claim) : UInt8 :=
  claims.foldl (fun lanes claim => lanes ||| claim.lanes) 0

/-- The lowest lane among some. -/
def lowestLane (lanes : UInt8) : Option Nat :=
  (List.range 8).find? (fun lane => lanes.toNat.testBit lane)

/-- The leaf that has claimed the lowest of some lanes. -/
def winner (claims : List Claim) (lanes : UInt8) : UInt16 :=
  let owner : Option Claim := do
    let lane ← lowestLane lanes
    claims.find? (fun claim => claim.lanes.toNat.testBit lane)
  (owner.map Claim.leaf).getD noIndex

end Claim

/-- Go on with the activity of a state, if it has one. -/
def continueActivity (state action : UInt16) (progress : Progress User) :
    Except Fault (Progress User) :=
  if action = Name.noId then .ok progress
  else kernel.invoke action (progress.note (.activity action state))

/-- Go on with the activities of the leaves in `slots` and of their ancestors, given
what earlier leaves have claimed. -/
def runActivitiesFrom :
    List Nat → List Claim → Progress User → Except Fault (Progress User)
  | [], _, progress => .ok progress
  | slot :: slots, claims, progress => do
      let leaf ← progress.inst.leaf slot
      if leaf = noIndex then return progress
      let lanes := (← kernel.definition.state leaf).outputLanes
      let clash := lanes &&& Claim.lanesOf claims
      if clash != 0 then
        let winner := Claim.winner claims clash
        runActivitiesFrom slots claims (progress.note (.conflict clash winner leaf))
      else
        let progress ← climb kernel.definition leaf
          (fun state progress =>
            isReached kernel.definition progress.inst state (claims.map Claim.slot))
          (fun state record progress =>
            kernel.continueActivity state record.activityAction progress)
          progress
        runActivitiesFrom slots (claims ++ [⟨slot, leaf, lanes⟩]) progress

/-- Go on with the activities of all active states. -/
def runActivities (progress : Progress User) : Except Fault (Progress User) :=
  kernel.runActivitiesFrom (List.range progress.inst.tier.leafCapacity) [] progress

end Statechart.Kernel
