import FpvIndexer.Database.Store
import FpvIndexer.Relational.LastWriter

namespace FpvIndexer
open Relational

structure GateTarget where
  atEpoch : Option Int
  lastCheckEpoch : Option Int
  capReached : Bool
  targetAttoUsd : Int
deriving DecidableEq, Repr

/-- `base ** exponent` of `BigInt`, whose size the engine limits. -/
def bigIntPower (fits : Int → Nat → Bool) (base exponent : Int) : Except Failure Int :=
  if exponent < 0 then .error (.rejected "Exponent must be non-negative")
  else if fits base exponent.toNat then .ok (base ^ exponent.toNat)
  else .error (.rejected "Maximum BigInt size exceeded")

namespace GateCheckService

def initialBaseAttoUsd : Int := 3500000000000000000000
def initialStepRatio : Int := 2700000000000000000

section Queries
variable (store : Store) (atEpoch : Option Int)

def params : Option StreamWeightActorParameters :=
  latest? (fun p => toLex p.pkey) (fun p => atEpoch.all (p.epoch ≤ ·)) store.streamWeightActorParameters.rows

def lastGateCheckResult : Option QuarterlyGateCheck :=
  latest? (fun c => toLex c.pkey) (fun c => atEpoch.all (c.epoch ≤ ·)) store.quarterlyGateCheck.rows

end Queries

-- the figure in USD, which is floating point, is left out
def calculateGateTarget (fits : Int → Nat → Bool) (store : Store) (atEpoch : Option Int) : Except Failure GateTarget := do
  let params := params store atEpoch
  let lastGateCheckResult := lastGateCheckResult store atEpoch
  let baseAttoUsd := params.elim initialBaseAttoUsd fun p => p.baseAttoUsd
  let stepRatio := params.elim initialStepRatio fun p => p.stepRatio
  let steps := lastGateCheckResult.elim 0 fun c => c.stepsAfter
  let lastCheckEpoch := lastGateCheckResult.map fun c => c.epoch
  let scale := 10 ^ 18
  let denominator ← bigIntPower fits scale steps
  if 8 ≤ steps ∨ denominator = 0 then
    return { atEpoch, lastCheckEpoch, capReached := 8 ≤ steps, targetAttoUsd := 0 }
  else
    let power ← bigIntPower fits stepRatio steps
    let numerator := baseAttoUsd * power
    if numerator.tmod denominator ≠ 0 then .error (.rejected "Non-exact gate target")
    else
      return { atEpoch, lastCheckEpoch, capReached := false, targetAttoUsd := numerator.tdiv denominator }

end GateCheckService
end FpvIndexer
