import FpvIndexer.Database.Store

namespace FpvIndexer
open Relational

inductive StreamWeightActorEvent
  | gateParamsSet (base stepRatio steps : Nat)
  | quarterlyGateCheckResult (quarter : Nat) (passed : Bool) (steps : Nat)
deriving DecidableEq, Repr

structure StreamWeightActorLog where
  blockNumber : Int
  logIndex : Nat
  transactionHash : Hash
  event : StreamWeightActorEvent
deriving DecidableEq, Repr

def gateParams (log : StreamWeightActorLog) : Option (Except Failure StreamWeightActorParameters) :=
  match log.event with
  | .gateParamsSet base stepRatio steps => some do
      let baseAttoUsd ← decimal 78 0 base
      let stepRatio ← decimal 78 0 stepRatio
      let steps ← bigint steps
      return {
        epoch := log.blockNumber
        logIndex := log.logIndex
        txHash := log.transactionHash.toLower
        baseAttoUsd
        stepRatio
        steps }
  | _ => none

def gateCheck (log : StreamWeightActorLog) : Option (Except Failure QuarterlyGateCheck) :=
  match log.event with
  | .quarterlyGateCheckResult quarter passed steps => some do
      let quarter ← bigint quarter
      let stepsAfter ← bigint steps
      let stepsBefore ← bigint (steps - if passed then 1 else 0)
      return {
        epoch := log.blockNumber
        logIndex := log.logIndex
        txHash := log.transactionHash.toLower
        quarter
        passed
        stepsAfter
        stepsBefore }
  | _ => none

def StreamWeightActorIndexer.updateDb (store : Store) (logs : List StreamWeightActorLog) : Except Failure Store := do
  let parameters ← (logs.filterMap gateParams).mapM id
  let streamWeightActorParameters ←
    insertAll "stream_weight_actor_parameters_pkey" store.streamWeightActorParameters parameters
  let checks ← (logs.filterMap gateCheck).mapM id
  let quarterlyGateCheck ← insertAll "quarterly_gate_check_pkey" store.quarterlyGateCheck checks
  return { store with streamWeightActorParameters, quarterlyGateCheck }

end FpvIndexer
