import FpvIndexer.Database.PricePeriods

namespace FpvIndexer
open Relational

structure IndexerState where
  contractAddress : Address
  endBlock : Int
  version : Nat
deriving DecidableEq

structure StreamWeightActorParameters where
  epoch : Int
  logIndex : Nat
  txHash : Hash
  baseAttoUsd : Nat
  stepRatio : Nat
  steps : Int
deriving DecidableEq

def StreamWeightActorParameters.pkey (p : StreamWeightActorParameters) : Int × Nat := (p.epoch, p.logIndex)

structure QuarterlyGateCheck where
  epoch : Int
  logIndex : Nat
  txHash : Hash
  quarter : Int
  passed : Bool
  stepsAfter : Int
  stepsBefore : Int
deriving DecidableEq

def QuarterlyGateCheck.pkey (c : QuarterlyGateCheck) : Int × Nat := (c.epoch, c.logIndex)

structure Store extends DB where
  indexerState : Table IndexerState IndexerState.contractAddress
  streamWeightActorParameters : Table StreamWeightActorParameters StreamWeightActorParameters.pkey
  quarterlyGateCheck : Table QuarterlyGateCheck QuarterlyGateCheck.pkey

def Store.migrated (applicationConfig : Option Config) : Store where
  applicationConfig
  serviceRewardsActorParameter := .empty
  serviceOrchestrator := .empty
  serviceOrchestratorAdmission := .empty
  servicePair := .empty
  quarterBoundVolume := .empty
  whitelistedToken := .empty
  filecoinPayContract := .empty
  filecoinPayRail := .empty
  filecoinPayPayment := .empty
  filecoinPayFeeAuction := .empty
  serviceOrchestratorQuarterlyVolume := .empty
  qualifiedPricePeriodsMv := .empty
  indexerState := .empty
  streamWeightActorParameters := .empty
  quarterlyGateCheck := .empty

def bigint (value : Int) : Except Failure Int :=
  if -2 ^ 63 ≤ value ∧ value < 2 ^ 63 then .ok value else .error .numericValueOutOfRange

def Store.upsertIndexerState (store : Store) (state : IndexerState) : Store :=
  let indexerState := store.indexerState.upsert state
  { store with indexerState }

end FpvIndexer
