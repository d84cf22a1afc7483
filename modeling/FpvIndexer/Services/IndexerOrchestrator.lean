import FpvIndexer.Indexers.Indexing
import FpvIndexer.Indexers.StreamWeightActor

namespace FpvIndexer
open Relational

/-- A statement on a table with a trigger, as it leaves the database, and the refresh that it fires. -/
def Store.refreshed (store : Store) : Except Failure Store := do
  let db ← store.toDB.refreshQualifiedPricePeriodsMv
  return { store with toDB := db }

def seedConfig (values : Config) (store : Store) : Except Failure Store :=
  { store with applicationConfig := some values : Store }.refreshed

section Cleanup

def deleteFeeAuctions (store : Store) : Except Failure Store :=
  { store with filecoinPayFeeAuction := .empty : Store }.refreshed

def deletePayments (store : Store) : Store := { store with filecoinPayPayment := .empty }

def deleteRails (store : Store) : Except Failure Store :=
  if store.filecoinPayPayment.rows.any fun p =>
      store.filecoinPayRail.rows.any fun r => r.pkey = (p.filecoinPayContractAddress, p.railId) then
    .error (.foreignKeyViolation "filecoin_pay_payment_filecoin_pay_contract_address_rail_id_fkey")
  else
    .ok { store with filecoinPayRail := .empty }

def deleteContracts (store : Store) : Store := { store with filecoinPayContract := .empty }

def deleteBoundVolumes (store : Store) : Except Failure Store :=
  { store with quarterBoundVolume := .empty : Store }.refreshed

def deletePairs (store : Store) : Store := { store with servicePair := .empty }

def deleteQuarterlyVolumes (store : Store) : Store := { store with serviceOrchestratorQuarterlyVolume := .empty }

def deleteOrchestrators (store : Store) : Except Failure Store :=
  if store.servicePair.rows.any fun sp => store.serviceOrchestrator.rows.any (·.id = sp.serviceOrchestratorId) then
    .error (.foreignKeyViolation "service_pair_service_orchestrator_id_fkey")
  else if store.serviceOrchestratorAdmission.rows.any fun a =>
      store.serviceOrchestrator.rows.any (·.id = a.serviceOrchestratorId) then
    .error (.foreignKeyViolation "service_orchestrator_admission_service_orchestrator_id_fkey")
  else
    .ok { store with serviceOrchestrator := .empty }

def deleteTokens (store : Store) : Except Failure Store :=
  { store with whitelistedToken := .empty : Store }.refreshed

def deleteParameters (store : Store) : Except Failure Store :=
  { store with serviceRewardsActorParameter := .empty : Store }.refreshed

def deleteIndexerState (store : Store) : Store := { store with indexerState := .empty }

def deleteStreamWeightActorParameters (store : Store) : Store := { store with streamWeightActorParameters := .empty }

def deleteGateChecks (store : Store) : Store := { store with quarterlyGateCheck := .empty }

def cleanup (store : Store) : Except Failure Store := do
  let store ← deleteFeeAuctions store
  let store := deletePayments store
  let store ← deleteRails store
  let store := deleteContracts store
  let store ← deleteBoundVolumes store
  let store := deletePairs store
  let store := deleteQuarterlyVolumes store
  let store ← deleteOrchestrators store
  let store ← deleteTokens store
  let store ← deleteParameters store
  let store := deleteIndexerState store
  let store := deleteStreamWeightActorParameters store
  return deleteGateChecks store

def cleanupIfNeeded (packageMajorVersion : Nat) (store : Store) : Except Failure Store :=
  if store.indexerState.rows.any (·.version ≠ packageMajorVersion) then cleanup store else .ok store

end Cleanup

inductive Logs
  | batch (cfg : Deployment) (batch : Batch)
  | streamWeightActor (logs : List StreamWeightActorLog)

def Store.updateDb (store : Store) : Logs → Except Failure Store
  | .batch cfg batch => do
      let db ← index cfg store.toDB batch
      return { store with toDB := db }
  | .streamWeightActor logs => StreamWeightActorIndexer.updateDb store logs

inductive DbTransaction
  | run (contractAddress : Address) (toBlock : Int) (packageMajorVersion : Nat) (logs : Logs)
  | seedConfig (values : Config)
  | cleanup (packageMajorVersion : Nat)

/-- A transaction takes effect as a whole, or fails and leaves no trace. -/
def Store.commit (store : Store) : DbTransaction → Except Failure Store
  | .run contractAddress toBlock packageMajorVersion logs => do
      let store ← store.updateDb logs
      return store.upsertIndexerState ⟨contractAddress.toLowerCase, toBlock, packageMajorVersion⟩
  | .seedConfig values => FpvIndexer.seedConfig values store
  | .cleanup packageMajorVersion => cleanupIfNeeded packageMajorVersion store

inductive Store.Reached (admitted : Store → DbTransaction → Prop) : Store → Prop
  | migrated : Store.Reached admitted (.migrated none)
  | commit {store next : Store} (tx : DbTransaction) (reached : Store.Reached admitted store)
      (allowed : admitted store tx) (committed : store.commit tx = .ok next) : Store.Reached admitted next

theorem Store.Reached.run {admitted : Store → DbTransaction → Prop} {txs : List DbTransaction} {store final : Store}
    (reached : store.Reached admitted) (run : txs.foldlM Store.commit store = .ok final)
    (allowed : ∀ tx ∈ txs, ∀ store, admitted store tx) : final.Reached admitted := by
  refine foldlM_induction run (fun _ store => store.Reached admitted) reached ?_
  intro past tx rest store next whole before committed
  exact before.commit tx (allowed tx (by simp [whole]) store) committed

end FpvIndexer
