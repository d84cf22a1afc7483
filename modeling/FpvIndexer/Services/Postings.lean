import FpvIndexer.Services.Quarters
import FpvIndexer.Relational.LastWriter

namespace FpvIndexer
open Relational

structure Posting where
  serviceOrchestrator : Address
  volumeAttoUsd : Int
  correction : Bool
  postingEpoch : Int
  postingTxHash : Hash
deriving DecidableEq, Repr

structure QuarterlyVolumePostings where
  quarterNumber : Nat
  aggregatedVolumeAttoUsd : Int
  postings : List Posting
deriving DecidableEq, Repr

structure OrchestratorQuarterlyVolumePosting where
  serviceOrchestrator : Address
  quarterNum : Nat
  volumeAttoUsd : Option Int
  corrected : Bool
  missed : Bool
  postingEpoch : Option Int
  postingTxHash : Option Hash
  postings : List Posting
deriving DecidableEq, Repr

namespace ServiceOrchestratorQuarterlyVolume

def posting (cfg : Deployment) (serviceOrchestrator : Address) (v : ServiceOrchestratorQuarterlyVolume) :
    Except Failure Posting := do
  let volumeAttoUsd ← cfg.numericToBigInt v.volumeAttoUsd
  return {
    serviceOrchestrator
    volumeAttoUsd
    correction := v.isCorrection
    postingEpoch := v.postingEpoch
    postingTxHash := v.postingTxHash }

def place (v : ServiceOrchestratorQuarterlyVolume) : Position := ⟨v.postingEpoch, v.postingLogIndex⟩

end ServiceOrchestratorQuarterlyVolume

section Postings
variable (db : DB) (quarterNumber : QuarterNumber)

/-- `DISTINCT ON (service_orchestrator_id)`, the latest posting first. -/
def postingResults : List ServiceOrchestratorQuarterlyVolume :=
  distinctOn (·.serviceOrchestratorId)
    (orderBy (fun v => toLex (v.serviceOrchestratorId, OrderDual.toDual v.place))
      (db.serviceOrchestratorQuarterlyVolume.rows.filter (·.quarterNum = quarterNumber.intValue)))

def getQuarterlyVolumePostings (cfg : Deployment) : Except Failure QuarterlyVolumePostings := do
  let _ ← integer quarterNumber.intValue
  let postings ← (postingResults db quarterNumber).mapM fun result => result.posting cfg result.serviceOrchestratorId
  return {
    quarterNumber := quarterNumber.intValue
    aggregatedVolumeAttoUsd := postings.foldl (fun total posting => total + posting.volumeAttoUsd) 0
    postings }

def orchestratorVolumes : List (ServiceOrchestrator × Option ServiceOrchestratorQuarterlyVolume) :=
  leftJoin (fun o v => v.serviceOrchestratorId = o.id) db.serviceOrchestrator.rows
    db.serviceOrchestratorQuarterlyVolume.rows

/-- `ORDER BY posting_epoch DESC, posting_log_index DESC`, where a missing value comes first. -/
def postingOrder (result : ServiceOrchestrator × Option ServiceOrchestratorQuarterlyVolume) : (WithTop Position)ᵒᵈ :=
  OrderDual.toDual (α := WithTop Position) (result.2.map (·.place))

def getServiceOrchestratorsQuarterlyVolumePostings (cfg : Deployment) (postPeriod blockNumber : Int)
    (serviceOrchestrator : Address) : Except Failure OrchestratorQuarterlyVolumePosting := do
  let quarter ← getQuarterByIndex cfg blockNumber quarterNumber.intValue
  let _ ← integer quarterNumber.intValue
  let postingWindowClosed : Bool := quarter.endEpoch + postPeriod < blockNumber
  let results := orderBy postingOrder ((orchestratorVolumes db).filter fun result =>
    result.2.any (·.quarterNum = quarterNumber.intValue) && result.1.id = serviceOrchestrator.toLowerCase)
  let postings ← (results.filterMap (·.2)).mapM fun result => result.posting cfg serviceOrchestrator
  let firstPosting := postings.getLast?
  let lastPosting := postings.head?.filter (·.volumeAttoUsd ≠ 0)
  return {
    serviceOrchestrator
    quarterNum := quarterNumber.intValue
    volumeAttoUsd := lastPosting.map (·.volumeAttoUsd)
    corrected := postings.any (·.correction)
    missed := firstPosting.elim postingWindowClosed fun posting => quarter.endEpoch + postPeriod < posting.postingEpoch
    postingEpoch := lastPosting.map (·.postingEpoch)
    postingTxHash := lastPosting.map (·.postingTxHash)
    postings }

end Postings
end FpvIndexer
