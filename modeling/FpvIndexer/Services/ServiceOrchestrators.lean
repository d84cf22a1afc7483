import FpvIndexer.Database.Schema
import FpvIndexer.Relational.Query

namespace FpvIndexer
open Relational

structure AdmissionPeriod where
  wallet : Address
  admissionEpoch : Int
  admissionLogIndex : Nat
  admissionTxHash : Hash
  removalEpoch : Option Int
  removalLogIndex : Option Nat
  removalTxHash : Option Hash
deriving DecidableEq, Repr

structure OrchestratorAdmissions where
  id : Address
  admissionPeriods : List AdmissionPeriod
deriving DecidableEq, Repr

def ServiceOrchestratorAdmission.period (admission : ServiceOrchestratorAdmission) : AdmissionPeriod where
  wallet := admission.wallet
  admissionEpoch := admission.admissionEpoch
  admissionLogIndex := admission.admissionLogIndex
  admissionTxHash := admission.admissionTxHash
  -- the column is text, of which an epoch of zero is not falsy
  removalEpoch := admission.removalEpoch
  removalLogIndex := admission.removalLogIndex
  removalTxHash := admission.removalTxHash

def getServiceOrchestrators (scan : List ServiceOrchestratorAdmission → List ServiceOrchestratorAdmission) (db : DB) :
    List OrchestratorAdmissions :=
  (groupBy (·.serviceOrchestratorId) (scan db.serviceOrchestratorAdmission.rows)).map fun (id, admissions) =>
    { id, admissionPeriods := admissions.map (·.period) }

end FpvIndexer
