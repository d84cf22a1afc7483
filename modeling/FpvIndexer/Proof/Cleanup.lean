import FpvIndexer.Proof.Handlers
import FpvIndexer.Services.IndexerOrchestrator

namespace FpvIndexer
namespace Proof.Cleanup
open Relational Handlers

section Statements
variable (store : Store)

theorem refreshed_of_no_auctions (none : store.filecoinPayFeeAuction = .empty) :
    store.refreshed = .ok { store with qualifiedPricePeriodsMv := .empty } := by
  have returned : getQualifyingPricePeriods store.toDB = [] := by
    unfold getQualifyingPricePeriods
    cases store.applicationConfig with
    | none => rfl
    | some cfg =>
        have indexes : quarterIndexes cfg store.toDB = [] := by
          unfold quarterIndexes
          rw [none]
          rfl
        simp [indexes, LoopState.initial]
  have refreshed : store.toDB.refreshQualifiedPricePeriodsMv = .ok { store.toDB with qualifiedPricePeriodsMv := .empty } := by
    unfold DB.refreshQualifiedPricePeriodsMv
    rw [returned]
    rfl
  unfold Store.refreshed
  rw [refreshed]
  rfl

def admissionsRefer : Bool := store.serviceOrchestratorAdmission.rows.any fun a =>
  store.serviceOrchestrator.rows.any (·.id = a.serviceOrchestratorId)

def cleaned : Store :=
  { Store.migrated store.applicationConfig with serviceOrchestratorAdmission := store.serviceOrchestratorAdmission }

theorem cleanup_eq : cleanup store = if admissionsRefer store then
    .error (.foreignKeyViolation "service_orchestrator_admission_service_orchestrator_id_fkey")
    else .ok (cleaned store) := by
  let fees : Store := { store with filecoinPayFeeAuction := .empty, qualifiedPricePeriodsMv := .empty }
  let payments : Store := { fees with filecoinPayPayment := .empty, filecoinPayRail := .empty }
  let volumes : Store := { payments with filecoinPayContract := .empty, quarterBoundVolume := .empty }
  let pairs : Store := { volumes with servicePair := .empty, serviceOrchestratorQuarterlyVolume := .empty }
  have feesDeleted : deleteFeeAuctions store = .ok fees := refreshed_of_no_auctions _ rfl
  have railsDeleted : deleteRails (deletePayments fees) = .ok payments := rfl
  have volumesDeleted : deleteBoundVolumes (deleteContracts payments) = .ok volumes := refreshed_of_no_auctions _ rfl
  have pairsDeleted : deleteQuarterlyVolumes (deletePairs volumes) = pairs := rfl
  unfold cleanup
  rw [feesDeleted, ok_bind]
  dsimp only
  rw [railsDeleted, ok_bind, volumesDeleted, ok_bind, pairsDeleted]
  have unpaired : pairs.servicePair.rows.any (fun sp =>
      pairs.serviceOrchestrator.rows.any (·.id = sp.serviceOrchestratorId)) = false := rfl
  have deleted : deleteOrchestrators pairs = if admissionsRefer store then
      .error (.foreignKeyViolation "service_orchestrator_admission_service_orchestrator_id_fkey")
      else .ok { pairs with serviceOrchestrator := .empty } := by
    unfold deleteOrchestrators
    rw [unpaired]
    rfl
  rw [deleted]
  split
  · rfl
  · let orchestrators : Store := { pairs with serviceOrchestrator := .empty }
    let tokens : Store := { orchestrators with whitelistedToken := .empty }
    have tokensDeleted : deleteTokens orchestrators = .ok tokens := refreshed_of_no_auctions _ rfl
    have parametersDeleted : deleteParameters tokens = .ok { tokens with serviceRewardsActorParameter := .empty } :=
      refreshed_of_no_auctions _ rfl
    rw [ok_bind, tokensDeleted, ok_bind, parametersDeleted, ok_bind]
    rfl

end Statements

section Slate

def Outdated (packageMajorVersion : Nat) (store : Store) : Prop :=
  ∃ state ∈ store.indexerState.rows, state.version ≠ packageMajorVersion

/-- The tables are those after the migrations, and so the same logs lead to the same tables. -/
structure CleanSlate (packageMajorVersion : Nat) (store : Store) : Prop where
  emptied : store.commit (.cleanup packageMajorVersion) = .ok (.migrated store.applicationConfig)
  reindexed : ∀ txs : List DbTransaction,
    (store.commit (.cleanup packageMajorVersion) >>= fun next => txs.foldlM Store.commit next) =
      txs.foldlM Store.commit (.migrated store.applicationConfig)

theorem commit_cleanup {packageMajorVersion : Nat} {store : Store} (outdated : Outdated packageMajorVersion store) :
    store.commit (.cleanup packageMajorVersion) = cleanup store := by
  obtain ⟨state, member, other⟩ := outdated
  exact if_pos (List.any_eq_true.mpr ⟨state, member, decide_eq_true other⟩)

theorem cleanSlate_iff (packageMajorVersion : Nat) (store : Store) (outdated : Outdated packageMajorVersion store) :
    CleanSlate packageMajorVersion store ↔ store.serviceOrchestratorAdmission.rows = [] := by
  constructor
  · intro slate
    have emptied := slate.emptied
    rw [commit_cleanup outdated, cleanup_eq] at emptied
    split at emptied
    · cases emptied
    · have same := congrArg (fun s : Store => s.serviceOrchestratorAdmission.rows) (Except.ok.inj emptied)
      exact same
  · intro none
    have emptied : store.commit (.cleanup packageMajorVersion) = .ok (.migrated store.applicationConfig) := by
      have unreferred : ¬ admissionsRefer store := by
        unfold admissionsRefer
        rw [none]
        exact Bool.false_ne_true
      have empty : store.serviceOrchestratorAdmission = .empty := Table.ext none
      rw [commit_cleanup outdated, cleanup_eq, if_neg unreferred, cleaned, empty]
      rfl
    exact ⟨emptied, fun txs => by rw [emptied, ok_bind]⟩

def unadmitted : Store :=
  { Store.migrated (some hundredEpochs) with
    serviceRewardsActorParameter := ⟨[⟨.minLotFloor, 10, 50, 0, "0x0"⟩], by decide⟩
    indexerState := ⟨[⟨"0xa", 70, 1⟩], by decide⟩ }

theorem cleanSlate_iff_unadmitted : CleanSlate 2 unadmitted :=
  (cleanSlate_iff 2 unadmitted ⟨⟨"0xa", 70, 1⟩, List.mem_cons_self, by decide⟩).mpr rfl

end Slate

section ForeignKey
variable {db next : DB}

def AdmissionsStored (db : DB) : Prop :=
  ∀ a ∈ db.serviceOrchestratorAdmission.rows, ∃ o ∈ db.serviceOrchestrator.rows, o.id = a.serviceOrchestratorId

theorem admissionsRefer_of_stored {store : Store} (stored : AdmissionsStored store.toDB)
    (admitted : store.serviceOrchestratorAdmission.rows ≠ []) : admissionsRefer store := by
  obtain ⟨a, member⟩ := List.exists_mem_of_ne_nil _ admitted
  obtain ⟨o, inRows, same⟩ := stored a member
  exact List.any_eq_true.mpr ⟨a, member, List.any_eq_true.mpr ⟨o, inRows, decide_eq_true same⟩⟩

theorem AdmissionsStored.update (stored : AdmissionsStored db) (p : ServiceOrchestratorAdmission → Bool)
    (set : ServiceOrchestratorAdmission → ServiceOrchestratorAdmission) (keeps : ∀ a, (set a).pkey = a.pkey) :
    AdmissionsStored { db with serviceOrchestratorAdmission := db.serviceOrchestratorAdmission.update p set keeps } := by
  intro a member
  obtain ⟨before, inRows, rfl⟩ := List.mem_map.mp member
  obtain ⟨o, listed, same⟩ := stored before inRows
  refine ⟨o, listed, ?_⟩
  split
  · rw [same]
    exact (congrArg Prod.fst (keeps before)).symm
  · exact same

theorem admitOrchestrator_stored {log : ServiceRewardsActorLog} {orch wallet : Address} (stored : AdmissionsStored db)
    (admitted : admitOrchestrator db log orch wallet = .ok next) : AdmissionsStored next := by
  unfold admitOrchestrator at admitted
  dsimp only at admitted
  obtain ⟨admissions, inserted, admitted⟩ := bind_eq_ok.mp admitted
  split at admitted
  · cases admitted
  obtain rfl := pure_eq_ok.mp admitted
  intro a member
  rw [Table.insert?_rows (insert_ok inserted), List.mem_append, List.mem_singleton] at member
  rcases member with before | rfl
  · obtain ⟨o, inRows, same⟩ := stored a before
    exact ⟨o, db.serviceOrchestrator.subset_getD_insert? ⟨orch.toLowerCase⟩ inRows, same⟩
  · exact List.mem_map.mp (db.serviceOrchestrator.key_mem_getD_insert? ⟨orch.toLowerCase⟩)

theorem handleLog_stored {cfg : Deployment} {tokensMap : List (Address × ERC20Metadata)} {log : ServiceRewardsActorLog}
    (stored : AdmissionsStored db) (handled : ServiceRewardsActorIndexer.handleLog cfg tokensMap db log = .ok next) :
    AdmissionsStored next := by
  unfold ServiceRewardsActorIndexer.handleLog at handled
  split at handled
  · exact admitOrchestrator_stored stored handled
  · cases handled
    exact stored.update _ _ (ServiceOrchestratorAdmission.remove_pkey log)
  · rename_i oldOrch newWallet _
    cases handled
    exact stored.update _ (fun a => { a with wallet := newWallet.toLowerCase }) fun _ => rfl
  · obtain ⟨_, rfl⟩ := createBinding_frame handled
    exact stored
  · obtain ⟨_, rfl⟩ := reassignBinding_frame handled
    exact stored
  · cases handled
    exact stored
  · obtain ⟨_, _, _, rfl, -⟩ := updatedAdmittedLists_spec handled
    exact stored
  · obtain ⟨_, _, _, rfl, -⟩ := updatePricingParams_spec handled
    exact stored
  · obtain ⟨_, rfl⟩ := postVolume_spec handled
    exact stored
  · obtain ⟨_, rfl⟩ := postVolume_spec handled
    exact stored
  · obtain ⟨_, _, rfl, -⟩ := submitShares_spec handled
    exact stored

theorem step_stored {cfg : Deployment} {step : Step} (stored : AdmissionsStored db) (applied : step.apply cfg db = .ok next) :
    AdmissionsStored next := by
  cases step with
  | actor tokensMap log => exact handleLog_stored stored applied
  | rail row =>
      obtain ⟨_, rfl, -⟩ := insertRail_spec applied
      exact stored
  | payment input =>
      obtain ⟨_, _, rfl, -⟩ := insertPayment_spec applied
      exact stored
  | transfer services transfer =>
      rcases transfer_spec applied with rfl | ⟨_, _, inserted⟩
      · exact stored
      · obtain ⟨_, _, _, rfl, -⟩ := insertAuction_spec inserted
        exact stored

theorem index_stored {cfg : Deployment} {batch : Batch} (stored : AdmissionsStored db) (indexed : index cfg db batch = .ok next) :
    AdmissionsStored next := by
  rw [index_eq_steps] at indexed
  obtain ⟨steps, -, run⟩ := bind_eq_ok.mp indexed
  refine foldlM_induction run (fun _ db => AdmissionsStored db) stored ?_
  intro past step rest db next whole held applied
  exact step_stored held applied

theorem commit_stored {store next : Store} {tx : DbTransaction} (stored : AdmissionsStored store.toDB)
    (committed : store.commit tx = .ok next) : AdmissionsStored next.toDB := by
  cases tx with
  | run contractAddress toBlock packageMajorVersion logs =>
      obtain ⟨updated, applied, committed⟩ := bind_eq_ok.mp committed
      obtain rfl := pure_eq_ok.mp committed
      cases logs with
      | batch cfg batch =>
          obtain ⟨db, indexed, applied⟩ := bind_eq_ok.mp applied
          obtain rfl := pure_eq_ok.mp applied
          exact index_stored stored indexed
      | streamWeightActor logs =>
          obtain ⟨_, -, applied⟩ := bind_eq_ok.mp applied
          obtain ⟨_, -, applied⟩ := bind_eq_ok.mp applied
          obtain ⟨_, -, applied⟩ := bind_eq_ok.mp applied
          obtain ⟨_, -, applied⟩ := bind_eq_ok.mp applied
          obtain rfl := pure_eq_ok.mp applied
          exact stored
  | seedConfig values =>
      obtain ⟨db, refreshed, committed⟩ := bind_eq_ok.mp committed
      obtain ⟨_, rfl, -⟩ := refresh_eq_ok refreshed
      obtain rfl := pure_eq_ok.mp committed
      exact stored
  | cleanup packageMajorVersion =>
      change cleanupIfNeeded packageMajorVersion store = .ok next at committed
      unfold cleanupIfNeeded at committed
      split at committed
      · rw [cleanup_eq] at committed
        split at committed
        · cases committed
        · rename_i unreferred
          cases committed
          intro a member
          exact absurd (admissionsRefer_of_stored stored (List.ne_nil_of_mem member)) unreferred
      · cases committed
        exact stored

theorem stored_of_reached {store : Store} (reached : store.Reached fun _ _ => True) : AdmissionsStored store.toDB := by
  induction reached with
  | migrated =>
      intro a member
      cases member
  | commit tx _ _ committed ih => exact commit_stored ih committed

theorem cleanup_blocked {packageMajorVersion : Nat} {store : Store} (reached : store.Reached fun _ _ => True)
    (outdated : Outdated packageMajorVersion store) (admitted : store.serviceOrchestratorAdmission.rows ≠ []) :
    store.commit (.cleanup packageMajorVersion) =
      .error (.foreignKeyViolation "service_orchestrator_admission_service_orchestrator_id_fkey") := by
  rw [commit_cleanup outdated, cleanup_eq, if_pos (admissionsRefer_of_stored (stored_of_reached reached) admitted)]

end ForeignKey

section Upgrade

def firstAdmission : DbTransaction := .run "0xa" 70 1 (.batch hundredEpochs (.serviceRewardsActor
  ⟨fun _ => .ok ⟨18, "USD"⟩, fun _ => .ok true, fun _ => .ok 18, fun _ => .ok "USD"⟩
  [⟨50, 0, "0x1", .orchestratorAdmitted "0xb" "0xc"⟩]))

theorem upgrade_fails : ∃ store : Store, (store.Reached fun _ _ => True) ∧ Outdated 2 store ∧
    store.commit (.cleanup 2) =
      .error (.foreignKeyViolation "service_orchestrator_admission_service_orchestrator_id_fkey") ∧
      ¬ CleanSlate 2 store := by
  obtain ⟨store, run, rows⟩ := exists_of_map_eq_ok (f := fun s : Store =>
      (s.indexerState.rows.map (·.version), s.serviceOrchestratorAdmission.rows.map (·.serviceOrchestratorId)))
    (b := ([1], ["0xb"])) (x := [firstAdmission].foldlM Store.commit (.migrated none)) (by decide +kernel)
  obtain ⟨versions, admissions⟩ := Prod.mk.inj rows
  have reached : store.Reached fun _ _ => True := Store.Reached.migrated.run run fun _ _ _ => trivial
  have outdated : Outdated 2 store := by
    obtain ⟨state, member, version⟩ : ∃ state ∈ store.indexerState.rows, state.version = 1 :=
      List.mem_map.mp (versions ▸ List.mem_cons_self)
    exact ⟨state, member, by rw [version]; decide⟩
  have admitted : store.serviceOrchestratorAdmission.rows ≠ [] := by
    intro none
    rw [none] at admissions
    cases admissions
  have blocked := cleanup_blocked reached outdated admitted
  refine ⟨store, reached, outdated, blocked, fun slate => ?_⟩
  have emptied := slate.emptied
  rw [blocked] at emptied
  cases emptied

end Upgrade
end Proof.Cleanup
end FpvIndexer
