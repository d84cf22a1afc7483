import FpvIndexer.Database.PricePeriods
import FpvIndexer.Services.TokenInfo
import FpvIndexer.Lib.Utils

/-!
# The Service Rewards Actor indexer

`ServiceRewardsActorIndexer.updateDb` and its handlers. A failing handler stands for the exception
that rolls the transaction of the batch back.
-/

namespace FpvIndexer
open Relational

inductive ServiceRewardsActorEvent
  | orchestratorAdmitted (orch wallet : Address)
  | orchestratorRemoved (orch : Address)
  | orchestratorWalletReplaced (oldOrch newWallet : Address)
  | bindingDeclared (payer operator orchestrator : Address)
  | bindingReassigned (payer operator orchestrator : Address) (inherit : Bool)
  | bindingCanceled (payer operator orchestrator : Address)
  | admittedListsUpdated (stablecoins filecoinPayContracts : List Address)
  | pricingParamsUpdated (minLotFloor minLotAlphaNum minLotAlphaDen priceBand registrationCutoff : Nat)
  | volumePosted (q : Nat) (orchestrator : Address) (volume : Nat)
  | volumeCorrected (q : Nat) (orchestrator : Address) (volume : Nat)
  | sharesSubmitted (q recipientCount totalUsd : Nat)
deriving DecidableEq, Repr

structure ServiceRewardsActorLog where
  blockNumber : Int
  logIndex : Nat
  transactionHash : Hash
  event : ServiceRewardsActorEvent
deriving DecidableEq, Repr

def ServiceRewardsActorLog.position (log : ServiceRewardsActorLog) : Position := ⟨log.blockNumber, log.logIndex⟩

def maybeMetadataPair (services : TokenServices) (tokenAddress : Address) :
    Except Failure (Option (Address × ERC20Metadata)) :=
  match services.getERC20Metadata tokenAddress with
  | .ok metadata => .ok (some (tokenAddress, metadata))
  | .error _ => do
      let isERC20 ← services.isValidERC20 tokenAddress
      if isERC20 then
        let decimals ← services.getTokenDecimals tokenAddress
        let symbol ← services.getTokenSymbol tokenAddress
        return some (tokenAddress, ⟨decimals, symbol⟩)
      else
        return none

def announcedTokens (logs : List ServiceRewardsActorLog) : List Address :=
  logs.flatMap fun log => match log.event with
    | .admittedListsUpdated stablecoins _ => stablecoins.map (·.toLowerCase)
    | _ => []

def fetchTokensMap (services : TokenServices) (logs : List ServiceRewardsActorLog) :
    Except Failure (List (Address × ERC20Metadata)) := do
  let pairs ← (distinctOn id (announcedTokens logs)).mapM (maybeMetadataPair services)
  return pairs.filterMap id

section Bindings

def ServicePair.isActive (sp : ServicePair) (payer operator : Address) : Bool :=
  sp.operator = operator ∧ sp.payer = payer ∧ sp.toEpoch = none

def ServicePair.startsAfter (sp : ServicePair) (epoch : Int) (logIndex : Nat) : Bool :=
  epoch < sp.fromEpoch ∨ sp.fromEpoch = epoch ∧ logIndex < sp.fromLogIndex

def ServicePair.release (log : ServiceRewardsActorLog) (sp : ServicePair) : ServicePair :=
  { sp with
    toEpoch := some log.blockNumber
    toLogIndex := some log.logIndex
    unbindingEpoch := some log.blockNumber
    unbindingTxHash := some log.transactionHash.toLower }

def ServicePair.reassign (orchestrator : Address) (sp : ServicePair) : ServicePair :=
  { sp with serviceOrchestratorId := orchestrator }

theorem ServicePair.release_pkey (log : ServiceRewardsActorLog) (sp : ServicePair) :
    (sp.release log).pkey = sp.pkey := rfl

theorem ServicePair.reassign_pkey (orchestrator : Address) (sp : ServicePair) :
    (sp.reassign orchestrator).pkey = sp.pkey := rfl

def DB.releasePairs (db : DB) (log : ServiceRewardsActorLog) (p : ServicePair → Bool) : DB :=
  { db with servicePair := db.servicePair.update p (ServicePair.release log) (ServicePair.release_pkey log) }

def DB.deletePairs (db : DB) (p : ServicePair → Bool) : DB :=
  { db with servicePair := db.servicePair.delete p }

def DB.hasOrchestrator (db : DB) (id : Address) : Bool :=
  id ∈ db.serviceOrchestrator.rows.map (·.id)

def DB.insertPair (db : DB) (row : ServicePair) : Except Failure DB := do
  let servicePair ← insert "service_pair_pkey" db.servicePair row
  if db.hasOrchestrator row.serviceOrchestratorId then
    return { db with servicePair }
  else
    throw (.foreignKeyViolation "service_pair_service_orchestrator_id_fkey")

def DB.reassignPairs (db : DB) (orchestrator : Address) (p : ServicePair → Bool) : Except Failure DB :=
  if db.hasOrchestrator orchestrator then
    let reassigned :=
      db.servicePair.update p (ServicePair.reassign orchestrator) (ServicePair.reassign_pkey orchestrator)
    .ok { db with servicePair := reassigned }
  else
    .error (.foreignKeyViolation "service_pair_service_orchestrator_id_fkey")

/-- `ORDER BY to_epoch DESC, to_log_index DESC NULLS LAST`. -/
def ServicePair.releaseOrder (sp : ServicePair) : (Int ×ₗ Nat)ᵒᵈ :=
  OrderDual.toDual (toLex (sp.toEpoch.getD 0, sp.toLogIndex.elim 0 (· + 1)))

def previousBinding (db : DB) (payer operator : Address) : Option ServicePair :=
  (orderBy (·.releaseOrder) (db.servicePair.rows.filter fun sp =>
    sp.operator = operator ∧ sp.payer = payer ∧ sp.toEpoch ≠ none)).head?

def registrationCutoff (db : DB) (quarterStartEpoch : Int) : Option ℚ :=
  ((orderBy (fun p => OrderDual.toDual p.position)
    (db.serviceRewardsActorParameter.rows.filter fun p =>
      p.parameterType = .registrationCutoffEpochs ∧ p.updateEpoch < quarterStartEpoch)).head?).map
        (·.parameterValue)

variable (cfg : Deployment)

/-- The start of the quarter of a log, of the first quarter before the activation. -/
def logQuarterStartEpoch (blockNumber : Int) : Int :=
  cfg.activationEpoch + cfg.epochsPerQuarter * (max (cfg.getQuarterForEpoch blockNumber) 1 - 1)

def logQuarterEndEpoch (blockNumber : Int) : Int :=
  logQuarterStartEpoch cfg blockNumber + cfg.epochsPerQuarter - 1

def cutoffStartEpoch (db : DB) (pairTupleString : String) (blockNumber : Int) : Except Failure Int :=
  let logQuarter := cfg.getQuarterForEpoch blockNumber
  let quarterEndEpoch := logQuarterEndEpoch cfg blockNumber
  let noRegistrationCutoffError : Failure := .typeError
    s!"Cannot bind pair {pairTupleString} at epoch {blockNumber} - no \"REGISTRATION_CUTOFF\" parameter found for quarter Q{logQuarter}."
  -- check registration cutoff only from Q1 onwards
  if 1 ≤ logQuarter then
    match (registrationCutoff db (logQuarterStartEpoch cfg blockNumber)).map cfg.toBigInt with
    | none => .error noRegistrationCutoffError
    | some none => .error noRegistrationCutoffError
    | some (some registrationCutoffEpochs) =>
        if cfg.epochsPerQuarter < registrationCutoffEpochs then
          .error (.typeError s!"\"REGISTRATION_CUTOFF\" param for quarter Q{logQuarter} has value {registrationCutoffEpochs} which is more than defined {cfg.epochsPerQuarter} epochs per quarter.")
        else
          .ok (quarterEndEpoch - registrationCutoffEpochs + 1)
  else
    .ok (quarterEndEpoch + 1)

def bindingStart (blockNumber cutoffStartEpoch : Int) (previous : Option ServicePair) : Int × Nat :=
  if cutoffStartEpoch ≤ blockNumber then
    (logQuarterEndEpoch cfg blockNumber + 1, 0)
  else
    match previous.bind (·.toEpoch) with
    | none => (logQuarterStartEpoch cfg blockNumber, 0)
    | some releaseEpoch =>
        if cfg.getQuarterForEpoch releaseEpoch ≠ cfg.getQuarterForEpoch blockNumber then
          (logQuarterStartEpoch cfg blockNumber, 0)
        else
          (releaseEpoch, (previous.bind (·.toLogIndex)).elim 0 (· + 1))

def nullable {α : Type} [ToString α] (value : Option α) : String :=
  value.elim "null" toString

def createBinding (db : DB) (log : ServiceRewardsActorLog) (payer operator orchestrator : Address) :
    Except Failure DB := do
  let pairTupleString := s!"(operator: {operator}, payer: {payer})"
  if db.servicePair.rows.any fun sp => sp.isActive payer.toLowerCase operator.toLowerCase then
    throw (.typeError s!"Cannot bind pair {pairTupleString}. Pair is already bound to another orchestrator.")
  let previous := previousBinding db payer.toLowerCase operator.toLowerCase
  let previousReleaseEpoch := previous.bind (·.toEpoch)
  let previousReleaseLogIndex := previous.bind (·.toLogIndex)
  if previousReleaseEpoch.any (log.blockNumber < ·) ||
      previousReleaseEpoch = some log.blockNumber && previousReleaseLogIndex.any (log.logIndex ≤ ·) then
    throw (.typeError s!"Trying to bind pair {pairTupleString} at epoch {log.blockNumber}, log index {log.logIndex} when it was released on epoch {nullable previousReleaseEpoch}, log index {nullable previousReleaseLogIndex}.")
  let cutoffStart ← cutoffStartEpoch cfg db pairTupleString log.blockNumber
  let start := bindingStart cfg log.blockNumber cutoffStart previous
  db.insertPair
    { serviceOrchestratorId := orchestrator.toLowerCase
      payer := payer.toLowerCase
      operator := operator.toLowerCase
      fromEpoch := start.1
      fromLogIndex := start.2
      toEpoch := none
      toLogIndex := none
      bindingEpoch := log.blockNumber
      bindingTxHash := log.transactionHash.toLower
      unbindingEpoch := none
      unbindingTxHash := none }

def registration (log : ServiceRewardsActorLog) (payer operator orchestrator : Address) : ServicePair where
  serviceOrchestratorId := orchestrator
  payer := payer
  operator := operator
  fromEpoch := log.blockNumber
  fromLogIndex := log.logIndex + 1
  toEpoch := none
  toLogIndex := none
  bindingEpoch := log.blockNumber
  bindingTxHash := log.transactionHash.toLower
  unbindingEpoch := none
  unbindingTxHash := none

def reassignBinding (db : DB) (log : ServiceRewardsActorLog) (payer operator orchestrator : Address)
    (inherit : Bool) : Except Failure DB :=
  let eventQuarterStartEpoch := logQuarterStartEpoch cfg log.blockNumber
  let newOrchestrator := orchestrator.toLowerCase
  let isActive := fun sp : ServicePair => sp.isActive payer.toLowerCase operator.toLowerCase
  let registrationQuery := registration log payer.toLowerCase operator.toLowerCase newOrchestrator
  if inherit then
    let movable := fun sp : ServicePair => isActive sp && (eventQuarterStartEpoch ≤ sp.fromEpoch : Bool)
    -- No reassignments means binding applies from before event quarter.
    if db.servicePair.rows.any movable then
      db.reassignPairs newOrchestrator movable
    else
      (db.releasePairs log fun sp => isActive sp && (sp.fromEpoch < eventQuarterStartEpoch : Bool)).insertPair
        registrationQuery
  else
    (db.releasePairs log isActive).insertPair registrationQuery

def cancelBinding (db : DB) (log : ServiceRewardsActorLog) (payer operator orchestrator : Address) : DB :=
  let isHeld := fun sp : ServicePair =>
    sp.isActive payer.toLowerCase operator.toLowerCase && sp.serviceOrchestratorId = orchestrator.toLowerCase
  (db.deletePairs fun sp => isHeld sp && sp.startsAfter log.blockNumber log.logIndex).releasePairs log isHeld

end Bindings

section Orchestrators

def ServiceOrchestratorAdmission.isActive (a : ServiceOrchestratorAdmission) (id : Address) : Bool :=
  a.serviceOrchestratorId = id ∧ a.removalEpoch = none

def admission (log : ServiceRewardsActorLog) (id wallet : Address) : ServiceOrchestratorAdmission where
  serviceOrchestratorId := id
  wallet := wallet
  admissionEpoch := log.blockNumber
  admissionLogIndex := log.logIndex
  admissionTxHash := log.transactionHash.toLower
  removalEpoch := none
  removalLogIndex := none
  removalTxHash := none

def ServiceOrchestratorAdmission.remove (log : ServiceRewardsActorLog) (a : ServiceOrchestratorAdmission) :
    ServiceOrchestratorAdmission :=
  { a with
    removalEpoch := some log.blockNumber
    removalLogIndex := some log.logIndex
    removalTxHash := some log.transactionHash.toLower }

theorem ServiceOrchestratorAdmission.remove_pkey (log : ServiceRewardsActorLog) (a : ServiceOrchestratorAdmission) :
    (a.remove log).pkey = a.pkey := rfl

def admitOrchestrator (db : DB) (log : ServiceRewardsActorLog) (orch wallet : Address) : Except Failure DB := do
  -- do nothing on conflict, must be re-admission
  let serviceOrchestrator := (db.serviceOrchestrator.insert? ⟨orch.toLowerCase⟩).getD db.serviceOrchestrator
  let serviceOrchestratorAdmission ← insert "service_orchestrator_admission_pkey"
    db.serviceOrchestratorAdmission (admission log orch.toLowerCase wallet.toLowerCase)
  if db.serviceOrchestratorAdmission.rows.any (·.isActive orch.toLowerCase) then
    throw (.uniqueViolation "service_orchestrator_admission_service_orchestrator_id_key")
  return { db with serviceOrchestrator, serviceOrchestratorAdmission }

def replaceWallet (db : DB) (oldOrch newWallet : Address) : DB :=
  let replaced := db.serviceOrchestratorAdmission.update (·.isActive oldOrch.toLowerCase)
    (fun a => { a with wallet := newWallet.toLowerCase }) fun _ => rfl
  { db with serviceOrchestratorAdmission := replaced }

def removeOrchestrator (db : DB) (log : ServiceRewardsActorLog) (orch : Address) : DB :=
  let isHeld := fun sp : ServicePair => sp.serviceOrchestratorId = orch.toLowerCase && sp.toEpoch = none
  let removed := db.serviceOrchestratorAdmission.update (·.isActive orch.toLowerCase)
    (ServiceOrchestratorAdmission.remove log) (ServiceOrchestratorAdmission.remove_pkey log)
  ({ db with serviceOrchestratorAdmission := removed : DB }.deletePairs fun sp => isHeld sp && sp.startsAfter log.blockNumber log.logIndex).releasePairs
    log isHeld

end Orchestrators

section Lists

def FilecoinPayContract.remove (log : ServiceRewardsActorLog) (c : FilecoinPayContract) : FilecoinPayContract :=
  { c with
    removalEpoch := some log.blockNumber
    removalLogIndex := some log.logIndex
    removalTxHash := some log.transactionHash.toLower }

def WhitelistedToken.remove (log : ServiceRewardsActorLog) (t : WhitelistedToken) : WhitelistedToken :=
  { t with
    removalEpoch := some log.blockNumber
    removalLogIndex := some log.logIndex
    removalTxHash := some log.transactionHash.toLower }

theorem FilecoinPayContract.remove_pkey (log : ServiceRewardsActorLog) (c : FilecoinPayContract) :
    (c.remove log).pkey = c.pkey := rfl

theorem WhitelistedToken.remove_pkey (log : ServiceRewardsActorLog) (t : WhitelistedToken) :
    (t.remove log).pkey = t.pkey := rfl

def DB.removeContracts (db : DB) (log : ServiceRewardsActorLog) (removed : List Address) : DB :=
  if removed = [] then db
  else
    let filecoinPayContract := db.filecoinPayContract.update
      (fun c => c.contractAddress ∈ removed ∧ c.removalEpoch = none) (FilecoinPayContract.remove log)
      (FilecoinPayContract.remove_pkey log)
    { db with filecoinPayContract }

def DB.removeTokens (db : DB) (log : ServiceRewardsActorLog) (removed : List Address) : Except Failure DB :=
  if removed = [] then .ok db
  else
    let whitelistedToken := db.whitelistedToken.update
      (fun t => t.tokenAddress ∈ removed ∧ t.removalEpoch = none) (WhitelistedToken.remove log)
      (WhitelistedToken.remove_pkey log)
    { db with whitelistedToken : DB }.refreshQualifiedPricePeriodsMv

def admittedContract (log : ServiceRewardsActorLog) (contractAddress : Address) : FilecoinPayContract where
  contractAddress := contractAddress
  admittanceEpoch := log.blockNumber
  admittanceLogIndex := log.logIndex
  admittanceTxHash := log.transactionHash.toLower
  removalEpoch := none
  removalLogIndex := none
  removalTxHash := none

def admittedToken (log : ServiceRewardsActorLog) (tokenAddress : Address) (metadata : ERC20Metadata) :
    WhitelistedToken where
  tokenAddress := tokenAddress
  tokenDecimals := metadata.decimals
  tokenSymbol := metadata.symbol
  admittanceEpoch := log.blockNumber
  admittanceLogIndex := log.logIndex
  admittanceTxHash := log.transactionHash.toLower
  removalEpoch := none
  removalLogIndex := none
  removalTxHash := none

def DB.addContracts (db : DB) (log : ServiceRewardsActorLog) (added : List Address) : Except Failure DB := do
  let filecoinPayContract ←
    insertAll "filecoin_pay_contract_pkey" db.filecoinPayContract (added.map (admittedContract log))
  return { db with filecoinPayContract }

def DB.addToken (tokensMap : List (Address × ERC20Metadata)) (log : ServiceRewardsActorLog) (db : DB)
    (tokenAddress : Address) : Except Failure DB :=
  match tokensMap.lookup tokenAddress with
  -- silently skip tokens for which metadata was not found
  | none => .ok db
  | some metadata => do
      let whitelistedToken ←
        insert "whitelisted_token_pkey" db.whitelistedToken (admittedToken log tokenAddress metadata)
      { db with whitelistedToken : DB }.refreshQualifiedPricePeriodsMv

def DB.whitelistedContractsAddresses (db : DB) : List Address :=
  (db.filecoinPayContract.rows.filter (·.removalEpoch = none)).map (·.contractAddress.toLowerCase)

def DB.whitelistedTokensAddresses (db : DB) : List Address :=
  (db.whitelistedToken.rows.filter (·.removalEpoch = none)).map (·.tokenAddress.toLowerCase)

def updatedAdmittedLists (tokensMap : List (Address × ERC20Metadata)) (db : DB) (log : ServiceRewardsActorLog)
    (stablecoins filecoinPayContracts : List Address) : Except Failure DB := do
  let whitelistedContractsAddresses := db.whitelistedContractsAddresses
  let whitelistedTokensAddresses := db.whitelistedTokensAddresses
  let admittedContracts := filecoinPayContracts.map (·.toLowerCase)
  let admittedTokens := stablecoins.map (·.toLowerCase)
  let db := db.removeContracts log (whitelistedContractsAddresses.filter (· ∉ admittedContracts))
  let db ← db.removeTokens log (whitelistedTokensAddresses.filter (· ∉ admittedTokens))
  let db ← db.addContracts log (admittedContracts.filter (· ∉ whitelistedContractsAddresses))
  (admittedTokens.filter (· ∉ whitelistedTokensAddresses)).foldlM (DB.addToken tokensMap log) db

end Lists

def parameterRow (log : ServiceRewardsActorLog) (pair : ServiceRewardsActorParameterType × Nat) :
    Except Failure ServiceRewardsActorParameter := do
  let parameterValue ← decimal 65 30 pair.2
  return {
    parameterType := pair.1
    parameterValue
    updateEpoch := log.blockNumber
    updateLogIndex := log.logIndex
    updateTxHash := log.transactionHash.toLower }

def updatePricingParams (db : DB) (log : ServiceRewardsActorLog)
    (minLotFloor minLotAlphaNum minLotAlphaDen priceBand registrationCutoff : Nat) : Except Failure DB := do
  let rows ← [(.minLotFloor, minLotFloor), (.minLotAlphaNumerator, minLotAlphaNum),
    (.minLotAlphaDenominator, minLotAlphaDen), (.priceBandBps, priceBand),
    (.registrationCutoffEpochs, registrationCutoff)].mapM (parameterRow log)
  let serviceRewardsActorParameter ←
    insertAll "service_rewards_actor_parameter_pkey" db.serviceRewardsActorParameter rows
  { db with serviceRewardsActorParameter : DB }.refreshQualifiedPricePeriodsMv

def postVolume (db : DB) (log : ServiceRewardsActorLog) (q : Nat) (orchestrator : Address) (volume : Nat)
    (isCorrection : Bool) : Except Failure DB := do
  let quarterNum ← integer q
  let volumeAttoUsd ← decimal 65 30 volume
  let serviceOrchestratorQuarterlyVolume ← insert "service_orchestrator_quarterly_volume_pkey"
    db.serviceOrchestratorQuarterlyVolume
    { serviceOrchestratorId := orchestrator.toLowerCase
      quarterNum
      volumeAttoUsd
      isCorrection
      postingEpoch := log.blockNumber
      postingLogIndex := log.logIndex
      postingTxHash := log.transactionHash }
  return { db with serviceOrchestratorQuarterlyVolume }

def submitShares (db : DB) (log : ServiceRewardsActorLog) (q totalUsd : Nat) : Except Failure DB := do
  let quarterNum ← integer q
  let volumeAttoUsd ← decimal 65 30 totalUsd
  let quarterBoundVolume ← insert "quarter_bound_volume_pkey" db.quarterBoundVolume
    { quarterNum, volumeAttoUsd, epoch := log.blockNumber, txHash := log.transactionHash.toLower }
  { db with quarterBoundVolume : DB }.refreshQualifiedPricePeriodsMv

namespace ServiceRewardsActorIndexer
variable (cfg : Deployment)

def handleLog (tokensMap : List (Address × ERC20Metadata)) (db : DB) (log : ServiceRewardsActorLog) :
    Except Failure DB :=
  match log.event with
  | .orchestratorAdmitted orch wallet => admitOrchestrator db log orch wallet
  | .orchestratorRemoved orch => .ok (removeOrchestrator db log orch)
  | .orchestratorWalletReplaced oldOrch newWallet => .ok (replaceWallet db oldOrch newWallet)
  | .bindingDeclared payer operator orchestrator => createBinding cfg db log payer operator orchestrator
  | .bindingReassigned payer operator orchestrator inherit =>
      reassignBinding cfg db log payer operator orchestrator inherit
  | .bindingCanceled payer operator orchestrator => .ok (cancelBinding db log payer operator orchestrator)
  | .admittedListsUpdated stablecoins filecoinPayContracts =>
      updatedAdmittedLists tokensMap db log stablecoins filecoinPayContracts
  | .pricingParamsUpdated minLotFloor minLotAlphaNum minLotAlphaDen priceBand registrationCutoff =>
      updatePricingParams db log minLotFloor minLotAlphaNum minLotAlphaDen priceBand registrationCutoff
  | .volumePosted q orchestrator volume => postVolume db log q orchestrator volume false
  | .volumeCorrected q orchestrator volume => postVolume db log q orchestrator volume true
  | .sharesSubmitted q _ totalUsd => submitShares db log q totalUsd

def updateDb (services : TokenServices) (db : DB) (logs : List ServiceRewardsActorLog) : Except Failure DB := do
  let tokensMap ← fetchTokensMap services logs
  logs.foldlM (handleLog cfg tokensMap) db

end ServiceRewardsActorIndexer
end FpvIndexer
