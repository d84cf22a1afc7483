import FpvIndexer.Proof.Effects
import FpvIndexer.Proof.Reachable
import FpvIndexer.Services.IndexerOrchestrator

namespace FpvIndexer
namespace Proof.Storage
open Relational Handlers

inductive DecodedLog
  | filecoinPayV1 (log : FilecoinPayV1Log)
  | transfer (services : AuctionServices) (log : TransferLog) (chainTx : Transaction)
      (found : services.getTransaction log.transactionHash = .ok chainTx)
  | serviceRewardsActor (services : TokenServices) (log : ServiceRewardsActorLog)
      (tokensMap : List (Address × ERC20Metadata)) (fetched : fetchTokensMap services [log] = .ok tokensMap)
  | streamWeightActor (log : StreamWeightActorLog)

def DecodedLog.logs (cfg : Deployment) : DecodedLog → Logs
  | filecoinPayV1 log => .batch cfg (.filecoinPayV1 [log])
  | transfer services log _ _ => .batch cfg (.auctionableToken services [log])
  | serviceRewardsActor services log _ _ => .batch cfg (.serviceRewardsActor services [log])
  | streamWeightActor log => .streamWeightActor [log]

def DecodedLog.updateDb (cfg : Deployment) (store : Store) (log : DecodedLog) : Except Failure Store :=
  store.updateDb (log.logs cfg)

section Range

/-- The values that the ABI can decode: `uint256`, and `uint64` for a quarter and for steps. -/
def FilecoinPayV1Event.InAbiRange : FilecoinPayV1Event → Prop
  | .railCreated railId .. => railId < 2 ^ 256
  | .railOneTimePaymentProcessed railId netPayeeAmount operatorCommission networkFee =>
      ∀ value ∈ [railId, netPayeeAmount, operatorCommission, networkFee], value < 2 ^ 256
  | .railSettled railId totalSettledAmount totalNetPayeeAmount operatorCommission networkFee =>
      ∀ value ∈ [railId, totalSettledAmount, totalNetPayeeAmount, operatorCommission, networkFee], value < 2 ^ 256

def ServiceRewardsActorEvent.InAbiRange : ServiceRewardsActorEvent → Prop
  | .pricingParamsUpdated minLotFloor minLotAlphaNum minLotAlphaDen priceBand registrationCutoff =>
      ∀ value ∈ [minLotFloor, minLotAlphaNum, minLotAlphaDen, priceBand, registrationCutoff], value < 2 ^ 256
  | .volumePosted q _ volume => q < 2 ^ 64 ∧ volume < 2 ^ 256
  | .volumeCorrected q _ volume => q < 2 ^ 64 ∧ volume < 2 ^ 256
  | .sharesSubmitted q recipientCount totalUsd => q < 2 ^ 64 ∧ recipientCount < 2 ^ 256 ∧ totalUsd < 2 ^ 256
  | _ => True

def StreamWeightActorEvent.InAbiRange : StreamWeightActorEvent → Prop
  | .gateParamsSet base stepRatio steps => base < 2 ^ 256 ∧ stepRatio < 2 ^ 256 ∧ steps < 2 ^ 64
  | .quarterlyGateCheckResult quarter _ steps => quarter < 2 ^ 64 ∧ steps < 2 ^ 64

def DecodedLog.InAbiRange : DecodedLog → Prop
  | filecoinPayV1 log => FilecoinPayV1Event.InAbiRange log.event
  | transfer _ log chainTx _ => log.value < 2 ^ 256 ∧ chainTx.value < 2 ^ 256
  | serviceRewardsActor _ log _ _ => ServiceRewardsActorEvent.InAbiRange log.event
  | streamWeightActor log => StreamWeightActorEvent.InAbiRange log.event

/-- The parameters and volumes have at most 35 digits, and the quarter fits an `INTEGER`. -/
def ServiceRewardsActorEvent.Fits : ServiceRewardsActorEvent → Prop
  | .pricingParamsUpdated minLotFloor minLotAlphaNum minLotAlphaDen priceBand registrationCutoff =>
      ∀ value ∈ [minLotFloor, minLotAlphaNum, minLotAlphaDen, priceBand, registrationCutoff], value < 10 ^ 35
  | .volumePosted q _ volume => q < 2 ^ 31 ∧ volume < 10 ^ 35
  | .volumeCorrected q _ volume => q < 2 ^ 31 ∧ volume < 10 ^ 35
  | .sharesSubmitted q _ totalUsd => q < 2 ^ 31 ∧ totalUsd < 10 ^ 35
  | _ => True

/-- The steps and the quarters fit a `BIGINT`. -/
def StreamWeightActorEvent.Fits : StreamWeightActorEvent → Prop
  | .gateParamsSet _ _ steps => steps < 2 ^ 63
  | .quarterlyGateCheckResult quarter _ steps => quarter < 2 ^ 63 ∧ steps < 2 ^ 63

def DecodedLog.Fits : DecodedLog → Prop
  | serviceRewardsActor _ log _ _ => ServiceRewardsActorEvent.Fits log.event
  | streamWeightActor log => StreamWeightActorEvent.Fits log.event
  | _ => True

end Range

section ReadBack
variable (cfg : Deployment) (next : DB)

def readsBack (stored : ℚ) (value : Nat) : Prop := stored = value ∧ cfg.toBigInt stored = some (value : Int)

def paymentReadBack (log : FilecoinPayV1Log) (railId totalAmount netPayeeAmount operatorCommission networkFee : Nat) : Prop :=
  ∃ p ∈ next.filecoinPayPayment.rows, p.filecoinPayContractAddress = log.address.toLowerCase ∧
    p.position = ⟨log.blockNumber, log.logIndex⟩ ∧ p.railId = railId ∧ p.totalAmount = totalAmount ∧
      p.netPayeeAmount = netPayeeAmount ∧ p.operatorCommission = operatorCommission ∧ p.networkFee = networkFee

def filecoinPayV1ReadBack (log : FilecoinPayV1Log) : FilecoinPayV1Event → Prop
  | .railCreated railId .. => ∃ r ∈ next.filecoinPayRail.rows,
      r.filecoinPayContractAddress = log.address.toLowerCase ∧ r.logIndex = log.logIndex ∧ r.railId = railId
  | .railOneTimePaymentProcessed railId netPayeeAmount operatorCommission networkFee =>
      paymentReadBack next log railId (netPayeeAmount + networkFee + operatorCommission) netPayeeAmount
        operatorCommission networkFee
  | .railSettled railId totalSettledAmount totalNetPayeeAmount operatorCommission networkFee =>
      paymentReadBack next log railId totalSettledAmount totalNetPayeeAmount operatorCommission networkFee

def auctionReadBack (log : TransferLog) (chainTx : Transaction) : Option FilecoinPayV1Call → Prop
  | some (.burnForFees ..) => ∃ a ∈ next.filecoinPayFeeAuction.rows, a.position = log.position ∧
      a.amountActual = log.value ∧ a.filBurned = chainTx.value
  | _ => True

def parameterReadBack (log : ServiceRewardsActorLog) (pair : ServiceRewardsActorParameterType × Nat) : Prop :=
  ∃ p ∈ next.serviceRewardsActorParameter.rows, p.parameterType = pair.1 ∧ p.position = log.position ∧
    readsBack cfg p.parameterValue pair.2

def volumeReadBack (log : ServiceRewardsActorLog) (q : Nat) (orchestrator : Address) (volume : Nat) (isCorrection : Bool) :
    Prop :=
  ∃ v ∈ next.serviceOrchestratorQuarterlyVolume.rows, v.serviceOrchestratorId = orchestrator.toLowerCase ∧
    v.postingEpoch = log.blockNumber ∧ v.postingLogIndex = log.logIndex ∧ v.isCorrection = isCorrection ∧
      v.quarterNum = q ∧ readsBack cfg v.volumeAttoUsd volume

def serviceRewardsActorReadBack (log : ServiceRewardsActorLog) : ServiceRewardsActorEvent → Prop
  | .pricingParamsUpdated minLotFloor minLotAlphaNum minLotAlphaDen priceBand registrationCutoff =>
      ∀ pair ∈ [(.minLotFloor, minLotFloor), (.minLotAlphaNumerator, minLotAlphaNum),
        (.minLotAlphaDenominator, minLotAlphaDen), (.priceBandBps, priceBand),
        (.registrationCutoffEpochs, registrationCutoff)], parameterReadBack cfg next log pair
  | .volumePosted q orchestrator volume => volumeReadBack cfg next log q orchestrator volume false
  | .volumeCorrected q orchestrator volume => volumeReadBack cfg next log q orchestrator volume true
  | .sharesSubmitted q _ totalUsd => ∃ v ∈ next.quarterBoundVolume.rows, v.quarterNum = q ∧
      readsBack cfg v.volumeAttoUsd totalUsd
  | _ => True

def streamWeightActorReadBack (next : Store) (log : StreamWeightActorLog) : StreamWeightActorEvent → Prop
  | .gateParamsSet base stepRatio steps => ∃ p ∈ next.streamWeightActorParameters.rows,
      p.pkey = (log.blockNumber, log.logIndex) ∧ p.baseAttoUsd = base ∧ p.stepRatio = stepRatio ∧ p.steps = steps
  | .quarterlyGateCheckResult quarter passed steps => ∃ c ∈ next.quarterlyGateCheck.rows,
      c.pkey = (log.blockNumber, log.logIndex) ∧ c.quarter = quarter ∧ c.passed = passed ∧ c.stepsAfter = steps ∧
        c.stepsBefore = steps - if passed then 1 else 0

/-- Every value of the log is in the table it belongs to, the same integer as in the event. -/
def DecodedLog.ReadBack (next : Store) : DecodedLog → Prop
  | filecoinPayV1 log => filecoinPayV1ReadBack next.toDB log log.event
  | transfer services log chainTx _ =>
      auctionReadBack next.toDB log chainTx (safeFilecoinPayV1Decode services chainTx.input)
  | serviceRewardsActor _ log _ _ => serviceRewardsActorReadBack cfg next.toDB log log.event
  | streamWeightActor log => streamWeightActorReadBack next log log.event

end ReadBack

section Ready
variable (db : DB)

def Refreshes : Prop := ∃ next, db.refreshQualifiedPricePeriodsMv = .ok next

def filecoinPayV1Ready (log : FilecoinPayV1Log) : FilecoinPayV1Event → Prop
  | .railCreated railId .. => (log.address.toLowerCase, railId) ∉ db.filecoinPayRail.rows.map (·.pkey)
  | .railOneTimePaymentProcessed railId .. => (log.address.toLowerCase, railId) ∈ db.filecoinPayRail.rows.map (·.pkey)
  | .railSettled railId .. => (log.address.toLowerCase, railId) ∈ db.filecoinPayRail.rows.map (·.pkey)

def auctionReady (log : TransferLog) (chainTx : Transaction) : Option FilecoinPayV1Call → Prop
  | some (.burnForFees token _ _) => ∀ (auctions : Table FilecoinPayFeeAuction FilecoinPayFeeAuction.id) (id : Nat),
      auctions.rows = db.filecoinPayFeeAuction.rows ++ [⟨auctionInput log chainTx token, id⟩] →
        Refreshes { db with filecoinPayFeeAuction := auctions }
  | _ => True

def parameterRows (log : ServiceRewardsActorLog) (pairs : List (ServiceRewardsActorParameterType × Nat)) :
    List ServiceRewardsActorParameter :=
  pairs.map fun pair => ⟨pair.1, pair.2, log.blockNumber, log.logIndex, log.transactionHash.toLower⟩

def volumeFree (log : ServiceRewardsActorLog) (q : Nat) (orchestrator : Address) : Prop :=
  (orchestrator.toLowerCase, q, log.blockNumber, log.logIndex) ∉
    db.serviceOrchestratorQuarterlyVolume.rows.map (·.pkey)

def serviceRewardsActorReady (log : ServiceRewardsActorLog) : ServiceRewardsActorEvent → Prop
  | .pricingParamsUpdated minLotFloor minLotAlphaNum minLotAlphaDen priceBand registrationCutoff =>
      (∀ p ∈ db.serviceRewardsActorParameter.rows, p.position ≠ log.position) ∧
        ∀ parameters : Table ServiceRewardsActorParameter ServiceRewardsActorParameter.pkey,
          parameters.rows = db.serviceRewardsActorParameter.rows ++ parameterRows log [(.minLotFloor, minLotFloor),
            (.minLotAlphaNumerator, minLotAlphaNum), (.minLotAlphaDenominator, minLotAlphaDen),
            (.priceBandBps, priceBand), (.registrationCutoffEpochs, registrationCutoff)] →
          Refreshes { db with serviceRewardsActorParameter := parameters }
  | .volumePosted q orchestrator _ => volumeFree db log q orchestrator
  | .volumeCorrected q orchestrator _ => volumeFree db log q orchestrator
  | .sharesSubmitted q _ totalUsd => q ∉ db.quarterBoundVolume.rows.map (·.quarterNum) ∧
      ∀ volumes : Table QuarterBoundVolume QuarterBoundVolume.quarterNum,
        volumes.rows = db.quarterBoundVolume.rows ++ [⟨q, totalUsd, log.blockNumber, log.transactionHash.toLower⟩] →
          Refreshes { db with quarterBoundVolume := volumes }
  | _ => False

def streamWeightActorReady (store : Store) (log : StreamWeightActorLog) : StreamWeightActorEvent → Prop
  | .gateParamsSet .. => (log.blockNumber, log.logIndex) ∉ store.streamWeightActorParameters.rows.map (·.pkey)
  | .quarterlyGateCheckResult .. => (log.blockNumber, log.logIndex) ∉ store.quarterlyGateCheck.rows.map (·.pkey)

/-- The log has values to store and nothing but their size is in the way: its rows are not there yet, the rail of
a payment is, and the view takes what is computed afterwards. -/
def DecodedLog.Ready (store : Store) : DecodedLog → Prop
  | filecoinPayV1 log => filecoinPayV1Ready store.toDB log log.event
  | transfer services log chainTx _ =>
      auctionReady store.toDB log chainTx (safeFilecoinPayV1Decode services chainTx.input)
  | serviceRewardsActor _ log _ _ => serviceRewardsActorReady store.toDB log log.event
  | streamWeightActor log => streamWeightActorReady store log log.event

end Ready

structure DecodedLog.Survives (cfg : Deployment) (log : DecodedLog) : Prop where
  accepted : ∀ store, log.updateDb cfg store ≠ .error .numericValueOutOfRange
  readBack : ∀ store next, log.updateDb cfg store = .ok next → log.ReadBack cfg next
  stored : ∀ store, log.Ready store → ∃ next, log.updateDb cfg store = .ok next

def InColumns {α : Type} (x : Except Failure α) : Prop := x ≠ .error .numericValueOutOfRange

section InColumns
variable {α β : Type}

@[simp] theorem inColumns_ok (a : α) : InColumns (.ok a : Except Failure α) := by simp [InColumns]

@[simp] theorem inColumns_pure (a : α) : InColumns (pure a : Except Failure α) := inColumns_ok a

@[simp] theorem inColumns_error {failure : Failure} :
    InColumns (.error failure : Except Failure α) ↔ failure ≠ .numericValueOutOfRange := by simp [InColumns]

@[simp] theorem inColumns_throw {failure : Failure} :
    InColumns (throw failure : Except Failure α) ↔ failure ≠ .numericValueOutOfRange := inColumns_error

@[simp] theorem inColumns_bind {x : Except Failure α} {f : α → Except Failure β} :
    InColumns (x >>= f) ↔ InColumns x ∧ ∀ a, x = .ok a → InColumns (f a) := by
  cases x with
  | error failure => simp [bind, Except.bind]
  | ok a => simp [bind, Except.bind]

@[simp] theorem inColumns_map {f : α → β} {x : Except Failure α} : InColumns (f <$> x) ↔ InColumns x := by
  cases x <;> simp [Functor.map, Except.map]

@[simp] theorem inColumns_ite {c : Prop} [Decidable c] {x y : Except Failure α} :
    InColumns (if c then x else y) ↔ (c → InColumns x) ∧ (¬ c → InColumns y) := by
  by_cases h : c <;> simp [h]

@[simp] theorem decimal_eq_ok_iff {precision scale value stored : Nat} :
    decimal precision scale value = .ok stored ↔ value < 10 ^ (precision - scale) ∧ value = stored := by
  unfold decimal
  by_cases small : value < 10 ^ (precision - scale) <;> simp [small]

@[simp] theorem inColumns_decimal {precision scale value : Nat} :
    InColumns (decimal precision scale value) ↔ value < 10 ^ (precision - scale) := by
  simp [decimal]

@[simp] theorem integer_eq_ok_iff {value stored : Nat} : integer value = .ok stored ↔ value < 2 ^ 31 ∧ value = stored := by
  unfold integer
  split
  · rename_i small
    exact ⟨fun same => ⟨small, Except.ok.inj same⟩, fun fits => congrArg _ fits.2⟩
  · rename_i large
    exact ⟨fun failed => (by cases failed), fun fits => absurd fits.1 large⟩

@[simp] theorem inColumns_integer {value : Nat} : InColumns (integer value) ↔ value < 2 ^ 31 := by
  simp [integer]

@[simp] theorem inColumns_insert {κ : Type} {key : α → κ} [DecidableEq κ] (pkey : String) (t : Table α key) (row : α) :
    InColumns (insert pkey t row) := by
  unfold insert
  split <;> simp

@[simp] theorem inColumns_insertAll {κ : Type} {key : α → κ} [DecidableEq κ] (pkey : String) (t : Table α key)
    (rows : List α) : InColumns (insertAll pkey t rows) := by
  unfold insertAll
  split <;> simp

@[simp] theorem inColumns_refresh (db : DB) : InColumns db.refreshQualifiedPricePeriodsMv := by
  unfold DB.refreshQualifiedPricePeriodsMv
  split
  · simp
  · split <;> simp

theorem inColumns_foldlM {step : β → α → Except Failure β} (steps : ∀ b a, InColumns (step b a)) (items : List α) (start : β) :
    InColumns (items.foldlM step start) := by
  induction items generalizing start with
  | nil => simp
  | cons item rest ih => simp [steps, ih]

end InColumns

theorem survives_of_batch {cfg : Deployment} {log : DecodedLog} {batch : Batch} (logs : log.logs cfg = .batch cfg batch)
    (accepted : ∀ db, InColumns (index cfg db batch))
    (readBack : ∀ (store : Store) db, index cfg store.toDB batch = .ok db → log.ReadBack cfg { store with toDB := db })
    (stored : ∀ store, log.Ready store → ∃ db, index cfg store.toDB batch = .ok db) : log.Survives cfg := by
  have updated : ∀ store : Store, log.updateDb cfg store =
      (do let db ← index cfg store.toDB batch
          return { store with toDB := db }) := by
    intro store
    rw [DecodedLog.updateDb, logs]
    rfl
  refine ⟨?_, ?_, ?_⟩
  · intro store
    rw [updated]
    exact inColumns_bind.mpr ⟨accepted _, fun _ _ => inColumns_pure _⟩
  · intro store next indexed
    rw [updated] at indexed
    obtain ⟨db, applied, indexed⟩ := bind_eq_ok.mp indexed
    obtain rfl := pure_eq_ok.mp indexed
    exact readBack store db applied
  · intro store ready
    obtain ⟨db, applied⟩ := stored store ready
    rw [updated, applied]
    exact ⟨_, rfl⟩

section Handlers
variable {cfg : Deployment} {db : DB} {log : ServiceRewardsActorLog}

@[simp] theorem inColumns_insertPair (row : ServicePair) : InColumns (db.insertPair row) := by
  simp [DB.insertPair]

theorem inColumns_cutoffStartEpoch (pair : String) (blockNumber : Int) :
    InColumns (cutoffStartEpoch cfg db pair blockNumber) := by
  unfold cutoffStartEpoch
  dsimp only
  split
  · split
    · simp
    · simp
    · split <;> simp
  · simp

theorem inColumns_createBinding (payer operator orchestrator : Address) :
    InColumns (createBinding cfg db log payer operator orchestrator) := by
  simp [createBinding, inColumns_cutoffStartEpoch]

theorem inColumns_reassignBinding (payer operator orchestrator : Address) (inherit : Bool) :
    InColumns (reassignBinding cfg db log payer operator orchestrator inherit) := by
  simp [reassignBinding, DB.reassignPairs]

theorem inColumns_admitOrchestrator (orch wallet : Address) : InColumns (admitOrchestrator db log orch wallet) := by
  simp [admitOrchestrator]

theorem inColumns_addToken (tokensMap : List (Address × ERC20Metadata)) (db : DB) (token : Address) :
    InColumns (DB.addToken tokensMap log db token) := by
  unfold DB.addToken
  split <;> simp

theorem inColumns_updatedAdmittedLists (tokensMap : List (Address × ERC20Metadata))
    (stablecoins filecoinPayContracts : List Address) :
    InColumns (updatedAdmittedLists tokensMap db log stablecoins filecoinPayContracts) := by
  simp [updatedAdmittedLists, DB.removeTokens, DB.addContracts, inColumns_foldlM, inColumns_addToken]

theorem parameterRow_guarded (pair : ServiceRewardsActorParameterType × Nat) : parameterRow log pair =
    if pair.2 < 10 ^ 35 then .ok ⟨pair.1, pair.2, log.blockNumber, log.logIndex, log.transactionHash.toLower⟩
    else .error .numericValueOutOfRange := by
  unfold parameterRow decimal
  split <;> rfl

theorem inColumns_parameterRows (pairs : List (ServiceRewardsActorParameterType × Nat)) :
    InColumns (pairs.mapM (parameterRow log)) ↔ ∀ pair ∈ pairs, pair.2 < 10 ^ 35 := by
  rw [mapM_guarded parameterRow_guarded]
  simp

theorem inColumns_updatePricingParams (minLotFloor minLotAlphaNum minLotAlphaDen priceBand registrationCutoff : Nat) :
    InColumns (updatePricingParams db log minLotFloor minLotAlphaNum minLotAlphaDen priceBand registrationCutoff) ↔
      ∀ value ∈ [minLotFloor, minLotAlphaNum, minLotAlphaDen, priceBand, registrationCutoff], value < 10 ^ 35 := by
  unfold updatePricingParams
  rw [inColumns_bind, inColumns_parameterRows]
  simp

theorem inColumns_postVolume (q : Nat) (orchestrator : Address) (volume : Nat) (isCorrection : Bool) :
    InColumns (postVolume db log q orchestrator volume isCorrection) ↔ q < 2 ^ 31 ∧ volume < 10 ^ 35 := by
  simp only [postVolume, inColumns_bind, inColumns_integer, integer_eq_ok_iff, inColumns_decimal, inColumns_insert,
    inColumns_pure, implies_true, and_true]
  exact ⟨fun fits => ⟨fits.1, fits.2 q ⟨fits.1, rfl⟩⟩, fun fits => ⟨fits.1, fun _ _ => fits.2⟩⟩

theorem inColumns_submitShares (q totalUsd : Nat) :
    InColumns (submitShares db log q totalUsd) ↔ q < 2 ^ 31 ∧ totalUsd < 10 ^ 35 := by
  simp only [submitShares, inColumns_bind, inColumns_integer, integer_eq_ok_iff, inColumns_decimal, inColumns_insert,
    inColumns_refresh, implies_true, and_true]
  exact ⟨fun fits => ⟨fits.1, fits.2 q ⟨fits.1, rfl⟩⟩, fun fits => ⟨fits.1, fun _ _ => fits.2⟩⟩

theorem serviceRewardsActor_updateDb {services : TokenServices} {tokensMap : List (Address × ERC20Metadata)}
    (fetched : fetchTokensMap services [log] = .ok tokensMap) : ServiceRewardsActorIndexer.updateDb cfg services db [log] =
      ServiceRewardsActorIndexer.handleLog cfg tokensMap db log := by
  unfold ServiceRewardsActorIndexer.updateDb
  rw [fetched]
  exact foldlM_singleton _ db log

theorem inColumns_handleLog (tokensMap : List (Address × ERC20Metadata)) :
    InColumns (ServiceRewardsActorIndexer.handleLog cfg tokensMap db log) ↔ ServiceRewardsActorEvent.Fits log.event := by
  unfold ServiceRewardsActorIndexer.handleLog ServiceRewardsActorEvent.Fits
  cases log.event with
  | orchestratorAdmitted => exact iff_of_true (inColumns_admitOrchestrator _ _) trivial
  | orchestratorRemoved => exact iff_of_true (inColumns_ok _) trivial
  | orchestratorWalletReplaced => exact iff_of_true (inColumns_ok _) trivial
  | bindingDeclared => exact iff_of_true (inColumns_createBinding _ _ _) trivial
  | bindingReassigned => exact iff_of_true (inColumns_reassignBinding _ _ _ _) trivial
  | bindingCanceled => exact iff_of_true (inColumns_ok _) trivial
  | admittedListsUpdated => exact iff_of_true (inColumns_updatedAdmittedLists _ _ _) trivial
  | pricingParamsUpdated => exact inColumns_updatePricingParams _ _ _ _ _
  | volumePosted => exact inColumns_postVolume _ _ _ _
  | volumeCorrected => exact inColumns_postVolume _ _ _ _
  | sharesSubmitted => exact inColumns_submitShares _ _

end Handlers

section FilecoinPayV1
variable {db next : DB} {log : FilecoinPayV1Log}

theorem uint256_lt_decimal {value : Nat} (small : value < 2 ^ 256) : value < 10 ^ (78 - 0) :=
  small.trans (by decide)

theorem insertRail_eq {row : FilecoinPayRail} (small : row.railId < 2 ^ 256) : db.insertRail row =
    (do let filecoinPayRail ← insert "filecoin_pay_rail_pkey" db.filecoinPayRail row
        return { db with filecoinPayRail }) := by
  have fits := decimal_eq_ok_iff.mpr ⟨uint256_lt_decimal small, rfl⟩
  unfold DB.insertRail
  rw [fits]
  rfl

def FitColumns (input : FilecoinPayPaymentInput) : Prop :=
  ∀ value ∈ [input.railId, input.totalAmount, input.netPayeeAmount, input.operatorCommission, input.networkFee],
    value < 10 ^ (78 - 0)

theorem insertPayment_eq {input : FilecoinPayPaymentInput} (small : FitColumns input) : db.insertPayment input =
    (do let filecoinPayPayment ← insert "filecoin_pay_payment_pkey" db.filecoinPayPayment
          { toFilecoinPayPaymentInput := input, id := freshId (db.filecoinPayPayment.rows.map (·.id)) }
        if db.hasRail input then return { db with filecoinPayPayment }
        else throw (.foreignKeyViolation "filecoin_pay_payment_filecoin_pay_contract_address_rail_id_fkey")) := by
  have guarded : ∀ value : Nat, decimal 78 0 value =
      if value < 10 ^ (78 - 0) then .ok value else .error .numericValueOutOfRange := fun _ => rfl
  have fits : [input.railId, input.totalAmount, input.netPayeeAmount, input.operatorCommission,
      input.networkFee].mapM (decimal 78 0) = .ok (List.map id [input.railId, input.totalAmount, input.netPayeeAmount,
      input.operatorCommission, input.networkFee]) := by
    rw [mapM_guarded guarded]
    exact if_pos small
  unfold DB.insertPayment
  rw [fits]
  rfl

theorem insertPayment_stored {input : FilecoinPayPaymentInput} (small : FitColumns input) (rail : db.hasRail input) :
    ∃ next, db.insertPayment input = .ok next := by
  obtain ⟨payments, inserted, -⟩ := exists_insert "filecoin_pay_payment_pkey" db.filecoinPayPayment
    ⟨input, freshId (db.filecoinPayPayment.rows.map (·.id))⟩ (freshId_not_mem _)
  rw [insertPayment_eq small, inserted]
  exact ⟨_, if_pos rail⟩

theorem insertPayment_inColumns {input : FilecoinPayPaymentInput} (small : FitColumns input) :
    InColumns (db.insertPayment input) := by
  simp [insertPayment_eq small]

theorem fitColumns_of_inAbiRange {input : FilecoinPayPaymentInput} (paid : paymentInput log = some input)
    (inRange : FilecoinPayV1Event.InAbiRange log.event) : FitColumns input := by
  unfold paymentInput at paid
  cases event : log.event with
  | railCreated =>
      rw [event] at paid
      cases paid
  | railOneTimePaymentProcessed railId netPayeeAmount operatorCommission networkFee =>
      rw [event] at paid inRange
      cases paid
      -- three amounts below 2 ^ 256 still have at most 78 digits
      simp only [FilecoinPayV1Event.InAbiRange, FitColumns, List.forall_mem_cons, List.not_mem_nil, false_implies,
        implies_true, and_true] at inRange ⊢
      omega
  | railSettled railId totalSettledAmount totalNetPayeeAmount operatorCommission networkFee =>
      rw [event] at paid inRange
      cases paid
      intro value member
      exact uint256_lt_decimal (inRange value member)

theorem filecoinPayV1_updateDb (db : DB) (log : FilecoinPayV1Log) :
    (∃ row, railInput log = some row ∧ FilecoinPayV1Indexer.updateDb db [log] = db.insertRail row) ∨
      ∃ input, paymentInput log = some input ∧ FilecoinPayV1Indexer.updateDb db [log] = db.insertPayment input := by
  cases event : log.event <;>
    simp [FilecoinPayV1Indexer.updateDb, getRailsInputs, getPaymentsInputs, railInput, paymentInput, event]

theorem railId_of_railInput {row : FilecoinPayRail} (created : railInput log = some row) :
    ∃ railId payer payee token operator validator,
      log.event = .railCreated railId payer payee token operator validator ∧ row.railId = railId ∧
        row.filecoinPayContractAddress = log.address.toLowerCase ∧ row.logIndex = log.logIndex := by
  unfold railInput at created
  split at created
  · rename_i event
    cases created
    exact ⟨_, _, _, _, _, _, event, rfl, rfl, rfl⟩
  · cases created

theorem readBack_of_paid {next : DB} {input : FilecoinPayPaymentInput} (paid : paymentInput log = some input)
    {payment : FilecoinPayPayment} (stored : payment ∈ next.filecoinPayPayment.rows)
    (same : payment.toFilecoinPayPaymentInput = input) : filecoinPayV1ReadBack next log log.event := by
  unfold paymentInput at paid
  cases event : log.event with
  | railCreated =>
      rw [event] at paid
      cases paid
  | railOneTimePaymentProcessed =>
      rw [event] at paid
      cases paid
      refine ⟨payment, stored, ?_⟩
      simp [FilecoinPayPayment.position, same]
  | railSettled =>
      rw [event] at paid
      cases paid
      refine ⟨payment, stored, ?_⟩
      simp [FilecoinPayPayment.position, same]

theorem hasRail_of_ready {db : DB} {input : FilecoinPayPaymentInput} (paid : paymentInput log = some input)
    (ready : filecoinPayV1Ready db log log.event) : db.hasRail input := by
  unfold paymentInput at paid
  cases event : log.event with
  | railCreated =>
      rw [event] at paid
      cases paid
  | railOneTimePaymentProcessed =>
      rw [event] at paid ready
      cases paid
      exact decide_eq_true ready
  | railSettled =>
      rw [event] at paid ready
      cases paid
      exact decide_eq_true ready

theorem survives_filecoinPayV1 (cfg : Deployment) (inRange : FilecoinPayV1Event.InAbiRange log.event) :
    (DecodedLog.filecoinPayV1 log).Survives cfg := by
  refine survives_of_batch rfl ?_ ?_ ?_
  · intro db
    change InColumns (FilecoinPayV1Indexer.updateDb db [log])
    rcases filecoinPayV1_updateDb db log with ⟨row, created, updated⟩ | ⟨input, paid, updated⟩
    · obtain ⟨railId, _, _, _, _, _, event, same, -⟩ := railId_of_railInput created
      rw [event, FilecoinPayV1Event.InAbiRange, ← same] at inRange
      simp [updated, insertRail_eq inRange]
    · rw [updated]
      exact insertPayment_inColumns (fitColumns_of_inAbiRange paid inRange)
  · intro store next handled
    rcases filecoinPayV1_updateDb store.toDB log with ⟨row, created, updated⟩ | ⟨input, paid, updated⟩
    · obtain ⟨railId, _, _, _, _, _, event, same, address, place⟩ := railId_of_railInput created
      obtain ⟨rails, rfl, rows⟩ := insertRail_spec (updated.symm.trans handled)
      rw [DecodedLog.ReadBack, event]
      exact ⟨row, by rw [rows]; simp, address, place, same⟩
    · obtain ⟨payments, payment, rfl, rows, same, -⟩ := insertPayment_spec (updated.symm.trans handled)
      have stored : payment ∈ payments.rows := by simp [rows]
      exact readBack_of_paid paid stored same
  · intro store ready
    rcases filecoinPayV1_updateDb store.toDB log with ⟨row, created, updated⟩ | ⟨input, paid, updated⟩
    · obtain ⟨railId, _, _, _, _, _, event, same, address, -⟩ := railId_of_railInput created
      rw [DecodedLog.Ready, event, filecoinPayV1Ready, ← same, ← address] at ready
      rw [event, FilecoinPayV1Event.InAbiRange, ← same] at inRange
      obtain ⟨rails, inserted, -⟩ := exists_insert "filecoin_pay_rail_pkey" store.filecoinPayRail row ready
      exact ⟨_, updated.trans (by rw [insertRail_eq inRange, inserted]; rfl)⟩
    · obtain ⟨next, stored⟩ :=
        insertPayment_stored (fitColumns_of_inAbiRange paid inRange) (hasRail_of_ready paid ready)
      exact ⟨next, updated.trans stored⟩

end FilecoinPayV1

section Auctions
variable {services : AuctionServices} {log : TransferLog} {chainTx : Transaction}

theorem insertAuction_eq (db : DB) (token : Address) (small : log.value < 2 ^ 256 ∧ chainTx.value < 2 ^ 256) :
    db.insertAuction log chainTx token =
      (do let filecoinPayFeeAuction ← insert "filecoin_pay_fee_auction_pkey" db.filecoinPayFeeAuction
            ⟨auctionInput log chainTx token, freshId (db.filecoinPayFeeAuction.rows.map (·.id))⟩
          { db with filecoinPayFeeAuction : DB }.refreshQualifiedPricePeriodsMv) := by
  have lot := decimal_eq_ok_iff.mpr ⟨uint256_lt_decimal small.1, rfl⟩
  have claim := decimal_eq_ok_iff.mpr ⟨uint256_lt_decimal small.2, rfl⟩
  unfold DB.insertAuction
  rw [lot, claim]
  rfl

theorem transfer_updateDb (found : services.getTransaction log.transactionHash = .ok chainTx) (db : DB) :
    AuctionableTokenIndexer.updateDb services db [log] =
      match safeFilecoinPayV1Decode services chainTx.input with
      | some (.burnForFees token _ _) => db.insertAuction log chainTx token
      | _ => .ok db := by
  unfold AuctionableTokenIndexer.updateDb
  rw [foldlM_singleton, AuctionableTokenIndexer.handleLog, found]
  rfl

theorem survives_transfer (cfg : Deployment) (found : services.getTransaction log.transactionHash = .ok chainTx)
    (small : log.value < 2 ^ 256 ∧ chainTx.value < 2 ^ 256) :
    (DecodedLog.transfer services log chainTx found).Survives cfg := by
  refine survives_of_batch rfl ?_ ?_ ?_
  · intro db
    change InColumns (AuctionableTokenIndexer.updateDb services db [log])
    rw [transfer_updateDb found]
    split
    · simp [insertAuction_eq db _ small]
    · exact inColumns_ok db
  · intro store next handled
    rw [index, transfer_updateDb found] at handled
    rw [DecodedLog.ReadBack]
    unfold auctionReadBack
    split at handled
    · rename_i token recipient requested decoded
      obtain ⟨auctions, mv, auction, rfl, rows, -, same, -⟩ := insertAuction_spec handled
      refine ⟨auction, by simp [rows], ?_⟩
      simp [FilecoinPayFeeAuction.position, same, auctionInput, TransferLog.position]
    · trivial
  · intro store ready
    rw [DecodedLog.Ready] at ready
    rw [index, transfer_updateDb found]
    split
    · rename_i token recipient requested decoded
      rw [decoded] at ready
      obtain ⟨auctions, inserted, rows⟩ := exists_insert "filecoin_pay_fee_auction_pkey"
        store.filecoinPayFeeAuction
        ⟨auctionInput log chainTx token, freshId (store.filecoinPayFeeAuction.rows.map (·.id))⟩ (freshId_not_mem _)
      obtain ⟨next, refreshed⟩ := ready auctions _ rows
      exact ⟨next, by rw [insertAuction_eq store.toDB token small, inserted]; exact refreshed⟩
    · exact ⟨store.toDB, rfl⟩

end Auctions

section ServiceRewardsActor
variable {cfg : Deployment} {db next : DB} {log : ServiceRewardsActorLog}

theorem readsBack_natCast (cfg : Deployment) (value : Nat) : readsBack cfg value value :=
  ⟨rfl, cfg.toBigInt_of_whole (Int.cast_natCast value)⟩

theorem postVolume_readBack {q : Nat} {orchestrator : Address} {volume : Nat} {isCorrection : Bool}
    (posted : postVolume db log q orchestrator volume isCorrection = .ok next) :
    volumeReadBack cfg next log q orchestrator volume isCorrection := by
  unfold postVolume at posted
  obtain ⟨_, quarter, posted⟩ := bind_eq_ok.mp posted
  obtain ⟨_, small, posted⟩ := bind_eq_ok.mp posted
  obtain ⟨volumes, inserted, posted⟩ := bind_eq_ok.mp posted
  obtain rfl := pure_eq_ok.mp posted
  obtain ⟨-, rfl⟩ := integer_eq_ok_iff.mp quarter
  obtain ⟨-, rfl⟩ := decimal_eq_ok_iff.mp small
  exact ⟨_, mem_of_insert inserted, rfl, rfl, rfl, rfl, rfl, readsBack_natCast cfg _⟩

theorem postVolume_stored {q : Nat} {orchestrator : Address} {volume : Nat} (isCorrection : Bool)
    (free : volumeFree db log q orchestrator) (fits : q < 2 ^ 31 ∧ volume < 10 ^ 35) :
    ∃ next, postVolume db log q orchestrator volume isCorrection = .ok next := by
  have quarter := integer_eq_ok_iff.mpr ⟨fits.1, rfl⟩
  have small : decimal 65 30 volume = .ok volume := decimal_eq_ok_iff.mpr ⟨fits.2, rfl⟩
  obtain ⟨volumes, inserted, -⟩ := exists_insert "service_orchestrator_quarterly_volume_pkey"
    db.serviceOrchestratorQuarterlyVolume
    ⟨orchestrator.toLowerCase, q, volume, isCorrection, log.blockNumber, log.logIndex, log.transactionHash⟩ free
  unfold postVolume
  rw [quarter, small]
  exact ⟨_, bind_eq_ok.mpr ⟨q, rfl, bind_eq_ok.mpr ⟨volume, rfl, bind_eq_ok.mpr ⟨volumes, inserted, rfl⟩⟩⟩⟩

theorem submitShares_stored {q totalUsd : Nat} (free : q ∉ db.quarterBoundVolume.rows.map (·.quarterNum))
    (refreshes : ∀ volumes : Table QuarterBoundVolume QuarterBoundVolume.quarterNum,
      volumes.rows = db.quarterBoundVolume.rows ++ [⟨q, totalUsd, log.blockNumber, log.transactionHash.toLower⟩] →
        Refreshes { db with quarterBoundVolume := volumes })
    (fits : q < 2 ^ 31 ∧ totalUsd < 10 ^ 35) : ∃ next, submitShares db log q totalUsd = .ok next := by
  have quarter := integer_eq_ok_iff.mpr ⟨fits.1, rfl⟩
  have small : decimal 65 30 totalUsd = .ok totalUsd := decimal_eq_ok_iff.mpr ⟨fits.2, rfl⟩
  obtain ⟨volumes, inserted, rows⟩ := exists_insert "quarter_bound_volume_pkey" db.quarterBoundVolume
    ⟨q, totalUsd, log.blockNumber, log.transactionHash.toLower⟩ free
  obtain ⟨next, refreshed⟩ := refreshes volumes rows
  unfold submitShares
  rw [quarter, small]
  exact ⟨next, bind_eq_ok.mpr ⟨q, rfl, bind_eq_ok.mpr ⟨totalUsd, rfl, bind_eq_ok.mpr ⟨volumes, inserted, refreshed⟩⟩⟩⟩

theorem parameterRows_of_mapM {pairs : List (ServiceRewardsActorParameterType × Nat)}
    {rows : List ServiceRewardsActorParameter} (built : pairs.mapM (parameterRow log) = .ok rows) :
    rows = parameterRows log pairs := by
  rw [mapM_guarded parameterRow_guarded] at built
  split at built
  · cases built
    rfl
  · cases built

theorem updatePricingParams_readBack {minLotFloor minLotAlphaNum minLotAlphaDen priceBand registrationCutoff : Nat}
    (updated : updatePricingParams db log minLotFloor minLotAlphaNum minLotAlphaDen priceBand registrationCutoff = .ok next) :
    ∀ pair ∈ [(.minLotFloor, minLotFloor), (.minLotAlphaNumerator, minLotAlphaNum),
      (.minLotAlphaDenominator, minLotAlphaDen), (.priceBandBps, priceBand),
      (.registrationCutoffEpochs, registrationCutoff)], parameterReadBack cfg next log pair := by
  unfold updatePricingParams at updated
  obtain ⟨rows, built, updated⟩ := bind_eq_ok.mp updated
  obtain ⟨parameters, added, refreshed⟩ := bind_eq_ok.mp updated
  obtain ⟨mv, rfl, -⟩ := refresh_eq_ok refreshed
  obtain rfl := parameterRows_of_mapM built
  intro pair member
  refine ⟨⟨pair.1, pair.2, log.blockNumber, log.logIndex, log.transactionHash.toLower⟩, ?_, rfl, rfl,
    readsBack_natCast cfg _⟩
  rw [Table.insertAll?_rows (insertAll_ok added)]
  exact List.mem_append_right _ (List.mem_map.mpr ⟨pair, member, rfl⟩)

theorem updatePricingParams_stored {minLotFloor minLotAlphaNum minLotAlphaDen priceBand registrationCutoff : Nat}
    (free : ∀ p ∈ db.serviceRewardsActorParameter.rows, p.position ≠ log.position)
    (refreshes : ∀ parameters : Table ServiceRewardsActorParameter ServiceRewardsActorParameter.pkey,
      parameters.rows = db.serviceRewardsActorParameter.rows ++ parameterRows log [(.minLotFloor, minLotFloor),
        (.minLotAlphaNumerator, minLotAlphaNum), (.minLotAlphaDenominator, minLotAlphaDen),
        (.priceBandBps, priceBand), (.registrationCutoffEpochs, registrationCutoff)] →
      Refreshes { db with serviceRewardsActorParameter := parameters })
    (fits : ∀ value ∈ [minLotFloor, minLotAlphaNum, minLotAlphaDen, priceBand, registrationCutoff], value < 10 ^ 35) :
    ∃ next, updatePricingParams db log minLotFloor minLotAlphaNum minLotAlphaDen priceBand registrationCutoff = .ok next := by
  let pairs : List (ServiceRewardsActorParameterType × Nat) := [(.minLotFloor, minLotFloor),
    (.minLotAlphaNumerator, minLotAlphaNum), (.minLotAlphaDenominator, minLotAlphaDen), (.priceBandBps, priceBand),
    (.registrationCutoffEpochs, registrationCutoff)]
  have small : ∀ pair ∈ pairs, pair.2 < 10 ^ 35 := by simpa [pairs] using fits
  have built : pairs.mapM (parameterRow log) = .ok (parameterRows log pairs) := by
    rw [mapM_guarded parameterRow_guarded]
    exact if_pos small
  have distinct : ((db.serviceRewardsActorParameter.rows ++ parameterRows log pairs).map (·.pkey)).Nodup := by
    rw [List.map_append, List.nodup_append]
    refine ⟨db.serviceRewardsActorParameter.nodup, ?_, ?_⟩
    · simp [parameterRows, pairs, ServiceRewardsActorParameter.pkey]
    · intro key stored other new same
      obtain ⟨p, inRows, rfl⟩ := List.mem_map.mp stored
      obtain ⟨row, added, rfl⟩ := List.mem_map.mp new
      obtain ⟨pair, -, rfl⟩ := List.mem_map.mp added
      obtain ⟨-, place⟩ := Prod.mk.inj same
      obtain ⟨epoch, logIndex⟩ := Prod.mk.inj place
      exact free p inRows (Position.ext epoch logIndex)
  obtain ⟨parameters, inserted, rows⟩ := exists_insertAll "service_rewards_actor_parameter_pkey"
    db.serviceRewardsActorParameter (parameterRows log pairs) distinct
  obtain ⟨next, refreshed⟩ := refreshes parameters rows
  exact ⟨next, bind_eq_ok.mpr ⟨parameterRows log pairs, built, bind_eq_ok.mpr ⟨parameters, inserted, refreshed⟩⟩⟩

theorem handleLog_readBack {tokensMap : List (Address × ERC20Metadata)}
    (handled : ServiceRewardsActorIndexer.handleLog cfg tokensMap db log = .ok next) :
    serviceRewardsActorReadBack cfg next log log.event := by
  unfold ServiceRewardsActorIndexer.handleLog at handled
  unfold serviceRewardsActorReadBack
  cases event : log.event with
  | pricingParamsUpdated =>
      rw [event] at handled
      exact updatePricingParams_readBack handled
  | volumePosted =>
      rw [event] at handled
      exact postVolume_readBack handled
  | volumeCorrected =>
      rw [event] at handled
      exact postVolume_readBack handled
  | sharesSubmitted =>
      rw [event] at handled
      obtain ⟨volumes, mv, rfl, rows, -⟩ := submitShares_spec handled
      exact ⟨_, by rw [rows]; exact List.mem_append_right _ List.mem_cons_self, rfl,
        readsBack_natCast cfg _⟩
  | _ => trivial

theorem handleLog_stored {tokensMap : List (Address × ERC20Metadata)} (ready : serviceRewardsActorReady db log log.event)
    (fits : ServiceRewardsActorEvent.Fits log.event) :
    ∃ next, ServiceRewardsActorIndexer.handleLog cfg tokensMap db log = .ok next := by
  unfold ServiceRewardsActorIndexer.handleLog
  cases event : log.event with
  | pricingParamsUpdated =>
      rw [event] at ready fits
      exact updatePricingParams_stored ready.1 ready.2 fits
  | volumePosted =>
      rw [event] at ready fits
      exact postVolume_stored false ready fits
  | volumeCorrected =>
      rw [event] at ready fits
      exact postVolume_stored true ready fits
  | sharesSubmitted =>
      rw [event] at ready fits
      exact submitShares_stored ready.1 ready.2 fits
  | _ =>
      rw [event] at ready
      cases ready

theorem survives_serviceRewardsActor_iff {services : TokenServices} {tokensMap : List (Address × ERC20Metadata)}
    (fetched : fetchTokensMap services [log] = .ok tokensMap) :
    (DecodedLog.serviceRewardsActor services log tokensMap fetched).Survives cfg ↔
      ServiceRewardsActorEvent.Fits log.event := by
  have updated : ∀ db, index cfg db (.serviceRewardsActor services [log]) =
      ServiceRewardsActorIndexer.handleLog cfg tokensMap db log := fun db => serviceRewardsActor_updateDb fetched
  constructor
  · intro survives
    have accepted : InColumns ((DecodedLog.serviceRewardsActor services log tokensMap fetched).updateDb cfg
        (.migrated none)) := survives.accepted (.migrated none)
    rw [DecodedLog.updateDb, DecodedLog.logs, Store.updateDb, inColumns_bind, updated] at accepted
    exact (inColumns_handleLog tokensMap).mp accepted.1
  · intro fits
    refine survives_of_batch rfl ?_ ?_ ?_
    · intro db
      rw [updated]
      exact (inColumns_handleLog tokensMap).mpr fits
    · intro store next handled
      rw [updated] at handled
      exact handleLog_readBack handled
    · intro store ready
      rw [updated]
      exact handleLog_stored ready fits

end ServiceRewardsActor

section StreamWeightActor
variable {cfg : Deployment} {store next : Store} {log : StreamWeightActorLog}

@[simp] theorem bigint_eq_ok_iff {value : Nat} {stored : Int} :
    bigint value = .ok stored ↔ value < 2 ^ 63 ∧ (value : Int) = stored := by
  unfold bigint
  split
  · rename_i inRange
    exact ⟨fun same => ⟨by omega, Except.ok.inj same⟩, fun fits => congrArg _ fits.2⟩
  · rename_i outOfRange
    exact ⟨fun failed => (by cases failed), fun fits => absurd ⟨by omega, by omega⟩ outOfRange⟩

@[simp] theorem inColumns_bigint {value : Nat} : InColumns (bigint value) ↔ value < 2 ^ 63 := by
  unfold bigint
  split
  · exact iff_of_true (inColumns_ok _) (by omega)
  · rename_i outOfRange
    exact iff_of_false (by simp) fun small => outOfRange ⟨by omega, by omega⟩

def gateParamsRow (log : StreamWeightActorLog) (base stepRatio : Nat) (steps : Int) : StreamWeightActorParameters :=
  ⟨log.blockNumber, log.logIndex, log.transactionHash.toLower, base, stepRatio, steps⟩

def gateCheckRow (log : StreamWeightActorLog) (quarter : Int) (passed : Bool) (steps : Int) : QuarterlyGateCheck :=
  ⟨log.blockNumber, log.logIndex, log.transactionHash.toLower, quarter, passed, steps,
    steps - if passed then 1 else 0⟩

theorem gateParamsSet_updateDb {base stepRatio steps : Nat} (event : log.event = .gateParamsSet base stepRatio steps)
    (small : base < 2 ^ 256 ∧ stepRatio < 2 ^ 256) : StreamWeightActorIndexer.updateDb store [log] =
      (do let steps ← bigint steps
          let streamWeightActorParameters ← insertAll "stream_weight_actor_parameters_pkey"
            store.streamWeightActorParameters [gateParamsRow log base stepRatio steps]
          return { store with streamWeightActorParameters }) := by
  have baseFits : decimal 78 0 base = .ok base := decimal_eq_ok_iff.mpr ⟨uint256_lt_decimal small.1, rfl⟩
  have ratioFits : decimal 78 0 stepRatio = .ok stepRatio := decimal_eq_ok_iff.mpr ⟨uint256_lt_decimal small.2, rfl⟩
  have made : gateParams log = some (do
      let steps ← bigint steps
      return gateParamsRow log base stepRatio steps) := by
    unfold gateParams
    rw [event]
    dsimp only
    rw [baseFits, ratioFits, ok_bind, ok_bind]
    rfl
  have none : gateCheck log = none := by
    unfold gateCheck
    rw [event]
  unfold StreamWeightActorIndexer.updateDb
  rw [List.filterMap_cons, List.filterMap_cons, made, none, List.filterMap_nil, List.filterMap_nil]
  cases stepsFit : bigint steps with
  | error failure => rfl
  | ok stored => rfl

theorem gateCheckResult_updateDb {quarter steps : Nat} {passed : Bool}
    (event : log.event = .quarterlyGateCheckResult quarter passed steps) :
    StreamWeightActorIndexer.updateDb store [log] =
      (do let quarter ← bigint quarter
          let stepsAfter ← bigint steps
          let quarterlyGateCheck ← insertAll "quarterly_gate_check_pkey" store.quarterlyGateCheck
            [gateCheckRow log quarter passed stepsAfter]
          return { store with quarterlyGateCheck }) := by
  simp only [StreamWeightActorIndexer.updateDb, List.filterMap_cons, List.filterMap_nil, gateParams, gateCheck, event]
  cases quarterFits : bigint quarter with
  | error failure => rfl
  | ok stored =>
      cases stepsFit : bigint steps with
      | error failure => rfl
      | ok after =>
          obtain ⟨small, rfl⟩ := bigint_eq_ok_iff.mp stepsFit
          have before : bigint (steps - if passed then 1 else 0) = .ok (steps - if passed then 1 else 0) := by
            apply if_pos
            cases passed <;> simp <;> omega
          simp only [before]
          rfl

theorem inColumns_streamWeightActor (inRange : StreamWeightActorEvent.InAbiRange log.event) (store : Store) :
    InColumns (StreamWeightActorIndexer.updateDb store [log]) ↔ StreamWeightActorEvent.Fits log.event := by
  unfold StreamWeightActorEvent.Fits
  cases event : log.event with
  | gateParamsSet base stepRatio steps =>
      rw [event] at inRange
      rw [gateParamsSet_updateDb event ⟨inRange.1, inRange.2.1⟩]
      simp
  | quarterlyGateCheckResult quarter passed steps =>
      rw [gateCheckResult_updateDb event]
      simp only [inColumns_bind, inColumns_bigint, bigint_eq_ok_iff, inColumns_insertAll, inColumns_pure, implies_true,
        and_true]
      exact ⟨fun fits => ⟨fits.1, fits.2 _ ⟨fits.1, rfl⟩⟩, fun fits => ⟨fits.1, fun _ _ => fits.2⟩⟩

theorem streamWeightActor_readBack (inRange : StreamWeightActorEvent.InAbiRange log.event)
    (updated : StreamWeightActorIndexer.updateDb store [log] = .ok next) :
    streamWeightActorReadBack next log log.event := by
  unfold streamWeightActorReadBack
  cases event : log.event with
  | gateParamsSet base stepRatio steps =>
      rw [event] at inRange
      rw [gateParamsSet_updateDb event ⟨inRange.1, inRange.2.1⟩] at updated
      obtain ⟨stored, fits, updated⟩ := bind_eq_ok.mp updated
      obtain ⟨parameters, inserted, updated⟩ := bind_eq_ok.mp updated
      obtain rfl := pure_eq_ok.mp updated
      obtain ⟨-, rfl⟩ := bigint_eq_ok_iff.mp fits
      refine ⟨gateParamsRow log base stepRatio steps, ?_, rfl, rfl, rfl, rfl⟩
      rw [Table.insertAll?_rows (insertAll_ok inserted)]
      exact List.mem_append_right _ (List.mem_singleton_self _)
  | quarterlyGateCheckResult quarter passed steps =>
      rw [gateCheckResult_updateDb event] at updated
      obtain ⟨storedQuarter, quarterFits, updated⟩ := bind_eq_ok.mp updated
      obtain ⟨stored, fits, updated⟩ := bind_eq_ok.mp updated
      obtain ⟨checks, inserted, updated⟩ := bind_eq_ok.mp updated
      obtain rfl := pure_eq_ok.mp updated
      obtain ⟨-, rfl⟩ := bigint_eq_ok_iff.mp quarterFits
      obtain ⟨-, rfl⟩ := bigint_eq_ok_iff.mp fits
      refine ⟨gateCheckRow log quarter passed steps, ?_, rfl, rfl, rfl, rfl, rfl⟩
      rw [Table.insertAll?_rows (insertAll_ok inserted)]
      exact List.mem_append_right _ (List.mem_singleton_self _)

theorem nodup_append_singleton {α κ : Type} {key : α → κ} [DecidableEq κ] (t : Table α key) {row : α}
    (fresh : key row ∉ t.rows.map key) : ((t.rows ++ [row]).map key).Nodup := by
  rw [List.map_append, List.map_singleton, ← List.concat_eq_append]
  exact t.nodup.concat fresh

theorem streamWeightActor_stored (inRange : StreamWeightActorEvent.InAbiRange log.event)
    (ready : streamWeightActorReady store log log.event) (fits : StreamWeightActorEvent.Fits log.event) :
    ∃ next, StreamWeightActorIndexer.updateDb store [log] = .ok next := by
  cases event : log.event with
  | gateParamsSet base stepRatio steps =>
      rw [event] at inRange ready fits
      have small : bigint steps = .ok (steps : Int) := bigint_eq_ok_iff.mpr ⟨fits, rfl⟩
      obtain ⟨parameters, inserted, -⟩ := exists_insertAll "stream_weight_actor_parameters_pkey"
        store.streamWeightActorParameters [gateParamsRow log base stepRatio steps]
        (nodup_append_singleton store.streamWeightActorParameters ready)
      rw [gateParamsSet_updateDb event ⟨inRange.1, inRange.2.1⟩, small, ok_bind, inserted]
      exact ⟨_, rfl⟩
  | quarterlyGateCheckResult quarter passed steps =>
      rw [event] at ready fits
      have quarterFits : bigint quarter = .ok (quarter : Int) := bigint_eq_ok_iff.mpr ⟨fits.1, rfl⟩
      have small : bigint steps = .ok (steps : Int) := bigint_eq_ok_iff.mpr ⟨fits.2, rfl⟩
      obtain ⟨checks, inserted, -⟩ := exists_insertAll "quarterly_gate_check_pkey" store.quarterlyGateCheck
        [gateCheckRow log quarter passed steps] (nodup_append_singleton store.quarterlyGateCheck ready)
      rw [gateCheckResult_updateDb event, quarterFits, ok_bind, small, ok_bind, inserted]
      exact ⟨_, rfl⟩

theorem survives_streamWeightActor_iff (inRange : StreamWeightActorEvent.InAbiRange log.event) :
    (DecodedLog.streamWeightActor log).Survives cfg ↔ StreamWeightActorEvent.Fits log.event := by
  constructor
  · intro survives
    exact (inColumns_streamWeightActor inRange (.migrated none)).mp (survives.accepted (.migrated none))
  · intro fits
    exact ⟨fun store => (inColumns_streamWeightActor inRange store).mpr fits,
      fun _ _ updated => streamWeightActor_readBack inRange updated,
      fun _ ready => streamWeightActor_stored inRange ready fits⟩

end StreamWeightActor

section Posted

def noServices : TokenServices where
  getERC20Metadata := fun _ => .error (.rejected "no such token")
  isValidERC20 := fun _ => .ok false
  getTokenDecimals := fun _ => .error (.rejected "no such token")
  getTokenSymbol := fun _ => .error (.rejected "no such token")

def posted (q volume : Nat) : DecodedLog :=
  .serviceRewardsActor noServices ⟨150, 0, "0x0", .volumePosted q "0xa" volume⟩ [] rfl

def gateChecked (quarter steps : Nat) : DecodedLog :=
  .streamWeightActor ⟨150, 0, "0x0", .quarterlyGateCheckResult quarter true steps⟩

end Posted

end Proof.Storage
end FpvIndexer
