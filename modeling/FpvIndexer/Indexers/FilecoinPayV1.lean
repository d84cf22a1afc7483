import FpvIndexer.Database.Schema

namespace FpvIndexer

inductive FilecoinPayV1Event
  | railCreated (railId : Nat) (payer payee token operator validator : Address)
  | railOneTimePaymentProcessed (railId netPayeeAmount operatorCommission networkFee : Nat)
  | railSettled (railId totalSettledAmount totalNetPayeeAmount operatorCommission networkFee : Nat)
deriving DecidableEq, Repr

structure FilecoinPayV1Log where
  address : Address
  blockNumber : Int
  logIndex : Nat
  transactionHash : Hash
  event : FilecoinPayV1Event
deriving DecidableEq, Repr

def railInput (log : FilecoinPayV1Log) : Option FilecoinPayRail :=
  match log.event with
  | .railCreated railId payer payee token operator validator => some
      { filecoinPayContractAddress := log.address.toLowerCase
        txHash := log.transactionHash.toLower
        logIndex := log.logIndex
        railId
        payer := payer.toLowerCase
        payee := payee.toLowerCase
        operator := operator.toLowerCase
        validator := validator.toLowerCase
        token := token.toLowerCase }
  | _ => none

def getRailsInputs (logs : List FilecoinPayV1Log) : List FilecoinPayRail := logs.filterMap railInput

def paymentInput (log : FilecoinPayV1Log) : Option FilecoinPayPaymentInput :=
  match log.event with
  | .railCreated .. => none
  | .railOneTimePaymentProcessed railId netPayeeAmount operatorCommission networkFee => some
      { filecoinPayContractAddress := log.address.toLowerCase
        txHash := log.transactionHash.toLower
        logIndex := log.logIndex
        railId
        totalAmount := netPayeeAmount + networkFee + operatorCommission
        netPayeeAmount
        operatorCommission
        networkFee
        settledAtEpoch := log.blockNumber
        oneTime := true }
  | .railSettled railId totalSettledAmount totalNetPayeeAmount operatorCommission networkFee => some
      { filecoinPayContractAddress := log.address.toLowerCase
        txHash := log.transactionHash.toLower
        logIndex := log.logIndex
        railId
        totalAmount := totalSettledAmount
        netPayeeAmount := totalNetPayeeAmount
        operatorCommission
        networkFee
        settledAtEpoch := log.blockNumber
        oneTime := false }

def getPaymentsInputs (logs : List FilecoinPayV1Log) : List FilecoinPayPaymentInput :=
  logs.filterMap paymentInput

def DB.insertRail (db : DB) (row : FilecoinPayRail) : Except Failure DB := do
  let _ ← decimal 78 0 row.railId
  let filecoinPayRail ← insert "filecoin_pay_rail_pkey" db.filecoinPayRail row
  return { db with filecoinPayRail }

def DB.hasRail (db : DB) (input : FilecoinPayPaymentInput) : Bool :=
  (input.filecoinPayContractAddress, input.railId) ∈ db.filecoinPayRail.rows.map (·.pkey)

def DB.insertPayment (db : DB) (input : FilecoinPayPaymentInput) : Except Failure DB := do
  let _ ← [input.railId, input.totalAmount, input.netPayeeAmount, input.operatorCommission,
    input.networkFee].mapM (decimal 78 0)
  let filecoinPayPayment ← insert "filecoin_pay_payment_pkey" db.filecoinPayPayment
    { toFilecoinPayPaymentInput := input, id := freshId (db.filecoinPayPayment.rows.map (·.id)) }
  if db.hasRail input then
    return { db with filecoinPayPayment }
  else
    throw (.foreignKeyViolation "filecoin_pay_payment_filecoin_pay_contract_address_rail_id_fkey")

def FilecoinPayV1Indexer.updateDb (db : DB) (logs : List FilecoinPayV1Log) : Except Failure DB := do
  let db ← (getRailsInputs logs).foldlM DB.insertRail db
  (getPaymentsInputs logs).foldlM DB.insertPayment db

end FpvIndexer
