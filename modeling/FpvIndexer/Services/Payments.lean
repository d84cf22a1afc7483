import FpvIndexer.Services.VolumeCalculation
import FpvIndexer.Services.TokenInfo

/-!
# The payments service

`PaymentsService.getPaymentsPaginated`. The order in which the database hands on the rows that `ORDER BY`
leaves tied is a parameter, and so are the quotients that its plan computes and the token services; floating point
figures are left out.
-/

namespace FpvIndexer
open Relational

inductive SortKey
  | epoch
  | plusEpoch
  | minusEpoch
deriving DecidableEq, Repr

/-- The filters that `paymentsQuerySchema` lets through; only an integer from `1` on is a page or a limit. -/
structure PaymentsQuery where
  serviceOrchestrator : Option String
  fromEpoch : Option Int
  toEpoch : Option Int
  countsTowardsVolume : Option Bool
  sort : List SortKey
  page : Nat
  limit : Nat
  page_pos : 1 ≤ page
  limit_pos : 1 ≤ limit

structure PaymentPricing where
  startEpoch : Int
  startLogIndex : Nat
  endEpoch : Int
  endLogIndex : Nat
  claimTxHash : Hash
  lotAttoUsd : ℚ
  claimAttoFil : ℚ
deriving DecidableEq

structure PaymentRow extends RailPayment where
  serviceOrchestratorId : Option Address
  filecoinPayContractWhitelisted : Bool
  tokenWhitelisted : Bool
  pricing : Option PaymentPricing
deriving DecidableEq

structure PaymentPricingPeriod where
  auctionTransactionHash : Hash
  startEpoch : Int
  startLogIndex : Nat
  endEpoch : Int
  endLogIndex : Nat
  lotAttoUsd : Int
  claimAttoFil : Int
deriving DecidableEq, Repr

structure Payment where
  filecoinPayContract : Address
  epoch : Int
  logIndex : Nat
  transactionHash : Hash
  railId : Nat
  payer : Address
  payee : Address
  operator : Address
  tokenAddress : Address
  tokenDecimals : Int
  tokenSymbol : String
  totalAmountBaseUnits : Nat
  netPayeeAmountBaseUnits : Nat
  networkFeeBaseUnits : Nat
  operatorComissionBaseUnits : Nat
  serviceOrchestrator : Option Address
  filecoinPayContractWhitelisted : Bool
  tokenWhitelisted : Bool
  quarter : Option Quarter
  pricingPeriod : Option PaymentPricingPeriod
deriving DecidableEq, Repr

structure PaginatedPaymentsList where
  data : List Payment
  page : Nat
  pagesCount : Nat
  totalCount : Nat
deriving DecidableEq, Repr

section BaseQuery
variable (cfg : Deployment) (db : DB)

def joinServicePairs (rp : RailPayment) : List (Option Address) :=
  match db.servicePair.rows.filter (·.bindsRail rp) with
  | [] => [none]
  | bindings => bindings.map fun sp => some sp.serviceOrchestratorId

def filecoinPayContractWhitelisted (rp : RailPayment) : Bool :=
  db.filecoinPayContract.rows.any fun fpc =>
    rp.payment.filecoinPayContractAddress = fpc.contractAddress ∧ fpc.covers rp.payment.position

def tokenWhitelisted (rp : RailPayment) : Bool :=
  rp.rail.token = zeroAddress ∨ db.whitelistedToken.rows.any fun t =>
    rp.rail.token = t.tokenAddress ∧ t.covers rp.payment.position

def periodsAfter (rp : RailPayment) : List PricePeriod :=
  db.qualifiedPricePeriodsMv.rows.filter fun qp => rp.payment.position < qp.position

/-- The lateral join of the price period; its window sees only the periods after the payment. -/
def lateralPricing (rp : RailPayment) : Option PaymentPricing :=
  if rp.rail.token = zeroAddress then
    (lag (orderBy (·.position) (periodsAfter db rp))).head?.map fun (qp, previous) =>
      { startEpoch := previous.elim cfg.activationEpoch (·.epoch)
        startLogIndex := previous.elim 0 (·.logIndex + 1)
        endEpoch := qp.epoch
        endLogIndex := qp.logIndex
        claimTxHash := qp.claimTxHash
        lotAttoUsd := qp.lotAttoUsd
        claimAttoFil := qp.claimAttoFil }
  else none

def paymentRows (rp : RailPayment) : List PaymentRow :=
  (joinServicePairs db rp).map fun serviceOrchestratorId =>
    { toRailPayment := rp
      serviceOrchestratorId
      filecoinPayContractWhitelisted := filecoinPayContractWhitelisted db rp
      tokenWhitelisted := tokenWhitelisted db rp
      pricing := lateralPricing cfg db rp }

def basePayments : List PaymentRow := (railPayments db).flatMap (paymentRows cfg db)

end BaseQuery

namespace PaymentRow
variable (row : PaymentRow)

def matchesFromEpoch (fromEpoch : Int) : Bool :=
  row.rail.token ≠ zeroAddress ∧ fromEpoch ≤ row.payment.settledAtEpoch ∨
    row.rail.token = zeroAddress ∧ row.pricing.any (fromEpoch ≤ ·.endEpoch)

def matchesToEpoch (toEpoch : Int) : Bool :=
  row.rail.token ≠ zeroAddress ∧ row.payment.settledAtEpoch ≤ toEpoch ∨
    row.rail.token = zeroAddress ∧ row.pricing.any (·.endEpoch ≤ toEpoch)

def countsTowardsVolume : Bool :=
  row.serviceOrchestratorId.isSome ∧ row.filecoinPayContractWhitelisted ∧ row.tokenWhitelisted

def matchesServiceOrchestrator (serviceOrchestrator : Option String) : Bool :=
  match serviceOrchestrator with
  | none => true
  | some address => address = "" ∨ row.serviceOrchestratorId = some address.toLower

def isSelected (query : PaymentsQuery) : Bool :=
  row.matchesServiceOrchestrator query.serviceOrchestrator ∧
    query.fromEpoch.all row.matchesFromEpoch ∧
    query.toEpoch.all row.matchesToEpoch ∧
    query.countsTowardsVolume.all fun counts => row.countsTowardsVolume = counts

end PaymentRow

/-- `ORDER BY` one clause after another: every key is on the epoch, so the first one decides. -/
def applySorting (sort : List SortKey) (rows : List PaymentRow) : List PaymentRow :=
  match sort with
  | [] => rows
  | .minusEpoch :: _ => orderBy (fun row => OrderDual.toDual row.payment.settledAtEpoch) rows
  | _ :: _ => orderBy (·.payment.settledAtEpoch) rows

def applyPagination (query : PaymentsQuery) (rows : List PaymentRow) : List PaymentRow :=
  (rows.drop ((query.page - 1) * query.limit)).take query.limit

def pagesCount (totalCount limit : Nat) : Nat :=
  max (totalCount / limit + if totalCount % limit = 0 then 0 else 1) 1

def paymentPricingPeriod (cfg : Deployment) (pricing : PaymentPricing) : Except Failure PaymentPricingPeriod := do
  let lotAttoUsd ← cfg.numericToBigInt pricing.lotAttoUsd
  let claimAttoFil ← cfg.numericToBigInt pricing.claimAttoFil
  return {
    auctionTransactionHash := pricing.claimTxHash
    startEpoch := pricing.startEpoch
    startLogIndex := pricing.startLogIndex
    endEpoch := pricing.endEpoch
    endLogIndex := pricing.endLogIndex
    lotAttoUsd
    claimAttoFil }

section Payments
variable (services : TokenServices)

def tokenDetails (token : Address) : Except Failure (Address × ERC20Metadata) := do
  let decimals ← services.getTokenDecimals token
  let symbol ← services.getTokenSymbol token
  return (token, ⟨decimals, symbol⟩)

def toPayment (cfg : Deployment) (details : List (Address × ERC20Metadata)) (quarters : List Quarter) (result : PaymentRow) :
    Except Failure Payment :=
  match details.lookup result.rail.token with
  | none => .error (.rejected s!"Token \"{result.rail.token}\" details not found")
  | some metadata => do
      let pricingPeriod ← result.pricing.mapM (paymentPricingPeriod cfg)
      return {
        filecoinPayContract := result.payment.filecoinPayContractAddress
        epoch := result.payment.settledAtEpoch
        logIndex := result.payment.logIndex
        transactionHash := result.payment.txHash
        railId := result.rail.railId
        payer := result.rail.payer
        payee := result.rail.payee
        operator := result.rail.operator
        tokenAddress := result.rail.token
        tokenDecimals := metadata.decimals
        tokenSymbol := metadata.symbol
        totalAmountBaseUnits := result.payment.totalAmount
        netPayeeAmountBaseUnits := result.payment.netPayeeAmount
        networkFeeBaseUnits := result.payment.networkFee
        operatorComissionBaseUnits := result.payment.operatorCommission
        serviceOrchestrator := result.serviceOrchestratorId
        filecoinPayContractWhitelisted := result.filecoinPayContractWhitelisted
        tokenWhitelisted := result.tokenWhitelisted
        quarter := quarters.find? fun quarter =>
          quarter.startEpoch ≤ result.payment.settledAtEpoch ∧ result.payment.settledAtEpoch ≤ quarter.endEpoch
        pricingPeriod }

variable (cfg : Deployment) (blockNumber : Int) (scan : List PaymentRow → List PaymentRow)
  (divides : PaymentsQuery → RailPayment → PricePeriod → Bool)

def selectedPayments (db : DB) (query : PaymentsQuery) : List PaymentRow :=
  (basePayments cfg db).filter (·.isSelected query)

/-- `lot_atto_usd / claim_atto_fil` is computed for every row of the page, and besides for whichever payments and later
periods the plan of the query computes it. -/
def dividesByZero (db : DB) (query : PaymentsQuery) (results : List PaymentRow) : Bool :=
  (railPayments db).any (fun rp => (periodsAfter db rp).any fun qp => divides query rp qp ∧ qp.claimAttoFil = 0) ∨
    results.any fun row => row.pricing.any (·.claimAttoFil = 0)

def getPaymentsPaginated (db : DB) (query : PaymentsQuery) : Except Failure PaginatedPaymentsList := do
  let quarters ← getQuarters cfg blockNumber
  let selected := selectedPayments cfg db query
  let results := applyPagination query (applySorting query.sort (scan selected))
  let totalCount := selected.length
  if dividesByZero divides db query results then .error .divisionByZero
  let details ← (distinctOn id (results.map (·.rail.token))).mapM (tokenDetails services)
  let payments ← results.mapM (toPayment cfg details quarters)
  return { data := payments, page := query.page, pagesCount := pagesCount totalCount query.limit, totalCount }

end Payments
end FpvIndexer
