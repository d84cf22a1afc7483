import FpvIndexer.Services.Quarters
import Mathlib.Algebra.Order.Floor.Defs
import Mathlib.Data.Rat.Floor

/-!
# The volume calculation service

`VolumeCalculationService.getQuarterlyVolume`, one definition a query. The quotient that PostgreSQL rounds
is a parameter; the figures in USD and the implied rate, which are floating point, are left out.
-/

namespace FpvIndexer
open Relational

/-- The two `OR` groups that test a position against an interval of positions. -/
def inForce (fromEpoch : Int) (fromLogIndex : Nat) (toEpoch : Option Int) (toLogIndex : Option Nat)
    (position : Position) : Bool :=
  (fromEpoch < position.epoch ∨ position.epoch = fromEpoch ∧ fromLogIndex ≤ position.logIndex) ∧
    toEpoch.all fun t => position.epoch < t ∨ position.epoch = t ∧ toLogIndex.any (position.logIndex ≤ ·)

def ServicePair.covers (sp : ServicePair) (position : Position) : Bool :=
  inForce sp.fromEpoch sp.fromLogIndex sp.toEpoch sp.toLogIndex position

def WhitelistedToken.covers (t : WhitelistedToken) (position : Position) : Bool :=
  inForce t.admittanceEpoch t.admittanceLogIndex t.removalEpoch t.removalLogIndex position

def FilecoinPayContract.covers (c : FilecoinPayContract) (position : Position) : Bool :=
  inForce c.admittanceEpoch c.admittanceLogIndex c.removalEpoch c.removalLogIndex position

structure RailPayment where
  payment : FilecoinPayPayment
  rail : FilecoinPayRail
deriving DecidableEq

def railPayments (db : DB) : List RailPayment :=
  db.filecoinPayPayment.rows.flatMap fun p =>
    (db.filecoinPayRail.rows.filter fun r =>
      p.railId = r.railId ∧ p.filecoinPayContractAddress = r.filecoinPayContractAddress).map fun r => ⟨p, r⟩

/-- `if (serviceOrchestrator)`: a filter that is absent or empty lets every orchestrator through. -/
def matchesOrchestrator (serviceOrchestrator : Option String) (id : Address) : Bool :=
  match serviceOrchestrator with
  | none => true
  | some address => address = "" ∨ id = address.toLower

def ServicePair.bindsRail (sp : ServicePair) (rp : RailPayment) : Bool :=
  rp.rail.payer = sp.payer ∧ rp.rail.operator = sp.operator ∧ sp.covers rp.payment.position

def isBound (db : DB) (serviceOrchestrator : Option String) (rp : RailPayment) : Bool :=
  db.servicePair.rows.any fun sp =>
    sp.bindsRail rp && matchesOrchestrator serviceOrchestrator sp.serviceOrchestratorId

structure StablecoinPayment where
  id : Nat
  totalAmount : Nat
  tokenDecimals : Int
deriving DecidableEq

structure PricePeriodWithVolume where
  claimTxHash : Hash
  startEpoch : Int
  startLogIndex : Nat
  endEpoch : Int
  endLogIndex : Nat
  lotAttoUsd : ℚ
  claimAttoFil : ℚ
  volumeAttoFil : ℚ
  volumeAttoUsd : Int
deriving DecidableEq

structure PricingPeriod where
  auctionTransactionHash : Hash
  startEpoch : Int
  startLogIndex : Nat
  endEpoch : Int
  endLogIndex : Nat
  lotAttoUsd : Int
  claimAttoFil : Int
  volumeAttoFil : Int
  volumeAttoUsd : Int
deriving DecidableEq, Repr

structure QuarterlyVolume where
  quarter : Quarter
  stablecoinVolumeAttoUsd : Int
  filVolumeAttoUsd : Int
  volumeAttoUsd : Int
  pricingPeriods : List PricingPeriod
deriving DecidableEq, Repr

section Stablecoins
variable (db : DB) (admittedContracts admittedStablecoins : List Address) (startEpoch endEpoch : Int)
  (serviceOrchestrator : Option String)

def stablecoinPayments : List StablecoinPayment :=
  (railPayments db).flatMap fun rp =>
    if rp.payment.filecoinPayContractAddress ∈ admittedContracts ∧ rp.rail.token ∈ admittedStablecoins ∧
        startEpoch ≤ rp.payment.settledAtEpoch ∧ rp.payment.settledAtEpoch ≤ endEpoch ∧
        isBound db serviceOrchestrator rp then
      (db.whitelistedToken.rows.filter fun t =>
        rp.rail.token = t.tokenAddress ∧ t.covers rp.payment.position).map fun t =>
          { id := rp.payment.id, totalAmount := rp.payment.totalAmount, tokenDecimals := t.tokenDecimals }
    else []

def stablecoinVolume : ℚ :=
  ((stablecoinPayments db admittedContracts admittedStablecoins startEpoch endEpoch serviceOrchestrator).map
    fun p => p.totalAmount * (10 : ℚ) ^ (18 - p.tokenDecimals)).sum

end Stablecoins

section PricePeriods
variable (cfg : Deployment) (db : DB) (admittedContracts : List Address) (serviceOrchestrator : Option String)

def filPayments : List RailPayment :=
  (railPayments db).filter fun rp =>
    rp.payment.filecoinPayContractAddress ∈ admittedContracts ∧ rp.rail.token = zeroAddress ∧
      cfg.activationEpoch ≤ rp.payment.settledAtEpoch ∧ isBound db serviceOrchestrator rp

/-- The `NOT EXISTS` of the lateral join: no period between a payment and the period `qp`. -/
def pricesFirst (qp : PricePeriod) (rp : RailPayment) : Bool :=
  rp.payment.position < qp.position ∧
    ¬ db.qualifiedPricePeriodsMv.rows.any fun eqp =>
      rp.payment.position < eqp.position ∧ eqp.position < qp.position

def matchedPayments (qp : PricePeriod) : List RailPayment :=
  (filPayments cfg db admittedContracts serviceOrchestrator).filter (pricesFirst db qp)

def periodVolumeAttoFil (qp : PricePeriod) : ℚ :=
  ((matchedPayments cfg db admittedContracts serviceOrchestrator qp).map fun rp =>
    (rp.payment.totalAmount : ℚ)).sum

def periodsOfQuarter (quarterNum : Int) : List PricePeriod :=
  orderBy (·.position) (db.qualifiedPricePeriodsMv.rows.filter (·.quarterNum = quarterNum))

variable (numericDiv : ℚ → ℚ → ℚ)

def periodWithVolume (qp : PricePeriod) (previous : Option PricePeriod) : Except Failure PricePeriodWithVolume :=
  let volumeAttoFil := periodVolumeAttoFil cfg db admittedContracts serviceOrchestrator qp
  if qp.claimAttoFil = 0 then .error .divisionByZero
  else .ok
    { claimTxHash := qp.claimTxHash
      startEpoch := previous.elim cfg.activationEpoch (·.epoch)
      startLogIndex := previous.elim 0 (·.logIndex + 1)
      endEpoch := qp.epoch
      endLogIndex := qp.logIndex
      lotAttoUsd := qp.lotAttoUsd
      claimAttoFil := qp.claimAttoFil
      volumeAttoFil
      volumeAttoUsd := ⌊numericDiv (volumeAttoFil * qp.lotAttoUsd) qp.claimAttoFil⌋ }

def pricePeriodsWithVolume (quarterNum : Int) : Except Failure (List PricePeriodWithVolume) :=
  (lag (periodsOfQuarter db quarterNum)).mapM fun (qp, previous) =>
    periodWithVolume cfg db admittedContracts serviceOrchestrator numericDiv qp previous

end PricePeriods

def pricingPeriod (cfg : Deployment) (result : PricePeriodWithVolume) : Except Failure PricingPeriod := do
  let lotAttoUsd ← cfg.numericToBigInt result.lotAttoUsd
  let claimAttoFil ← cfg.numericToBigInt result.claimAttoFil
  let volumeAttoFil ← cfg.numericToBigInt result.volumeAttoFil
  return {
    auctionTransactionHash := result.claimTxHash
    startEpoch := result.startEpoch
    startLogIndex := result.startLogIndex
    endEpoch := result.endEpoch
    endLogIndex := result.endLogIndex
    lotAttoUsd
    claimAttoFil
    volumeAttoFil
    volumeAttoUsd := result.volumeAttoUsd }

def getQuarterlyVolume (cfg : Deployment) (numericDiv : ℚ → ℚ → ℚ) (blockNumber : Int) (db : DB)
    (serviceOrchestrator : Option String) (quarterNumber : QuarterNumber) : Except Failure QuarterlyVolume := do
  let quarter ← getQuarterByIndex cfg blockNumber quarterNumber.intValue
  let quarterParameters ← getQuarterParameters cfg db quarterNumber
  let admittedContracts := quarterParameters.admittedFilecoinPayContractAddresses
  if admittedContracts = [] ∨ quarterParameters.admittedStablecoins = [] then
    return { quarter, stablecoinVolumeAttoUsd := 0, filVolumeAttoUsd := 0, volumeAttoUsd := 0, pricingPeriods := [] }
  let stablecoinVolume := stablecoinVolume db admittedContracts quarterParameters.admittedStablecoins
    quarter.startEpoch quarter.endEpoch serviceOrchestrator
  let _ ← integer quarterNumber.intValue
  let pricingPeriodsResults ←
    pricePeriodsWithVolume cfg db admittedContracts serviceOrchestrator numericDiv quarterNumber.intValue
  let stablecoinVolumeAttoUsd ← cfg.numericToBigInt stablecoinVolume
  let filVolumeAttoUsd := (pricingPeriodsResults.map (·.volumeAttoUsd)).sum
  let pricingPeriods ← pricingPeriodsResults.mapM (pricingPeriod cfg)
  return {
    quarter
    stablecoinVolumeAttoUsd
    filVolumeAttoUsd
    volumeAttoUsd := stablecoinVolumeAttoUsd + filVolumeAttoUsd
    pricingPeriods }

end FpvIndexer
