import FpvIndexer.Database.PricePeriods
import FpvIndexer.Lib.Utils

namespace FpvIndexer
open Relational

@[ext] structure QuarterNumber where
  intValue : Nat
  positive : 1 ≤ intValue
deriving DecidableEq

structure Quarter where
  q : Nat
  startEpoch : Int
  endEpoch : Int
  completed : Bool
deriving DecidableEq, Repr

structure QuarterParameters where
  previousQuarterBoundVolumeAttoUsd : Int
  previousQuarterPricePeriodsCount : Nat
  minLotFloorAttoUsd : Int
  minLotAlphaNumerator : Int
  minLotAlphaDenominator : Int
  minLotAttoUsd : Int
  priceBandBps : Int
  admittedStablecoins : List Address
  admittedFilecoinPayContractAddresses : List Address
deriving DecidableEq, Repr

section Quarter
variable (cfg : Deployment) (blockNumber : Int)

def getQuarterByIndex (quarterNum : Nat) : Except Failure Quarter :=
  if quarterNum < 1 then .error (.typeError "Quarter index cannot be lower than 1.")
  else
    let startEpoch := cfg.activationEpoch + cfg.epochsPerQuarter * ((quarterNum : Int) - 1)
    let endEpoch := startEpoch + cfg.epochsPerQuarter - 1
    .ok { q := quarterNum, startEpoch, endEpoch, completed := endEpoch < blockNumber }

def getQuarters : Except Failure (List Quarter) :=
  if blockNumber < cfg.activationEpoch then
    .error (.rejected s!"Activation epoch \"{cfg.activationEpoch}\" is in the future (current block number is \"{blockNumber}\").")
  else
    let quartersCount := max 1 ((blockNumber - cfg.activationEpoch).tdiv cfg.epochsPerQuarter + 1).toNat
    (List.range quartersCount).mapM fun q => getQuarterByIndex cfg blockNumber (q + 1)

def getCurrentQuarterNum : Option Int :=
  if blockNumber < cfg.activationEpoch then none
  else some ((blockNumber - cfg.activationEpoch).tdiv cfg.epochsPerQuarter + 1)

end Quarter

section Parameters
variable (cfg : Deployment) (db : DB)

/-- `DISTINCT ON (parameter_type)` over the updates before a quarter, the latest first. -/
def quarterParameters (quarterNum : Int) : List ParameterByQuarter :=
  distinctOn (·.parameterType)
    (orderBy (fun p => toLex (p.parameterType.ordinal, OrderDual.toDual (toLex (p.quarterNum, p.position))))
      ((parametersByQuarter cfg db).filter (·.quarterNum < quarterNum)))

/-- Admitted before a quarter starts, and not removed before it starts. -/
def admittedFor (admittanceQuarterNum : Int) (removalQuarterNum : Option Int) (quarterNum : Int) : Bool :=
  admittanceQuarterNum < quarterNum ∧ removalQuarterNum.all (quarterNum ≤ ·)

def quarterTokens (quarterNum : Int) : List TokenByQuarter :=
  distinctOn (·.tokenAddress)
    (orderBy (fun t => toLex (t.tokenAddress, OrderDual.toDual (toLex (t.admittanceQuarterNum,
        (⟨t.admittanceEpoch, t.admittanceLogIndex⟩ : Position)))))
      ((tokensByQuarter cfg db).filter fun t => admittedFor t.admittanceQuarterNum t.removalQuarterNum quarterNum))

def quarterFilecoinPayContracts (quarterNum : Int) : List ContractByQuarter :=
  distinctOn (·.contractAddress)
    (orderBy (fun c => toLex (c.contractAddress, OrderDual.toDual (toLex (c.admittanceQuarterNum,
        (⟨c.admittanceEpoch, c.admittanceLogIndex⟩ : Position)))))
      ((contractsByQuarter cfg db).filter fun c => admittedFor c.admittanceQuarterNum c.removalQuarterNum quarterNum))

def createMissingParameterError (quarterNum : Nat) (parameterType : ServiceRewardsActorParameterType) : Failure :=
  .typeError s!"Parameter \"{parameterType.label}\" is not configured for quarter Q{quarterNum}"

def createInvalidParameterError (quarterNum : Nat) (parameterType : ServiceRewardsActorParameterType) : Failure :=
  .typeError s!"Parameter \"{parameterType.label}\" for quarter Q{quarterNum} has invalid value."

def requireParameter (parameters : List ParameterByQuarter) (parameterType : ServiceRewardsActorParameterType)
    (missing invalid : Failure) : Except Failure Int :=
  match parameters.find? (·.parameterType = parameterType) with
  | none => .error missing
  | some parameter =>
      match cfg.toBigInt parameter.parameterValue with
      | none => .error invalid
      | some value => .ok value

def getQuarterParameters (quarterNumber : QuarterNumber) : Except Failure QuarterParameters := do
  let quarterNumInt := quarterNumber.intValue
  let _ ← integer (quarterNumInt - 1)
  let previousQuarterBoundVolumeAttoUsd ←
    match db.quarterBoundVolume.rows.find? fun v => (v.quarterNum : Int) = quarterNumInt - 1 with
    | some v => cfg.numericToBigInt v.volumeAttoUsd
    | none => pure 0
  let previousQuarterPricePeriodsCount :=
    db.qualifiedPricePeriodsMv.rows.countP fun qp => qp.quarterNum = (quarterNumInt : Int) - 1
  let parameters := quarterParameters cfg db quarterNumInt
  let missing := createMissingParameterError quarterNumInt
  let invalid := createInvalidParameterError quarterNumInt
  let priceBandBps ← requireParameter cfg parameters .priceBandBps (missing .priceBandBps) (invalid .priceBandBps)
  -- the other three report a value that is not an integer as missing
  let minLotFloorAttoUsd ← requireParameter cfg parameters .minLotFloor (missing .minLotFloor) (missing .minLotFloor)
  let minLotAlphaNumerator ← requireParameter cfg parameters .minLotAlphaNumerator
    (missing .minLotAlphaNumerator) (missing .minLotAlphaNumerator)
  let minLotAlphaDenominator ← requireParameter cfg parameters .minLotAlphaDenominator
    (missing .minLotAlphaDenominator) (missing .minLotAlphaDenominator)
  let unboundMinLotAttoUsd :=
    if minLotAlphaDenominator ≠ 0 ∧ previousQuarterPricePeriodsCount ≠ 0 then
      (minLotAlphaNumerator * previousQuarterBoundVolumeAttoUsd).tdiv
        (minLotAlphaDenominator * previousQuarterPricePeriodsCount)
    else 0
  return {
    previousQuarterBoundVolumeAttoUsd
    previousQuarterPricePeriodsCount
    minLotFloorAttoUsd
    minLotAlphaNumerator
    minLotAlphaDenominator
    minLotAttoUsd :=
      if minLotFloorAttoUsd ≤ unboundMinLotAttoUsd then unboundMinLotAttoUsd else minLotFloorAttoUsd
    priceBandBps
    admittedStablecoins := (quarterTokens cfg db quarterNumInt).map (·.tokenAddress)
    admittedFilecoinPayContractAddresses :=
      (quarterFilecoinPayContracts cfg db quarterNumInt).map (·.contractAddress) }

end Parameters
end FpvIndexer
