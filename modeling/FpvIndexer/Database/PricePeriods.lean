import FpvIndexer.Database.Schema
import FpvIndexer.Relational.Query
import Mathlib.Algebra.Field.Rat
import Mathlib.Algebra.Order.Ring.Rat
import Mathlib.Data.String.Basic
import Mathlib.Algebra.Order.Group.Abs

/-!
# The price periods

`get_qualifying_price_periods()`, one definition a common table expression, and the refresh of
`qualified_price_periods_mv` that the statement triggers run.
-/

namespace FpvIndexer
open Relational

def auctionPassesMinLot (lotAttoUsd minLotFloor boundVolume : ℚ) (n : Nat)
    (alphaNumerator alphaDenominator : ℚ) : Bool :=
  if boundVolume = 0 ∨ n = 0 then minLotFloor ≤ lotAttoUsd
  else alphaNumerator * boundVolume - (alphaDenominator * n - 1) ≤ lotAttoUsd * alphaDenominator * n

def auctionPassesPriceBand (lotAttoUsd claimAttoFil prevLotAttoUsd prevClaimAttoFil priceBandBps : ℚ) : Bool :=
  |lotAttoUsd * prevClaimAttoFil - prevLotAttoUsd * claimAttoFil| * 10000 ≤
    priceBandBps * prevLotAttoUsd * claimAttoFil

structure ParameterByQuarter extends ServiceRewardsActorParameter where
  quarterNum : Int

structure ContractByQuarter extends FilecoinPayContract where
  admittanceQuarterNum : Int
  removalQuarterNum : Option Int

structure TokenByQuarter extends WhitelistedToken where
  admittanceQuarterNum : Int
  removalQuarterNum : Option Int

structure WhitelistedAuction where
  quarterNum : Int
  lotAttoUsd : ℚ
  claimAttoFil : ℚ
  claimTxHash : Hash
  auctionedAtEpoch : Int
  logIndex : Nat
deriving DecidableEq

def WhitelistedAuction.position (a : WhitelistedAuction) : Position := ⟨a.auctionedAtEpoch, a.logIndex⟩

structure SubstantialAuction extends WhitelistedAuction where
  auctionNum : Nat
deriving DecidableEq

structure RankedSeed where
  lotAttoUsd : ℚ
  claimAttoFil : ℚ
  rankPos : Nat
deriving DecidableEq

structure QuarterAuction extends WhitelistedAuction where
  priceBandBps : ℚ
  seqId : Nat
deriving DecidableEq

structure FlaggedAuction extends QuarterAuction where
  isQualified : Option Bool
  lastLotAttoUsd : Option ℚ
  lastClaimAttoFil : Option ℚ
deriving DecidableEq

section Lists
variable (cfg : Config) (db : DB)

def parametersByQuarter : List ParameterByQuarter :=
  db.serviceRewardsActorParameter.rows.map fun p =>
    { toServiceRewardsActorParameter := p, quarterNum := cfg.quarterNum p.updateEpoch }

def parameters : List ParameterByQuarter :=
  distinctOn (fun p => (p.parameterType, p.quarterNum))
    (orderBy (fun p => toLex (p.parameterType.ordinal, toLex (p.quarterNum, OrderDual.toDual p.position)))
      (parametersByQuarter cfg db))

/-- The lateral join that picks the parameter in force for an auction of a quarter. -/
def lateralParameter (parameterType : ServiceRewardsActorParameterType) (quarterNum : Int) : Option ℚ :=
  ((orderBy (fun p => OrderDual.toDual p.quarterNum)
    ((parameters cfg db).filter fun p =>
      p.parameterType = parameterType ∧ p.quarterNum < quarterNum)).head?).map (·.parameterValue)

def contractsByQuarter : List ContractByQuarter :=
  db.filecoinPayContract.rows.map fun c =>
    { toFilecoinPayContract := c
      admittanceQuarterNum := cfg.quarterNum c.admittanceEpoch
      removalQuarterNum := c.removalEpoch.map cfg.quarterNum }

def contracts : List ContractByQuarter :=
  distinctOn (fun c => (c.contractAddress, c.admittanceQuarterNum))
    (orderBy (fun c => toLex (c.contractAddress, toLex (c.admittanceQuarterNum,
        OrderDual.toDual (⟨c.admittanceEpoch, c.admittanceLogIndex⟩ : Position))))
      ((contractsByQuarter cfg db).filter fun c => c.removalQuarterNum.all (c.admittanceQuarterNum < ·)))

def contractExists (contractAddress : Address) (quarterNum : Int) : Bool :=
  (contracts cfg db).any fun c =>
    contractAddress = c.contractAddress ∧ c.admittanceQuarterNum < quarterNum ∧
      c.removalQuarterNum.all (quarterNum ≤ ·)

def tokensByQuarter : List TokenByQuarter :=
  db.whitelistedToken.rows.map fun t =>
    { toWhitelistedToken := t
      admittanceQuarterNum := cfg.quarterNum t.admittanceEpoch
      removalQuarterNum := t.removalEpoch.map cfg.quarterNum }

def tokens : List TokenByQuarter :=
  distinctOn (fun t => (t.tokenAddress, t.admittanceQuarterNum))
    (orderBy (fun t => toLex (t.tokenAddress, toLex (t.admittanceQuarterNum,
        OrderDual.toDual (⟨t.admittanceEpoch, t.admittanceLogIndex⟩ : Position))))
      ((tokensByQuarter cfg db).filter fun t => t.removalQuarterNum.all (t.admittanceQuarterNum < ·)))

def lateralToken (tokenAddress : Address) (quarterNum : Int) : Option TokenByQuarter :=
  (orderBy (fun wt => OrderDual.toDual wt.admittanceQuarterNum)
    ((tokens cfg db).filter fun wt =>
      tokenAddress = wt.tokenAddress ∧ wt.admittanceQuarterNum < quarterNum ∧
        wt.removalQuarterNum.all (quarterNum ≤ ·))).head?

end Lists

section Auctions
variable (cfg : Config) (db : DB)

def whitelistedAuction (a : FilecoinPayFeeAuction) : Option WhitelistedAuction :=
  let quarterNum := cfg.quarterNum a.auctionedAtEpoch
  if contractExists cfg db a.filecoinPayContractAddress quarterNum then
    (lateralToken cfg db a.tokenAddress quarterNum).map fun t =>
      { quarterNum
        lotAttoUsd := a.amountActual * (10 : ℚ) ^ (18 - t.tokenDecimals : Int)
        claimAttoFil := a.filBurned
        claimTxHash := a.txHash
        auctionedAtEpoch := a.auctionedAtEpoch
        logIndex := a.logIndex }
  else none

def whitelistedAuctions : List WhitelistedAuction :=
  db.filecoinPayFeeAuction.rows.filterMap (whitelistedAuction cfg db)

def boundVolume (quarterNum : Int) : ℚ :=
  (db.quarterBoundVolume.rows.find? fun v => (v.quarterNum : Int) = quarterNum).elim 0 (·.volumeAttoUsd)

def isSubstantial (previousQuarterPricePeriodsCount : Nat) (a : WhitelistedAuction) : Bool :=
  match lateralParameter cfg db .minLotFloor a.quarterNum,
      lateralParameter cfg db .minLotAlphaNumerator a.quarterNum,
      lateralParameter cfg db .minLotAlphaDenominator a.quarterNum with
  | some minLotFloor, some alphaNum, some alphaDen =>
      0 < a.quarterNum &&
        auctionPassesMinLot a.lotAttoUsd minLotFloor (boundVolume db (a.quarterNum - 1))
          previousQuarterPricePeriodsCount alphaNum alphaDen
  | _, _, _ => false

def substantialAuctions (previousQuarterPricePeriodsCount : Nat) : List SubstantialAuction :=
  (rowNumber (orderBy (·.position)
    ((whitelistedAuctions cfg db).filter (isSubstantial cfg db previousQuarterPricePeriodsCount)))).map
      fun (a, auctionNum) => { toWhitelistedAuction := a, auctionNum }

def seedAuctions (previousQuarterPricePeriodsCount : Nat) : List SubstantialAuction :=
  (substantialAuctions cfg db previousQuarterPricePeriodsCount).filter (·.auctionNum ≤ 5)

def rankedUpTo (s1 s2 : SubstantialAuction) : Bool :=
  s2.lotAttoUsd * s1.claimAttoFil < s1.lotAttoUsd * s2.claimAttoFil ∨
    s2.lotAttoUsd * s1.claimAttoFil = s1.lotAttoUsd * s2.claimAttoFil ∧ s2.auctionNum ≤ s1.auctionNum

def rankSeeds (seeds : List SubstantialAuction) : List RankedSeed :=
  seeds.map fun s1 =>
    { lotAttoUsd := s1.lotAttoUsd, claimAttoFil := s1.claimAttoFil, rankPos := seeds.countP (rankedUpTo s1) }

def seedAuctionsRanked (previousQuarterPricePeriodsCount : Nat) : List RankedSeed :=
  rankSeeds (seedAuctions cfg db previousQuarterPricePeriodsCount)

def bandChecked (qIndex : Int) (a : SubstantialAuction) : Option (WhitelistedAuction × ℚ) :=
  if 5 < a.auctionNum ∧ a.quarterNum = qIndex + 1 then
    (lateralParameter cfg db .priceBandBps a.quarterNum).map fun priceBandBps =>
      (a.toWhitelistedAuction, priceBandBps)
  else none

def quarterAuctions (previousQuarterPricePeriodsCount : Nat) (qIndex : Int) : List QuarterAuction :=
  (rowNumber (orderBy (fun a => a.1.position)
    ((substantialAuctions cfg db previousQuarterPricePeriodsCount).filterMap (bandChecked cfg db qIndex)))).map
      fun (a, seqId) => { toWhitelistedAuction := a.1, priceBandBps := a.2, seqId }

end Auctions

/-- `auction_passes_price_band` where the anchor may be `NULL`. -/
def passesPriceBand (a : QuarterAuction) (prevLotAttoUsd prevClaimAttoFil : Option ℚ) : Option Bool :=
  match prevLotAttoUsd, prevClaimAttoFil with
  | some lot, some claim => some (auctionPassesPriceBand a.lotAttoUsd a.claimAttoFil lot claim a.priceBandBps)
  | _, _ => none

def flagAuction (a : QuarterAuction) (prevLotAttoUsd prevClaimAttoFil : Option ℚ) : FlaggedAuction :=
  let passes := passesPriceBand a prevLotAttoUsd prevClaimAttoFil
  { toQuarterAuction := a
    isQualified := passes
    lastLotAttoUsd := if passes = some true then some a.lotAttoUsd else prevLotAttoUsd
    lastClaimAttoFil := if passes = some true then some a.claimAttoFil else prevClaimAttoFil }

structure LoopState where
  lastLotAttoUsd : Option ℚ
  lastClaimAttoFil : Option ℚ
  previousQuarterPricePeriodsCount : Nat
  returned : List PricePeriod

def LoopState.initial : LoopState := ⟨none, none, 0, []⟩

section Loop
variable (cfg : Config) (db : DB)

def medians (previousQuarterPricePeriodsCount : Nat) : List (Option RankedSeed) :=
  match (seedAuctionsRanked cfg db previousQuarterPricePeriodsCount).filter (·.rankPos = 3) with
  | [] => [none]
  | ranked => ranked.map some

def flaggedAuctions (s : LoopState) (qIndex : Int) : List FlaggedAuction :=
  let auctions := quarterAuctions cfg db s.previousQuarterPricePeriodsCount qIndex
  let first := (auctions.filter (·.seqId = 1)).flatMap fun a =>
    (medians cfg db s.previousQuarterPricePeriodsCount).map fun median =>
      flagAuction a (s.lastLotAttoUsd.or (median.map (·.lotAttoUsd)))
        (s.lastClaimAttoFil.or (median.map (·.claimAttoFil)))
  recursiveUnion
    (joinSuccessor (·.seqId) (·.seqId)
      (fun previous a => flagAuction a previous.lastLotAttoUsd previous.lastClaimAttoFil) auctions)
    (auctions.length + 1) first

def FlaggedAuction.toPricePeriod (a : FlaggedAuction) : PricePeriod where
  quarterNum := a.quarterNum
  epoch := a.auctionedAtEpoch
  logIndex := a.logIndex
  lotAttoUsd := a.lotAttoUsd
  claimAttoFil := a.claimAttoFil
  claimTxHash := a.claimTxHash

def quarterResults (s : LoopState) (qIndex : Int) : List PricePeriod :=
  orderBy (·.position)
    (((flaggedAuctions cfg db s qIndex).filter fun a => a.isQualified = some true).map (·.toPricePeriod))

def iteration (s : LoopState) (qIndex : Int) : LoopState :=
  let results := quarterResults cfg db s qIndex
  { lastLotAttoUsd := (results.getLast?.map (·.lotAttoUsd)).or s.lastLotAttoUsd
    lastClaimAttoFil := (results.getLast?.map (·.claimAttoFil)).or s.lastClaimAttoFil
    previousQuarterPricePeriodsCount := results.length
    returned := s.returned ++ results }

def quarterIndexes : List Int :=
  orderBy id (distinctOn id
    ((db.filecoinPayFeeAuction.rows.filter fun a => cfg.activationEpoch ≤ a.auctionedAtEpoch).map
      fun a => (a.auctionedAtEpoch - cfg.activationEpoch) / cfg.epochsPerQuarter))

end Loop

def getQualifyingPricePeriods (db : DB) : List PricePeriod :=
  match db.applicationConfig with
  | none => []
  | some cfg => ((quarterIndexes cfg db).foldl (iteration cfg db) .initial).returned

/-- `refresh_qualified_price_periods_mv`, fired by the statements on the tables with a trigger. Equal rows are rejected
before the index is asked. -/
def DB.refreshQualifiedPricePeriodsMv (db : DB) : Except Failure DB :=
  match Table.ofRows? (getQualifyingPricePeriods db) with
  | some rows => .ok { db with qualifiedPricePeriodsMv := rows }
  | none =>
      if (getQualifyingPricePeriods db).Nodup then .error (.uniqueViolation "idx_qualified_price_periods_mv_pk")
      else .error .cardinalityViolation

theorem refresh_eq_ok {db next : DB} (refreshed : db.refreshQualifiedPricePeriodsMv = .ok next) :
    ∃ mv, next = { db with qualifiedPricePeriodsMv := mv } ∧ mv.rows = getQualifyingPricePeriods db := by
  unfold DB.refreshQualifiedPricePeriodsMv at refreshed
  split at refreshed
  · rename_i mv built
    cases refreshed
    exact ⟨mv, rfl, Table.ofRows?_rows built⟩
  · split at refreshed <;> cases refreshed

end FpvIndexer
