import FpvIndexer.Proof.InForce
import FpvIndexer.Proof.FilPricing
import FpvIndexer.Proof.AdmittedVolume

namespace FpvIndexer
namespace Proof.Rollover
open Relational Volume FilPricing InForce Reachable

section Specification
variable (cfg : Deployment) (numericDiv : ℚ → ℚ → ℚ) (blockNumber : Int) (db : DB) (serviceOrchestrator : Option String)
  (rp : RailPayment)

/-- The quarter answers with a price period whose `volumeAttoFil` is a sum with the payment's amount in it. -/
def CountedIn (q : QuarterNumber) : Prop :=
  ∃ volume parameters, getQuarterlyVolume cfg numericDiv blockNumber db serviceOrchestrator q = .ok volume ∧
    getQuarterParameters cfg db q = .ok parameters ∧
    ∃ period ∈ volume.pricingPeriods, ∃ qp ∈ periodsOfQuarter db q.intValue,
      (⟨period.endEpoch, period.endLogIndex⟩ : Position) = qp.position ∧
      rp ∈ matchedPayments cfg db parameters.admittedFilecoinPayContractAddresses serviceOrchestrator qp ∧
      period.volumeAttoFil =
        ((matchedPayments cfg db parameters.admittedFilecoinPayContractAddresses serviceOrchestrator qp).map
          fun matched => (matched.payment.totalAmount : Int)).sum

def ContractAdmitted (quarterNum : Int) : Prop :=
  rp.payment.filecoinPayContractAddress ∈ (quarterFilecoinPayContracts cfg db quarterNum).map (·.contractAddress)

instance contractAdmittedDecidable (quarterNum : Int) : Decidable (ContractAdmitted cfg db rp quarterNum) := by
  unfold ContractAdmitted
  infer_instance

structure RollsForward : Prop where
  counted : ContractAdmitted cfg db rp (cfg.quarterNum rp.payment.settledAtEpoch) →
    ∃! q, CountedIn cfg numericDiv blockNumber db serviceOrchestrator rp q
  left_out : ¬ ContractAdmitted cfg db rp (cfg.quarterNum rp.payment.settledAtEpoch) →
    ∀ q, ¬ CountedIn cfg numericDiv blockNumber db serviceOrchestrator rp q

/-- The quarter of the period accepts the contract, and nothing in it makes the query fail. -/
structure JudgedBy (first : PricePeriod) : Prop where
  admitted : ContractAdmitted cfg db rp first.quarterNum
  inRange : first.quarterNum < 2 ^ 31
  claims : ∀ qp ∈ periodsOfQuarter db first.quarterNum, qp.claimAttoFil ≠ 0

end Specification

section Counted
variable {cfg : Deployment} {numericDiv : ℚ → ℚ → ℚ} {blockNumber : Int} {db : DB} {past : List ServiceRewardsActorLog}
  {serviceOrchestrator : Option String} {rp : RailPayment} {first : PricePeriod}

theorem supported_of_stored (inv : Invariants cfg past db) {qp : PricePeriod}
    (stored : qp ∈ db.qualifiedPricePeriodsMv.rows) : Supported cfg db qp := by
  obtain ⟨listed, rows⟩ := inv.priced
  rw [rows] at stored
  have configured : ({ db with filecoinPayContract := listed } : DB).applicationConfig = some cfg.toConfig := inv.configured
  have supported := supported_of_mem configured stored
  exact ⟨supported.quarter, supported.positive, supported.parameters, supported.token⟩

theorem distinctPositions (inv : Invariants cfg past db) : DistinctPositions db :=
  distinctPositions_of_quarters fun _ stored => (supported_of_stored inv stored).quarter

theorem exists_parameters (inv : Invariants cfg past db) (stored : first ∈ db.qualifiedPricePeriodsMv.rows)
    (inRange : first.quarterNum < 2 ^ 31) {q : QuarterNumber} (quarter : first.quarterNum = q.intValue) :
    ∃ parameters, getQuarterParameters cfg db q = .ok parameters := by
  have inForce := (supported_of_stored inv stored).parameters
  rw [quarter] at inForce
  have before : q.intValue - 1 < 2 ^ 31 := by omega
  exact exists_getQuarterParameters inv.parameters inv.volumes q before inForce

theorem countedIn_iff (rounds : cfg.RoundsHalfUp) (inv : Invariants cfg past db) (joined : rp ∈ railPayments db)
    (fil : rp.rail.token = zeroAddress) (activated : cfg.activationEpoch ≤ rp.payment.settledAtEpoch)
    (bound : isBound db serviceOrchestrator rp) (priced : PricedBy db rp first) (q : QuarterNumber) :
    CountedIn cfg numericDiv blockNumber db serviceOrchestrator rp q ↔
      first.quarterNum = q.intValue ∧ JudgedBy cfg db rp first := by
  constructor
  · rintro ⟨volume, parameters, reported, set, period, shown, qp, inQuarter, -, matched, -⟩
    obtain ⟨stored, quarter⟩ := mem_periodsOfQuarter.mp inQuarter
    obtain ⟨payment, too⟩ := (mem_matchedPayments stored).mp matched
    obtain rfl := PricedBy.unique (distinctPositions inv) priced too
    have contract := (of_decide_eq_true (List.mem_filter.mp payment).2).1
    have read := getQuarterParameters_read set
    obtain ⟨parametersToo, setToo, ⟨-, rfl⟩ | ⟨admitted, -⟩⟩ := getQuarterlyVolume_cases reported
    · cases shown
    · obtain ⟨inRange, claims⟩ :=
        (answerable_iff serviceOrchestrator rounds numericDiv blockNumber setToo).mp ⟨volume, reported⟩ admitted
      rw [read.contracts, ← quarter] at contract
      rw [← quarter] at claims
      exact ⟨quarter, contract, by omega, claims⟩
  · rintro ⟨quarter, contract, inRange, claims⟩
    obtain ⟨parameters, set⟩ := exists_parameters inv priced.stored inRange quarter
    have read := getQuarterParameters_read set
    rw [quarter, ContractAdmitted, ← read.contracts] at contract
    have admitted : AnyAdmitted parameters := by
      refine ⟨List.ne_nil_of_mem contract, ?_⟩
      rw [read.stablecoins, ← quarter, ne_eq, List.map_eq_nil_iff]
      exact quarterTokens_ne_nil (supported_of_stored inv priced.stored).token
    rw [quarter] at claims
    obtain ⟨volume, reported⟩ :=
      (answerable_iff serviceOrchestrator rounds numericDiv blockNumber set).mpr fun _ => ⟨by omega, claims⟩
    have inQuarter : first ∈ periodsOfQuarter db q.intValue := mem_periodsOfQuarter.mpr ⟨priced.stored, quarter⟩
    rw [← lag_map_fst (periodsOfQuarter db q.intValue)] at inQuarter
    obtain ⟨⟨_, previous⟩, paired, rfl⟩ := List.mem_map.mp inQuarter
    have counts := (getQuarterlyVolume_eq_ok set admitted).mp reported
    obtain ⟨period, shown, as⟩ := exists_result_of_mem_mapM counts.periods paired
    obtain ⟨-, as⟩ := reportPeriod_eq_ok.mp as
    refine ⟨volume, parameters, reported, set, period, shown, _, mem_of_mem_lag paired, as.closes,
      (mem_matchedPayments priced.stored).mpr ⟨?_, priced⟩, ?_⟩
    · exact List.mem_filter.mpr ⟨joined, decide_eq_true ⟨contract, fil, activated, bound⟩⟩
    · exact Int.cast_injective (α := ℚ) (as.volumeAttoFil.trans (periodVolumeAttoFil_eq _))

theorem rollsForward_of_pricedBy (rounds : cfg.RoundsHalfUp) (numericDiv : ℚ → ℚ → ℚ) (blockNumber : Int)
    (inv : Invariants cfg past db) (joined : rp ∈ railPayments db)
    (fil : rp.rail.token = zeroAddress) (activated : cfg.activationEpoch ≤ rp.payment.settledAtEpoch)
    (bound : isBound db serviceOrchestrator rp) (priced : PricedBy db rp first) :
    RollsForward cfg numericDiv blockNumber db serviceOrchestrator rp ↔
      (ContractAdmitted cfg db rp (cfg.quarterNum rp.payment.settledAtEpoch) ↔ JudgedBy cfg db rp first) := by
  have positive := (supported_of_stored inv priced.stored).positive
  obtain ⟨n, natural⟩ := Int.eq_ofNat_of_zero_le positive.le
  let q : QuarterNumber := ⟨n, by omega⟩
  have counted : ∀ q, CountedIn cfg numericDiv blockNumber db serviceOrchestrator rp q ↔
      first.quarterNum = q.intValue ∧ JudgedBy cfg db rp first :=
    countedIn_iff rounds inv joined fil activated bound priced
  by_cases judged : JudgedBy cfg db rp first
  · rw [iff_true_right judged]
    have here := (counted q).mpr ⟨natural, judged⟩
    have once : ∃! q, CountedIn cfg numericDiv blockNumber db serviceOrchestrator rp q := by
      refine ⟨q, here, ?_⟩
      intro other countedToo
      have same := ((counted other).mp countedToo).1
      exact QuarterNumber.ext (Int.natCast_inj.mp (same.symm.trans natural))
    constructor
    · intro rolls
      by_contra early
      exact rolls.left_out early q here
    · intro settled
      exact ⟨fun _ => once, fun early => absurd settled early⟩
  · rw [iff_false_right judged]
    have never : ∀ q, ¬ CountedIn cfg numericDiv blockNumber db serviceOrchestrator rp q := fun q countedIn =>
      judged ((counted q).mp countedIn).2
    constructor
    · intro rolls settled
      obtain ⟨q, countedIn, -⟩ := rolls.counted settled
      exact never q countedIn
    · intro early
      exact ⟨fun settled => absurd settled early, fun _ => never⟩

end Counted

/-- A settlement reaches its price exactly when the quarter of the first period after it judges the contract as the
quarter of the settlement does, and can be asked for where it accepts it. -/
theorem rollsForward_iff (cfg : Deployment) (rounds : cfg.RoundsHalfUp) (numericDiv : ℚ → ℚ → ℚ) (blockNumber : Int)
    (history : History) (db : DB) (reached : history.Reaches cfg db)
    (serviceOrchestrator : Option String) (rp : RailPayment) (joined : rp ∈ railPayments db)
    (fil : rp.rail.token = zeroAddress) (activated : cfg.activationEpoch ≤ rp.payment.settledAtEpoch)
    (bound : isBound db serviceOrchestrator rp) (later : PricePeriod) (stored : later ∈ db.qualifiedPricePeriodsMv.rows)
    (after : rp.payment.position < later.position) :
    ∃ first, PricedBy db rp first ∧ (RollsForward cfg numericDiv blockNumber db serviceOrchestrator rp ↔
      (ContractAdmitted cfg db rp (cfg.quarterNum rp.payment.settledAtEpoch) ↔ JudgedBy cfg db rp first)) := by
  obtain ⟨first, priced⟩ := exists_pricedBy stored after
  exact ⟨first, priced, rollsForward_of_pricedBy rounds numericDiv blockNumber (invariants_reached reached) joined fil
    activated bound priced⟩

section Dropped
open AdmittedVolume

def burns : AuctionServices where
  getTransaction _ := .ok ⟨some "0xe", "0x1a257300", 1⟩
  decodeFunctionData _ := .ok (.burnForFees "0xd" "0xb" 0)

def withdrawal (epoch : Int) (value : Nat) : TransferLog where
  address := "0xd"
  blockNumber := epoch
  logIndex := 0
  transactionHash := "0x9"
  fromAddress := "0xe"
  toAddress := "0xb"
  value := value

def beforePrint (contracts : List Address) : List Batch :=
  [.serviceRewardsActor dollars (bootstrap ++ [⟨60, 0, "0x1", .admittedListsUpdated ["0xd"] ["0xe", "0xf"]⟩,
      ⟨160, 0, "0x2", .admittedListsUpdated ["0xd"] contracts⟩]),
    settlements zeroAddress [(150, 7)],
    .auctionableToken burns [withdrawal 110 100, withdrawal 111 90, withdrawal 112 110, withdrawal 113 80,
      withdrawal 114 120, withdrawal 210 105]]

def droppedBeforePrint : History where
  batches := beforePrint ["0xe"]
  ordered := by unfold ChainOrdered; decide

def keptBeforePrint : History where
  batches := beforePrint ["0xe", "0xf"]
  ordered := by unfold ChainOrdered; decide

def pendingPayment : RailPayment where
  payment := { filecoinPayContractAddress := "0xf", txHash := "0x8", logIndex := 9, railId := 1, totalAmount := 7
               netPayeeAmount := 7, networkFee := 0, operatorCommission := 0, settledAtEpoch := 150
               oneTime := false, id := 1 }
  rail := { filecoinPayContractAddress := "0xf", txHash := "0x7", logIndex := 0, railId := 1, payer := "0xp"
            payee := "0xe", operator := "0xo", validator := "0xv", token := zeroAddress }

def secondQuarterPrint : PricePeriod where
  quarterNum := 2
  epoch := 210
  logIndex := 0
  lotAttoUsd := 105
  claimAttoFil := 1
  claimTxHash := "0x9"

theorem pendingPayment_before : pendingPayment.payment.position < secondQuarterPrint.position := by
  decide

theorem droppedBeforePrint_indexed :
    droppedBeforePrint.Reaches hundredEpochs (droppedBeforePrint.database hundredEpochs) ∧
    secondQuarterPrint ∈ (droppedBeforePrint.database hundredEpochs).qualifiedPricePeriodsMv.rows ∧
      pendingPayment ∈ railPayments (droppedBeforePrint.database hundredEpochs) ∧
      isBound (droppedBeforePrint.database hundredEpochs) none pendingPayment :=
  ⟨History.reaches_database (by decide +kernel), by decide +kernel⟩

theorem keptBeforePrint_indexed :
    keptBeforePrint.Reaches hundredEpochs (keptBeforePrint.database hundredEpochs) ∧
    secondQuarterPrint ∈ (keptBeforePrint.database hundredEpochs).qualifiedPricePeriodsMv.rows ∧
      pendingPayment ∈ railPayments (keptBeforePrint.database hundredEpochs) ∧
      isBound (keptBeforePrint.database hundredEpochs) none pendingPayment :=
  ⟨History.reaches_database (by decide +kernel), by decide +kernel⟩

theorem keptBeforePrint_judged :
    ContractAdmitted hundredEpochs (keptBeforePrint.database hundredEpochs) pendingPayment 1 ∧
      JudgedBy hundredEpochs (keptBeforePrint.database hundredEpochs) pendingPayment secondQuarterPrint := by
  have admitted : ContractAdmitted hundredEpochs (keptBeforePrint.database hundredEpochs) pendingPayment 1 ∧
      ContractAdmitted hundredEpochs (keptBeforePrint.database hundredEpochs) pendingPayment 2 := by
    decide +kernel
  exact ⟨admitted.1, admitted.2, by decide, by decide +kernel⟩

theorem rollsForward_iff_droppedBeforePrint :
    (∃ first, PricedBy (droppedBeforePrint.database hundredEpochs) pendingPayment first ∧
      (RollsForward hundredEpochs (· / ·) 300 (droppedBeforePrint.database hundredEpochs) none pendingPayment ↔
        (ContractAdmitted hundredEpochs (droppedBeforePrint.database hundredEpochs) pendingPayment 1 ↔
          JudgedBy hundredEpochs (droppedBeforePrint.database hundredEpochs) pendingPayment first))) ∧
    RollsForward hundredEpochs (· / ·) 300 (keptBeforePrint.database hundredEpochs) none pendingPayment := by
  obtain ⟨reached, stored, joined, bound⟩ := droppedBeforePrint_indexed
  obtain ⟨reachedToo, storedToo, joinedToo, boundToo⟩ := keptBeforePrint_indexed
  refine ⟨rollsForward_iff hundredEpochs hundredEpochs_rounds (· / ·) 300 droppedBeforePrint _ reached
    none pendingPayment joined rfl (by decide) bound secondQuarterPrint stored pendingPayment_before, ?_⟩
  obtain ⟨first, priced, kept⟩ := rollsForward_iff hundredEpochs hundredEpochs_rounds (· / ·) 300 keptBeforePrint _
    reachedToo none pendingPayment joinedToo rfl (by decide) boundToo secondQuarterPrint storedToo
    pendingPayment_before
  have here : PricedBy (keptBeforePrint.database hundredEpochs) pendingPayment secondQuarterPrint := by
    rw [← pricesFirst_iff storedToo]
    decide +kernel
  obtain rfl := PricedBy.unique (distinctPositions (invariants_reached reachedToo)) here priced
  exact kept.mpr (iff_of_true keptBeforePrint_judged.1 keptBeforePrint_judged.2)

theorem dropped_settlement_lost : droppedBeforePrint.Reaches hundredEpochs (droppedBeforePrint.database hundredEpochs) ∧
    ∃ rp ∈ railPayments (droppedBeforePrint.database hundredEpochs), rp.rail.token = zeroAddress ∧
      hundredEpochs.activationEpoch ≤ rp.payment.settledAtEpoch ∧
      isBound (droppedBeforePrint.database hundredEpochs) none rp ∧
      (∃ later ∈ (droppedBeforePrint.database hundredEpochs).qualifiedPricePeriodsMv.rows,
        rp.payment.position < later.position) ∧
      ¬ RollsForward hundredEpochs (· / ·) 300 (droppedBeforePrint.database hundredEpochs) none rp := by
  obtain ⟨reached, stored, joined, bound⟩ := droppedBeforePrint_indexed
  refine ⟨reached, pendingPayment, joined, rfl, by decide, bound,
    ⟨secondQuarterPrint, stored, pendingPayment_before⟩, ?_⟩
  have priced : PricedBy (droppedBeforePrint.database hundredEpochs) pendingPayment secondQuarterPrint := by
    rw [← pricesFirst_iff stored]
    decide +kernel
  rw [rollsForward_of_pricedBy hundredEpochs_rounds (· / ·) 300 (invariants_reached reached) joined rfl
    (by decide) bound priced]
  have settled : ContractAdmitted hundredEpochs (droppedBeforePrint.database hundredEpochs) pendingPayment 1 := by
    decide +kernel
  have pricing : ¬ ContractAdmitted hundredEpochs (droppedBeforePrint.database hundredEpochs) pendingPayment 2 := by
    decide +kernel
  exact fun same => pricing (same.mp settled).admitted

end Dropped

end Proof.Rollover
end FpvIndexer
