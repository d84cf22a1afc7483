import FpvIndexer.Proof.Rollover
import FpvIndexer.Proof.PaymentsList

namespace FpvIndexer
namespace Proof.WholeAmounts
open Relational Volume FilPricing InForce Reachable

section Conversions
variable {cfg : Deployment} {numericDiv : ℚ → ℚ → ℚ} {blockNumber : Int} {db : DB} {serviceOrchestrator : Option String}
  {q : QuarterNumber}

theorem toBigInt_iff_whole (rejects : cfg.RejectsFractions) (value : ℚ) :
    (∃ n, cfg.toBigInt value = some n) ↔ Whole value := by
  refine ⟨fun ⟨n, converted⟩ => ?_, exists_toBigInt_of_whole⟩
  by_contra fraction
  rw [rejects value (not_exists.mp fraction)] at converted
  cases converted

theorem numericToBigInt_error {value : ℚ} {failure : Failure} (failed : cfg.numericToBigInt value = .error failure) :
    failure = .notAnInteger value := by
  unfold Deployment.numericToBigInt at failed
  split at failed
  · cases failed
  · exact (Except.error.inj failed).symm

theorem pricingPeriod_error {result : PricePeriodWithVolume} {failure : Failure}
    (failed : pricingPeriod cfg result = .error failure) : ∃ value, failure = .notAnInteger value := by
  unfold pricingPeriod at failed
  rcases bind_eq_error.mp failed with lot | ⟨_, -, failed⟩
  · exact ⟨_, numericToBigInt_error lot⟩
  · rcases bind_eq_error.mp failed with claim | ⟨_, -, failed⟩
    · exact ⟨_, numericToBigInt_error claim⟩
    · rcases bind_eq_error.mp failed with volume | ⟨_, -, failed⟩
      · exact ⟨_, numericToBigInt_error volume⟩
      · cases failed

theorem periodWithVolume_error {admittedContracts : List Address} {qp : PricePeriod} {previous : Option PricePeriod}
    {failure : Failure}
    (failed : periodWithVolume cfg db admittedContracts serviceOrchestrator numericDiv qp previous = .error failure) :
    failure = .divisionByZero ∧ qp.claimAttoFil = 0 := by
  unfold periodWithVolume at failed
  dsimp only at failed
  split at failed
  · rename_i zero
    exact ⟨(Except.error.inj failed).symm, zero⟩
  · cases failed

theorem pricePeriodsWithVolume_ok_iff {admittedContracts : List Address} {quarterNum : Int} :
    (∃ results, pricePeriodsWithVolume cfg db admittedContracts serviceOrchestrator numericDiv quarterNum = .ok results) ↔
      ∀ qp ∈ periodsOfQuarter db quarterNum, qp.claimAttoFil ≠ 0 := by
  have here : ∀ entry : PricePeriod × Option PricePeriod, (∃ result,
      periodWithVolume cfg db admittedContracts serviceOrchestrator numericDiv entry.1 entry.2 = .ok result) ↔
        entry.1.claimAttoFil ≠ 0 := by
    intro entry
    unfold periodWithVolume
    by_cases zero : entry.1.claimAttoFil = 0
    · simp [zero]
    · simp [zero]
  unfold pricePeriodsWithVolume
  rw [exists_mapM_iff]
  conv_rhs => rw [← lag_map_fst (periodsOfQuarter db quarterNum), List.forall_mem_map]
  exact forall₂_congr fun entry _ => here entry

theorem getQuarterlyVolume_error {parameters : QuarterParameters} {failure : Failure}
    (set : getQuarterParameters cfg db q = .ok parameters) (admitted : AnyAdmitted parameters)
    (failed : getQuarterlyVolume cfg numericDiv blockNumber db serviceOrchestrator q = .error failure) :
    (∃ value, failure = .notAnInteger value) ∧ q.intValue < 2 ^ 31 ∧
        (∀ qp ∈ periodsOfQuarter db q.intValue, qp.claimAttoFil ≠ 0) ∨
      (∀ value, failure ≠ .notAnInteger value) ∧
        (q.intValue < 2 ^ 31 → ∃ qp ∈ periodsOfQuarter db q.intValue, qp.claimAttoFil = 0) := by
  unfold getQuarterlyVolume at failed
  rw [getQuarterByIndex_eq, set, ok_bind, ok_bind] at failed
  dsimp only at failed
  rw [if_neg (not_or.mpr admitted)] at failed
  by_cases inRange : q.intValue < 2 ^ 31
  · rw [integer_of_lt inRange, ok_bind] at failed
    rcases bind_eq_error.mp failed with zero | ⟨results, priced, failed⟩
    · obtain ⟨entry, paired, zero⟩ := exists_item_of_mapM_error zero
      obtain ⟨rfl, claim⟩ := periodWithVolume_error zero
      exact Or.inr ⟨fun _ => by simp, fun _ => ⟨entry.1, mem_of_mem_lag paired, claim⟩⟩
    · refine Or.inl ⟨?_, inRange, pricePeriodsWithVolume_ok_iff.mp ⟨results, priced⟩⟩
      rcases bind_eq_error.mp failed with stablecoins | ⟨_, -, failed⟩
      · exact ⟨_, numericToBigInt_error stablecoins⟩
      · rcases bind_eq_error.mp failed with periods | ⟨_, -, failed⟩
        · obtain ⟨result, -, failed⟩ := exists_item_of_mapM_error periods
          exact pricingPeriod_error failed
        · cases failed
  · rw [integer_of_le (not_lt.mp inRange)] at failed
    cases failed
    exact Or.inr ⟨fun _ => by simp, fun within => absurd within inRange⟩

theorem getQuarterlyVolume_converts_iff {parameters : QuarterParameters}
    (set : getQuarterParameters cfg db q = .ok parameters) (admitted : AnyAdmitted parameters) :
    (∀ value, getQuarterlyVolume cfg numericDiv blockNumber db serviceOrchestrator q ≠ .error (.notAnInteger value)) ↔
      (q.intValue < 2 ^ 31 → (∀ qp ∈ periodsOfQuarter db q.intValue, qp.claimAttoFil ≠ 0) →
        (∃ n, cfg.toBigInt (stablecoinVolume db parameters.admittedFilecoinPayContractAddresses
          parameters.admittedStablecoins (cfg.quarterStartEpoch q.intValue) (cfg.quarterEndEpoch q.intValue)
          serviceOrchestrator) = some n) ∧
        ∀ qp ∈ periodsOfQuarter db q.intValue,
          (∃ n, cfg.toBigInt qp.lotAttoUsd = some n) ∧ ∃ n, cfg.toBigInt qp.claimAttoFil = some n) := by
  constructor
  · intro converts inRange claims
    have goes : ∃ volume, getQuarterlyVolume cfg numericDiv blockNumber db serviceOrchestrator q = .ok volume := by
      cases result : getQuarterlyVolume cfg numericDiv blockNumber db serviceOrchestrator q with
      | ok volume => exact ⟨volume, rfl⟩
      | error failure =>
          rcases getQuarterlyVolume_error set admitted result with ⟨⟨value, rfl⟩, -⟩ | ⟨-, zero⟩
          · exact absurd result (converts value)
          · obtain ⟨qp, inQuarter, zero⟩ := zero inRange
            exact absurd zero (claims qp inQuarter)
    obtain ⟨-, stablecoins, each⟩ := (exists_getQuarterlyVolume_iff numericDiv blockNumber set admitted).mp goes
    exact ⟨stablecoins, fun qp inQuarter => (each qp inQuarter).2⟩
  · intro exact_ value failed
    rcases getQuarterlyVolume_error set admitted failed with ⟨-, inRange, claims⟩ | ⟨other, -⟩
    · obtain ⟨stablecoins, each⟩ := exact_ inRange claims
      obtain ⟨volume, goes⟩ := (exists_getQuarterlyVolume_iff numericDiv blockNumber set admitted).mpr
        ⟨inRange, stablecoins, fun qp inQuarter => ⟨claims qp inQuarter, each qp inQuarter⟩⟩
      rw [goes] at failed
      cases failed
    · exact other value rfl

theorem paymentPricingPeriod_converts_iff {pricing : PaymentPricing} :
    (∀ value, paymentPricingPeriod cfg pricing ≠ .error (.notAnInteger value)) ↔
      (∃ n, cfg.toBigInt pricing.lotAttoUsd = some n) ∧ ∃ n, cfg.toBigInt pricing.claimAttoFil = some n := by
  unfold paymentPricingPeriod
  constructor
  · intro converts
    cases lot : cfg.numericToBigInt pricing.lotAttoUsd with
    | error failure =>
        obtain rfl := numericToBigInt_error lot
        exact absurd (bind_eq_error.mpr (Or.inl lot)) (converts _)
    | ok lotAttoUsd =>
        cases claim : cfg.numericToBigInt pricing.claimAttoFil with
        | error failure =>
            obtain rfl := numericToBigInt_error claim
            exact absurd (bind_eq_error.mpr (Or.inr ⟨_, lot, bind_eq_error.mpr (Or.inl claim)⟩)) (converts _)
        | ok claimAttoFil => exact ⟨⟨_, cfg.numericToBigInt_eq_ok.mp lot⟩, ⟨_, cfg.numericToBigInt_eq_ok.mp claim⟩⟩
  · rintro ⟨⟨lotAttoUsd, lot⟩, ⟨claimAttoFil, claim⟩⟩ value failed
    rw [cfg.numericToBigInt_eq_ok.mpr lot, cfg.numericToBigInt_eq_ok.mpr claim] at failed
    cases failed

section Listed
variable {services : TokenServices} {scan : List PaymentRow → List PaymentRow}
  {divides : PaymentsQuery → RailPayment → PricePeriod → Bool}

def NoConversions (services : TokenServices) : Prop :=
  ∀ token value, services.getTokenDecimals token ≠ .error (.notAnInteger value) ∧
    services.getTokenSymbol token ≠ .error (.notAnInteger value)

theorem getQuarters_converts (value : ℚ) : getQuarters cfg blockNumber ≠ .error (.notAnInteger value) := by
  intro failed
  unfold getQuarters at failed
  split at failed
  · cases failed
  · obtain ⟨quarter, -, failed⟩ := exists_item_of_mapM_error failed
    unfold getQuarterByIndex at failed
    rw [if_neg (by omega)] at failed
    cases failed

theorem toPayment_converts {details : List (Address × ERC20Metadata)} {quarters : List Quarter} {row : PaymentRow}
    {value : ℚ} (failed : toPayment cfg details quarters row = .error (.notAnInteger value)) :
    ∃ pricing, row.pricing = some pricing ∧ paymentPricingPeriod cfg pricing = .error (.notAnInteger value) := by
  unfold toPayment at failed
  split at failed
  · cases failed
  · rcases bind_eq_error.mp failed with converted | ⟨_, -, failed⟩
    · cases priced : row.pricing with
      | none =>
          rw [priced] at converted
          cases converted
      | some pricing =>
          rw [priced, Option.mapM_some] at converted
          rcases bind_eq_error.mp converted with failed | ⟨_, -, failed⟩
          · exact ⟨pricing, rfl, failed⟩
          · cases failed
    · cases failed

theorem conversion_of_listed (foreign : NoConversions services) (scans : ∀ rows, (scan rows).Perm rows)
    {query : PaymentsQuery} {value : ℚ}
    (failed : getPaymentsPaginated services cfg blockNumber scan divides db query = .error (.notAnInteger value)) :
    ∃ rp ∈ railPayments db, ∃ pricing, lateralPricing cfg db rp = some pricing ∧ pricing.claimAttoFil ≠ 0 ∧
      paymentPricingPeriod cfg pricing = .error (.notAnInteger value) := by
  unfold getPaymentsPaginated at failed
  rcases bind_eq_error.mp failed with quarters | ⟨quarters, -, failed⟩
  · exact absurd quarters (getQuarters_converts value)
  dsimp only at failed
  split at failed
  · cases failed
  rename_i undivided
  rcases bind_eq_error.mp failed with details | ⟨details, -, failed⟩
  · obtain ⟨token, -, failed⟩ := exists_item_of_mapM_error details
    rcases bind_eq_error.mp failed with decimals | ⟨_, -, failed⟩
    · exact absurd decimals (foreign token value).1
    · rcases bind_eq_error.mp failed with symbol | ⟨_, -, failed⟩
      · exact absurd symbol (foreign token value).2
      · cases failed
  rcases bind_eq_error.mp failed with shown | ⟨payments, -, failed⟩
  · obtain ⟨row, onPage, failed⟩ := exists_item_of_mapM_error shown
    obtain ⟨pricing, same, failed⟩ := toPayment_converts failed
    obtain ⟨joined, priced⟩ := PaymentsList.lateralPricing_of_page scans onPage
    refine ⟨row.toRailPayment, joined, pricing, priced.symm.trans same, ?_, failed⟩
    exact PaymentsList.claim_of_page (Bool.eq_false_iff.mpr undivided) onPage same
  · cases failed

end Listed

end Conversions

section Sources
variable {cfg : Deployment} {db : DB} {qp : PricePeriod}

structure Source (cfg : Deployment) (db : DB) (qp : PricePeriod) (row : FilecoinPayFeeAuction) (t : WhitelistedToken) :
    Prop where
  stored : row ∈ db.filecoinPayFeeAuction.rows
  listed : t ∈ db.whitelistedToken.rows
  token : t.tokenAddress = row.tokenAddress
  admitted : admittedFor (cfg.quarterNum t.admittanceEpoch) (t.removalEpoch.map cfg.quarterNum) qp.quarterNum
  position : qp.position = row.position
  lot : qp.lotAttoUsd = row.amountActual * (10 : ℚ) ^ (18 - t.tokenDecimals)
  claim : qp.claimAttoFil = row.filBurned

theorem source_of_whitelisted {a : QuarterAuction} (member : a.toWhitelistedAuction ∈ whitelistedAuctions cfg db) :
    ∃ row t, Source cfg db (PriceBand.printed a) row t := by
  obtain ⟨row, stored, built⟩ := List.mem_filterMap.mp member
  unfold whitelistedAuction at built
  dsimp only at built
  split at built
  · obtain ⟨t, found, same⟩ := Option.map_eq_some_iff.mp built
    obtain ⟨kept, covers⟩ := List.mem_filter.mp (mem_of_head?_orderBy _ found)
    obtain ⟨listing, listed, rfl⟩ := List.mem_map.mp (List.mem_of_mem_filter (mem_of_mem_distinctOn_orderBy _ kept))
    obtain ⟨token, admitted⟩ := of_decide_eq_true covers
    refine ⟨row, listing, stored, listed, token.symm, ?_, ?_, ?_, ?_⟩
    · rw [PriceBand.printed, ← same]
      exact decide_eq_true admitted
    · rw [PricePeriod.position, PriceBand.printed, ← same]
      rfl
    · rw [PriceBand.printed, ← same]
    · rw [PriceBand.printed, ← same]
  · cases built

theorem source_of_mem (configured : db.applicationConfig = some cfg.toConfig) (member : qp ∈ getQualifyingPricePeriods db) :
    ∃ row t, Source cfg db qp row t := by
  obtain ⟨count, qIndex, a, inQuarter, rfl⟩ := mem_getQualifyingPricePeriods configured member
  obtain ⟨s, substantial, same, -⟩ := PriceBand.mem_quarterAuctions inQuarter
  have whitelisted := PriceBand.mem_substantialAuctions substantial
  rw [same] at whitelisted
  exact source_of_whitelisted whitelisted

theorem source_of_stored {past : List ServiceRewardsActorLog} (inv : Invariants cfg past db)
    (stored : qp ∈ db.qualifiedPricePeriodsMv.rows) : ∃ row t, Source cfg db qp row t := by
  obtain ⟨listed, rows⟩ := inv.priced
  rw [rows] at stored
  have configured : ({ db with filecoinPayContract := listed } : DB).applicationConfig = some cfg.toConfig := inv.configured
  obtain ⟨row, t, source⟩ := source_of_mem configured stored
  exact ⟨row, t, source.stored, source.listed, source.token, source.admitted, source.position, source.lot, source.claim⟩

end Sources

section Specification
variable (cfg : Deployment) (numericDiv : ℚ → ℚ → ℚ) (blockNumber : Int) (db : DB) (serviceOrchestrator : Option String)
  (q : QuarterNumber) (parameters : QuarterParameters)

/-- The volume fails on no conversion, and neither does a price period attached to a payment. -/
structure NoConversionThrows : Prop where
  volume : ∀ value, getQuarterlyVolume cfg numericDiv blockNumber db serviceOrchestrator q ≠ .error (.notAnInteger value)
  attached : ∀ rp ∈ railPayments db, ∀ pricing, lateralPricing cfg db rp = some pricing → pricing.claimAttoFil ≠ 0 →
    ∀ value, paymentPricingPeriod cfg pricing ≠ .error (.notAnInteger value)

def Converts : Prop :=
  AnyAdmitted parameters ∧ q.intValue < 2 ^ 31 ∧ ∀ qp ∈ periodsOfQuarter db q.intValue, qp.claimAttoFil ≠ 0

/-- Whatever the conversion makes of a fraction: it is asked for none. -/
structure AmountsWhole : Prop where
  stablecoins : Converts db q parameters →
    Whole (stablecoinVolume db parameters.admittedFilecoinPayContractAddresses parameters.admittedStablecoins
      (cfg.quarterStartEpoch q.intValue) (cfg.quarterEndEpoch q.intValue) serviceOrchestrator)
  periods : Converts db q parameters → ∀ qp ∈ periodsOfQuarter db q.intValue, Whole qp.lotAttoUsd ∧
    Whole qp.claimAttoFil ∧
      Whole (periodVolumeAttoFil cfg db parameters.admittedFilecoinPayContractAddresses serviceOrchestrator qp)
  attached : ∀ rp ∈ railPayments db, ∀ pricing, lateralPricing cfg db rp = some pricing → pricing.claimAttoFil ≠ 0 →
    Whole pricing.lotAttoUsd ∧ Whole pricing.claimAttoFil

/-- What the payments in tokens of more than eighteen decimals come to. -/
def fineVolume : ℚ :=
  (((stablecoinPayments db parameters.admittedFilecoinPayContractAddresses parameters.admittedStablecoins
    (cfg.quarterStartEpoch q.intValue) (cfg.quarterEndEpoch q.intValue) serviceOrchestrator).filter
      (18 < ·.tokenDecimals)).map fun p => p.totalAmount * (10 : ℚ) ^ (18 - p.tokenDecimals)).sum

def WholeLot (qp : PricePeriod) : Prop :=
  ∀ row t, Source cfg db qp row t →
    t.tokenDecimals ≤ 18 ∨ (10 : Int) ^ (t.tokenDecimals - 18).toNat ∣ row.amountActual

structure NoFractions : Prop where
  volume : Converts db q parameters →
    Whole (fineVolume cfg db serviceOrchestrator q parameters) ∧ ∀ qp ∈ periodsOfQuarter db q.intValue, WholeLot cfg db qp
  attached : ∀ rp ∈ railPayments db, rp.rail.token = zeroAddress → ∀ qp, PricedBy db rp qp → qp.claimAttoFil ≠ 0 →
    WholeLot cfg db qp

end Specification

section Exact
variable {cfg : Deployment} {numericDiv : ℚ → ℚ → ℚ} {blockNumber : Int} {db : DB} {serviceOrchestrator : Option String}
  {q : QuarterNumber} {parameters : QuarterParameters} {past : List ServiceRewardsActorLog} {qp : PricePeriod}

theorem whole_stablecoinVolume_iff :
    Whole (stablecoinVolume db parameters.admittedFilecoinPayContractAddresses parameters.admittedStablecoins
      (cfg.quarterStartEpoch q.intValue) (cfg.quarterEndEpoch q.intValue) serviceOrchestrator) ↔
      Whole (fineVolume cfg db serviceOrchestrator q parameters) := by
  let payments := stablecoinPayments db parameters.admittedFilecoinPayContractAddresses parameters.admittedStablecoins
    (cfg.quarterStartEpoch q.intValue) (cfg.quarterEndEpoch q.intValue) serviceOrchestrator
  let value := fun p : StablecoinPayment => (p.totalAmount : ℚ) * (10 : ℚ) ^ (18 - p.tokenDecimals)
  have split : (payments.map value).sum = ((payments.filter fun p => !decide (18 < p.tokenDecimals)).map value).sum +
      ((payments.filter fun p => decide (18 < p.tokenDecimals)).map value).sum := by
    rw [add_comm, ← List.sum_append, ← List.map_append]
    exact ((List.filter_append_perm (fun p : StablecoinPayment => decide (18 < p.tokenDecimals)) payments).map value).sum_eq.symm
  have coarse : Whole ((payments.filter fun p => !decide (18 < p.tokenDecimals)).map value).sum := by
    apply whole_sum
    intro scaled member
    obtain ⟨p, kept, rfl⟩ := List.mem_map.mp member
    have decimals := (List.mem_filter.mp kept).2
    rw [Bool.not_eq_true', decide_eq_false_iff_not, not_lt] at decimals
    exact_mod_cast (whole_scaled_iff p.totalAmount p.tokenDecimals).mpr (Or.inl decimals)
  change Whole (payments.map value).sum ↔ _
  rw [split, whole_add_iff coarse]
  rfl

theorem whole_lot_iff (inv : Invariants cfg past db) (stored : qp ∈ db.qualifiedPricePeriodsMv.rows) :
    Whole qp.lotAttoUsd ↔ WholeLot cfg db qp := by
  constructor
  · intro whole row t source
    rw [source.lot] at whole
    exact (whole_scaled_iff row.amountActual t.tokenDecimals).mp whole
  · intro each
    obtain ⟨row, t, source⟩ := source_of_stored inv stored
    rw [source.lot]
    exact (whole_scaled_iff row.amountActual t.tokenDecimals).mpr (each row t source)

theorem whole_claim (inv : Invariants cfg past db) (stored : qp ∈ db.qualifiedPricePeriodsMv.rows) :
    Whole qp.claimAttoFil := by
  obtain ⟨row, t, source⟩ := source_of_stored inv stored
  exact ⟨row.filBurned, source.claim.symm⟩

theorem volume_converts_iff (rejects : cfg.RejectsFractions) (inv : Invariants cfg past db)
    (set : getQuarterParameters cfg db q = .ok parameters) :
    (∀ value, getQuarterlyVolume cfg numericDiv blockNumber db serviceOrchestrator q ≠ .error (.notAnInteger value)) ↔
      (Converts db q parameters → Whole (fineVolume cfg db serviceOrchestrator q parameters) ∧
          ∀ qp ∈ periodsOfQuarter db q.intValue, WholeLot cfg db qp) := by
  by_cases admitted : AnyAdmitted parameters
  · rw [getQuarterlyVolume_converts_iff set admitted, toBigInt_iff_whole rejects, whole_stablecoinVolume_iff]
    unfold Converts
    rw [and_imp, and_imp, imp_iff_right admitted]
    refine imp_congr_right fun _ => imp_congr_right fun _ => and_congr_right fun _ => forall₂_congr fun qp inQuarter => ?_
    have stored := (mem_periodsOfQuarter.mp inQuarter).1
    rw [toBigInt_iff_whole rejects, toBigInt_iff_whole rejects, whole_lot_iff inv stored]
    exact and_iff_left (whole_claim inv stored)
  · rw [getQuarterlyVolume_of_none set admitted]
    refine iff_of_true (fun value failed => ?_) fun converts => absurd converts.1 admitted
    cases failed

theorem attached_whole_iff (inv : Invariants cfg past db) :
    (∀ rp ∈ railPayments db, ∀ pricing, lateralPricing cfg db rp = some pricing → pricing.claimAttoFil ≠ 0 →
      Whole pricing.lotAttoUsd ∧ Whole pricing.claimAttoFil) ↔
      ∀ rp ∈ railPayments db, rp.rail.token = zeroAddress → ∀ qp, PricedBy db rp qp → qp.claimAttoFil ≠ 0 →
        WholeLot cfg db qp := by
  have distinct := Rollover.distinctPositions inv
  constructor
  · intro whole rp joined fil qp priced claim
    have here := whole rp joined _ ((lateralPricing_eq_some distinct).mpr ⟨fil, qp, priced, rfl⟩) claim
    exact (whole_lot_iff inv priced.stored).mp here.1
  · intro whole rp joined pricing attached claim
    obtain ⟨fil, qp, priced, rfl⟩ := (lateralPricing_eq_some distinct).mp attached
    exact ⟨(whole_lot_iff inv priced.stored).mpr (whole rp joined fil qp priced claim), whole_claim inv priced.stored⟩

theorem attached_converts_iff (rejects : cfg.RejectsFractions) :
    (∀ rp ∈ railPayments db, ∀ pricing, lateralPricing cfg db rp = some pricing → pricing.claimAttoFil ≠ 0 →
      ∀ value, paymentPricingPeriod cfg pricing ≠ .error (.notAnInteger value)) ↔
    ∀ rp ∈ railPayments db, ∀ pricing, lateralPricing cfg db rp = some pricing → pricing.claimAttoFil ≠ 0 →
      Whole pricing.lotAttoUsd ∧ Whole pricing.claimAttoFil := by
  refine forall₂_congr fun rp joined => forall₂_congr fun pricing attached => imp_congr_right fun claim => ?_
  rw [paymentPricingPeriod_converts_iff, toBigInt_iff_whole rejects, toBigInt_iff_whole rejects]

theorem amountsWhole_iff (inv : Invariants cfg past db) :
    AmountsWhole cfg db serviceOrchestrator q parameters ↔ NoFractions cfg db serviceOrchestrator q parameters := by
  constructor
  · intro whole
    refine ⟨fun converts => ⟨whole_stablecoinVolume_iff.mp (whole.stablecoins converts), fun qp inQuarter => ?_⟩,
      (attached_whole_iff inv).mp whole.attached⟩
    exact (whole_lot_iff inv (mem_periodsOfQuarter.mp inQuarter).1).mp (whole.periods converts qp inQuarter).1
  · intro none
    refine ⟨fun converts => whole_stablecoinVolume_iff.mpr (none.volume converts).1, fun converts qp inQuarter => ?_,
      (attached_whole_iff inv).mpr none.attached⟩
    have stored := (mem_periodsOfQuarter.mp inQuarter).1
    exact ⟨(whole_lot_iff inv stored).mpr ((none.volume converts).2 qp inQuarter), whole_claim inv stored,
      periodVolumeAttoFil_whole qp⟩

end Exact

/-- The amounts are whole exactly when those in tokens of more than eighteen decimals leave no fraction. Where a
fraction is rejected no conversion throws exactly then, and a list of payments fails on a conversion only where an
attached price period does. -/
theorem noConversionThrows_iff (cfg : Deployment) (numericDiv : ℚ → ℚ → ℚ) (blockNumber : Int) (history : History) (db : DB)
    (reached : history.Reaches cfg db) (serviceOrchestrator : Option String) (q : QuarterNumber)
    (parameters : QuarterParameters) (set : getQuarterParameters cfg db q = .ok parameters) :
    (AmountsWhole cfg db serviceOrchestrator q parameters ↔ NoFractions cfg db serviceOrchestrator q parameters) ∧
    (cfg.RejectsFractions → (NoConversionThrows cfg numericDiv blockNumber db serviceOrchestrator q ↔
      NoFractions cfg db serviceOrchestrator q parameters)) ∧
    (∀ services scan divides query value, NoConversions services → (∀ rows, (scan rows).Perm rows) →
      getPaymentsPaginated services cfg blockNumber scan divides db query = .error (.notAnInteger value) →
        ¬ NoConversionThrows cfg numericDiv blockNumber db serviceOrchestrator q) := by
  have inv := invariants_reached reached
  refine ⟨amountsWhole_iff inv, fun rejects => ?_, ?_⟩
  · constructor
    · intro none
      exact ⟨(volume_converts_iff rejects inv set).mp none.volume,
        (attached_whole_iff inv).mp ((attached_converts_iff rejects).mp none.attached)⟩
    · intro none
      exact ⟨(volume_converts_iff rejects inv set).mpr none.volume,
        (attached_converts_iff rejects).mpr ((attached_whole_iff inv).mpr none.attached)⟩
  · intro services scan divides query value foreign scans failed none
    obtain ⟨rp, joined, pricing, attached, claim, throws⟩ := conversion_of_listed foreign scans failed
    exact none.attached rp joined pricing attached claim value throws

section Cents
open AdmittedVolume

def fineTokens : TokenServices where
  getERC20Metadata _ := .ok ⟨20, "USD"⟩
  isValidERC20 _ := .ok true
  getTokenDecimals _ := .ok 20
  getTokenSymbol _ := .ok "USD"

def fiveBaseUnits : History where
  batches := [.serviceRewardsActor fineTokens bootstrap, settlements "0xd" [(140, 5)]]
  ordered := by unfold ChainOrdered; decide

def exactHundredEpochs : Deployment where
  toConfig := everyHundredEpochs
  toBigInt value := if value.den = 1 then some value.num else none
  toBigInt_intCast := by
    intro n
    rw [if_pos (Rat.den_intCast n), Rat.num_intCast]

theorem exactHundredEpochs_rejects : exactHundredEpochs.RejectsFractions := by
  intro value fraction
  refine if_neg fun whole => fraction value.num ?_
  exact (Rat.den_eq_one_iff value).mp whole

def hundredBaseUnits : History where
  batches := [.serviceRewardsActor fineTokens bootstrap, settlements "0xd" [(140, 100)]]
  ordered := by unfold ChainOrdered; decide

theorem fiveBaseUnits_indexed :
    fiveBaseUnits.Reaches exactHundredEpochs (fiveBaseUnits.database exactHundredEpochs) ∧
    getQuarterParameters exactHundredEpochs (fiveBaseUnits.database exactHundredEpochs) firstQuarter =
      .ok firstQuarterParameters ∧
    getQuarterlyVolume exactHundredEpochs (· / ·) 300 (fiveBaseUnits.database exactHundredEpochs) none firstQuarter =
      .error (.notAnInteger (1 / 20)) :=
  ⟨History.reaches_database (by decide +kernel), by decide +kernel, by decide +kernel⟩

theorem hundredBaseUnits_indexed :
    hundredBaseUnits.Reaches exactHundredEpochs (hundredBaseUnits.database exactHundredEpochs) ∧
    getQuarterParameters exactHundredEpochs (hundredBaseUnits.database exactHundredEpochs) firstQuarter =
      .ok firstQuarterParameters :=
  ⟨History.reaches_database (by decide +kernel), by decide +kernel⟩

theorem hundredBaseUnits_noFractions : NoFractions exactHundredEpochs (hundredBaseUnits.database exactHundredEpochs) none
    firstQuarter firstQuarterParameters := by
  have unpriced : (hundredBaseUnits.database exactHundredEpochs).qualifiedPricePeriodsMv.rows = [] := by decide +kernel
  constructor
  · intro _
    refine ⟨⟨1, by decide +kernel⟩, fun qp inQuarter => ?_⟩
    have stored := (mem_periodsOfQuarter.mp inQuarter).1
    rw [unpriced] at stored
    cases stored
  · intro rp _ _ qp priced
    have stored := priced.stored
    rw [unpriced] at stored
    cases stored

theorem noConversionThrows_iff_fiveBaseUnits :
    (AmountsWhole exactHundredEpochs (fiveBaseUnits.database exactHundredEpochs) none firstQuarter firstQuarterParameters ↔
      NoFractions exactHundredEpochs (fiveBaseUnits.database exactHundredEpochs) none firstQuarter
        firstQuarterParameters) ∧
    (NoConversionThrows exactHundredEpochs (· / ·) 300 (fiveBaseUnits.database exactHundredEpochs) none firstQuarter ↔
      NoFractions exactHundredEpochs (fiveBaseUnits.database exactHundredEpochs) none firstQuarter
        firstQuarterParameters) ∧
    NoConversionThrows exactHundredEpochs (· / ·) 300 (hundredBaseUnits.database exactHundredEpochs) none firstQuarter := by
  obtain ⟨amounts, conversions, -⟩ := noConversionThrows_iff exactHundredEpochs (· / ·) 300 fiveBaseUnits _
    fiveBaseUnits_indexed.1 none firstQuarter _ fiveBaseUnits_indexed.2.1
  obtain ⟨-, whole, -⟩ := noConversionThrows_iff exactHundredEpochs (· / ·) 300 hundredBaseUnits _
    hundredBaseUnits_indexed.1 none firstQuarter _ hundredBaseUnits_indexed.2
  exact ⟨amounts, conversions exactHundredEpochs_rejects,
    (whole exactHundredEpochs_rejects).mpr hundredBaseUnits_noFractions⟩

theorem fiveBaseUnits_throws : exactHundredEpochs.RejectsFractions ∧
    fiveBaseUnits.Reaches exactHundredEpochs (fiveBaseUnits.database exactHundredEpochs) ∧
    getQuarterParameters exactHundredEpochs (fiveBaseUnits.database exactHundredEpochs) firstQuarter =
      .ok firstQuarterParameters ∧
    ¬ NoConversionThrows exactHundredEpochs (· / ·) 300 (fiveBaseUnits.database exactHundredEpochs) none firstQuarter ∧
    ¬ AmountsWhole exactHundredEpochs (fiveBaseUnits.database exactHundredEpochs) none firstQuarter
      firstQuarterParameters := by
  obtain ⟨reached, set, failed⟩ := fiveBaseUnits_indexed
  have throws : ¬ NoConversionThrows exactHundredEpochs (· / ·) 300 (fiveBaseUnits.database exactHundredEpochs) none
      firstQuarter := fun none => none.volume (1 / 20) failed
  refine ⟨exactHundredEpochs_rejects, reached, set, throws, fun whole => throws ?_⟩
  have inv := invariants_reached reached
  have none := (amountsWhole_iff inv).mp whole
  exact ⟨(volume_converts_iff exactHundredEpochs_rejects inv set).mpr none.volume,
    (attached_converts_iff exactHundredEpochs_rejects).mpr ((attached_whole_iff inv).mpr none.attached)⟩

end Cents

end Proof.WholeAmounts
end FpvIndexer
