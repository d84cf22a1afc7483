import FpvIndexer.Services.VolumeCalculation
import FpvIndexer.Relational.Fallible
import FpvIndexer.Relational.Window
import Mathlib.Algebra.BigOperators.Ring.Finset
import Mathlib.Algebra.Group.Subgroup.Finite
import Mathlib.Algebra.Group.Subgroup.Ker

namespace FpvIndexer.Proof.Volume
open Relational

section Join
variable {db : DB}

theorem mem_railPayments {rp : RailPayment} :
    rp ∈ railPayments db ↔ rp.payment ∈ db.filecoinPayPayment.rows ∧ rp.rail ∈ db.filecoinPayRail.rows ∧
      rp.payment.railId = rp.rail.railId ∧
      rp.payment.filecoinPayContractAddress = rp.rail.filecoinPayContractAddress := by
  unfold railPayments
  simp only [List.mem_flatMap, List.mem_map, List.mem_filter, decide_eq_true_eq]
  constructor
  · rintro ⟨p, stored, r, ⟨rail, same⟩, rfl⟩
    exact ⟨stored, rail, same⟩
  · rintro ⟨stored, rail, same⟩
    exact ⟨rp.payment, stored, rp.rail, ⟨rail, same⟩, rfl⟩

theorem railPayment_eq_of_id {a b : RailPayment} (ha : a ∈ railPayments db) (hb : b ∈ railPayments db)
    (same : a.payment.id = b.payment.id) : a = b := by
  rw [mem_railPayments] at ha hb
  have payment : a.payment = b.payment := db.filecoinPayPayment.eq_of_key ha.1 hb.1 same
  have rail : a.rail = b.rail := by
    refine db.filecoinPayRail.eq_of_key ha.2.1 hb.2.1 ?_
    unfold FilecoinPayRail.pkey
    rw [← ha.2.2.1, ← ha.2.2.2, ← hb.2.2.1, ← hb.2.2.2, payment]
  cases a
  cases b
  cases payment
  cases rail
  rfl

theorem railPayments_nodup : (railPayments db).Nodup := by
  unfold railPayments
  refine List.nodup_flatMap.mpr ⟨?_, ?_⟩
  · intro p _
    refine (db.filecoinPayRail.rows_nodup.filter _).map ?_
    intro r r' same
    cases same
    rfl
  · refine db.filecoinPayPayment.rows_nodup.imp ?_
    intro p p' differ rp here there
    obtain ⟨_, -, rfl⟩ := List.mem_map.mp here
    obtain ⟨_, -, same⟩ := List.mem_map.mp there
    exact differ (congrArg RailPayment.payment same).symm

theorem ids_nodup {counted : List RailPayment} (nodup : counted.Nodup)
    (joined : ∀ rp ∈ counted, rp ∈ railPayments db) : (counted.map (·.payment.id)).Nodup :=
  nodup.map_on fun a ha b hb same => railPayment_eq_of_id (joined a ha) (joined b hb) same

end Join

section Stablecoins
variable {db : DB}

def isListed (admittedContracts admittedStablecoins : List Address) (startEpoch endEpoch : Int) (rp : RailPayment) :
    Bool :=
  rp.payment.filecoinPayContractAddress ∈ admittedContracts ∧ rp.rail.token ∈ admittedStablecoins ∧
    startEpoch ≤ rp.payment.settledAtEpoch ∧ rp.payment.settledAtEpoch ≤ endEpoch

def tokenValue (db : DB) (rp : RailPayment) : ℚ :=
  ((db.whitelistedToken.rows.filter fun t => rp.rail.token = t.tokenAddress ∧ t.covers rp.payment.position).map
    fun t => rp.payment.totalAmount * (10 : ℚ) ^ (18 - t.tokenDecimals)).sum

theorem stablecoinVolume_eq (admittedContracts admittedStablecoins : List Address) (startEpoch endEpoch : Int)
    (serviceOrchestrator : Option String) :
    stablecoinVolume db admittedContracts admittedStablecoins startEpoch endEpoch serviceOrchestrator =
      ((railPayments db).map fun rp =>
        if isListed admittedContracts admittedStablecoins startEpoch endEpoch rp && isBound db serviceOrchestrator rp
        then tokenValue db rp else 0).sum := by
  unfold stablecoinVolume stablecoinPayments
  rw [List.map_flatMap, List.flatMap_def, List.sum_flatten, List.map_map]
  refine congrArg List.sum (List.map_congr_left fun rp _ => ?_)
  unfold isListed tokenValue
  by_cases counted : rp.payment.filecoinPayContractAddress ∈ admittedContracts ∧
      rp.rail.token ∈ admittedStablecoins ∧ startEpoch ≤ rp.payment.settledAtEpoch ∧
      rp.payment.settledAtEpoch ≤ endEpoch ∧ isBound db serviceOrchestrator rp
  · obtain ⟨contract, token, started, ended, bound⟩ := counted
    simp [contract, token, started, ended, bound, Function.comp_def]
  · have apart : (decide (rp.payment.filecoinPayContractAddress ∈ admittedContracts ∧
        rp.rail.token ∈ admittedStablecoins ∧ startEpoch ≤ rp.payment.settledAtEpoch ∧
        rp.payment.settledAtEpoch ≤ endEpoch) && isBound db serviceOrchestrator rp) = false := by
      rw [Bool.and_eq_false_iff, decide_eq_false_iff_not, ← Bool.not_eq_true, ← not_and_or]
      rintro ⟨⟨contract, token, started, ended⟩, bound⟩
      exact counted ⟨contract, token, started, ended, bound⟩
    simp only [Function.comp_apply, if_neg counted, apart, Bool.false_eq_true, if_false, List.map_nil, List.sum_nil]

end Stablecoins

def Whole (value : ℚ) : Prop := ∃ integer : Int, (integer : ℚ) = value

theorem whole_iff_mem {value : ℚ} : Whole value ↔ value ∈ (Int.castAddHom ℚ).range := Iff.rfl

theorem whole_add_iff {a b : ℚ} (whole : Whole a) : Whole (a + b) ↔ Whole b := by
  simp only [whole_iff_mem] at *
  exact AddSubgroup.add_mem_cancel_left _ whole

theorem whole_sum {values : List ℚ} (each : ∀ value ∈ values, Whole value) : Whole values.sum := by
  simp only [whole_iff_mem] at *
  exact AddSubgroup.list_sum_mem _ each

theorem whole_scaled_iff (amount decimals : Int) : Whole (amount * (10 : ℚ) ^ (18 - decimals)) ↔
    decimals ≤ 18 ∨ (10 : Int) ^ (decimals - 18).toNat ∣ amount := by
  by_cases coarse : decimals ≤ 18
  · obtain ⟨exponent, scaled⟩ := Int.eq_ofNat_of_zero_le (Int.sub_nonneg.mpr coarse)
    rw [scaled]
    exact iff_of_true ⟨amount * 10 ^ exponent, by push_cast; rfl⟩ (Or.inl coarse)
  · rw [or_iff_right coarse]
    obtain ⟨exponent, fine⟩ := Int.eq_ofNat_of_zero_le (a := decimals - 18) (by omega)
    have scale : (10 : ℚ) ^ exponent ≠ 0 := by positivity
    rw [fine, Int.toNat_natCast, show (18 - decimals : Int) = -exponent by omega, zpow_neg, zpow_natCast, ← div_eq_mul_inv]
    constructor
    · rintro ⟨integer, same⟩
      rw [eq_div_iff scale] at same
      exact ⟨integer, by rw [mul_comm]; exact_mod_cast same.symm⟩
    · rintro ⟨integer, rfl⟩
      refine ⟨integer, ?_⟩
      rw [eq_div_iff scale]
      push_cast
      exact mul_comm _ _

theorem whole_stablecoinVolume {db : DB} (coarse : ∀ t ∈ db.whitelistedToken.rows, t.tokenDecimals ≤ 18)
    (admittedContracts admittedStablecoins : List Address) (startEpoch endEpoch : Int)
    (serviceOrchestrator : Option String) :
    Whole (stablecoinVolume db admittedContracts admittedStablecoins startEpoch endEpoch serviceOrchestrator) := by
  apply whole_sum
  intro scaled member
  obtain ⟨p, counted, rfl⟩ := List.mem_map.mp member
  obtain ⟨rp, -, joined⟩ := List.mem_flatMap.mp counted
  split at joined
  · obtain ⟨t, listed, rfl⟩ := List.mem_map.mp joined
    have decimals := coarse t (List.mem_of_mem_filter listed)
    exact_mod_cast (whole_scaled_iff rp.payment.totalAmount t.tokenDecimals).mpr (Or.inl decimals)
  · cases joined

theorem stablecoinVolume_nonneg (db : DB) (contracts stablecoins : List Address) (startEpoch endEpoch : Int)
    (serviceOrchestrator : Option String) :
    0 ≤ stablecoinVolume db contracts stablecoins startEpoch endEpoch serviceOrchestrator := by
  apply List.sum_nonneg
  intro value member
  obtain ⟨p, -, rfl⟩ := List.mem_map.mp member
  exact mul_nonneg (Nat.cast_nonneg _) (zpow_nonneg (by norm_num) _)

theorem exists_toBigInt_of_whole {cfg : Deployment} {value : ℚ} (whole : Whole value) :
    ∃ n, cfg.toBigInt value = some n := by
  obtain ⟨n, exact⟩ := whole
  exact ⟨n, cfg.toBigInt_of_whole exact⟩

section Periods
variable (cfg : Deployment) (db : DB) (admittedContracts : List Address) (serviceOrchestrator : Option String)
  (numericDiv : ℚ → ℚ → ℚ)

structure ReportedAs (entry : PricePeriod × Option PricePeriod) (period : PricingPeriod) : Prop where
  transaction : period.auctionTransactionHash = entry.1.claimTxHash
  opens : (⟨period.startEpoch, period.startLogIndex⟩ : Position) =
    opensAt ⟨cfg.activationEpoch, 0⟩ Position.next PricePeriod.position entry.2
  closes : (⟨period.endEpoch, period.endLogIndex⟩ : Position) = entry.1.position
  lotAttoUsd : cfg.toBigInt entry.1.lotAttoUsd = some period.lotAttoUsd
  claimAttoFil : cfg.toBigInt entry.1.claimAttoFil = some period.claimAttoFil
  volumeAttoFil : (period.volumeAttoFil : ℚ) =
    periodVolumeAttoFil cfg db admittedContracts serviceOrchestrator entry.1
  volumeAttoUsd : period.volumeAttoUsd = ⌊numericDiv
    (periodVolumeAttoFil cfg db admittedContracts serviceOrchestrator entry.1 * entry.1.lotAttoUsd) entry.1.claimAttoFil⌋

def reportPeriod (entry : PricePeriod × Option PricePeriod) : Except Failure PricingPeriod := do
  let result ← periodWithVolume cfg db admittedContracts serviceOrchestrator numericDiv entry.1 entry.2
  pricingPeriod cfg result

variable {cfg db admittedContracts serviceOrchestrator numericDiv}

theorem periodVolumeAttoFil_eq (qp : PricePeriod) :
    periodVolumeAttoFil cfg db admittedContracts serviceOrchestrator qp =
      ((((matchedPayments cfg db admittedContracts serviceOrchestrator qp).map fun rp =>
        (rp.payment.totalAmount : Int)).sum : Int) : ℚ) := by
  rw [Int.cast_list_sum, List.map_map]
  rfl

theorem periodVolumeAttoFil_whole (qp : PricePeriod) :
    Whole (periodVolumeAttoFil cfg db admittedContracts serviceOrchestrator qp) :=
  ⟨_, (periodVolumeAttoFil_eq qp).symm⟩

theorem periodVolumeAttoFil_eq_of_toBigInt {qp : PricePeriod} {volume : Int}
    (converted : cfg.toBigInt (periodVolumeAttoFil cfg db admittedContracts serviceOrchestrator qp) = some volume) :
    (volume : ℚ) = periodVolumeAttoFil cfg db admittedContracts serviceOrchestrator qp := by
  have summed : Whole (periodVolumeAttoFil cfg db admittedContracts serviceOrchestrator qp) := periodVolumeAttoFil_whole qp
  obtain ⟨n, whole⟩ := summed
  rw [cfg.toBigInt_of_whole whole] at converted
  rw [← Option.some.inj converted, whole]

theorem opens_eq (previous : Option PricePeriod) :
    (⟨previous.elim cfg.activationEpoch (·.epoch), previous.elim 0 (·.logIndex + 1)⟩ : Position) =
      opensAt ⟨cfg.activationEpoch, 0⟩ Position.next PricePeriod.position previous := by
  cases previous <;> rfl

theorem reportPeriod_eq_ok {entry : PricePeriod × Option PricePeriod} {period : PricingPeriod} :
    reportPeriod cfg db admittedContracts serviceOrchestrator numericDiv entry = .ok period ↔
      entry.1.claimAttoFil ≠ 0 ∧ ReportedAs cfg db admittedContracts serviceOrchestrator numericDiv entry period := by
  unfold reportPeriod periodWithVolume
  dsimp only
  split
  · rename_i zero
    constructor
    · intro failed
      cases failed
    · rintro ⟨claim, -⟩
      exact absurd zero claim
  · rename_i claim
    unfold pricingPeriod
    rw [ok_bind]
    dsimp only
    constructor
    · intro converted
      obtain ⟨lot, lotExact, converted⟩ := bind_eq_ok.mp converted
      obtain ⟨claimed, claimExact, converted⟩ := bind_eq_ok.mp converted
      obtain ⟨volume, volumeExact, converted⟩ := bind_eq_ok.mp converted
      obtain rfl := pure_eq_ok.mp converted
      exact ⟨claim, rfl, opens_eq entry.2, rfl, cfg.numericToBigInt_eq_ok.mp lotExact,
        cfg.numericToBigInt_eq_ok.mp claimExact,
        periodVolumeAttoFil_eq_of_toBigInt (cfg.numericToBigInt_eq_ok.mp volumeExact), rfl⟩
    · rintro ⟨-, as⟩
      obtain ⟨startEpoch, startLogIndex⟩ := Position.mk.inj (as.opens.trans (opens_eq entry.2).symm)
      obtain ⟨endEpoch, endLogIndex⟩ := Position.mk.inj as.closes
      rw [cfg.numericToBigInt_eq_ok.mpr as.lotAttoUsd, cfg.numericToBigInt_eq_ok.mpr as.claimAttoFil,
        cfg.numericToBigInt_of_whole as.volumeAttoFil, ok_bind, ok_bind, ok_bind, pure_eq_ok]
      cases period
      simp only [PricingPeriod.mk.injEq, true_and]
      exact ⟨as.transaction.symm, startEpoch.symm, startLogIndex.symm, endEpoch.symm, endLogIndex.symm, as.volumeAttoUsd.symm⟩

end Periods
section Reported
variable {cfg : Deployment} {numericDiv : ℚ → ℚ → ℚ} {blockNumber : Int} {db : DB}
  {serviceOrchestrator : Option String} {q : QuarterNumber}

def quarterAt (cfg : Deployment) (blockNumber : Int) (q : QuarterNumber) : Quarter where
  q := q.intValue
  startEpoch := cfg.quarterStartEpoch q.intValue
  endEpoch := cfg.quarterEndEpoch q.intValue
  completed := cfg.quarterEndEpoch q.intValue < blockNumber

theorem getQuarterByIndex_eq (cfg : Deployment) (blockNumber : Int) (q : QuarterNumber) :
    getQuarterByIndex cfg blockNumber q.intValue = .ok (quarterAt cfg blockNumber q) := by
  unfold getQuarterByIndex
  rw [if_neg (by have := q.positive; omega)]
  rfl

def AnyAdmitted (parameters : QuarterParameters) : Prop :=
  parameters.admittedFilecoinPayContractAddresses ≠ [] ∧ parameters.admittedStablecoins ≠ []

instance (parameters : QuarterParameters) : Decidable (AnyAdmitted parameters) := by
  unfold AnyAdmitted
  infer_instance

structure Counts (cfg : Deployment) (numericDiv : ℚ → ℚ → ℚ) (blockNumber : Int) (db : DB) (serviceOrchestrator : Option String)
    (q : QuarterNumber) (parameters : QuarterParameters) (volume : QuarterlyVolume) : Prop where
  quarter : volume.quarter = quarterAt cfg blockNumber q
  inRange : q.intValue < 2 ^ 31
  stablecoins : cfg.toBigInt (stablecoinVolume db
    parameters.admittedFilecoinPayContractAddresses parameters.admittedStablecoins
    (cfg.quarterStartEpoch q.intValue) (cfg.quarterEndEpoch q.intValue) serviceOrchestrator) =
      some volume.stablecoinVolumeAttoUsd
  periods : (lag (periodsOfQuarter db q.intValue)).mapM (reportPeriod cfg db
    parameters.admittedFilecoinPayContractAddresses serviceOrchestrator numericDiv) = .ok volume.pricingPeriods
  fil : volume.filVolumeAttoUsd = (volume.pricingPeriods.map (·.volumeAttoUsd)).sum
  total : volume.volumeAttoUsd = volume.stablecoinVolumeAttoUsd + volume.filVolumeAttoUsd

theorem getQuarterlyVolume_of_none {parameters : QuarterParameters}
    (set : getQuarterParameters cfg db q = .ok parameters) (none : ¬ AnyAdmitted parameters) :
    getQuarterlyVolume cfg numericDiv blockNumber db serviceOrchestrator q =
      .ok ⟨quarterAt cfg blockNumber q, 0, 0, 0, []⟩ := by
  unfold getQuarterlyVolume
  rw [getQuarterByIndex_eq, set, ok_bind, ok_bind]
  dsimp only
  rw [if_pos (not_and_or.mp none |>.imp not_not.mp not_not.mp)]
  rfl

theorem pricingPeriod_volumeAttoUsd {result : PricePeriodWithVolume} {period : PricingPeriod}
    (converted : pricingPeriod cfg result = .ok period) : period.volumeAttoUsd = result.volumeAttoUsd := by
  unfold pricingPeriod at converted
  obtain ⟨lot, -, converted⟩ := bind_eq_ok.mp converted
  obtain ⟨claim, -, converted⟩ := bind_eq_ok.mp converted
  obtain ⟨volume, -, converted⟩ := bind_eq_ok.mp converted
  obtain rfl := pure_eq_ok.mp converted
  rfl

theorem getQuarterlyVolume_eq_ok {parameters : QuarterParameters} {volume : QuarterlyVolume}
    (set : getQuarterParameters cfg db q = .ok parameters) (admitted : AnyAdmitted parameters) :
    getQuarterlyVolume cfg numericDiv blockNumber db serviceOrchestrator q = .ok volume ↔
      Counts cfg numericDiv blockNumber db serviceOrchestrator q parameters volume := by
  unfold getQuarterlyVolume
  rw [getQuarterByIndex_eq, set, ok_bind, ok_bind]
  dsimp only
  rw [if_neg (not_or.mpr admitted)]
  constructor
  · intro reported
    obtain ⟨_, small, reported⟩ := bind_eq_ok.mp reported
    obtain ⟨results, priced, reported⟩ := bind_eq_ok.mp reported
    obtain ⟨stablecoins, converted, reported⟩ := bind_eq_ok.mp reported
    obtain ⟨periods, mapped, reported⟩ := bind_eq_ok.mp reported
    obtain rfl := pure_eq_ok.mp reported
    refine ⟨rfl, lt_of_integer small, cfg.numericToBigInt_eq_ok.mp converted,
      exists_mapM_mapM_iff.mp ⟨results, priced, mapped⟩, ?_, rfl⟩
    exact congrArg List.sum (map_of_mapM mapped fun _ _ => pricingPeriod_volumeAttoUsd).symm
  · intro counts
    obtain ⟨results, priced, mapped⟩ := exists_mapM_mapM_iff.mpr counts.periods
    rw [integer_of_lt counts.inRange, ok_bind]
    refine bind_eq_ok.mpr ⟨results, priced, bind_eq_ok.mpr ⟨_, cfg.numericToBigInt_eq_ok.mpr counts.stablecoins,
      bind_eq_ok.mpr ⟨_, mapped, pure_eq_ok.mpr ?_⟩⟩⟩
    have fil : (results.map (·.volumeAttoUsd)).sum = volume.filVolumeAttoUsd := by
      rw [counts.fil]
      exact congrArg List.sum (map_of_mapM mapped fun _ _ => pricingPeriod_volumeAttoUsd).symm
    rw [fil, ← counts.total, ← counts.quarter]

theorem exists_getQuarterlyVolume_iff (numericDiv : ℚ → ℚ → ℚ) (blockNumber : Int) {parameters : QuarterParameters}
    (set : getQuarterParameters cfg db q = .ok parameters) (admitted : AnyAdmitted parameters) :
    (∃ volume, getQuarterlyVolume cfg numericDiv blockNumber db serviceOrchestrator q = .ok volume) ↔
      q.intValue < 2 ^ 31 ∧
      (∃ n, cfg.toBigInt (stablecoinVolume db parameters.admittedFilecoinPayContractAddresses
        parameters.admittedStablecoins (cfg.quarterStartEpoch q.intValue) (cfg.quarterEndEpoch q.intValue)
        serviceOrchestrator) = some n) ∧
      ∀ qp ∈ periodsOfQuarter db q.intValue, qp.claimAttoFil ≠ 0 ∧
        (∃ n, cfg.toBigInt qp.lotAttoUsd = some n) ∧ ∃ n, cfg.toBigInt qp.claimAttoFil = some n := by
  constructor
  · rintro ⟨volume, reported⟩
    have counts := (getQuarterlyVolume_eq_ok set admitted).mp reported
    refine ⟨counts.inRange, ⟨_, counts.stablecoins⟩, fun qp member => ?_⟩
    rw [← lag_map_fst (periodsOfQuarter db q.intValue)] at member
    obtain ⟨entry, paired, rfl⟩ := List.mem_map.mp member
    obtain ⟨period, -, as⟩ := exists_result_of_mem_mapM counts.periods paired
    obtain ⟨claim, as⟩ := reportPeriod_eq_ok.mp as
    exact ⟨claim, ⟨_, as.lotAttoUsd⟩, ⟨_, as.claimAttoFil⟩⟩
  · rintro ⟨inRange, ⟨stablecoins, converted⟩, each⟩
    have reported : ∃ periods, (lag (periodsOfQuarter db q.intValue)).mapM (reportPeriod cfg db
        parameters.admittedFilecoinPayContractAddresses serviceOrchestrator numericDiv) = .ok periods := by
      apply exists_mapM_ok
      rintro ⟨qp, previous⟩ paired
      obtain ⟨claim, ⟨lot, lotExact⟩, ⟨claimed, claimExact⟩⟩ := each qp (mem_of_mem_lag paired)
      have summed : Whole (periodVolumeAttoFil cfg db parameters.admittedFilecoinPayContractAddresses serviceOrchestrator
        qp) := periodVolumeAttoFil_whole qp
      obtain ⟨volume, volumeExact⟩ := summed
      exact ⟨⟨qp.claimTxHash, _, _, qp.epoch, qp.logIndex, lot, claimed, volume, _⟩,
        reportPeriod_eq_ok.mpr ⟨claim, rfl, opens_eq previous, rfl, lotExact, claimExact, volumeExact, rfl⟩⟩
    obtain ⟨periods, mapped⟩ := reported
    refine ⟨⟨quarterAt cfg blockNumber q, stablecoins, (periods.map (·.volumeAttoUsd)).sum,
      stablecoins + (periods.map (·.volumeAttoUsd)).sum, periods⟩, ?_⟩
    exact (getQuarterlyVolume_eq_ok set admitted).mpr ⟨rfl, inRange, converted, mapped, rfl, rfl⟩

theorem getQuarterlyVolume_cases {volume : QuarterlyVolume}
    (reported : getQuarterlyVolume cfg numericDiv blockNumber db serviceOrchestrator q = .ok volume) :
    ∃ parameters, getQuarterParameters cfg db q = .ok parameters ∧
      (¬ AnyAdmitted parameters ∧ volume = ⟨quarterAt cfg blockNumber q, 0, 0, 0, []⟩ ∨
        AnyAdmitted parameters ∧ Counts cfg numericDiv blockNumber db serviceOrchestrator q parameters volume) := by
  have parametersRead := reported
  unfold getQuarterlyVolume at parametersRead
  obtain ⟨quarter, -, parametersRead⟩ := bind_eq_ok.mp parametersRead
  obtain ⟨parameters, set, -⟩ := bind_eq_ok.mp parametersRead
  refine ⟨parameters, set, ?_⟩
  by_cases admitted : AnyAdmitted parameters
  · exact Or.inr ⟨admitted, (getQuarterlyVolume_eq_ok set admitted).mp reported⟩
  · rw [getQuarterlyVolume_of_none set admitted] at reported
    exact Or.inl ⟨admitted, (Except.ok.inj reported).symm⟩

theorem stablecoinVolume_of_none {parameters : QuarterParameters} (none : ¬ AnyAdmitted parameters)
    (startEpoch endEpoch : Int) : stablecoinVolume db parameters.admittedFilecoinPayContractAddresses
      parameters.admittedStablecoins startEpoch endEpoch serviceOrchestrator = 0 := by
  rw [stablecoinVolume_eq]
  apply List.sum_eq_zero
  intro value member
  obtain ⟨rp, -, rfl⟩ := List.mem_map.mp member
  have unlisted : isListed parameters.admittedFilecoinPayContractAddresses parameters.admittedStablecoins startEpoch
      endEpoch rp = false := by
    unfold isListed
    rcases not_and_or.mp none with noContract | noToken
    · simp [not_not.mp noContract]
    · simp [not_not.mp noToken]
  rw [unlisted, Bool.false_and]
  rfl

theorem getQuarterlyVolume_stablecoins {volume : QuarterlyVolume} {parameters : QuarterParameters}
    (set : getQuarterParameters cfg db q = .ok parameters)
    (reported : getQuarterlyVolume cfg numericDiv blockNumber db serviceOrchestrator q = .ok volume) :
    cfg.toBigInt (stablecoinVolume db parameters.admittedFilecoinPayContractAddresses
      parameters.admittedStablecoins (cfg.quarterStartEpoch q.intValue) (cfg.quarterEndEpoch q.intValue)
      serviceOrchestrator) = some volume.stablecoinVolumeAttoUsd := by
  obtain ⟨found, got, cases⟩ := getQuarterlyVolume_cases reported
  obtain rfl : found = parameters := Except.ok.inj (got.symm.trans set)
  rcases cases with ⟨none, rfl⟩ | ⟨-, counts⟩
  · exact cfg.toBigInt_of_whole (by rw [stablecoinVolume_of_none none, Int.cast_zero])
  · exact counts.stablecoins

/-- What keeps a volume from being answered once the parameters are set and every value is rounded. -/
def Answerable (db : DB) (q : QuarterNumber) (parameters : QuarterParameters) : Prop :=
  AnyAdmitted parameters → q.intValue < 2 ^ 31 ∧ ∀ qp ∈ periodsOfQuarter db q.intValue, qp.claimAttoFil ≠ 0

variable (serviceOrchestrator) in
theorem answerable_iff (rounds : cfg.RoundsHalfUp) (numericDiv : ℚ → ℚ → ℚ) (blockNumber : Int)
    {parameters : QuarterParameters} (set : getQuarterParameters cfg db q = .ok parameters) :
    (∃ volume, getQuarterlyVolume cfg numericDiv blockNumber db serviceOrchestrator q = .ok volume) ↔
      Answerable db q parameters := by
  by_cases admitted : AnyAdmitted parameters
  · rw [exists_getQuarterlyVolume_iff numericDiv blockNumber set admitted]
    simp [Answerable, admitted, rounds _]
  · exact iff_of_true ⟨_, getQuarterlyVolume_of_none set admitted⟩ fun any => absurd any admitted

theorem getQuarterlyVolume_rounded (rounds : cfg.RoundsHalfUp) {volume : QuarterlyVolume} {parameters : QuarterParameters}
    (set : getQuarterParameters cfg db q = .ok parameters)
    (reported : getQuarterlyVolume cfg numericDiv blockNumber db serviceOrchestrator q = .ok volume) :
    volume.stablecoinVolumeAttoUsd = roundHalfAway (stablecoinVolume db parameters.admittedFilecoinPayContractAddresses
      parameters.admittedStablecoins (cfg.quarterStartEpoch q.intValue) (cfg.quarterEndEpoch q.intValue)
      serviceOrchestrator) := by
  have converted := getQuarterlyVolume_stablecoins set reported
  rw [rounds] at converted
  exact (Option.some.inj converted).symm

theorem pricingPeriods_volumes {admittedContracts : List Address} {quarterNum : Int} {periods : List PricingPeriod}
    (reported : (lag (periodsOfQuarter db quarterNum)).mapM
      (reportPeriod cfg db admittedContracts serviceOrchestrator numericDiv) = .ok periods) :
    periods.map (·.volumeAttoFil) = (periodsOfQuarter db quarterNum).map fun qp =>
      ((matchedPayments cfg db admittedContracts serviceOrchestrator qp).map fun rp =>
        (rp.payment.totalAmount : Int)).sum := by
  have volumes := map_of_mapM reported (u := fun period : PricingPeriod => period.volumeAttoFil)
    (v := fun entry => ((matchedPayments cfg db admittedContracts serviceOrchestrator entry.1).map fun rp =>
      (rp.payment.totalAmount : Int)).sum) fun entry period as =>
        Int.cast_injective (α := ℚ) ((reportPeriod_eq_ok.mp as).2.volumeAttoFil.trans (periodVolumeAttoFil_eq entry.1))
  rw [volumes, ← lag_map_fst (periodsOfQuarter db quarterNum), List.map_map, lag_map_fst]
  rfl

end Reported
end FpvIndexer.Proof.Volume
