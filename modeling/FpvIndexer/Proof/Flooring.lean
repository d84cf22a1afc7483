import FpvIndexer.Proof.AdmittedVolume
import FpvIndexer.Relational.Numeric

namespace FpvIndexer.Proof.Flooring
open Relational Volume

section Specification

/-- What is assumed of the division: the quotient, rounded to the decimals that the operands ask for. -/
def RoundsQuotients (numericDiv : ℚ → ℚ → ℚ) (decimals : ℚ → ℚ → Nat) : Prop :=
  ∀ a b, b ≠ 0 → numericDiv a b = roundTo (decimals a b) (a / b)

variable (cfg : Deployment) (db : DB) (admittedContracts : List Address) (serviceOrchestrator : Option String)

def numeratorOf (qp : PricePeriod) : ℚ :=
  periodVolumeAttoFil cfg db admittedContracts serviceOrchestrator qp * qp.lotAttoUsd

def exactVolumeAttoUsd (qp : PricePeriod) : Int :=
  ⌊numeratorOf cfg db admittedContracts serviceOrchestrator qp / qp.claimAttoFil⌋

def exactVolumes (q : QuarterNumber) (parameters : QuarterParameters) : List Int :=
  if AnyAdmitted parameters then
    (periodsOfQuarter db q.intValue).map
      (exactVolumeAttoUsd cfg db parameters.admittedFilecoinPayContractAddresses serviceOrchestrator)
  else []

structure FlooredExactly (q : QuarterNumber) (parameters : QuarterParameters) (volume : QuarterlyVolume) : Prop where
  periods : volume.pricingPeriods.map (·.volumeAttoUsd) = exactVolumes cfg db serviceOrchestrator q parameters
  total : volume.filVolumeAttoUsd = (exactVolumes cfg db serviceOrchestrator q parameters).sum

end Specification

section Floors
variable {cfg : Deployment} {numericDiv : ℚ → ℚ → ℚ} {decimals : ℚ → ℚ → Nat} {blockNumber : Int} {db : DB}
  {serviceOrchestrator : Option String} {q : QuarterNumber} {parameters : QuarterParameters} {volume : QuarterlyVolume}

theorem volumes_reported (counts : Counts cfg numericDiv blockNumber db serviceOrchestrator q parameters volume) :
    volume.pricingPeriods.map (·.volumeAttoUsd) = (periodsOfQuarter db q.intValue).map fun qp =>
      ⌊numericDiv (numeratorOf cfg db parameters.admittedFilecoinPayContractAddresses serviceOrchestrator qp)
        qp.claimAttoFil⌋ := by
  rw [map_of_mapM counts.periods (v := fun entry =>
    ⌊numericDiv (numeratorOf cfg db parameters.admittedFilecoinPayContractAddresses serviceOrchestrator entry.1)
      entry.1.claimAttoFil⌋), ← lag_map_fst (periodsOfQuarter db q.intValue), List.map_map, lag_map_fst]
  · rfl
  · intro entry period reported
    exact (reportPeriod_eq_ok.mp reported).2.volumeAttoUsd

theorem claim_ne_zero (counts : Counts cfg numericDiv blockNumber db serviceOrchestrator q parameters volume)
    {qp : PricePeriod} (inQuarter : qp ∈ periodsOfQuarter db q.intValue) : qp.claimAttoFil ≠ 0 := by
  rw [← lag_map_fst (periodsOfQuarter db q.intValue)] at inQuarter
  obtain ⟨entry, paired, rfl⟩ := List.mem_map.mp inQuarter
  obtain ⟨period, -, reported⟩ := exists_result_of_mem_mapM counts.periods paired
  exact (reportPeriod_eq_ok.mp reported).1

theorem periods_exact_iff (rounds : RoundsQuotients numericDiv decimals)
    (counts : Counts cfg numericDiv blockNumber db serviceOrchestrator q parameters volume) :
    volume.pricingPeriods.map (·.volumeAttoUsd) = (periodsOfQuarter db q.intValue).map
        (exactVolumeAttoUsd cfg db parameters.admittedFilecoinPayContractAddresses serviceOrchestrator) ↔
      ∀ qp ∈ periodsOfQuarter db q.intValue,
        StaysBelow (decimals (numeratorOf cfg db parameters.admittedFilecoinPayContractAddresses serviceOrchestrator qp)
            qp.claimAttoFil)
          (numeratorOf cfg db parameters.admittedFilecoinPayContractAddresses serviceOrchestrator qp / qp.claimAttoFil) := by
  rw [volumes_reported counts, List.map_inj_left]
  apply forall₂_congr
  intro qp inQuarter
  rw [rounds _ _ (claim_ne_zero counts inQuarter), exactVolumeAttoUsd, floor_roundTo_eq_iff]

theorem figures_reported (counts : Counts cfg numericDiv blockNumber db serviceOrchestrator q parameters volume) :
    (volume.pricingPeriods.map fun period =>
      ((period.volumeAttoFil : ℚ), some period.lotAttoUsd, some period.claimAttoFil)) =
      (periodsOfQuarter db q.intValue).map fun qp =>
        (periodVolumeAttoFil cfg db parameters.admittedFilecoinPayContractAddresses serviceOrchestrator qp,
          cfg.toBigInt qp.lotAttoUsd, cfg.toBigInt qp.claimAttoFil) := by
  rw [map_of_mapM counts.periods (v := fun entry =>
    (periodVolumeAttoFil cfg db parameters.admittedFilecoinPayContractAddresses serviceOrchestrator entry.1,
      cfg.toBigInt entry.1.lotAttoUsd, cfg.toBigInt entry.1.claimAttoFil)), ← lag_map_fst (periodsOfQuarter db q.intValue),
    List.map_map, lag_map_fst]
  · rfl
  · intro entry period reported
    have as := (reportPeriod_eq_ok.mp reported).2
    rw [as.volumeAttoFil, as.lotAttoUsd, as.claimAttoFil]

end Floors

/-- The figures of each period are those of the database, and all floors are exact when no quotient is carried to the
next integer. -/
theorem flooredExactly_iff (cfg : Deployment) (numericDiv : ℚ → ℚ → ℚ) (decimals : ℚ → ℚ → Nat)
    (rounds : RoundsQuotients numericDiv decimals) (blockNumber : Int) (db : DB) (serviceOrchestrator : Option String)
    (q : QuarterNumber) (parameters : QuarterParameters) (set : getQuarterParameters cfg db q = .ok parameters)
    (volume : QuarterlyVolume)
    (reported : getQuarterlyVolume cfg numericDiv blockNumber db serviceOrchestrator q = .ok volume) :
    (AnyAdmitted parameters → (volume.pricingPeriods.map fun period =>
        ((period.volumeAttoFil : ℚ), some period.lotAttoUsd, some period.claimAttoFil)) =
      (periodsOfQuarter db q.intValue).map fun qp =>
        (periodVolumeAttoFil cfg db parameters.admittedFilecoinPayContractAddresses serviceOrchestrator qp,
          cfg.toBigInt qp.lotAttoUsd, cfg.toBigInt qp.claimAttoFil)) ∧
    (FlooredExactly cfg db serviceOrchestrator q parameters volume ↔
      (AnyAdmitted parameters → ∀ qp ∈ periodsOfQuarter db q.intValue,
        StaysBelow (decimals (numeratorOf cfg db parameters.admittedFilecoinPayContractAddresses serviceOrchestrator qp)
            qp.claimAttoFil)
          (numeratorOf cfg db parameters.admittedFilecoinPayContractAddresses serviceOrchestrator qp /
            qp.claimAttoFil))) := by
  obtain ⟨read, setToo, cases⟩ := getQuarterlyVolume_cases reported
  obtain rfl : read = parameters := Except.ok.inj (setToo.symm.trans set)
  rcases cases with ⟨none, rfl⟩ | ⟨admitted, counts⟩
  · have empty : exactVolumes cfg db serviceOrchestrator q read = [] := if_neg none
    exact ⟨fun admitted => absurd admitted none, iff_of_true ⟨empty.symm, by rw [empty]; rfl⟩
      fun admitted => absurd admitted none⟩
  · have listed : exactVolumes cfg db serviceOrchestrator q read = (periodsOfQuarter db q.intValue).map
        (exactVolumeAttoUsd cfg db read.admittedFilecoinPayContractAddresses serviceOrchestrator) := if_pos admitted
    refine ⟨fun _ => figures_reported counts, ?_⟩
    rw [imp_iff_right admitted, ← periods_exact_iff rounds counts, ← listed]
    constructor
    · exact FlooredExactly.periods
    · intro periods
      exact ⟨periods, by rw [counts.fil, periods]⟩

section Carried
open AdmittedVolume

def overOneFil : AuctionServices where
  getTransaction _ := .ok ⟨some "0xf", "0x1a257300", 1000000000000000001⟩
  decodeFunctionData _ := .ok (.burnForFees "0xd" "0xb" 0)

def dollarLot (epoch : Int) : TransferLog where
  address := "0xd"
  blockNumber := epoch
  logIndex := 0
  transactionHash := "0x9"
  fromAddress := "0xf"
  toAddress := "0xb"
  value := 1000000000000000000

def twoAttoFil : History where
  batches := [.serviceRewardsActor dollars bootstrap, settlements zeroAddress [(115, 2)],
    .auctionableToken overOneFil ([110, 111, 112, 113, 114, 120].map dollarLot)]
  ordered := by unfold ChainOrdered; decide

def sixteenDigits (a b : ℚ) : ℚ := roundTo (quotientDecimals (fun _ => 0) a b) (a / b)

theorem sixteenDigits_rounds : RoundsQuotients sixteenDigits (quotientDecimals fun _ => 0) := fun _ _ _ => rfl

def carried : QuarterlyVolume where
  quarter := ⟨1, 100, 199, true⟩
  stablecoinVolumeAttoUsd := 0
  filVolumeAttoUsd := 2
  volumeAttoUsd := 2
  pricingPeriods := [⟨"0x9", 100, 0, 120, 0, 1000000000000000000, 1000000000000000001, 2, 2⟩]

theorem twoAttoFil_indexed : twoAttoFil.Reaches hundredEpochs (twoAttoFil.database hundredEpochs) ∧
    getQuarterParameters hundredEpochs (twoAttoFil.database hundredEpochs) firstQuarter = .ok firstQuarterParameters ∧
    getQuarterlyVolume hundredEpochs sixteenDigits 300 (twoAttoFil.database hundredEpochs) none firstQuarter =
      .ok carried :=
  ⟨History.reaches_database (by decide +kernel), by decide +kernel, by decide +kernel⟩

theorem flooredExactly_iff_twoAttoFil :
    (AnyAdmitted firstQuarterParameters → (carried.pricingPeriods.map fun period =>
        ((period.volumeAttoFil : ℚ), some period.lotAttoUsd, some period.claimAttoFil)) =
      (periodsOfQuarter (twoAttoFil.database hundredEpochs) 1).map fun qp =>
        (periodVolumeAttoFil hundredEpochs (twoAttoFil.database hundredEpochs) ["0xf"] none qp,
          hundredEpochs.toBigInt qp.lotAttoUsd, hundredEpochs.toBigInt qp.claimAttoFil)) ∧
    (FlooredExactly hundredEpochs (twoAttoFil.database hundredEpochs) none firstQuarter firstQuarterParameters carried ↔
      (AnyAdmitted firstQuarterParameters → ∀ qp ∈ periodsOfQuarter (twoAttoFil.database hundredEpochs) 1,
        StaysBelow (quotientDecimals (fun _ => 0)
            (numeratorOf hundredEpochs (twoAttoFil.database hundredEpochs) ["0xf"] none qp) qp.claimAttoFil)
          (numeratorOf hundredEpochs (twoAttoFil.database hundredEpochs) ["0xf"] none qp / qp.claimAttoFil))) :=
  flooredExactly_iff hundredEpochs sixteenDigits _ sixteenDigits_rounds 300 _ none firstQuarter firstQuarterParameters
    twoAttoFil_indexed.2.1 carried twoAttoFil_indexed.2.2

theorem carried_floor_too_high : twoAttoFil.Reaches hundredEpochs (twoAttoFil.database hundredEpochs) ∧
    getQuarterParameters hundredEpochs (twoAttoFil.database hundredEpochs) firstQuarter = .ok firstQuarterParameters ∧
    getQuarterlyVolume hundredEpochs sixteenDigits 300 (twoAttoFil.database hundredEpochs) none firstQuarter =
      .ok carried ∧
    ¬ FlooredExactly hundredEpochs (twoAttoFil.database hundredEpochs) none firstQuarter firstQuarterParameters carried := by
  obtain ⟨reached, set, reported⟩ := twoAttoFil_indexed
  refine ⟨reached, set, reported, fun floored => ?_⟩
  have one : exactVolumes hundredEpochs (twoAttoFil.database hundredEpochs) none firstQuarter firstQuarterParameters = [1] := by
    decide +kernel
  have two := floored.periods
  rw [one] at two
  exact absurd two (by decide)

end Carried

end FpvIndexer.Proof.Flooring
