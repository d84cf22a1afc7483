import FpvIndexer.Proof.AsOf
import FpvIndexer.Proof.Volume

namespace FpvIndexer
namespace Proof.AsOf
open Relational Volume

section Intervals
variable {cfg : Deployment} {q : Int}

theorem lt_of_knownBy {a b : Int} (known : cfg.knownBy q a) (unknown : ¬ cfg.knownBy q b) : a < b := by
  by_contra h
  exact unknown (decide_eq_true ((cfg.quarterNum_mono (not_lt.mp h)).trans (of_decide_eq_true known)))

theorem inForce_asOf (fromEpoch : Int) (fromLogIndex : Nat) (toEpoch : Option Int) (toLogIndex : Option Nat)
    {position : Position} (known : cfg.knownBy q position.epoch) :
    inForce fromEpoch fromLogIndex (cfg.endAsOf q toEpoch) ((cfg.endAsOf q toEpoch).bind fun _ => toLogIndex) position =
      inForce fromEpoch fromLogIndex toEpoch toLogIndex position := by
  cases toEpoch with
  | none => rfl
  | some stop =>
      unfold Config.endAsOf
      rw [Option.filter_some]
      by_cases stops : cfg.knownBy q stop
      · rw [if_pos stops]
        rfl
      · rw [if_neg stops]
        unfold inForce
        simp [lt_of_knownBy known stops]

theorem not_inForce {fromEpoch : Int} (unknown : ¬ cfg.knownBy q fromEpoch) (fromLogIndex : Nat)
    (toEpoch : Option Int) (toLogIndex : Option Nat) {position : Position} (known : cfg.knownBy q position.epoch) :
    inForce fromEpoch fromLogIndex toEpoch toLogIndex position = false := by
  have before := lt_of_knownBy known unknown
  unfold inForce
  rw [decide_eq_false]
  intro covers
  omega

end Intervals

section Settled
variable {cfg : Deployment} {q : Int} {db : DB}

def settledBy (cfg : Deployment) (q : Int) (rp : RailPayment) : Bool := cfg.knownBy q rp.payment.settledAtEpoch

theorem railPayments_asOf : railPayments (db.asOf cfg q) = (railPayments db).filter (settledBy cfg q) := by
  unfold railPayments
  rw [DB.asOf_payments, DB.asOf_rails, List.filter_flatMap, flatMap_filter]
  apply List.flatMap_congr
  intro p member
  rw [List.filter_map, List.filter_filter]
  by_cases known : cfg.knownBy q p.settledAtEpoch
  · rw [if_pos known]
    have all : ((db.filecoinPayRail.rows.filter fun r => p.railId = r.railId ∧
        p.filecoinPayContractAddress = r.filecoinPayContractAddress).filter
          (settledBy cfg q ∘ fun r => (⟨p, r⟩ : RailPayment))) = db.filecoinPayRail.rows.filter fun r =>
            p.railId = r.railId ∧ p.filecoinPayContractAddress = r.filecoinPayContractAddress :=
      List.filter_eq_self.mpr fun _ _ => known
    rw [all]
    congr 1
    apply List.filter_congr
    intro r _
    by_cases same : p.railId = r.railId ∧ p.filecoinPayContractAddress = r.filecoinPayContractAddress
    · have used : db.usesRail cfg q r :=
        List.any_eq_true.mpr ⟨p, member, Bool.and_eq_true_iff.mpr ⟨known, decide_eq_true same⟩⟩
      simp [used]
    · simp [same]
  · rw [if_neg known]
    have none : ((db.filecoinPayRail.rows.filter fun r => p.railId = r.railId ∧
        p.filecoinPayContractAddress = r.filecoinPayContractAddress).filter
          (settledBy cfg q ∘ fun r => (⟨p, r⟩ : RailPayment))) = [] :=
      List.filter_eq_nil_iff.mpr fun _ _ => known
    rw [none, List.map_nil]

theorem isBound_asOf (serviceOrchestrator : Option String) {rp : RailPayment} (known : settledBy cfg q rp) :
    isBound (db.asOf cfg q) serviceOrchestrator rp = isBound db serviceOrchestrator rp := by
  unfold isBound
  rw [DB.asOf_pairs, List.any_map, List.any_filter]
  congr 1
  funext sp
  have covers : (sp.asOf cfg q).covers rp.payment.position = sp.covers rp.payment.position :=
    inForce_asOf sp.fromEpoch sp.fromLogIndex sp.toEpoch sp.toLogIndex known
  by_cases started : cfg.knownBy q sp.fromEpoch
  · rw [started, Bool.true_and, Function.comp_apply, ServicePair.bindsRail, ServicePair.bindsRail, covers]
    rfl
  · have never : sp.covers rp.payment.position = false := not_inForce started _ _ _ known
    simp [started, ServicePair.bindsRail, never]

theorem tokenValue_asOf {rp : RailPayment} (known : settledBy cfg q rp) :
    tokenValue (db.asOf cfg q) rp = tokenValue db rp := by
  unfold tokenValue
  rw [DB.asOf_tokens, filter_map_filter_within (fun t : WhitelistedToken =>
    decide (rp.rail.token = t.tokenAddress ∧ t.covers rp.payment.position)), List.map_map]
  · rfl
  · intro t _
    have covers : (t.asOf cfg q).covers rp.payment.position = t.covers rp.payment.position :=
      inForce_asOf t.admittanceEpoch t.admittanceLogIndex t.removalEpoch t.removalLogIndex known
    rw [covers]
    rfl
  · intro t counted
    by_contra unknown
    have never : t.covers rp.payment.position = false := not_inForce unknown _ _ _ known
    have covers := (of_decide_eq_true counted).2
    rw [never] at covers
    cases covers

theorem stablecoinVolume_asOf (cfg : Deployment) (db : DB) (admittedContracts admittedStablecoins : List Address)
    (startEpoch : Int) (serviceOrchestrator : Option String) (positive : 0 ≤ q) :
    stablecoinVolume (db.asOf cfg q) admittedContracts admittedStablecoins startEpoch (cfg.quarterEndEpoch q)
        serviceOrchestrator =
      stablecoinVolume db admittedContracts admittedStablecoins startEpoch (cfg.quarterEndEpoch q)
        serviceOrchestrator := by
  rw [stablecoinVolume_eq, stablecoinVolume_eq, railPayments_asOf, sum_map_filter]
  congr 1
  apply List.map_congr_left
  intro rp _
  by_cases known : settledBy cfg q rp
  · rw [if_pos known, isBound_asOf serviceOrchestrator known, tokenValue_asOf known]
  · rw [if_neg known, if_neg]
    intro counted
    have within := (of_decide_eq_true (Bool.and_eq_true_iff.mp counted).1).2.2.2
    exact known (decide_eq_true ((cfg.quarterNum_le_iff positive _).mpr within))

end Settled

section Priced
variable {cfg : Deployment} {q : Int} {db : DB}

def Numbered (cfg : Deployment) (db : DB) : Prop :=
  ∀ qp ∈ db.qualifiedPricePeriodsMv.rows, qp.quarterNum = cfg.quarterNum qp.epoch

theorem periodsOfQuarter_asOf {quarterNum : Int} (closed : quarterNum ≤ q) :
    periodsOfQuarter (db.asOf cfg q) quarterNum = periodsOfQuarter db quarterNum := by
  unfold periodsOfQuarter
  rw [DB.asOf_periods, List.filter_filter]
  congr 2
  funext qp
  by_cases same : qp.quarterNum = quarterNum
  · simp [same, closed]
  · simp [same]

theorem pricesFirst_asOf (numbered : Numbered cfg db) {qp : PricePeriod} (stored : qp ∈ db.qualifiedPricePeriodsMv.rows)
    (closed : qp.quarterNum ≤ q) (rp : RailPayment) : pricesFirst (db.asOf cfg q) qp rp = pricesFirst db qp rp := by
  unfold pricesFirst
  rw [DB.asOf_periods, List.any_filter]
  have same : (db.qualifiedPricePeriodsMv.rows.any fun eqp => decide (eqp.quarterNum ≤ q) &&
      decide (rp.payment.position < eqp.position ∧ eqp.position < qp.position)) =
      db.qualifiedPricePeriodsMv.rows.any fun eqp =>
        decide (rp.payment.position < eqp.position ∧ eqp.position < qp.position) := by
    rw [Bool.eq_iff_iff, List.any_eq_true, List.any_eq_true]
    refine exists_congr fun eqp => and_congr_right fun member => ?_
    rw [Bool.and_eq_true, and_iff_right_iff_imp]
    intro between
    have before := Position.epoch_le_of_le (of_decide_eq_true between).2.le
    have quarters := cfg.quarterNum_mono before
    have earlier := numbered eqp member
    have this := numbered qp stored
    apply decide_eq_true
    change cfg.quarterNum eqp.epoch ≤ cfg.quarterNum qp.epoch at quarters
    omega
  rw [same]

theorem matchedPayments_asOf (numbered : Numbered cfg db) (admittedContracts : List Address)
    (serviceOrchestrator : Option String) {qp : PricePeriod} (stored : qp ∈ db.qualifiedPricePeriodsMv.rows)
    (closed : qp.quarterNum ≤ q) :
    matchedPayments cfg (db.asOf cfg q) admittedContracts serviceOrchestrator qp =
      matchedPayments cfg db admittedContracts serviceOrchestrator qp := by
  unfold matchedPayments filPayments
  rw [railPayments_asOf, List.filter_filter, List.filter_filter, List.filter_filter]
  apply List.filter_congr
  intro rp _
  rw [pricesFirst_asOf numbered stored closed]
  by_cases priced : pricesFirst db qp rp
  · have before : rp.payment.position < qp.position := (of_decide_eq_true priced).1
    have known : settledBy cfg q rp := by
      have quarters := cfg.quarterNum_mono (Position.epoch_le_of_le before.le)
      exact decide_eq_true (quarters.trans ((numbered qp stored).symm.trans_le closed))
    rw [priced, known, isBound_asOf serviceOrchestrator known, Bool.true_and, Bool.and_true]
  · simp [priced]

theorem pricePeriodsWithVolume_asOf (numbered : Numbered cfg db) (admittedContracts : List Address)
    (serviceOrchestrator : Option String) (numericDiv : ℚ → ℚ → ℚ) :
    pricePeriodsWithVolume cfg (db.asOf cfg q) admittedContracts serviceOrchestrator numericDiv q =
      pricePeriodsWithVolume cfg db admittedContracts serviceOrchestrator numericDiv q := by
  unfold pricePeriodsWithVolume
  rw [periodsOfQuarter_asOf le_rfl]
  apply mapM_congr
  intro ⟨qp, previous⟩ member
  have listed := List.mem_map_of_mem (f := Prod.fst) member
  rw [lag_map_fst, periodsOfQuarter, mem_orderBy] at listed
  obtain ⟨stored, quarter⟩ := List.mem_filter.mp listed
  dsimp only at stored quarter ⊢
  unfold periodWithVolume periodVolumeAttoFil
  rw [matchedPayments_asOf numbered _ _ stored (of_decide_eq_true quarter).le]

end Priced

section Reported
variable {cfg : Deployment} {db : DB}

theorem quarterParameters_asOf {q : Int} {quarterNum : Int} (closed : quarterNum ≤ q) :
    quarterParameters cfg (db.asOf cfg q) quarterNum = quarterParameters cfg db quarterNum := by
  unfold quarterParameters
  rw [parametersByQuarter_asOf, List.filter_filter]
  congr 3
  funext p
  by_cases earlier : p.quarterNum < quarterNum
  · simp [earlier, (earlier.trans_le closed).le]
  · simp [earlier]

theorem admittedFor_asOf {q : Int} {quarterNum : Int} (closed : quarterNum ≤ q) (admittanceQuarterNum : Int)
    (removalQuarterNum : Option Int) :
    admittedFor admittanceQuarterNum (removalQuarterNum.filter (· ≤ q)) quarterNum =
      admittedFor admittanceQuarterNum removalQuarterNum quarterNum := by
  unfold admittedFor
  rw [all_filter fun n later => decide_eq_true (closed.trans later.le)]

theorem le_of_admittedFor {q : Int} {quarterNum : Int} (closed : quarterNum ≤ q) {admittanceQuarterNum : Int}
    {removalQuarterNum : Option Int} (admitted : admittedFor admittanceQuarterNum removalQuarterNum quarterNum) :
    admittanceQuarterNum ≤ q :=
  (of_decide_eq_true admitted).1.le.trans closed

theorem quarterTokens_asOf {q : Int} {quarterNum : Int} (closed : quarterNum ≤ q) :
    (quarterTokens cfg (db.asOf cfg q) quarterNum).map (·.tokenAddress) =
      (quarterTokens cfg db quarterNum).map (·.tokenAddress) := by
  let order := fun t : TokenByQuarter => toLex (t.tokenAddress, OrderDual.toDual (toLex (t.admittanceQuarterNum,
    (⟨t.admittanceEpoch, t.admittanceLogIndex⟩ : Position))))
  have viewed : quarterTokens cfg (db.asOf cfg q) quarterNum =
      (quarterTokens cfg db quarterNum).map (·.asOf cfg q) := by
    unfold quarterTokens
    rw [tokensByQuarter_asOf, filter_map_filter_within
      (fun t : TokenByQuarter => admittedFor t.admittanceQuarterNum t.removalQuarterNum quarterNum),
      map_distinctOn _ (fun t : TokenByQuarter => t.tokenAddress), map_orderBy order order]
    · intro t
      rfl
    · intro t
      rfl
    · intro t _
      exact admittedFor_asOf closed t.admittanceQuarterNum t.removalQuarterNum
    · intro t admitted
      exact decide_eq_true (le_of_admittedFor closed admitted)
  rw [viewed, List.map_map]
  rfl

theorem quarterFilecoinPayContracts_asOf {q : Int} {quarterNum : Int} (closed : quarterNum ≤ q) :
    (quarterFilecoinPayContracts cfg (db.asOf cfg q) quarterNum).map (·.contractAddress) =
      (quarterFilecoinPayContracts cfg db quarterNum).map (·.contractAddress) := by
  let order := fun c : ContractByQuarter => toLex (c.contractAddress, OrderDual.toDual (toLex (c.admittanceQuarterNum,
    (⟨c.admittanceEpoch, c.admittanceLogIndex⟩ : Position))))
  have viewed : quarterFilecoinPayContracts cfg (db.asOf cfg q) quarterNum =
      (quarterFilecoinPayContracts cfg db quarterNum).map (·.asOf cfg q) := by
    unfold quarterFilecoinPayContracts
    rw [contractsByQuarter_asOf, filter_map_filter_within
      (fun c : ContractByQuarter => admittedFor c.admittanceQuarterNum c.removalQuarterNum quarterNum),
      map_distinctOn _ (fun c : ContractByQuarter => c.contractAddress), map_orderBy order order]
    · intro c
      rfl
    · intro c
      rfl
    · intro c _
      exact admittedFor_asOf closed c.admittanceQuarterNum c.removalQuarterNum
    · intro c admitted
      exact decide_eq_true (le_of_admittedFor closed admitted)
  rw [viewed, List.map_map]
  rfl

theorem getQuarterParameters_asOf (q : QuarterNumber) :
    getQuarterParameters cfg (db.asOf cfg q.intValue) q = getQuarterParameters cfg db q := by
  have volume : (db.asOf cfg q.intValue).quarterBoundVolume.rows.find? (fun v => (v.quarterNum : Int) = q.intValue - 1) =
      db.quarterBoundVolume.rows.find? fun v => (v.quarterNum : Int) = q.intValue - 1 := by
    rw [DB.asOf_volumes, List.find?_filter]
    congr 1
    funext v
    by_cases same : (v.quarterNum : Int) = q.intValue - 1
    · simp [same]
    · simp [same]
  have periods : (db.asOf cfg q.intValue).qualifiedPricePeriodsMv.rows.countP (fun qp => qp.quarterNum = (q.intValue : Int) - 1) =
      db.qualifiedPricePeriodsMv.rows.countP fun qp => qp.quarterNum = (q.intValue : Int) - 1 := by
    rw [DB.asOf_periods, List.countP_filter]
    congr 1
    funext qp
    by_cases same : qp.quarterNum = (q.intValue : Int) - 1
    · simp [same]
    · simp [same]
  unfold getQuarterParameters
  dsimp only
  rw [volume, periods, quarterParameters_asOf le_rfl, quarterTokens_asOf le_rfl, quarterFilecoinPayContracts_asOf le_rfl]

theorem getQuarterlyVolume_asOf (numbered : Numbered cfg db) (numericDiv : ℚ → ℚ → ℚ) (blockNumber : Int)
    (serviceOrchestrator : Option String) (q : QuarterNumber) :
    getQuarterlyVolume cfg numericDiv blockNumber (db.asOf cfg q.intValue) serviceOrchestrator q =
      getQuarterlyVolume cfg numericDiv blockNumber db serviceOrchestrator q := by
  unfold getQuarterlyVolume
  rw [getQuarterByIndex_eq, getQuarterParameters_asOf]
  simp only [pricePeriodsWithVolume_asOf numbered]
  change (getQuarterParameters cfg db q >>= fun _ => _) = (getQuarterParameters cfg db q >>= fun _ => _)
  congr 1
  funext parameters
  have stablecoins := stablecoinVolume_asOf cfg db parameters.admittedFilecoinPayContractAddresses
    parameters.admittedStablecoins (cfg.quarterStartEpoch q.intValue) serviceOrchestrator (Int.natCast_nonneg q.intValue)
  change (if _ then _ else _) = (if _ then _ else _)
  dsimp only [quarterAt]
  rw [stablecoins]

def figures (volume : QuarterlyVolume) : Int × Int × List PricingPeriod :=
  (volume.stablecoinVolumeAttoUsd, volume.filVolumeAttoUsd, volume.pricingPeriods)

theorem figures_blockNumber (numericDiv : ℚ → ℚ → ℚ) (blockNumber blockNumber' : Int) (db : DB)
    (serviceOrchestrator : Option String) (q : QuarterNumber) :
    (getQuarterlyVolume cfg numericDiv blockNumber db serviceOrchestrator q).map figures =
      (getQuarterlyVolume cfg numericDiv blockNumber' db serviceOrchestrator q).map figures := by
  unfold getQuarterlyVolume
  rw [getQuarterByIndex_eq, getQuarterByIndex_eq]
  cases getQuarterParameters cfg db q with
  | error failure => rfl
  | ok parameters =>
      change Except.map figures (if _ then _ else _) = Except.map figures (if _ then _ else _)
      split
      · rfl
      · dsimp only [quarterAt]
        cases integer q.intValue with
        | error failure => rfl
        | ok _ =>
            cases pricePeriodsWithVolume cfg db parameters.admittedFilecoinPayContractAddresses serviceOrchestrator
                numericDiv q.intValue with
            | error failure => rfl
            | ok results =>
                cases cfg.numericToBigInt (stablecoinVolume db parameters.admittedFilecoinPayContractAddresses
                    parameters.admittedStablecoins (cfg.quarterStartEpoch q.intValue) (cfg.quarterEndEpoch q.intValue)
                    serviceOrchestrator) with
                | error failure => rfl
                | ok stablecoins =>
                    change Except.map figures ((results.mapM (pricingPeriod cfg)) >>= fun _ => _) =
                      Except.map figures ((results.mapM (pricingPeriod cfg)) >>= fun _ => _)
                    cases results.mapM (pricingPeriod cfg) with
                    | error failure => rfl
                    | ok periods => rfl

end Reported

end Proof.AsOf
end FpvIndexer
