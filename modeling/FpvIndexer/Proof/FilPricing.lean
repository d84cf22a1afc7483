import FpvIndexer.Proof.Volume
import FpvIndexer.Services.Payments

namespace FpvIndexer.Proof.FilPricing
open Relational Volume

def DistinctPositions (db : DB) : Prop :=
  ∀ a ∈ db.qualifiedPricePeriodsMv.rows, ∀ b ∈ db.qualifiedPricePeriodsMv.rows, a.position = b.position → a = b

theorem distinctPositions_of_quarters {cfg : Deployment} {db : DB}
    (quarter : ∀ qp ∈ db.qualifiedPricePeriodsMv.rows, qp.quarterNum = cfg.quarterNum qp.epoch) : DistinctPositions db := by
  intro a ha b hb same
  obtain ⟨epoch, logIndex⟩ := Position.mk.inj same
  apply db.qualifiedPricePeriodsMv.eq_of_key ha hb
  rw [PricePeriod.ukey, PricePeriod.ukey, quarter a ha, quarter b hb, epoch, logIndex]

structure PricedBy (db : DB) (rp : RailPayment) (qp : PricePeriod) : Prop where
  stored : qp ∈ db.qualifiedPricePeriodsMv.rows
  after : rp.payment.position < qp.position
  first : ∀ other ∈ db.qualifiedPricePeriodsMv.rows, rp.payment.position < other.position →
    qp.position ≤ other.position

section First
variable {db : DB} {rp : RailPayment} {qp : PricePeriod}

theorem pricesFirst_iff (stored : qp ∈ db.qualifiedPricePeriodsMv.rows) :
    pricesFirst db qp rp = true ↔ PricedBy db rp qp := by
  unfold pricesFirst
  simp only [decide_eq_true_eq, List.any_eq_true, not_exists, not_and]
  constructor
  · rintro ⟨after, between⟩
    refine ⟨stored, after, fun other member later => ?_⟩
    exact not_lt.mp (between other member later)
  · intro priced
    refine ⟨priced.after, fun other member later => ?_⟩
    exact not_lt.mpr (priced.first other member later)

theorem PricedBy.unique {other : PricePeriod} (distinct : DistinctPositions db) (priced : PricedBy db rp qp)
    (too : PricedBy db rp other) : other = qp :=
  distinct other too.stored qp priced.stored
    (le_antisymm (too.first qp priced.stored priced.after) (priced.first other too.stored too.after))

theorem mem_periodsAfter : qp ∈ periodsAfter db rp ↔
    qp ∈ db.qualifiedPricePeriodsMv.rows ∧ rp.payment.position < qp.position := by
  unfold periodsAfter
  rw [List.mem_filter, decide_eq_true_eq]

theorem pricedBy_of_head? (head : (orderBy (·.position) (periodsAfter db rp)).head? = some qp) :
    PricedBy db rp qp := by
  have member := mem_periodsAfter.mp (mem_of_head?_orderBy _ head)
  refine ⟨member.1, member.2, fun other stored later => ?_⟩
  exact le_of_head?_orderBy (·.position) head (mem_periodsAfter.mpr ⟨stored, later⟩)

theorem exists_pricedBy (stored : qp ∈ db.qualifiedPricePeriodsMv.rows)
    (after : rp.payment.position < qp.position) : ∃ first, PricedBy db rp first := by
  cases head : (orderBy (·.position) (periodsAfter db rp)).head? with
  | none =>
      rw [head?_orderBy_eq_none] at head
      have member := mem_periodsAfter.mpr ⟨stored, after⟩
      rw [head] at member
      cases member
  | some first => exact ⟨first, pricedBy_of_head? head⟩

theorem head?_iff_pricedBy (distinct : DistinctPositions db) :
    (orderBy (·.position) (periodsAfter db rp)).head? = some qp ↔ PricedBy db rp qp := by
  refine ⟨pricedBy_of_head?, fun priced => ?_⟩
  cases head : (orderBy (·.position) (periodsAfter db rp)).head? with
  | none =>
      rw [head?_orderBy_eq_none] at head
      have member := mem_periodsAfter.mpr ⟨priced.stored, priced.after⟩
      rw [head] at member
      cases member
  | some other => rw [PricedBy.unique distinct priced (pricedBy_of_head? head)]

end First

section Matched
variable {cfg : Deployment} {db : DB} {rp : RailPayment} {qp : PricePeriod}

theorem mem_periodsOfQuarter {quarterNum : Int} :
    qp ∈ periodsOfQuarter db quarterNum ↔ qp ∈ db.qualifiedPricePeriodsMv.rows ∧ qp.quarterNum = quarterNum := by
  unfold periodsOfQuarter
  rw [mem_orderBy, List.mem_filter, decide_eq_true_eq]

theorem mem_matchedPayments {admittedContracts : List Address} {serviceOrchestrator : Option String}
    (stored : qp ∈ db.qualifiedPricePeriodsMv.rows) :
    rp ∈ matchedPayments cfg db admittedContracts serviceOrchestrator qp ↔
      rp ∈ filPayments cfg db admittedContracts serviceOrchestrator ∧ PricedBy db rp qp := by
  unfold matchedPayments
  rw [List.mem_filter, pricesFirst_iff stored]

theorem periodsOfQuarter_nodup {quarterNum : Int} : (periodsOfQuarter db quarterNum).Nodup :=
  (orderBy_perm _ _).nodup_iff.mpr (db.qualifiedPricePeriodsMv.rows_nodup.filter _)

theorem matchedPayments_nodup {admittedContracts : List Address} {serviceOrchestrator : Option String} :
    (matchedPayments cfg db admittedContracts serviceOrchestrator qp).Nodup :=
  (railPayments_nodup.filter _).filter _

theorem quarter_matched_nodup (cfg : Deployment) (distinct : DistinctPositions db) (admittedContracts : List Address)
    (serviceOrchestrator : Option String) (quarterNum : Int) :
    ((periodsOfQuarter db quarterNum).flatMap
      (matchedPayments cfg db admittedContracts serviceOrchestrator)).Nodup := by
  refine List.nodup_flatMap.mpr ⟨fun _ _ => matchedPayments_nodup, ?_⟩
  refine List.Pairwise.imp_of_mem ?_ periodsOfQuarter_nodup
  intro a b ha hb differ rp inA inB
  have storedA := (mem_periodsOfQuarter.mp ha).1
  have storedB := (mem_periodsOfQuarter.mp hb).1
  exact differ (PricedBy.unique distinct ((mem_matchedPayments storedB).mp inB).2
    ((mem_matchedPayments storedA).mp inA).2)

end Matched

section Lateral
variable {cfg : Deployment} {db : DB} {rp : RailPayment} {qp : PricePeriod}

theorem lateralPricing_eq_some (distinct : DistinctPositions db) {pricing : PaymentPricing} :
    lateralPricing cfg db rp = some pricing ↔ rp.rail.token = zeroAddress ∧ ∃ qp, PricedBy db rp qp ∧ pricing =
      ⟨cfg.activationEpoch, 0, qp.epoch, qp.logIndex, qp.claimTxHash, qp.lotAttoUsd, qp.claimAttoFil⟩ := by
  unfold lateralPricing
  by_cases fil : rp.rail.token = zeroAddress
  · rw [if_pos fil, lag_head?, and_iff_right fil]
    cases head : (orderBy (·.position) (periodsAfter db rp)).head? with
    | none =>
        constructor
        · intro attached
          cases attached
        · rintro ⟨qp, priced, -⟩
          rw [(head?_iff_pricedBy distinct).mpr priced] at head
          cases head
    | some first =>
        have priced := (head?_iff_pricedBy distinct).mp head
        constructor
        · intro attached
          exact ⟨first, priced, (Option.some.inj attached).symm⟩
        · rintro ⟨qp, too, rfl⟩
          rw [PricedBy.unique distinct priced too]
          rfl
  · rw [if_neg fil]
    constructor
    · intro attached
      cases attached
    · rintro ⟨token, -⟩
      exact absurd token fil

theorem exists_lateralPricing (cfg : Deployment) (distinct : DistinctPositions db) (fil : rp.rail.token = zeroAddress)
    (priced : PricedBy db rp qp) : ∃ period, lateralPricing cfg db rp = some period ∧
      period.endEpoch = qp.epoch ∧ period.endLogIndex = qp.logIndex ∧ period.claimTxHash = qp.claimTxHash :=
  ⟨_, (lateralPricing_eq_some distinct).mpr ⟨fil, qp, priced, rfl⟩, rfl, rfl, rfl⟩

theorem lateralPricing_eq_none (cfg : Deployment) (distinct : DistinctPositions db)
    (unpriced : ∀ qp, ¬ PricedBy db rp qp) : lateralPricing cfg db rp = none := by
  cases attached : lateralPricing cfg db rp with
  | none => rfl
  | some pricing =>
      obtain ⟨-, qp, priced, -⟩ := (lateralPricing_eq_some distinct).mp attached
      exact absurd priced (unpriced qp)

end Lateral

section Counted
variable {cfg : Deployment} {numericDiv : ℚ → ℚ → ℚ} {blockNumber : Int} {db : DB}
  {serviceOrchestrator : Option String}

/-- A period of the quarter is the one that prices the payment, and its query matches it. -/
def CountedBy (cfg : Deployment) (db : DB) (serviceOrchestrator : Option String) (rp : RailPayment) (q : QuarterNumber) :
    Prop :=
  ∃ qp, PricedBy db rp qp ∧ qp.quarterNum = q.intValue ∧
    ∃ parameters, getQuarterParameters cfg db q = .ok parameters ∧
      rp ∈ matchedPayments cfg db parameters.admittedFilecoinPayContractAddresses serviceOrchestrator qp

theorem CountedBy.joined {rp : RailPayment} {q : QuarterNumber} (counted : CountedBy cfg db serviceOrchestrator rp q) :
    rp ∈ railPayments db := by
  obtain ⟨qp, -, -, parameters, -, matched⟩ := counted
  exact List.mem_of_mem_filter (List.mem_of_mem_filter matched)

theorem quarter_counted (distinct : DistinctPositions db) {q : QuarterNumber} {volume : QuarterlyVolume}
    (reported : getQuarterlyVolume cfg numericDiv blockNumber db serviceOrchestrator q = .ok volume) :
    ∃ counted : List RailPayment, counted.Nodup ∧
      (∀ rp ∈ counted, CountedBy cfg db serviceOrchestrator rp q) ∧
      (volume.pricingPeriods.map (·.volumeAttoFil)).sum = (counted.map fun rp => (rp.payment.totalAmount : Int)).sum := by
  obtain ⟨parameters, set, ⟨-, rfl⟩ | ⟨-, counts⟩⟩ := getQuarterlyVolume_cases reported
  · exact ⟨[], List.nodup_nil, by simp, rfl⟩
  · refine ⟨_, quarter_matched_nodup cfg distinct parameters.admittedFilecoinPayContractAddresses
      serviceOrchestrator q.intValue, ?_, ?_⟩
    · intro rp member
      obtain ⟨qp, period, matched⟩ := List.mem_flatMap.mp member
      have inQuarter := mem_periodsOfQuarter.mp period
      have pair := (mem_matchedPayments inQuarter.1).mp matched
      exact ⟨qp, pair.2, inQuarter.2, parameters, set, matched⟩
    · rw [pricingPeriods_volumes counts.periods, List.map_flatMap, List.flatMap_def, List.sum_flatten, List.map_map]
      rfl

theorem volumes_counted (distinct : DistinctPositions db) {quarters : List QuarterNumber}
    {volumes : List QuarterlyVolume} (different : quarters.Nodup)
    (reported : List.Forall₂ (fun q volume =>
      getQuarterlyVolume cfg numericDiv blockNumber db serviceOrchestrator q = .ok volume) quarters volumes) :
    ∃ counted : List RailPayment, counted.Nodup ∧
      (∀ rp ∈ counted, ∃ q ∈ quarters, CountedBy cfg db serviceOrchestrator rp q) ∧
      ((volumes.flatMap (·.pricingPeriods)).map (·.volumeAttoFil)).sum =
        (counted.map fun rp => (rp.payment.totalAmount : Int)).sum := by
  induction reported with
  | nil => exact ⟨[], List.nodup_nil, by simp, rfl⟩
  | @cons q volume quarters volumes here _ ih =>
      obtain ⟨other, restDifferent⟩ := List.nodup_cons.mp different
      obtain ⟨mine, mineNodup, mineIn, mineTotal⟩ := quarter_counted distinct here
      obtain ⟨counted, nodup, priced, total⟩ := ih restDifferent
      refine ⟨mine ++ counted, ?_, ?_, ?_⟩
      · refine List.nodup_append'.mpr ⟨mineNodup, nodup, ?_⟩
        intro rp inMine inCounted
        obtain ⟨qp, first, quarter, -⟩ := mineIn rp inMine
        obtain ⟨q', member, qp', first', quarter', -⟩ := priced rp inCounted
        -- the one period that prices the payment lies in one quarter
        rw [PricedBy.unique distinct first first', quarter, Int.natCast_inj] at quarter'
        exact other (QuarterNumber.ext quarter' ▸ member)
      · intro rp member
        rcases List.mem_append.mp member with inMine | inCounted
        · exact ⟨q, List.mem_cons_self, mineIn rp inMine⟩
        · obtain ⟨q', member, counts⟩ := priced rp inCounted
          exact ⟨q', List.mem_cons_of_mem _ member, counts⟩
      · rw [List.flatMap_cons, List.map_append, List.sum_append, List.map_append, List.sum_append, mineTotal, total]

end Counted

/-- No FIL payment is priced twice, and the two services price it alike. -/
structure PricesOnce (cfg : Deployment) (numericDiv : ℚ → ℚ → ℚ) (blockNumber : Int) (db : DB) : Prop where
  matched : ∀ (rp : RailPayment) (admittedContracts : List Address) (serviceOrchestrator : Option String),
    ∀ qp ∈ db.qualifiedPricePeriodsMv.rows,
      rp ∈ matchedPayments cfg db admittedContracts serviceOrchestrator qp ↔
        rp ∈ filPayments cfg db admittedContracts serviceOrchestrator ∧ PricedBy db rp qp
  unique : ∀ rp qp other, PricedBy db rp qp → PricedBy db rp other → other = qp
  lateral : ∀ rp qp, rp.rail.token = zeroAddress → PricedBy db rp qp → ∃ period, lateralPricing cfg db rp = some period ∧
    period.endEpoch = qp.epoch ∧ period.endLogIndex = qp.logIndex ∧ period.claimTxHash = qp.claimTxHash
  unpriced : ∀ rp, rp.rail.token = zeroAddress → (∀ qp, ¬ PricedBy db rp qp) → lateralPricing cfg db rp = none
  total : ∀ (serviceOrchestrator : Option String) (quarters : List QuarterNumber) (volumes : List QuarterlyVolume),
    quarters.Nodup →
    List.Forall₂ (fun q volume =>
      getQuarterlyVolume cfg numericDiv blockNumber db serviceOrchestrator q = .ok volume) quarters volumes →
    ∃ counted : List RailPayment, (counted.map (·.payment.id)).Nodup ∧
      (∀ rp ∈ counted, rp ∈ railPayments db ∧ ∃ q ∈ quarters, CountedBy cfg db serviceOrchestrator rp q) ∧
      ((volumes.flatMap (·.pricingPeriods)).map (·.volumeAttoFil)).sum =
        (counted.map fun rp => (rp.payment.totalAmount : Int)).sum

theorem fil_priced_once (cfg : Deployment) (numericDiv : ℚ → ℚ → ℚ) (blockNumber : Int) (db : DB)
    (distinct : DistinctPositions db) : PricesOnce cfg numericDiv blockNumber db where
  matched := fun _ _ _ _ stored => mem_matchedPayments stored
  unique := fun _ _ _ priced too => PricedBy.unique distinct priced too
  lateral := fun _ _ fil priced => exists_lateralPricing cfg distinct fil priced
  unpriced := fun _ _ unpriced => lateralPricing_eq_none cfg distinct unpriced
  total := fun serviceOrchestrator quarters volumes different reported => by
    obtain ⟨counted, nodup, priced, total⟩ := volumes_counted distinct different reported
    have joined : ∀ rp ∈ counted, rp ∈ railPayments db := by
      intro rp member
      obtain ⟨_, _, counts⟩ := priced rp member
      exact counts.joined
    exact ⟨counted, ids_nodup nodup joined, fun rp member => ⟨joined rp member, priced rp member⟩, total⟩

def threePrints : DB :=
  { DB.seeded hundredEpochs with
    serviceRewardsActorParameter := ⟨[.priceBandBps, .minLotFloor, .minLotAlphaNumerator, .minLotAlphaDenominator].map
      fun parameterType => ⟨parameterType, 10, 50, 0, "0x1"⟩, by decide⟩
    whitelistedToken := ⟨[⟨"0xd", 18, "USD", 50, 1, "0x1", none, none, none⟩], by decide⟩
    filecoinPayContract := ⟨[⟨"0xf", 50, 1, "0x1", none, none, none⟩], by decide⟩
    servicePair := ⟨[⟨"0xa", "0xp", "0xo", 50, 3, none, none, 50, "0x1", none, none⟩], by decide⟩
    filecoinPayRail := ⟨[⟨"0xf", "0x7", 0, 1, "0xp", "0xe", "0xo", "0xv", zeroAddress⟩], by decide⟩
    filecoinPayPayment := ⟨[(140, 1), (250, 2), (160, 3)].map fun (epoch, id) =>
      ⟨⟨"0xf", "0x8", 5, 1, id, id, 0, 0, epoch, false⟩, id⟩, by decide⟩
    qualifiedPricePeriodsMv := ⟨
      [{ quarterNum := 1, epoch := 150, logIndex := 2, lotAttoUsd := 500, claimAttoFil := 100, claimTxHash := "0xa" },
        { quarterNum := 2, epoch := 250, logIndex := 0, lotAttoUsd := 510, claimAttoFil := 100, claimTxHash := "0xb" },
        { quarterNum := 2, epoch := 250, logIndex := 7, lotAttoUsd := 520, claimAttoFil := 100, claimTxHash := "0xc" }],
      by decide⟩ }

theorem fil_priced_once_threePrints :
    DistinctPositions threePrints ∧ PricesOnce hundredEpochs (· / ·) 300 threePrints ∧
    (getQuarterlyVolume hundredEpochs (· / ·) 300 threePrints none ⟨1, by decide⟩).map
      (fun volume => volume.pricingPeriods.map (·.volumeAttoFil)) = .ok [1] ∧
    (getQuarterlyVolume hundredEpochs (· / ·) 300 threePrints none ⟨2, by decide⟩).map
      (fun volume => volume.pricingPeriods.map (·.volumeAttoFil)) = .ok [3, 2] := by
  have distinct : DistinctPositions threePrints := by
    unfold DistinctPositions
    decide
  exact ⟨distinct, fil_priced_once hundredEpochs (· / ·) 300 threePrints distinct, by decide +kernel, by decide +kernel⟩

end FpvIndexer.Proof.FilPricing
