import FpvIndexer.Proof.FilPricing
import FpvIndexer.Proof.PaymentsList
import FpvIndexer.Proof.PriceBand
import Mathlib.Data.List.MinMax

namespace FpvIndexer

def PricingPeriod.Contains (period : PricingPeriod) (x : Position) : Prop :=
  ⟨period.startEpoch, period.startLogIndex⟩ ≤ x ∧ x ≤ ⟨period.endEpoch, period.endLogIndex⟩

def PaymentPricing.Contains (pricing : PaymentPricing) (x : Position) : Prop :=
  ⟨pricing.startEpoch, pricing.startLogIndex⟩ ≤ x ∧ x ≤ ⟨pricing.endEpoch, pricing.endLogIndex⟩

instance (period : PricingPeriod) (x : Position) : Decidable (period.Contains x) := by
  unfold PricingPeriod.Contains
  infer_instance

namespace Proof.PricingIntervals
open Relational Volume FilPricing

/-- What `get_qualifying_price_periods` promises of its rows. -/
structure QualifiedPeriods (cfg : Deployment) (db : DB) : Prop where
  quarter : ∀ qp ∈ db.qualifiedPricePeriodsMv.rows, qp.quarterNum = cfg.quarterNum qp.epoch
  positive : ∀ qp ∈ db.qualifiedPricePeriodsMv.rows, 0 < qp.quarterNum

section Specification
variable (cfg : Deployment) (numericDiv : ℚ → ℚ → ℚ) (blockNumber : Int) (db : DB) (serviceOrchestrator : Option String)

def Reported (q : QuarterNumber) (period : PricingPeriod) : Prop :=
  ∃ volume, getQuarterlyVolume cfg numericDiv blockNumber db serviceOrchestrator q = .ok volume ∧
    period ∈ volume.pricingPeriods

structure TrueIntervals : Prop where
  disjoint : ∀ q other period next x, Reported cfg numericDiv blockNumber db serviceOrchestrator q period →
    Reported cfg numericDiv blockNumber db serviceOrchestrator other next → period.Contains x → next.Contains x →
      q = other ∧ period = next
  covered : ∀ qp ∈ db.qualifiedPricePeriodsMv.rows, ∀ x : Position, ⟨cfg.activationEpoch, 0⟩ ≤ x → x ≤ qp.position →
    ∃ q period, Reported cfg numericDiv blockNumber db serviceOrchestrator q period ∧ period.Contains x
  volumes : ∀ q parameters period, getQuarterParameters cfg db q = .ok parameters →
    Reported cfg numericDiv blockNumber db serviceOrchestrator q period →
      period.volumeAttoFil =
        (((filPayments cfg db parameters.admittedFilecoinPayContractAddresses serviceOrchestrator).filter
          fun rp => period.Contains rp.payment.position).map fun rp => (rp.payment.totalAmount : Int)).sum
  attached : ∀ rp ∈ railPayments db, ∀ pricing, lateralPricing cfg db rp = some pricing →
    pricing.claimAttoFil ≠ 0 → pricing.Contains rp.payment.position ∧
      ∃ q period, Reported cfg numericDiv blockNumber db serviceOrchestrator q period ∧
        period.startEpoch = pricing.startEpoch ∧ period.startLogIndex = pricing.startLogIndex ∧
          period.endEpoch = pricing.endEpoch ∧ period.endLogIndex = pricing.endLogIndex

/-- A quarter with price periods whose volume is answered and does not stop at empty lists. -/
def ReportsPeriods (q : QuarterNumber) : Prop :=
  periodsOfQuarter db q.intValue ≠ [] ∧ q.intValue < 2 ^ 31 ∧ (∀ qp ∈ periodsOfQuarter db q.intValue, qp.claimAttoFil ≠ 0) ∧
    ∃ parameters, getQuarterParameters cfg db q = .ok parameters ∧ AnyAdmitted parameters

def Opens (qp : PricePeriod) : Prop :=
  ∃ q, ReportsPeriods cfg db q ∧ (periodsOfQuarter db q.intValue).head? = some qp

/-- One quarter reports periods, the latest among them, and no FIL payment before the latest is priced by a period
that does not open that quarter. -/
structure OneRun : Prop where
  single : ∀ q other, ReportsPeriods cfg db q → ReportsPeriods cfg db other →
    q = other
  latest : ∀ qp ∈ db.qualifiedPricePeriodsMv.rows,
    (∀ other ∈ db.qualifiedPricePeriodsMv.rows, other.position ≤ qp.position) →
      ∃ q, ReportsPeriods cfg db q ∧ qp ∈ periodsOfQuarter db q.intValue
  attached : ∀ rp ∈ railPayments db, rp.rail.token = zeroAddress → ∀ qp, PricedBy db rp qp → qp.claimAttoFil ≠ 0 →
    cfg.activationEpoch ≤ rp.payment.settledAtEpoch ∧ Opens cfg db qp
  counted : ∀ q parameters, ReportsPeriods cfg db q →
    getQuarterParameters cfg db q = .ok parameters →
      ∀ rp ∈ filPayments cfg db parameters.admittedFilecoinPayContractAddresses serviceOrchestrator,
        rp.payment.totalAmount ≠ 0 → (∃ qp ∈ periodsOfQuarter db q.intValue, rp.payment.position ≤ qp.position) →
          ∃ first, PricedBy db rp first ∧ Opens cfg db first

end Specification

section Windows
variable {cfg : Deployment} {db : DB} {q : QuarterNumber}

theorem periodsOfQuarter_sorted (distinct : DistinctPositions db) (quarterNum : Int) :
    (periodsOfQuarter db quarterNum).Pairwise fun a b => a.position < b.position := by
  apply orderBy_strict PricePeriod.position
  refine (db.qualifiedPricePeriodsMv.rows_nodup.filter _).imp_of_mem ?_
  intro a b ha hb differ same
  exact differ (distinct a (List.mem_of_mem_filter ha) b (List.mem_of_mem_filter hb) same)

theorem activation_le_of_epoch {x : Position} (activated : cfg.activationEpoch ≤ x.epoch) :
    (⟨cfg.activationEpoch, 0⟩ : Position) ≤ x := by
  rw [Position.le_iff]
  dsimp only
  omega

theorem activation_le (qualified : QualifiedPeriods cfg db) {qp : PricePeriod}
    (stored : qp ∈ db.qualifiedPricePeriodsMv.rows) : (⟨cfg.activationEpoch, 0⟩ : Position) ≤ qp.position := by
  have started := qualified.positive qp stored
  rw [qualified.quarter qp stored] at started
  have epoch := (cfg.le_quarterNum_iff le_rfl qp.epoch).mp started
  rw [Config.quarterStartEpoch, Int.sub_self, Int.mul_zero, Int.add_zero] at epoch
  exact activation_le_of_epoch epoch

end Windows

section Reports
variable {cfg : Deployment} {numericDiv : ℚ → ℚ → ℚ} {blockNumber : Int} {db : DB} {serviceOrchestrator : Option String}
  {q : QuarterNumber}

variable (rounds : cfg.RoundsHalfUp)
include rounds

theorem entry_of_reported {period : PricingPeriod}
    (reported : Reported cfg numericDiv blockNumber db serviceOrchestrator q period) :
    ∃ parameters, getQuarterParameters cfg db q = .ok parameters ∧ ReportsPeriods cfg db q ∧
      ∃ qp previous, (qp, previous) ∈ lag (periodsOfQuarter db q.intValue) ∧
        ReportedAs cfg db parameters.admittedFilecoinPayContractAddresses serviceOrchestrator numericDiv (qp, previous)
          period := by
  obtain ⟨volume, answered, member⟩ := reported
  obtain ⟨parameters, set, ⟨-, rfl⟩ | ⟨admitted, counts⟩⟩ := getQuarterlyVolume_cases answered
  · cases member
  · obtain ⟨⟨qp, previous⟩, paired, as⟩ := exists_item_of_mem_mapM counts.periods member
    have answerable := (answerable_iff serviceOrchestrator rounds numericDiv blockNumber set).mp ⟨volume, answered⟩
    obtain ⟨inRange, claims⟩ := answerable admitted
    have nonempty := List.ne_nil_of_mem (mem_of_mem_lag paired)
    refine ⟨parameters, set, ⟨nonempty, inRange, claims, parameters, set, admitted⟩, ?_⟩
    exact ⟨qp, previous, paired, (reportPeriod_eq_ok.mp as).2⟩

theorem exists_reported (numericDiv : ℚ → ℚ → ℚ) (blockNumber : Int) (serviceOrchestrator : Option String)
    (reports : ReportsPeriods cfg db q) :
    ∃ parameters, getQuarterParameters cfg db q = .ok parameters ∧
      ∀ qp previous, (qp, previous) ∈ lag (periodsOfQuarter db q.intValue) →
        ∃ period, Reported cfg numericDiv blockNumber db serviceOrchestrator q period ∧
          ReportedAs cfg db parameters.admittedFilecoinPayContractAddresses serviceOrchestrator numericDiv (qp, previous)
            period := by
  obtain ⟨-, inRange, claims, parameters, set, admitted⟩ := reports
  obtain ⟨volume, answered⟩ :=
    (answerable_iff serviceOrchestrator rounds numericDiv blockNumber set).mpr fun _ => ⟨inRange, claims⟩
  have counts := (getQuarterlyVolume_eq_ok set admitted).mp answered
  refine ⟨parameters, set, fun qp previous paired => ?_⟩
  obtain ⟨period, member, as⟩ := exists_result_of_mem_mapM counts.periods paired
  exact ⟨period, ⟨volume, answered, member⟩, (reportPeriod_eq_ok.mp as).2⟩

omit rounds in
theorem contains_iff {admittedContracts : List Address} {qp : PricePeriod} {previous : Option PricePeriod}
    {period : PricingPeriod} (as : ReportedAs cfg db admittedContracts serviceOrchestrator numericDiv (qp, previous) period)
    (x : Position) : period.Contains x ↔
      opensAt ⟨cfg.activationEpoch, 0⟩ Position.next PricePeriod.position previous ≤ x ∧ x ≤ qp.position := by
  unfold PricingPeriod.Contains
  rw [as.opens, as.closes]

end Reports

section Listed
variable {services : TokenServices} {cfg : Deployment} {blockNumber : Int} {scan : List PaymentRow → List PaymentRow}
  {divides : PaymentsQuery → RailPayment → PricePeriod → Bool} {db : DB}

structure ShowsPricing (rp : RailPayment) (pricing : PaymentPricing) (payment : Payment) (period : PaymentPricingPeriod) :
    Prop where
  position : (⟨payment.epoch, payment.logIndex⟩ : Position) = rp.payment.position
  opens : (⟨period.startEpoch, period.startLogIndex⟩ : Position) = ⟨pricing.startEpoch, pricing.startLogIndex⟩
  closes : (⟨period.endEpoch, period.endLogIndex⟩ : Position) = ⟨pricing.endEpoch, pricing.endLogIndex⟩

theorem toPayment_pricing {details : List (Address × ERC20Metadata)} {quarters : List Quarter} {row : PaymentRow}
    {payment : Payment} (shown : toPayment cfg details quarters row = .ok payment) {period : PaymentPricingPeriod}
    (attached : payment.pricingPeriod = some period) :
    ∃ pricing, row.pricing = some pricing ∧ ShowsPricing row.toRailPayment pricing payment period := by
  obtain ⟨_, -, displays⟩ := PaymentsList.toPayment_displays shown
  have converted := displays.pricing
  rw [attached] at converted
  cases priced : row.pricing with
  | none =>
      rw [priced] at converted
      cases converted
  | some pricing =>
      rw [priced, Option.mapM_some] at converted
      obtain ⟨here, exact_, converted⟩ := bind_eq_ok.mp converted
      cases converted
      obtain ⟨lot, -, exact_⟩ := bind_eq_ok.mp exact_
      obtain ⟨claim, -, exact_⟩ := bind_eq_ok.mp exact_
      obtain rfl := pure_eq_ok.mp exact_
      refine ⟨pricing, rfl, ?_, rfl, rfl⟩
      rw [displays.epoch, displays.logIndex]
      rfl

theorem lateralPricing_of_listed (scans : ∀ rows, (scan rows).Perm rows) {query : PaymentsQuery}
    {list : PaginatedPaymentsList} (listed : getPaymentsPaginated services cfg blockNumber scan divides db query = .ok list)
    {payment : Payment} (member : payment ∈ list.data) {period : PaymentPricingPeriod}
    (attached : payment.pricingPeriod = some period) : ∃ rp ∈ railPayments db, ∃ pricing,
      lateralPricing cfg db rp = some pricing ∧ pricing.claimAttoFil ≠ 0 ∧ ShowsPricing rp pricing payment period := by
  obtain ⟨quarters, details, -, -, undivided, -, mapped⟩ := PaymentsList.getPaymentsPaginated_rows listed
  obtain ⟨row, onPage, shown⟩ := exists_item_of_mem_mapM mapped member
  obtain ⟨joined, priced⟩ := PaymentsList.lateralPricing_of_page scans onPage
  obtain ⟨pricing, same, shows⟩ := toPayment_pricing shown attached
  exact ⟨row.toRailPayment, joined, pricing, priced.symm.trans same,
    PaymentsList.claim_of_page undivided onPage same, shows⟩

end Listed

section Exact
variable {cfg : Deployment} {numericDiv : ℚ → ℚ → ℚ} {blockNumber : Int} {db : DB} {serviceOrchestrator : Option String}
  {q : QuarterNumber} {rp : RailPayment} {qp : PricePeriod}

theorem volumeAttoFil_eq {admittedContracts : List Address} {previous : Option PricePeriod} {period : PricingPeriod}
    (as : ReportedAs cfg db admittedContracts serviceOrchestrator numericDiv (qp, previous) period) :
    period.volumeAttoFil = (((filPayments cfg db admittedContracts serviceOrchestrator).filter (pricesFirst db qp)).map
      fun rp => (rp.payment.totalAmount : Int)).sum :=
  Int.cast_injective (α := ℚ) (as.volumeAttoFil.trans (periodVolumeAttoFil_eq qp))

theorem activated_of_counted {admittedContracts : List Address}
    (counted : rp ∈ filPayments cfg db admittedContracts serviceOrchestrator) :
    (⟨cfg.activationEpoch, 0⟩ : Position) ≤ rp.payment.position :=
  activation_le_of_epoch (of_decide_eq_true (List.mem_filter.mp counted).2).2.2.1

theorem claims_of_reports (reports : ReportsPeriods cfg db q) :
    ∀ qp ∈ periodsOfQuarter db q.intValue, qp.claimAttoFil ≠ 0 := by
  obtain ⟨-, -, claims, -⟩ := reports
  exact claims

theorem sum_filter_eq_iff {rows : List RailPayment} {p q : RailPayment → Bool} (wider : ∀ rp ∈ rows, p rp → q rp) :
    ((rows.filter p).map fun rp => (rp.payment.totalAmount : Int)).sum =
        ((rows.filter q).map fun rp => (rp.payment.totalAmount : Int)).sum ↔
      ∀ rp ∈ rows, q rp → rp.payment.totalAmount ≠ 0 → p rp := by
  rw [sum_map_filter, sum_map_filter, sum_map_eq_iff]
  · refine forall₂_congr fun rp member => ?_
    by_cases inP : p rp
    · simp [inP, wider rp member inP]
    · by_cases inQ : q rp
      · simp [inP, inQ, eq_comm]
      · simp [inP, inQ]
  · intro rp member
    by_cases inP : p rp
    · rw [if_pos inP, if_pos (wider rp member inP)]
    · rw [if_neg inP]
      split
      · exact Int.natCast_nonneg _
      · exact le_rfl

variable (cfg db) in
def SingleReport : Prop :=
  ∀ q other, ReportsPeriods cfg db q → ReportsPeriods cfg db other → q = other

variable (cfg db) in
def AttachesOpenings : Prop :=
  ∀ rp ∈ railPayments db, rp.rail.token = zeroAddress → ∀ qp, PricedBy db rp qp → qp.claimAttoFil ≠ 0 →
    cfg.activationEpoch ≤ rp.payment.settledAtEpoch ∧ Opens cfg db qp

theorem head?_of_opens (single : SingleReport cfg db)
    (reports : ReportsPeriods cfg db q) (opens : Opens cfg db qp) :
    (periodsOfQuarter db q.intValue).head? = some qp := by
  obtain ⟨other, too, first⟩ := opens
  rw [single q other reports too]
  exact first

theorem exists_latest (stored : qp ∈ db.qualifiedPricePeriodsMv.rows) : ∃ last ∈ db.qualifiedPricePeriodsMv.rows,
    ∀ other ∈ db.qualifiedPricePeriodsMv.rows, other.position ≤ last.position := by
  cases latest : db.qualifiedPricePeriodsMv.rows.argmax PricePeriod.position with
  | none =>
      rw [List.argmax_eq_none.mp latest] at stored
      cases stored
  | some last => exact ⟨last, List.argmax_mem latest, fun other member => List.le_of_mem_argmax member latest⟩

variable (qualified : QualifiedPeriods cfg db)
include qualified

theorem previous_of_head? {previous : Option PricePeriod} (first : (periodsOfQuarter db q.intValue).head? = some qp)
    (paired : (qp, previous) ∈ lag (periodsOfQuarter db q.intValue)) : previous = none := by
  have sorted := periodsOfQuarter_sorted (distinctPositions_of_quarters qualified.quarter) q.intValue
  cases previous with
  | none => rfl
  | some previous =>
      obtain ⟨inQuarter, before, -⟩ := lag_previous sorted paired
      exact absurd before (not_lt.mpr (head?_le sorted first previous inQuarter))

theorem contains_of_pricesFirst (single : SingleReport cfg db)
    (attached : AttachesOpenings cfg db)
    (reports : ReportsPeriods cfg db q) {admittedContracts : List Address}
    {previous : Option PricePeriod} {period : PricingPeriod}
    (paired : (qp, previous) ∈ lag (periodsOfQuarter db q.intValue))
    (as : ReportedAs cfg db admittedContracts serviceOrchestrator numericDiv (qp, previous) period) :
    ∀ rp ∈ filPayments cfg db admittedContracts serviceOrchestrator,
      pricesFirst db qp rp → decide (period.Contains rp.payment.position) := by
  intro rp counted first
  obtain ⟨joined, passes⟩ := List.mem_filter.mp counted
  have inQuarter := mem_of_mem_lag paired
  have priced := (pricesFirst_iff (mem_periodsOfQuarter.mp inQuarter).1).mp first
  have opening := attached rp joined (of_decide_eq_true passes).2.1 qp priced (claims_of_reports reports qp inQuarter)
  have head := head?_of_opens single reports opening.2
  rw [decide_eq_true_eq, contains_iff as, previous_of_head? qualified head paired]
  exact ⟨activated_of_counted counted, priced.after.le⟩

variable (rounds : cfg.RoundsHalfUp)
include rounds

theorem reported_at_activation (numericDiv : ℚ → ℚ → ℚ) (blockNumber : Int) (serviceOrchestrator : Option String)
    (reports : ReportsPeriods cfg db q) :
    ∃ period, Reported cfg numericDiv blockNumber db serviceOrchestrator q period ∧
      period.Contains ⟨cfg.activationEpoch, 0⟩ := by
  obtain ⟨first, head⟩ := Option.isSome_iff_exists.mp (List.isSome_head?.mpr reports.1)
  obtain ⟨parameters, -, each⟩ := exists_reported rounds numericDiv blockNumber serviceOrchestrator reports
  obtain ⟨period, reported, as⟩ := each first none (mem_lag_of_head? head)
  refine ⟨period, reported, (contains_iff as _).mpr ⟨le_rfl, ?_⟩⟩
  exact activation_le qualified (mem_periodsOfQuarter.mp (List.mem_of_head? head)).1

theorem singleReport_of_trueIntervals
    (intervals : TrueIntervals cfg numericDiv blockNumber db serviceOrchestrator) :
    SingleReport cfg db := by
  intro q other reports too
  obtain ⟨period, reported, contains⟩ :=
    reported_at_activation qualified rounds numericDiv blockNumber serviceOrchestrator reports
  obtain ⟨next, reportedToo, containsToo⟩ :=
    reported_at_activation qualified rounds numericDiv blockNumber serviceOrchestrator too
  exact (intervals.disjoint q other period next _ reported reportedToo contains containsToo).1

theorem attachesOpenings_of_trueIntervals
    (intervals : TrueIntervals cfg numericDiv blockNumber db serviceOrchestrator) :
    AttachesOpenings cfg db := by
  have distinct := distinctPositions_of_quarters qualified.quarter
  intro rp joined fil qp priced claim
  obtain ⟨contains, q, period, reported, startEpoch, startLogIndex, endEpoch, endLogIndex⟩ :=
    intervals.attached rp joined _ ((lateralPricing_eq_some distinct).mpr ⟨fil, qp, priced, rfl⟩) claim
  refine ⟨Position.epoch_le_of_le contains.1, ?_⟩
  obtain ⟨parameters, -, reports, found, previous, paired, as⟩ := entry_of_reported rounds reported
  have same : found.position = qp.position :=
    as.closes.symm.trans (congrArg₂ Position.mk endEpoch endLogIndex)
  obtain rfl := distinct found (mem_periodsOfQuarter.mp (mem_of_mem_lag paired)).1 qp priced.stored same
  have start : opensAt ⟨cfg.activationEpoch, 0⟩ Position.next PricePeriod.position previous =
      (⟨cfg.activationEpoch, 0⟩ : Position) := as.opens.symm.trans (congrArg₂ Position.mk startEpoch startLogIndex)
  cases previous with
  | none => exact ⟨q, reports, head?_of_mem_lag paired⟩
  | some previous => exact absurd (congrArg Position.logIndex start) (Nat.succ_ne_zero _)

theorem oneRun_of_trueIntervals (intervals : TrueIntervals cfg numericDiv blockNumber db serviceOrchestrator) :
    OneRun cfg db serviceOrchestrator := by
  have distinct := distinctPositions_of_quarters qualified.quarter
  have single := singleReport_of_trueIntervals qualified rounds intervals
  have attached := attachesOpenings_of_trueIntervals qualified rounds intervals
  refine ⟨single, ?_, attached, ?_⟩
  · intro qp stored latest
    obtain ⟨q, period, reported, contains⟩ :=
      intervals.covered qp stored qp.position (activation_le qualified stored) le_rfl
    obtain ⟨parameters, -, reports, found, previous, paired, as⟩ := entry_of_reported rounds reported
    have inQuarter := mem_of_mem_lag paired
    have storedToo := (mem_periodsOfQuarter.mp inQuarter).1
    have same := le_antisymm (latest found storedToo) ((contains_iff as _).mp contains).2
    rw [distinct found storedToo qp stored same] at inQuarter
    exact ⟨q, reports, inQuarter⟩
  · rintro q parameters reports set rp counted some ⟨last, inQuarter, le⟩
    have started := activated_of_counted counted
    obtain ⟨found, previous, paired, opens, closes⟩ :=
      lag_covers (fun _ _ => Position.next_le_iff) started ⟨last, inQuarter, le⟩
    obtain ⟨read, setToo, each⟩ := exists_reported rounds numericDiv blockNumber serviceOrchestrator reports
    obtain rfl : read = parameters := Except.ok.inj (setToo.symm.trans set)
    obtain ⟨period, reported, as⟩ := each found previous paired
    have matched := contains_of_pricesFirst qualified single attached reports paired as
    have totals := (volumeAttoFil_eq as).symm.trans (intervals.volumes q read period set reported)
    have within : decide (period.Contains rp.payment.position) :=
      decide_eq_true ((contains_iff as _).mpr ⟨opens, closes⟩)
    have first := (sum_filter_eq_iff matched).mp totals rp counted within some
    have foundHere := mem_of_mem_lag paired
    have priced := (pricesFirst_iff (mem_periodsOfQuarter.mp foundHere).1).mp first
    obtain ⟨joined, passes⟩ := List.mem_filter.mp counted
    exact ⟨found, priced, (attached rp joined (of_decide_eq_true passes).2.1 found priced
      (claims_of_reports reports found foundHere)).2⟩

theorem trueIntervals_of_oneRun (run : OneRun cfg db serviceOrchestrator) :
    TrueIntervals cfg numericDiv blockNumber db serviceOrchestrator := by
  have distinct := distinctPositions_of_quarters qualified.quarter
  constructor
  · intro q other period next x reported too contains containsToo
    obtain ⟨parameters, set, reports, qp, previous, paired, as⟩ := entry_of_reported rounds reported
    obtain ⟨parametersToo, setToo, reportsToo, qpToo, previousToo, pairedToo, asToo⟩ := entry_of_reported rounds too
    obtain rfl := run.single q other reports reportsToo
    refine ⟨rfl, ?_⟩
    obtain ⟨opens, closes⟩ := (contains_iff as x).mp contains
    obtain ⟨opensToo, closesToo⟩ := (contains_iff asToo x).mp containsToo
    obtain ⟨rfl, rfl⟩ := lag_disjoint (periodsOfQuarter_sorted distinct q.intValue) (fun _ _ => Position.next_le_iff)
      paired pairedToo opens closes opensToo closesToo
    obtain rfl : parameters = parametersToo := Except.ok.inj (set.symm.trans setToo)
    have claim := claims_of_reports reports qp (mem_of_mem_lag paired)
    exact Except.ok.inj ((reportPeriod_eq_ok.mpr ⟨claim, as⟩).symm.trans (reportPeriod_eq_ok.mpr ⟨claim, asToo⟩))
  · intro qp stored x started le
    obtain ⟨last, inRows, latest⟩ := exists_latest stored
    obtain ⟨q, reports, inQuarter⟩ := run.latest last inRows latest
    obtain ⟨found, previous, paired, opens, closes⟩ := lag_covers (fun _ _ => Position.next_le_iff) started
      ⟨last, inQuarter, le.trans (latest qp stored)⟩
    obtain ⟨parameters, -, each⟩ := exists_reported rounds numericDiv blockNumber serviceOrchestrator reports
    obtain ⟨period, reported, as⟩ := each found previous paired
    exact ⟨q, period, reported, (contains_iff as x).mpr ⟨opens, closes⟩⟩
  · intro q parameters period set reported
    obtain ⟨read, setToo, reports, qp, previous, paired, as⟩ := entry_of_reported rounds reported
    obtain rfl : read = parameters := Except.ok.inj (setToo.symm.trans set)
    have inQuarter := mem_of_mem_lag paired
    have stored := (mem_periodsOfQuarter.mp inQuarter).1
    rw [volumeAttoFil_eq as, sum_filter_eq_iff]
    · intro rp counted within some
      obtain ⟨opens, closes⟩ := (contains_iff as _).mp (of_decide_eq_true within)
      obtain ⟨first, priced, opening⟩ := run.counted q read reports set rp counted some ⟨qp, inQuarter, closes⟩
      have head := head?_of_opens run.single reports opening
      have same : qp = first := by
        cases previous with
        | none => exact Option.some.inj ((head?_of_mem_lag paired).symm.trans head)
        | some previous =>
            obtain ⟨earlier, -⟩ := lag_previous (periodsOfQuarter_sorted distinct q.intValue) paired
            have le := head?_le (periodsOfQuarter_sorted distinct q.intValue) head previous earlier
            have before := Position.next_le_iff.mp opens
            exact absurd (priced.after.trans_le le) (not_lt.mpr before.le)
      rw [same]
      exact (pricesFirst_iff priced.stored).mpr priced
    · exact contains_of_pricesFirst qualified run.single run.attached reports paired as
  · intro rp joined pricing attached claim
    obtain ⟨fil, qp, priced, rfl⟩ := (lateralPricing_eq_some distinct).mp attached
    obtain ⟨activated, q, reports, head⟩ := run.attached rp joined fil qp priced claim
    obtain ⟨parameters, -, each⟩ := exists_reported rounds numericDiv blockNumber serviceOrchestrator reports
    obtain ⟨period, reported, as⟩ := each qp none (mem_lag_of_head? head)
    obtain ⟨startEpoch, startLogIndex⟩ := Position.mk.inj as.opens
    obtain ⟨endEpoch, endLogIndex⟩ := Position.mk.inj as.closes
    refine ⟨⟨activation_le_of_epoch activated, priced.after.le⟩, q, period, reported, ?_⟩
    exact ⟨startEpoch, startLogIndex, endEpoch, endLogIndex⟩

end Exact

/-- What the list of payments shows is what its query attaches, and the intervals of both services are true ones
exactly when only the last quarter with price periods reports any and its first period prices all payments in FIL. -/
theorem trueIntervals_iff (cfg : Deployment) (rounds : cfg.RoundsHalfUp) (numericDiv : ℚ → ℚ → ℚ) (blockNumber : Int)
    (db : DB) (serviceOrchestrator : Option String) (qualified : QualifiedPeriods cfg db) :
    (∀ services scan divides query list payment period, (∀ rows, (scan rows).Perm rows) →
      getPaymentsPaginated services cfg blockNumber scan divides db query = .ok list → payment ∈ list.data →
        payment.pricingPeriod = some period → ∃ rp ∈ railPayments db, ∃ pricing,
          lateralPricing cfg db rp = some pricing ∧ pricing.claimAttoFil ≠ 0 ∧ ShowsPricing rp pricing payment period) ∧
    (TrueIntervals cfg numericDiv blockNumber db serviceOrchestrator ↔ OneRun cfg db serviceOrchestrator) := by
  constructor
  · intro services scan divides query list payment period scans listed member attached
    exact lateralPricing_of_listed scans listed member attached
  · exact ⟨oneRun_of_trueIntervals qualified rounds, trueIntervals_of_oneRun qualified rounds⟩

section Prints
open PriceBand

def printed : DB :=
  { market eightAuctions with qualifiedPricePeriodsMv := ⟨getQualifyingPricePeriods (market eightAuctions), by decide +kernel⟩ }

theorem printed_qualified : QualifiedPeriods hundredEpochs printed :=
  ⟨by decide +kernel, by decide +kernel⟩

theorem trueIntervals_iff_printed :
    (∀ services scan divides query list payment period, (∀ rows, (scan rows).Perm rows) →
      getPaymentsPaginated services hundredEpochs 400 scan divides printed query = .ok list → payment ∈ list.data →
        payment.pricingPeriod = some period → ∃ rp ∈ railPayments printed, ∃ pricing,
          lateralPricing hundredEpochs printed rp = some pricing ∧ pricing.claimAttoFil ≠ 0 ∧
            ShowsPricing rp pricing payment period) ∧
    (TrueIntervals hundredEpochs (· / ·) 400 printed none ↔ OneRun hundredEpochs printed none) :=
  trueIntervals_iff hundredEpochs hundredEpochs_rounds (· / ·) 400 printed none printed_qualified

theorem printed_overlap : QualifiedPeriods hundredEpochs printed ∧ ¬ TrueIntervals hundredEpochs (· / ·) 400 printed none := by
  refine ⟨printed_qualified, fun intervals => ?_⟩
  have first : Reported hundredEpochs (· / ·) 400 printed none ⟨1, by decide⟩ ⟨"0x0", 100, 0, 120, 0, 105, 1, 0, 0⟩ :=
    ⟨⟨⟨1, 100, 199, true⟩, 0, 0, 0, [⟨"0x0", 100, 0, 120, 0, 105, 1, 0, 0⟩]⟩, by decide +kernel, by simp⟩
  have third : Reported hundredEpochs (· / ·) 400 printed none ⟨3, by decide⟩ ⟨"0x0", 100, 0, 310, 0, 220, 2, 0, 0⟩ :=
    ⟨⟨⟨3, 300, 399, true⟩, 0, 0, 0, [⟨"0x0", 100, 0, 310, 0, 220, 2, 0, 0⟩]⟩, by decide +kernel, by simp⟩
  have same := intervals.disjoint _ _ _ _ ⟨100, 0⟩ first third (by decide) (by decide)
  exact absurd same.1 (by decide)

end Prints

end Proof.PricingIntervals
end FpvIndexer
