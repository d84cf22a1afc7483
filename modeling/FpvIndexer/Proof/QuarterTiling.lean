import FpvIndexer.Proof.Paging

namespace FpvIndexer
namespace Proof.QuarterTiling
open Relational Volume PaymentsList Paging

section Specification
variable (cfg : Deployment) (blockNumber : Int)

def Holds (quarter : Quarter) (epoch : Int) : Prop := quarter.startEpoch ≤ epoch ∧ epoch ≤ quarter.endEpoch

instance (quarter : Quarter) (epoch : Int) : Decidable (Holds quarter epoch) :=
  inferInstanceAs (Decidable (quarter.startEpoch ≤ epoch ∧ epoch ≤ quarter.endEpoch))

/-- One quarter after another, each of the epochs that the queries and the indexer number alike, up to the one under
way. -/
structure Tiles (quarters : List Quarter) : Prop where
  current : getCurrentQuarterNum cfg blockNumber = some (quarters.length : Int)
  numbered : quarters.map (·.q) = (List.range quarters.length).map (· + 1)
  holds : ∀ quarter ∈ quarters, ∀ epoch, Holds quarter epoch ↔ cfg.quarterNum epoch = quarter.q
  indexed : ∀ quarter ∈ quarters, ∀ epoch, Holds quarter epoch ↔ cfg.getQuarterForEpoch epoch = quarter.q
  completed : ∀ quarter ∈ quarters, quarter.completed ↔ quarter.q < quarters.length
  covers : ∀ epoch, cfg.activationEpoch ≤ epoch → epoch ≤ blockNumber →
    ∃! quarter, quarter ∈ quarters ∧ Holds quarter epoch

end Specification

section Quarters
variable {cfg : Deployment} {blockNumber : Int} {quarters : List Quarter}

def quarterOf (cfg : Deployment) (blockNumber : Int) (q : Nat) : Quarter where
  q := q
  startEpoch := cfg.quarterStartEpoch q
  endEpoch := cfg.quarterEndEpoch q
  completed := cfg.quarterEndEpoch q < blockNumber

theorem getQuarterByIndex_eq_ok_iff {quarterNum : Nat} {quarter : Quarter} :
    getQuarterByIndex cfg blockNumber quarterNum = .ok quarter ↔
      1 ≤ quarterNum ∧ quarter = quarterOf cfg blockNumber quarterNum := by
  by_cases positive : 1 ≤ quarterNum
  · have answered : getQuarterByIndex cfg blockNumber quarterNum = .ok (quarterOf cfg blockNumber quarterNum) :=
      getQuarterByIndex_eq cfg blockNumber ⟨quarterNum, positive⟩
    rw [answered]
    simp only [Except.ok.injEq, positive, true_and, eq_comm]
  · unfold getQuarterByIndex
    rw [if_pos (by omega)]
    simp only [reduceCtorEq, positive, false_and]

theorem one_le_quarterNum_iff (cfg : Deployment) (epoch : Int) : 1 ≤ cfg.quarterNum epoch ↔ cfg.activationEpoch ≤ epoch := by
  have start : cfg.quarterStartEpoch 1 = cfg.activationEpoch := by
    unfold Config.quarterStartEpoch
    rw [Int.sub_self, Int.mul_zero, Int.add_zero]
  rw [cfg.le_quarterNum_iff le_rfl, start]

theorem holds_quarterOf {q : Nat} (positive : 1 ≤ q) (epoch : Int) :
    Holds (quarterOf cfg blockNumber q) epoch ↔ cfg.quarterNum epoch = q := by
  unfold Holds quarterOf
  dsimp only
  rw [← cfg.le_quarterNum_iff (by omega), ← cfg.quarterNum_le_iff (by omega)]
  omega

theorem completed_quarterOf (q : Nat) :
    (quarterOf cfg blockNumber q).completed ↔ (q : Int) < cfg.quarterNum blockNumber := by
  unfold quarterOf
  rw [decide_eq_true_iff, ← not_le, ← cfg.quarterNum_le_iff (by omega), not_le]

theorem getCurrentQuarterNum_eq (cfg : Deployment) (blockNumber : Int) : getCurrentQuarterNum cfg blockNumber =
    if blockNumber < cfg.activationEpoch then none else some (cfg.quarterNum blockNumber) := by
  rw [← cfg.getQuarterForEpoch_eq]
  unfold getCurrentQuarterNum Config.getQuarterForEpoch
  split
  · rfl
  · rfl

theorem getQuarters_eq_ok_iff : getQuarters cfg blockNumber = .ok quarters ↔ cfg.activationEpoch ≤ blockNumber ∧
    quarters = (List.range (cfg.quarterNum blockNumber).toNat).map fun i => quarterOf cfg blockNumber (i + 1) := by
  unfold getQuarters
  by_cases early : blockNumber < cfg.activationEpoch
  · rw [if_pos early]
    simp only [reduceCtorEq, false_iff, not_and]
    omega
  · have started : 1 ≤ cfg.quarterNum blockNumber := (one_le_quarterNum_iff cfg blockNumber).mpr (not_lt.mp early)
    have count : max 1 ((blockNumber - cfg.activationEpoch).tdiv cfg.epochsPerQuarter + 1).toNat =
        (cfg.quarterNum blockNumber).toNat := by
      have formula := cfg.getQuarterForEpoch_eq blockNumber
      unfold Config.getQuarterForEpoch at formula
      rw [if_neg early] at formula
      rw [formula]
      omega
    rw [if_neg early, count, mapM_eq_ok_map fun i _ => getQuarterByIndex_eq_ok_iff.mpr ⟨by omega, rfl⟩]
    simp only [Except.ok.injEq, not_lt.mp early, true_and, eq_comm]

theorem mem_getQuarters_iff (listed : getQuarters cfg blockNumber = .ok quarters) {quarter : Quarter} :
    quarter ∈ quarters ↔
      (1 ≤ quarter.q ∧ (quarter.q : Int) ≤ cfg.quarterNum blockNumber) ∧ quarter = quarterOf cfg blockNumber quarter.q := by
  obtain ⟨-, rfl⟩ := getQuarters_eq_ok_iff.mp listed
  simp only [List.mem_map, List.mem_range]
  constructor
  · rintro ⟨i, within, rfl⟩
    exact ⟨⟨Nat.succ_pos i, by dsimp only [quarterOf]; omega⟩, rfl⟩
  · rintro ⟨⟨positive, within⟩, same⟩
    exact ⟨quarter.q - 1, by omega, by rw [Nat.sub_add_cancel positive, ← same]⟩

theorem tiles_of_getQuarters (listed : getQuarters cfg blockNumber = .ok quarters) : Tiles cfg blockNumber quarters := by
  obtain ⟨started, whole⟩ := getQuarters_eq_ok_iff.mp listed
  have first : 1 ≤ cfg.quarterNum blockNumber := (one_le_quarterNum_iff cfg blockNumber).mpr started
  have length : (quarters.length : Int) = cfg.quarterNum blockNumber := by
    rw [whole, List.length_map, List.length_range]
    omega
  have holds : ∀ quarter ∈ quarters, ∀ epoch, Holds quarter epoch ↔ cfg.quarterNum epoch = quarter.q := by
    intro quarter member epoch
    obtain ⟨⟨positive, -⟩, same⟩ := (mem_getQuarters_iff listed).mp member
    rw [same]
    exact holds_quarterOf positive epoch
  constructor
  · rw [getCurrentQuarterNum_eq, if_neg (not_lt.mpr started), length]
  · rw [whole, List.length_map, List.length_range, List.map_map]
    rfl
  · exact holds
  · intro quarter member epoch
    rw [cfg.getQuarterForEpoch_eq]
    exact holds quarter member epoch
  · intro quarter member
    obtain ⟨-, same⟩ := (mem_getQuarters_iff listed).mp member
    rw [same, completed_quarterOf, ← length, Int.ofNat_lt]
    rfl
  · intro epoch since upTo
    have positive : 1 ≤ cfg.quarterNum epoch := (one_le_quarterNum_iff cfg epoch).mpr since
    have within : cfg.quarterNum epoch ≤ cfg.quarterNum blockNumber := cfg.quarterNum_mono upTo
    have number : ((cfg.quarterNum epoch).toNat : Int) = cfg.quarterNum epoch := Int.toNat_of_nonneg (by omega)
    refine ⟨quarterOf cfg blockNumber (cfg.quarterNum epoch).toNat, ⟨(mem_getQuarters_iff listed).mpr ?_, ?_⟩, ?_⟩
    · exact ⟨⟨by dsimp only [quarterOf]; omega, number.trans_le within⟩, rfl⟩
    · exact (holds_quarterOf (by omega) epoch).mpr number.symm
    · rintro other ⟨member, held⟩
      obtain ⟨-, same⟩ := (mem_getQuarters_iff listed).mp member
      have q := (holds other member epoch).mp held
      rw [same, q, Int.toNat_natCast]

theorem bounds_of_holds {quarter other : Quarter} (some : other.startEpoch ≤ other.endEpoch)
    (alike : ∀ epoch, Holds quarter epoch ↔ Holds other epoch) :
    quarter.startEpoch = other.startEpoch ∧ quarter.endEpoch = other.endEpoch := by
  unfold Holds at alike
  have lower := (alike other.startEpoch).mpr ⟨le_rfl, some⟩
  have upper := (alike other.endEpoch).mpr ⟨some, le_rfl⟩
  have back := (alike quarter.startEpoch).mp ⟨le_rfl, by omega⟩
  have forth := (alike quarter.endEpoch).mp ⟨by omega, le_rfl⟩
  omega

theorem eq_quarterOf (tiles : Tiles cfg blockNumber quarters) (length : (quarters.length : Int) = cfg.quarterNum blockNumber)
    {quarter : Quarter} (member : quarter ∈ quarters) : quarter = quarterOf cfg blockNumber quarter.q := by
  have numbered : quarter.q ∈ quarters.map (·.q) := List.mem_map_of_mem member
  rw [tiles.numbered, List.mem_map] at numbered
  obtain ⟨i, -, q⟩ := numbered
  have positive : 1 ≤ quarter.q := by omega
  have span : (quarterOf cfg blockNumber quarter.q).startEpoch ≤ (quarterOf cfg blockNumber quarter.q).endEpoch := by
    dsimp only [quarterOf, Config.quarterEndEpoch]
    have := cfg.epochsPerQuarter_pos
    omega
  obtain ⟨starts, ends⟩ := bounds_of_holds span fun epoch =>
    (tiles.holds quarter member epoch).trans (holds_quarterOf positive epoch).symm
  have completed : quarter.completed = (quarterOf cfg blockNumber quarter.q).completed := by
    rw [Bool.eq_iff_iff, tiles.completed quarter member, completed_quarterOf, ← length, Int.ofNat_lt]
  cases quarter
  simp only [quarterOf, Quarter.mk.injEq] at starts ends completed ⊢
  exact ⟨trivial, starts, ends, completed⟩

end Quarters

section Payments
variable {services : TokenServices} {cfg : Deployment} {blockNumber : Int} {scan : List PaymentRow → List PaymentRow}
  {divides : PaymentsQuery → RailPayment → PricePeriod → Bool} {db : DB} {query : PaymentsQuery} {list : PaginatedPaymentsList}

theorem find_holds_iff {quarters : List Quarter} (listed : getQuarters cfg blockNumber = .ok quarters) (epoch : Int)
    (quarter : Quarter) :
    quarters.find? (fun quarter => Holds quarter epoch) = some quarter ↔
      getQuarterByIndex cfg blockNumber quarter.q = .ok quarter ∧ (quarter.q : Int) = cfg.quarterNum epoch ∧
        cfg.quarterNum epoch ≤ cfg.quarterNum blockNumber := by
  have holds := (tiles_of_getQuarters listed).holds
  rw [getQuarterByIndex_eq_ok_iff]
  constructor
  · intro found
    have member := List.mem_of_find?_eq_some found
    have held : Holds quarter epoch := by simpa only [decide_eq_true_eq] using List.find?_some found
    obtain ⟨⟨positive, within⟩, same⟩ := (mem_getQuarters_iff listed).mp member
    have q := (holds quarter member epoch).mp held
    exact ⟨⟨positive, same⟩, q.symm, q.trans_le within⟩
  · rintro ⟨⟨positive, same⟩, q, within⟩
    have member : quarter ∈ quarters := (mem_getQuarters_iff listed).mpr ⟨⟨positive, q.trans_le within⟩, same⟩
    have held : Holds quarter epoch := (holds quarter member epoch).mpr q.symm
    cases found : quarters.find? fun quarter => decide (Holds quarter epoch) with
    | none => exact absurd (decide_eq_true held) (List.find?_eq_none.mp found quarter member)
    | some first =>
        have firstMember := List.mem_of_find?_eq_some found
        have firstHeld : Holds first epoch := by simpa only [decide_eq_true_eq] using List.find?_some found
        obtain ⟨-, firstSame⟩ := (mem_getQuarters_iff listed).mp firstMember
        have firstQ := (holds first firstMember epoch).mp firstHeld
        rw [firstSame, same, show first.q = quarter.q by omega]

/-- A payment is shown in the quarter of its epoch, under the number that the queries give it and with the bounds that
the volume is reported with, if the block number has reached that quarter. -/
theorem quarter_of_payment (paged : getPaymentsPaginated services cfg blockNumber scan divides db query = .ok list)
    (payment : Payment) (member : payment ∈ list.data) :
    (∀ quarter, payment.quarter = some quarter ↔
      getQuarterByIndex cfg blockNumber quarter.q = .ok quarter ∧ (quarter.q : Int) = cfg.quarterNum payment.epoch ∧
        cfg.quarterNum payment.epoch ≤ cfg.quarterNum blockNumber) ∧
    (payment.quarter = none ↔
      payment.epoch < cfg.activationEpoch ∨ cfg.quarterNum blockNumber < cfg.quarterNum payment.epoch) := by
  obtain ⟨quarters, listed, paged⟩ := bind_eq_ok.mp paged
  dsimp only at paged
  split at paged
  · cases paged
  obtain ⟨details, -, paged⟩ := bind_eq_ok.mp paged
  obtain ⟨payments, shown, paged⟩ := bind_eq_ok.mp paged
  obtain rfl := pure_eq_ok.mp paged
  obtain ⟨row, -, told⟩ := exists_item_of_mem_mapM shown member
  have quarter : payment.quarter = quarters.find? fun quarter => Holds quarter payment.epoch := by
    unfold toPayment at told
    split at told
    · cases told
    · obtain ⟨period, -, told⟩ := bind_eq_ok.mp told
      obtain rfl := pure_eq_ok.mp told
      rfl
  have named : ∀ named, payment.quarter = some named ↔ getQuarterByIndex cfg blockNumber named.q = .ok named ∧
      (named.q : Int) = cfg.quarterNum payment.epoch ∧
        cfg.quarterNum payment.epoch ≤ cfg.quarterNum blockNumber := by
    rw [quarter]
    exact find_holds_iff listed payment.epoch
  refine ⟨named, ?_⟩
  constructor
  · intro hidden
    by_contra neither
    obtain ⟨since, within⟩ := not_or.mp neither
    have positive := (one_le_quarterNum_iff cfg payment.epoch).mpr (not_lt.mp since)
    have number : ((cfg.quarterNum payment.epoch).toNat : Int) = cfg.quarterNum payment.epoch :=
      Int.toNat_of_nonneg (by omega)
    have told := (named (quarterOf cfg blockNumber (cfg.quarterNum payment.epoch).toNat)).mpr
      ⟨getQuarterByIndex_eq_ok_iff.mpr ⟨by dsimp only [quarterOf]; omega, rfl⟩, number, not_lt.mp within⟩
    rw [hidden] at told
    cases told
  · intro outside
    by_contra shown
    obtain ⟨quarter, told⟩ := Option.ne_none_iff_exists'.mp shown
    obtain ⟨answered, q, within⟩ := (named quarter).mp told
    have positive := (getQuarterByIndex_eq_ok_iff.mp answered).1
    have since := (one_le_quarterNum_iff cfg payment.epoch).mp (by omega)
    rcases outside with early | late
    · exact absurd since (not_le.mpr early)
    · exact absurd within (not_le.mpr late)

end Payments

section Samples
open AdmittedVolume

def bothPayments : PaymentsQuery := everyPayment 2 (by decide)

theorem twiceInOneEpoch_shown : ∃ list, getPaymentsPaginated dollars hundredEpochs 300 id (fun _ _ _ => true)
    (twiceInOneEpoch.database hundredEpochs) bothPayments = .ok list ∧
      list.data.map (·.quarter) = [some ⟨1, 100, 199, true⟩, some ⟨1, 100, 199, true⟩] :=
  exists_of_map_eq_ok (by decide +kernel)

theorem quarter_of_payment_twiceInOneEpoch : ∃ list payment, getPaymentsPaginated dollars hundredEpochs 300 id (fun _ _ _ => true)
    (twiceInOneEpoch.database hundredEpochs) bothPayments = .ok list ∧ payment ∈ list.data ∧
      getQuarterByIndex hundredEpochs 300 1 = .ok ⟨1, 100, 199, true⟩ ∧ 1 = hundredEpochs.quarterNum payment.epoch := by
  obtain ⟨list, paged, quarters⟩ := twiceInOneEpoch_shown
  have shown : some ⟨1, 100, 199, true⟩ ∈ list.data.map (·.quarter) := by
    rw [quarters]
    exact List.mem_cons_self
  obtain ⟨payment, member, quarter⟩ := List.mem_map.mp shown
  obtain ⟨answered, number, -⟩ := ((quarter_of_payment paged payment member).1 _).mp quarter
  exact ⟨list, payment, paged, member, answered, number⟩

end Samples
end Proof.QuarterTiling
end FpvIndexer
