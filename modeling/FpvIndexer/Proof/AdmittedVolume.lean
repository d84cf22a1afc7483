import FpvIndexer.Proof.Volume
import FpvIndexer.Proof.Reachable

namespace FpvIndexer
namespace Proof.AdmittedVolume
open Relational Volume Reachable

section Specification
variable (decimalsOf : Address → Int) (cfg : Deployment) (db : DB) (parameters : QuarterParameters)
  (serviceOrchestrator : Option String) (q : QuarterNumber)

def attoUsd (rp : RailPayment) : ℚ := rp.payment.totalAmount * (10 : ℚ) ^ (18 - decimalsOf rp.rail.token)

def isAdmitted (rp : RailPayment) : Bool :=
  isListed parameters.admittedFilecoinPayContractAddresses parameters.admittedStablecoins
    (cfg.quarterStartEpoch q.intValue) (cfg.quarterEndEpoch q.intValue) rp && isBound db serviceOrchestrator rp

def admittedVolume : ℚ :=
  (((railPayments db).filter (isAdmitted cfg db parameters serviceOrchestrator q)).map (attoUsd decimalsOf)).sum

def tokenOpen (rp : RailPayment) : Bool :=
  db.whitelistedToken.rows.any fun t => rp.rail.token = t.tokenAddress ∧ t.covers rp.payment.position

/-- What was paid, on the lists and bound, while the token was not listed. -/
def droppedVolume : ℚ :=
  (((railPayments db).filter fun rp => isAdmitted cfg db parameters serviceOrchestrator q rp && !tokenOpen db rp).map
    (attoUsd decimalsOf)).sum

/-- Rounding makes up for whatever the query drops. -/
structure AddsUp : Prop where
  whole : Whole (admittedVolume decimalsOf cfg db parameters serviceOrchestrator q)
  dropped : droppedVolume decimalsOf cfg db parameters serviceOrchestrator q ≤ 1 / 2

end Specification

section Volume
variable {decimalsOf : Address → Int} {cfg : Deployment} {db : DB} {past : List ServiceRewardsActorLog}

theorem tokenValue_eq (tokens : Lists.Invariant past (db.whitelistedToken.rows.map (·.listing)))
    (decimals : ∀ t ∈ db.whitelistedToken.rows, t.tokenDecimals = decimalsOf t.tokenAddress) (rp : RailPayment) :
    tokenValue db rp = if tokenOpen db rp then attoUsd decimalsOf rp else 0 := by
  have once := Lists.one_open tokens rp.rail.token rp.payment.position
  unfold tokenValue
  cases found : db.whitelistedToken.rows.filter fun t =>
      rp.rail.token = t.tokenAddress ∧ t.covers rp.payment.position with
  | nil =>
      have closed : ¬ tokenOpen db rp := by
        intro isOpen
        obtain ⟨t, member, covers⟩ := List.any_eq_true.mp isOpen
        exact List.filter_eq_nil_iff.mp found t member covers
      rw [if_neg closed]
      rfl
  | cons t rest =>
      rw [found] at once
      obtain rfl : rest = [] := List.eq_nil_of_length_eq_zero (by simpa using once)
      have inFilter : t ∈ db.whitelistedToken.rows.filter fun t =>
          rp.rail.token = t.tokenAddress ∧ t.covers rp.payment.position := by
        rw [found]
        exact List.mem_singleton_self t
      obtain ⟨member, covers⟩ := List.mem_filter.mp inFilter
      have isOpen : tokenOpen db rp := List.any_eq_true.mpr ⟨t, member, covers⟩
      rw [if_pos isOpen, attoUsd, (of_decide_eq_true covers).1, ← decimals t member]
      simp

theorem attoUsd_nonneg (rp : RailPayment) : 0 ≤ attoUsd decimalsOf rp :=
  mul_nonneg (Nat.cast_nonneg _) (zpow_nonneg (by norm_num) _)

theorem droppedVolume_nonneg (decimalsOf : Address → Int) (cfg : Deployment) (db : DB) (parameters : QuarterParameters)
    (serviceOrchestrator : Option String) (q : QuarterNumber) :
    0 ≤ droppedVolume decimalsOf cfg db parameters serviceOrchestrator q := by
  apply List.sum_nonneg
  intro value member
  obtain ⟨rp, -, rfl⟩ := List.mem_map.mp member
  exact attoUsd_nonneg rp

theorem stablecoinVolume_add_dropped (cfg : Deployment)
    (tokens : Lists.Invariant past (db.whitelistedToken.rows.map (·.listing)))
    (decimals : ∀ t ∈ db.whitelistedToken.rows, t.tokenDecimals = decimalsOf t.tokenAddress)
    (parameters : QuarterParameters) (serviceOrchestrator : Option String) (q : QuarterNumber) :
    stablecoinVolume db parameters.admittedFilecoinPayContractAddresses parameters.admittedStablecoins
        (cfg.quarterStartEpoch q.intValue) (cfg.quarterEndEpoch q.intValue) serviceOrchestrator +
      droppedVolume decimalsOf cfg db parameters serviceOrchestrator q =
        admittedVolume decimalsOf cfg db parameters serviceOrchestrator q := by
  rw [stablecoinVolume_eq, admittedVolume, droppedVolume, sum_map_filter, sum_map_filter]
  change ((railPayments db).map fun rp => if isAdmitted cfg db parameters serviceOrchestrator q rp
    then tokenValue db rp else 0).sum + _ = _
  rw [← List.sum_map_add]
  refine congrArg List.sum (List.map_congr_left fun rp _ => ?_)
  rw [tokenValue_eq tokens decimals rp]
  by_cases counted : isAdmitted cfg db parameters serviceOrchestrator q rp
  · by_cases isOpen : tokenOpen db rp <;> simp [counted, isOpen]
  · simp [counted]

end Volume

/-- With the parameters of the quarter set, the volume of the quarter's lists is reported exactly when no period's
claim is in the way of an answer, the volume is whole and at most half an atto-USD was paid while a token was not listed. -/
theorem volume_admitted_iff (cfg : Deployment) (rounds : cfg.RoundsHalfUp) (numericDiv : ℚ → ℚ → ℚ) (blockNumber : Int)
    (decimalsOf : Address → Int) (history : History) (db : DB) (reached : history.Reaches cfg db)
    (answers : ∀ services logs, Batch.serviceRewardsActor services logs ∈ history.batches → services.Answers decimalsOf)
    (serviceOrchestrator : Option String) (q : QuarterNumber) (parameters : QuarterParameters)
    (set : getQuarterParameters cfg db q = .ok parameters) :
    (∃ volume, getQuarterlyVolume cfg numericDiv blockNumber db serviceOrchestrator q = .ok volume ∧
      (volume.stablecoinVolumeAttoUsd : ℚ) = admittedVolume decimalsOf cfg db parameters serviceOrchestrator q) ↔
      Answerable db q parameters ∧ AddsUp decimalsOf cfg db parameters serviceOrchestrator q := by
  have tokens := (invariants_reached reached).tokens
  have decimals := decimals_reached reached answers
  have sum := stablecoinVolume_add_dropped cfg tokens decimals parameters serviceOrchestrator q
  have rounded := roundHalfAway_eq_add_iff
    (stablecoinVolume_nonneg db parameters.admittedFilecoinPayContractAddresses parameters.admittedStablecoins
      (cfg.quarterStartEpoch q.intValue) (cfg.quarterEndEpoch q.intValue) serviceOrchestrator)
    (droppedVolume_nonneg decimalsOf cfg db parameters serviceOrchestrator q)
  rw [sum] at rounded
  rw [← answerable_iff serviceOrchestrator rounds numericDiv blockNumber set]
  constructor
  · rintro ⟨volume, reported, same⟩
    rw [getQuarterlyVolume_rounded rounds set reported] at same
    obtain ⟨whole, half⟩ := rounded.mp same
    exact ⟨⟨volume, reported⟩, whole, half⟩
  · rintro ⟨⟨volume, reported⟩, addsUp⟩
    refine ⟨volume, reported, ?_⟩
    rw [getQuarterlyVolume_rounded rounds set reported]
    exact rounded.mpr ⟨addsUp.whole, addsUp.dropped⟩

section Removed

def dollars : TokenServices where
  getERC20Metadata _ := .ok ⟨18, "USD"⟩
  isValidERC20 _ := .ok true
  getTokenDecimals _ := .ok 18
  getTokenSymbol _ := .ok "USD"

theorem dollars_answers : dollars.Answers fun _ => 18 where
  metadata := fun _ _ got => by
    cases got
    rfl
  decimals := fun _ _ got => by
    cases got
    rfl

def settlements (token : Address) (payments : List (Int × Nat)) : Batch :=
  .filecoinPayV1 (⟨"0xf", 60, 0, "0x7", .railCreated 1 "0xp" "0xe" token "0xo" "0xv"⟩ ::
    payments.map fun (epoch, amount) => ⟨"0xf", epoch, 9, "0x8", .railSettled 1 amount amount 0 0⟩)

def bootstrap : List ServiceRewardsActorLog :=
  [⟨50, 0, "0x1", .pricingParamsUpdated 10 1 1 1000 5⟩, ⟨50, 1, "0x1", .admittedListsUpdated ["0xd"] ["0xf"]⟩,
    ⟨50, 2, "0x1", .orchestratorAdmitted "0xa" "0xa"⟩, ⟨50, 3, "0x1", .bindingDeclared "0xp" "0xo" "0xa"⟩]

def removedMidQuarter : History where
  batches := [.serviceRewardsActor dollars (bootstrap ++ [⟨150, 0, "0x2", .admittedListsUpdated ["0xc"] ["0xf"]⟩]),
    settlements "0xd" [(140, 5), (160, 7)]]
  ordered := by unfold ChainOrdered; decide

def firstQuarter : QuarterNumber := ⟨1, le_rfl⟩

def listedThroughout : History where
  batches := [.serviceRewardsActor dollars bootstrap, settlements "0xd" [(140, 5), (160, 7)]]
  ordered := by unfold ChainOrdered; decide

theorem answers_of_dollars {history : History} (first : ∃ logs payments,
    history.batches = [.serviceRewardsActor dollars logs, settlements "0xd" payments]) (services : TokenServices)
    (logs : List ServiceRewardsActorLog) (member : Batch.serviceRewardsActor services logs ∈ history.batches) :
    services.Answers fun _ => 18 := by
  obtain ⟨_, _, batches⟩ := first
  simp only [batches, settlements, List.mem_cons, Batch.serviceRewardsActor.injEq, List.not_mem_nil, reduceCtorEq,
    or_false] at member
  rw [member.1]
  exact dollars_answers

def firstQuarterParameters : QuarterParameters where
  previousQuarterBoundVolumeAttoUsd := 0
  previousQuarterPricePeriodsCount := 0
  minLotFloorAttoUsd := 10
  minLotAlphaNumerator := 1
  minLotAlphaDenominator := 1
  minLotAttoUsd := 10
  priceBandBps := 1000
  admittedStablecoins := ["0xd"]
  admittedFilecoinPayContractAddresses := ["0xf"]

theorem removedMidQuarter_indexed :
    removedMidQuarter.Reaches hundredEpochs (removedMidQuarter.database hundredEpochs) ∧
    getQuarterParameters hundredEpochs (removedMidQuarter.database hundredEpochs) firstQuarter =
      .ok firstQuarterParameters ∧
    ∃ volume, getQuarterlyVolume hundredEpochs (· / ·) 300 (removedMidQuarter.database hundredEpochs) none firstQuarter =
      .ok volume ∧ volume.stablecoinVolumeAttoUsd = 5 :=
  ⟨History.reaches_database (by decide +kernel), by decide +kernel, exists_of_map_eq_ok (by decide +kernel)⟩

theorem listedThroughout_indexed :
    listedThroughout.Reaches hundredEpochs (listedThroughout.database hundredEpochs) ∧
    getQuarterParameters hundredEpochs (listedThroughout.database hundredEpochs) firstQuarter =
      .ok firstQuarterParameters :=
  ⟨History.reaches_database (by decide +kernel), by decide +kernel⟩

theorem volume_admitted_iff_removedMidQuarter :
    ((∃ volume, getQuarterlyVolume hundredEpochs (· / ·) 300 (removedMidQuarter.database hundredEpochs) none firstQuarter =
        .ok volume ∧
      (volume.stablecoinVolumeAttoUsd : ℚ) = admittedVolume (fun _ => 18) hundredEpochs
        (removedMidQuarter.database hundredEpochs) firstQuarterParameters none firstQuarter) ↔
      Answerable (removedMidQuarter.database hundredEpochs) firstQuarter firstQuarterParameters ∧
      AddsUp (fun _ => 18) hundredEpochs (removedMidQuarter.database hundredEpochs) firstQuarterParameters none
        firstQuarter) ∧
    ∃ volume, getQuarterlyVolume hundredEpochs (· / ·) 300 (listedThroughout.database hundredEpochs) none firstQuarter =
        .ok volume ∧
      (volume.stablecoinVolumeAttoUsd : ℚ) = admittedVolume (fun _ => 18) hundredEpochs
        (listedThroughout.database hundredEpochs) firstQuarterParameters none firstQuarter :=
  ⟨volume_admitted_iff _ hundredEpochs_rounds _ _ _ removedMidQuarter _ removedMidQuarter_indexed.1
      (answers_of_dollars ⟨_, _, rfl⟩) none firstQuarter _ removedMidQuarter_indexed.2.1,
    (volume_admitted_iff _ hundredEpochs_rounds _ _ _ listedThroughout _ listedThroughout_indexed.1
      (answers_of_dollars ⟨_, _, rfl⟩) none firstQuarter _ listedThroughout_indexed.2).mpr
        ⟨by unfold Answerable; decide +kernel, ⟨12, by decide +kernel⟩, by decide +kernel⟩⟩

theorem removed_token_not_counted : ∃ parameters volume, removedMidQuarter.Reaches hundredEpochs
      (removedMidQuarter.database hundredEpochs) ∧
    getQuarterParameters hundredEpochs (removedMidQuarter.database hundredEpochs) firstQuarter = .ok parameters ∧
    getQuarterlyVolume hundredEpochs (· / ·) 300 (removedMidQuarter.database hundredEpochs) none firstQuarter
      = .ok volume ∧
    (volume.stablecoinVolumeAttoUsd : ℚ) ≠ admittedVolume (fun _ => 18) hundredEpochs
      (removedMidQuarter.database hundredEpochs) parameters none firstQuarter := by
  obtain ⟨reached, set, volume, reported, five⟩ := removedMidQuarter_indexed
  refine ⟨_, volume, reached, set, reported, ?_⟩
  have twelve : admittedVolume (fun _ => 18) hundredEpochs (removedMidQuarter.database hundredEpochs)
      firstQuarterParameters none firstQuarter = 12 := by decide +kernel
  rw [five, twelve]
  norm_num

end Removed

end Proof.AdmittedVolume
end FpvIndexer
