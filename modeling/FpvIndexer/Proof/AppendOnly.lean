import FpvIndexer.Proof.MinLot

namespace FpvIndexer
namespace Proof.AppendOnly
open Relational PriceBand MinLot

def withAuctions (db : DB) (auctions : Table FilecoinPayFeeAuction FilecoinPayFeeAuction.id) : DB :=
  { db with filecoinPayFeeAuction := auctions }

def Later (db : DB) (a : FilecoinPayFeeAuction) : Prop :=
  ∀ stored ∈ db.filecoinPayFeeAuction.rows, stored.position < a.position

section Lists
variable (cfg : Config) (db : DB) (count : Nat) (a : FilecoinPayFeeAuction)

def newSubstantial : Option SubstantialAuction :=
  ((whitelistedAuction cfg db a).filter (isSubstantial cfg db count)).map fun new =>
    ⟨new, (substantialAuctions cfg db count).length + 1⟩

def newQuarterAuction (qIndex : Int) : Option QuarterAuction :=
  ((newSubstantial cfg db count a).bind (bandChecked cfg db qIndex)).map fun new =>
    ⟨new.1, new.2, (quarterAuctions cfg db count qIndex).length + 1⟩

variable {cfg db count a} {auctions : Table FilecoinPayFeeAuction FilecoinPayFeeAuction.id} {qIndex : Int}

theorem whitelistedAuctions_insert (inserted : db.filecoinPayFeeAuction.insert? a = some auctions) :
    whitelistedAuctions cfg (withAuctions db auctions) =
      whitelistedAuctions cfg db ++ (whitelistedAuction cfg db a).toList := by
  change auctions.rows.filterMap (whitelistedAuction cfg db) = _
  rw [Table.insert?_rows inserted, List.filterMap_append]
  cases built : whitelistedAuction cfg db a <;> simp [whitelistedAuctions, built]

theorem earlier_of_whitelisted (later : Later db a) {new old : WhitelistedAuction}
    (built : whitelistedAuction cfg db a = some new) (member : old ∈ whitelistedAuctions cfg db) :
    old.position < new.position := by
  obtain ⟨row, inRows, position, -⟩ := mem_whitelistedAuctions member
  rw [position, (whitelistedAuction_row built).1]
  exact later row inRows

theorem substantialAuctions_insert (inserted : db.filecoinPayFeeAuction.insert? a = some auctions) (later : Later db a) :
    substantialAuctions cfg (withAuctions db auctions) count =
      substantialAuctions cfg db count ++ (newSubstantial cfg db count a).toList := by
  change (rowNumber (orderBy _ ((whitelistedAuctions cfg (withAuctions db auctions)).filter
    (isSubstantial cfg db count)))).map _ = _
  rw [whitelistedAuctions_insert inserted, List.filter_append, ← Option.toList_filter, rowNumber_orderBy_concat]
  · simp [newSubstantial, substantialAuctions, rowNumber_length, (orderBy_perm _ _).length_eq]
  · intro new found old member
    have built := (Option.filter_eq_some_iff.mp found).1
    exact (earlier_of_whitelisted later built (List.mem_of_mem_filter member)).le

theorem newSubstantial_row {s : SubstantialAuction} (new : s ∈ newSubstantial cfg db count a) :
    whitelistedAuction cfg db a = some s.toWhitelistedAuction ∧
      s.auctionNum = (substantialAuctions cfg db count).length + 1 := by
  obtain ⟨built, found, rfl⟩ := Option.map_eq_some_iff.mp new
  exact ⟨(Option.filter_eq_some_iff.mp found).1, rfl⟩

theorem quarterAuctions_insert (inserted : db.filecoinPayFeeAuction.insert? a = some auctions) (later : Later db a) :
    quarterAuctions cfg (withAuctions db auctions) count qIndex =
      quarterAuctions cfg db count qIndex ++ (newQuarterAuction cfg db count a qIndex).toList := by
  change (rowNumber (orderBy _ ((substantialAuctions cfg (withAuctions db auctions) count).filterMap
    (bandChecked cfg db qIndex)))).map _ = _
  have added : (newSubstantial cfg db count a).toList.filterMap (bandChecked cfg db qIndex) =
      ((newSubstantial cfg db count a).bind (bandChecked cfg db qIndex)).toList := by
    cases newSubstantial cfg db count a with
    | none => rfl
    | some s => cases checked : bandChecked cfg db qIndex s <;> simp [checked]
  rw [substantialAuctions_insert inserted later, List.filterMap_append, added, rowNumber_orderBy_concat]
  · simp [newQuarterAuction, quarterAuctions, rowNumber_length, (orderBy_perm _ _).length_eq]
  · intro new found old member
    obtain ⟨s, substantial, checked⟩ := Option.bind_eq_some_iff.mp found
    obtain ⟨r, inRows, checkedToo⟩ := List.mem_filterMap.mp member
    rw [← (bandChecked_row checked).1, ← (bandChecked_row checkedToo).1]
    exact (earlier_of_whitelisted later (newSubstantial_row substantial).1 (mem_substantialAuctions inRows)).le

theorem newQuarterAuction_row {x : QuarterAuction} (new : x ∈ newQuarterAuction cfg db count a qIndex) :
    whitelistedAuction cfg db a = some x.toWhitelistedAuction ∧ x.quarterNum = qIndex + 1 ∧
      5 < (substantialAuctions cfg db count).length + 1 := by
  obtain ⟨row, found, rfl⟩ := Option.map_eq_some_iff.mp new
  obtain ⟨s, substantial, checked⟩ := Option.bind_eq_some_iff.mp found
  obtain ⟨built, number⟩ := newSubstantial_row substantial
  obtain ⟨same, late, quarter, -⟩ := bandChecked_row checked
  exact ⟨same ▸ built, quarter, number ▸ late⟩

theorem seedAuctions_insert (inserted : db.filecoinPayFeeAuction.insert? a = some auctions) (later : Later db a)
    (enough : 5 ≤ (substantialAuctions cfg db count).length) :
    seedAuctions cfg (withAuctions db auctions) count = seedAuctions cfg db count := by
  have unseeded : (newSubstantial cfg db count a).toList.filter (·.auctionNum ≤ 5) = [] := by
    apply List.filter_eq_nil_iff.mpr
    intro s new
    have number := (newSubstantial_row (Option.mem_toList.mp new)).2
    simp
    omega
  rw [seedAuctions, substantialAuctions_insert inserted later, List.filter_append, unseeded, List.append_nil]
  rfl

theorem medians_insert (inserted : db.filecoinPayFeeAuction.insert? a = some auctions) (later : Later db a)
    (enough : 5 ≤ (substantialAuctions cfg db count).length) :
    medians cfg (withAuctions db auctions) count = medians cfg db count := by
  unfold medians seedAuctionsRanked
  rw [seedAuctions_insert inserted later enough]

end Lists

section Loop
variable {cfg : Config} {db : DB} {a : FilecoinPayFeeAuction}
  {auctions : Table FilecoinPayFeeAuction FilecoinPayFeeAuction.id}

theorem enough_of_quarterAuctions {count : Nat} {qIndex : Int} (some : quarterAuctions cfg db count qIndex ≠ []) :
    5 ≤ (substantialAuctions cfg db count).length := by
  obtain ⟨x, member⟩ := List.exists_mem_of_ne_nil _ some
  obtain ⟨s, substantial, -, late, -⟩ := mem_quarterAuctions member
  exact (length_gt_of_late substantial late).le

theorem quarterResults_insert_of_none (inserted : db.filecoinPayFeeAuction.insert? a = some auctions) (later : Later db a)
    {s : LoopState} {qIndex : Int} (none : newQuarterAuction cfg db s.previousQuarterPricePeriodsCount a qIndex = none) :
    quarterResults cfg (withAuctions db auctions) s qIndex = quarterResults cfg db s qIndex := by
  have same : quarterAuctions cfg (withAuctions db auctions) s.previousQuarterPricePeriodsCount qIndex =
      quarterAuctions cfg db s.previousQuarterPricePeriodsCount qIndex := by
    rw [quarterAuctions_insert inserted later, none, Option.toList_none, List.append_nil]
  have flags : flaggedAuctions cfg (withAuctions db auctions) s qIndex = flaggedAuctions cfg db s qIndex := by
    unfold flaggedAuctions
    dsimp only
    rw [same]
    by_cases empty : quarterAuctions cfg db s.previousQuarterPricePeriodsCount qIndex = []
    · rw [empty]
      rfl
    · rw [medians_insert inserted later (enough_of_quarterAuctions empty)]
  unfold quarterResults
  rw [flags]

theorem newQuarterAuction_elsewhere {qIndex : Int} (elsewhere : cfg.quarterNum a.auctionedAtEpoch ≠ qIndex + 1)
    (count : Nat) : newQuarterAuction cfg db count a qIndex = none := by
  apply Option.eq_none_iff_forall_ne_some.mpr
  intro x new
  obtain ⟨built, quarter, -⟩ := newQuarterAuction_row new
  obtain ⟨position, -, number⟩ := whitelistedAuction_row built
  apply elsewhere
  rw [← quarter, number]
  exact congrArg cfg.quarterNum (congrArg Position.epoch position).symm

theorem iteration_insert (inserted : db.filecoinPayFeeAuction.insert? a = some auctions) (later : Later db a)
    {qIndex : Int} (elsewhere : cfg.quarterNum a.auctionedAtEpoch ≠ qIndex + 1) (s : LoopState) :
    iteration cfg (withAuctions db auctions) s qIndex = iteration cfg db s qIndex := by
  unfold iteration
  rw [quarterResults_insert_of_none inserted later (newQuarterAuction_elsewhere elsewhere _)]

theorem distinctAuctions_insert (inserted : db.filecoinPayFeeAuction.insert? a = some auctions) (later : Later db a)
    (distinct : DistinctAuctions db) : DistinctAuctions (withAuctions db auctions) := by
  change (auctions.rows.map (·.position)).Nodup
  rw [Table.insert?_rows inserted, List.map_append, List.map_singleton, ← List.concat_eq_append]
  apply List.Nodup.concat _ distinct
  intro taken
  obtain ⟨stored, inRows, same⟩ := List.mem_map.mp taken
  exact (later stored inRows).ne same

theorem seedsPositive_insert (inserted : db.filecoinPayFeeAuction.insert? a = some auctions) (later : Later db a)
    (positive : ClaimsPositive db) : SeedsPositive cfg (withAuctions db auctions) := by
  intro count enough s member
  rw [seedAuctions_insert inserted later] at member
  · exact claim_pos positive (List.mem_of_mem_filter member)
  · rw [substantialAuctions_insert inserted later, List.length_append] at enough
    have := Option.length_toList_le (o := newSubstantial cfg db count a)
    omega

def periodOf (cfg : Config) (db : DB) (a : FilecoinPayFeeAuction) : Option PricePeriod :=
  (whitelistedAuction cfg db a).map fun row =>
    ⟨row.quarterNum, row.auctionedAtEpoch, row.logIndex, row.lotAttoUsd, row.claimAttoFil, row.claimTxHash⟩

theorem quarterResults_insert (inserted : db.filecoinPayFeeAuction.insert? a = some auctions) (later : Later db a)
    (distinct : DistinctAuctions db) (positive : ClaimsPositive db) {s : LoopState} {anchor : Option Price}
    (carries : Carries s anchor) (qIndex : Int) : ∃ added : Option PricePeriod,
      (∀ row ∈ added, periodOf cfg db a = some row) ∧
      quarterResults cfg (withAuctions db auctions) s qIndex = quarterResults cfg db s qIndex ++ added.toList := by
  cases new : newQuarterAuction cfg db s.previousQuarterPricePeriodsCount a qIndex with
  | none =>
      refine ⟨none, by simp, ?_⟩
      rw [quarterResults_insert_of_none inserted later new, Option.toList_none, List.append_nil]
  | some x =>
      obtain ⟨built, -, late⟩ := newQuarterAuction_row new
      have median := medians_insert inserted later (Nat.lt_succ_iff.mp late)
      rw [quarterResults_eq (distinctAuctions_insert inserted later distinct)
        (seedsPositive_insert inserted later positive) carries, quarterResults_eq distinct (positive.seeds cfg) carries]
      unfold kept checks seedMedian
      rw [quarterAuctions_insert inserted later, median, new, Option.toList_some, List.map_append, gated_append,
        List.map_append]
      by_cases h : BandCheck.passes (lastAnchor BandCheck.price anchor
          (kept cfg db anchor s.previousQuarterPricePeriodsCount qIndex)) ⟨x, seedMedian cfg db s.previousQuarterPricePeriodsCount⟩
      · refine ⟨some (printed x), ?_, ?_⟩
        · rintro row ⟨⟩
          rw [periodOf, built]
          rfl
        · unfold kept checks seedMedian at h
          simp [gated, h]
      · refine ⟨none, by simp, ?_⟩
        unfold kept checks seedMedian at h
        simp [gated, h]

theorem exists_carries (distinct : DistinctAuctions db) (positive : ClaimsPositive db) (qIndexes : List Int)
    {s : LoopState} {anchor : Option Price} (carries : Carries s anchor) :
    ∃ last, Carries (qIndexes.foldl (iteration cfg db) s) last := by
  induction qIndexes generalizing s anchor with
  | nil => exact ⟨anchor, carries⟩
  | cons qIndex rest ih =>
      have onward := (iteration_eq distinct (positive.seeds cfg) carries qIndex).2
      rw [List.foldl_cons]
      exact ih onward

theorem quarterResults_of_not_mem {qIndex : Int} (unknown : qIndex ∉ quarterIndexes cfg db) (s : LoopState) :
    quarterResults cfg db s qIndex = [] := by
  have none : quarterAuctions cfg db s.previousQuarterPricePeriodsCount qIndex = [] := by
    apply List.eq_nil_iff_forall_not_mem.mpr
    intro x member
    obtain ⟨r, substantial, same, -, quarter, -⟩ := mem_quarterAuctions member
    apply unknown
    have known := mem_substantialAuctions_quarter substantial
    rwa [same, quarter, Int.add_sub_cancel] at known
  unfold quarterResults flaggedAuctions
  dsimp only
  rw [none]
  rfl

def quarterIndex (cfg : Config) (a : FilecoinPayFeeAuction) : Int :=
  (a.auctionedAtEpoch - cfg.activationEpoch) / cfg.epochsPerQuarter

theorem mem_quarterIndexes {qIndex : Int} : qIndex ∈ quarterIndexes cfg db ↔
    ∃ row ∈ db.filecoinPayFeeAuction.rows, cfg.activationEpoch ≤ row.auctionedAtEpoch ∧ quarterIndex cfg row = qIndex := by
  unfold quarterIndexes quarterIndex
  rw [mem_orderBy, mem_distinctOn_id, List.mem_map]
  simp only [List.mem_filter, decide_eq_true_eq, and_assoc]

theorem quarterIndexes_insert (inserted : db.filecoinPayFeeAuction.insert? a = some auctions) (later : Later db a)
    (active : cfg.activationEpoch ≤ a.auctionedAtEpoch) : ∃ front, (∀ qIndex ∈ front, qIndex < quarterIndex cfg a) ∧
      quarterIndexes cfg (withAuctions db auctions) = front ++ [quarterIndex cfg a] ∧
      (quarterIndexes cfg db = front ∨ quarterIndexes cfg db = front ++ [quarterIndex cfg a]) := by
  have increasing := quarterIndexes_increasing cfg db
  have known : ∀ qIndex, qIndex ∈ quarterIndexes cfg (withAuctions db auctions) ↔
      qIndex ∈ quarterIndexes cfg db ∨ qIndex = quarterIndex cfg a := by
    intro qIndex
    rw [mem_quarterIndexes, mem_quarterIndexes, withAuctions, Table.insert?_rows inserted]
    simp only [List.mem_append, List.mem_singleton, or_and_right, exists_or, exists_eq_left, active, true_and,
      @eq_comm _ qIndex]
  have last : ∀ qIndex ∈ quarterIndexes cfg db, qIndex ≤ quarterIndex cfg a := by
    intro qIndex member
    obtain ⟨row, inRows, -, rfl⟩ := mem_quarterIndexes.mp member
    have epochs : row.auctionedAtEpoch ≤ a.auctionedAtEpoch := Position.epoch_le_of_le (later row inRows).le
    have pos := cfg.epochsPerQuarter_pos
    exact Int.ediv_le_ediv (by omega) (by omega)
  by_cases member : quarterIndex cfg a ∈ quarterIndexes cfg db
  · have same : quarterIndexes cfg (withAuctions db auctions) = quarterIndexes cfg db := by
      apply (quarterIndexes_increasing cfg _).eq_of_mem_iff increasing
      intro qIndex
      rw [known]
      exact ⟨fun h => h.elim id (· ▸ member), Or.inl⟩
    obtain ⟨front, rest, split⟩ := List.append_of_mem member
    rw [split] at increasing last same
    obtain ⟨-, back, across⟩ := List.pairwise_append.mp increasing
    have none : rest = [] := by
      apply List.eq_nil_iff_forall_not_mem.mpr
      intro qIndex after
      exact absurd ((List.pairwise_cons.mp back).1 qIndex after) (not_lt.mpr (last qIndex (by simp [after])))
    subst none
    exact ⟨front, fun qIndex before => across qIndex before _ List.mem_cons_self, same, Or.inr split⟩
  · have below : ∀ qIndex ∈ quarterIndexes cfg db, qIndex < quarterIndex cfg a := fun qIndex before =>
      lt_of_le_of_ne (last qIndex before) fun same => member (same ▸ before)
    refine ⟨quarterIndexes cfg db, below, ?_, Or.inl rfl⟩
    apply (quarterIndexes_increasing cfg _).eq_of_mem_iff
    · refine List.pairwise_append.mpr ⟨increasing, List.pairwise_singleton _ _, ?_⟩
      intro qIndex before other here
      rw [List.mem_singleton.mp here]
      exact below qIndex before
    · intro qIndex
      rw [known, List.mem_append, List.mem_singleton]

theorem returned_insert (cfg : Config) (inserted : db.filecoinPayFeeAuction.insert? a = some auctions) (later : Later db a)
    (distinct : DistinctAuctions db) (positive : ClaimsPositive db) : ∃ added : Option PricePeriod,
      (∀ row ∈ added, periodOf cfg db a = some row) ∧
      ((quarterIndexes cfg (withAuctions db auctions)).foldl (iteration cfg (withAuctions db auctions)) .initial).returned =
        ((quarterIndexes cfg db).foldl (iteration cfg db) .initial).returned ++ added.toList := by
  by_cases active : cfg.activationEpoch ≤ a.auctionedAtEpoch
  · obtain ⟨front, below, whole, before⟩ := quarterIndexes_insert inserted later active
    have number : cfg.quarterNum a.auctionedAtEpoch = quarterIndex cfg a + 1 := if_neg (not_lt.mpr active)
    have same : front.foldl (iteration cfg (withAuctions db auctions)) .initial =
        front.foldl (iteration cfg db) .initial := by
      apply List.foldl_ext
      intro s qIndex member
      apply iteration_insert inserted later
      have := below qIndex member
      omega
    have start : Carries .initial none := ⟨rfl, rfl⟩
    obtain ⟨anchor, carries⟩ : ∃ anchor, Carries (front.foldl (iteration cfg db) .initial) anchor :=
      exists_carries distinct positive front start
    obtain ⟨added, own, results⟩ := quarterResults_insert inserted later distinct positive carries (quarterIndex cfg a)
    refine ⟨added, own, ?_⟩
    have stored : ((quarterIndexes cfg db).foldl (iteration cfg db) .initial).returned =
        (front.foldl (iteration cfg db) .initial).returned ++
          quarterResults cfg db (front.foldl (iteration cfg db) .initial) (quarterIndex cfg a) := by
      rcases before with only | also
      · have unknown : quarterIndex cfg a ∉ quarterIndexes cfg db := fun known =>
          absurd (below _ (only ▸ known)) (lt_irrefl _)
        rw [quarterResults_of_not_mem unknown, List.append_nil, only]
      · rw [also, List.foldl_append]
        rfl
    rw [whole, List.foldl_append, same, stored, List.append_assoc, ← results]
    rfl
  · have none : ∀ db : DB, (∀ row ∈ db.filecoinPayFeeAuction.rows, row.auctionedAtEpoch ≤ a.auctionedAtEpoch) →
        quarterIndexes cfg db = [] := by
      intro db early
      apply List.eq_nil_iff_forall_not_mem.mpr
      intro qIndex member
      obtain ⟨row, inRows, started, -⟩ := mem_quarterIndexes.mp member
      exact active (started.trans (early row inRows))
    have early : ∀ row ∈ db.filecoinPayFeeAuction.rows, row.auctionedAtEpoch ≤ a.auctionedAtEpoch := fun row inRows =>
      Position.epoch_le_of_le (later row inRows).le
    refine ⟨Option.none, by simp, ?_⟩
    rw [none db early, none (withAuctions db auctions)]
    · rfl
    · intro row inRows
      change row ∈ auctions.rows at inRows
      rw [Table.insert?_rows inserted, List.mem_append, List.mem_singleton] at inRows
      rcases inRows with stored | rfl
      · exact early row stored
      · exact le_rfl

end Loop

/-- A later auction leaves every row as it is and adds at most its own one at the end. -/
theorem getQualifyingPricePeriods_insert (db : DB) (a : FilecoinPayFeeAuction)
    (auctions : Table FilecoinPayFeeAuction FilecoinPayFeeAuction.id) (distinct : DistinctAuctions db)
    (positive : ClaimsPositive db) (inserted : db.filecoinPayFeeAuction.insert? a = some auctions) (later : Later db a) :
    ∃ added : Option PricePeriod,
      (∀ row ∈ added, ∃ cfg, db.applicationConfig = some cfg ∧ periodOf cfg db a = some row) ∧
      getQualifyingPricePeriods (withAuctions db auctions) = getQualifyingPricePeriods db ++ added.toList := by
  cases configured : db.applicationConfig with
  | none =>
      refine ⟨none, by simp, ?_⟩
      simp [getQualifyingPricePeriods, withAuctions, configured]
  | some cfg =>
      obtain ⟨added, own, returned⟩ := returned_insert cfg inserted later distinct positive
      refine ⟨added, fun row member => ⟨cfg, rfl, own row member⟩, ?_⟩
      have after : (withAuctions db auctions).applicationConfig = some cfg := configured
      unfold getQualifyingPricePeriods
      rw [configured, after]
      exact returned

section Market

def nineAuctions : Table FilecoinPayFeeAuction FilecoinPayFeeAuction.id where
  rows := eightAuctions.rows ++ [auctionAt 9 410 112 1]
  nodup := by decide

theorem getQualifyingPricePeriods_insert_ninth : (∃ added : Option PricePeriod,
      (∀ row ∈ added, ∃ cfg, (market eightAuctions).applicationConfig = some cfg ∧
        periodOf cfg (market eightAuctions) (auctionAt 9 410 112 1) = some row) ∧
      getQualifyingPricePeriods (withAuctions (market eightAuctions) nineAuctions) =
        getQualifyingPricePeriods (market eightAuctions) ++ added.toList) ∧
    (getQualifyingPricePeriods (withAuctions (market eightAuctions) nineAuctions)).map (·.epoch) = [120, 310, 410] :=
  ⟨getQualifyingPricePeriods_insert (market eightAuctions) (auctionAt 9 410 112 1) nineAuctions
    (by unfold DistinctAuctions; decide) (by unfold ClaimsPositive; decide) (by decide) (by unfold Later; decide),
    by decide +kernel⟩

end Market

end Proof.AppendOnly
end FpvIndexer
