import FpvIndexer.Proof.InForce
import Mathlib.Data.List.Induction

namespace FpvIndexer
namespace Proof.OneRow
open Relational PriceBand InForce

section Chains
variable (cfg : Config) (db : DB)

def medianPrice (median : Option RankedSeed) : Option Price := median.map fun m => ⟨m.lotAttoUsd, m.claimAttoFil⟩

def chain (anchor : Option Price) (count : Nat) (qIndex : Int) (median : Option RankedSeed) : List QuarterAuction :=
  (gated BandCheck.passes BandCheck.price anchor
    ((quarterAuctions cfg db count qIndex).map fun a => ⟨a, medianPrice median⟩)).map (·.auction)

/-- No auction of the quarter qualifies in two chains. -/
def ChainsApart (anchor : Option Price) (count : Nat) (qIndex : Int) : Prop :=
  (medians cfg db count).Pairwise fun m n =>
    ∀ a ∈ chain cfg db anchor count qIndex m, a ∉ chain cfg db anchor count qIndex n

variable {cfg db} {count : Nat} {qIndex : Int} {anchor : Option Price}

theorem chain_sublist (median : Option RankedSeed) :
    (chain cfg db anchor count qIndex median).Sublist (quarterAuctions cfg db count qIndex) := by
  have kept : (gated BandCheck.passes BandCheck.price anchor ((quarterAuctions cfg db count qIndex).map fun a =>
      ⟨a, medianPrice median⟩)).Sublist ((quarterAuctions cfg db count qIndex).map fun a => ⟨a, medianPrice median⟩) :=
    gated_sublist anchor _
  have sub := kept.map BandCheck.auction
  rw [List.map_map] at sub
  simpa [chain, Function.comp_def] using sub

theorem qualified_append (front back : List FlaggedAuction) :
    qualified (front ++ back) = qualified front ++ qualified back := by
  simp [qualified]

theorem qualified_flatMap (flags : List FlaggedAuction) (f : FlaggedAuction → List FlaggedAuction) :
    qualified (flags.flatMap f) = flags.flatMap fun flag => qualified (f flag) := by
  induction flags with
  | nil => rfl
  | cons flag rest ih => rw [List.flatMap_cons, qualified_append, ih, List.flatMap_cons]

theorem qualified_flaggedAuctions_perm {s : LoopState} (carries : Carries s anchor) (qIndex : Int) :
    (qualified (flaggedAuctions cfg db s qIndex)).Perm ((medians cfg db s.previousQuarterPricePeriodsCount).flatMap
      fun m => (chain cfg db anchor s.previousQuarterPricePeriodsCount qIndex m).map printed) := by
  unfold flaggedAuctions chain
  dsimp only
  have numbers := quarterAuctions_numbers cfg db s.previousQuarterPricePeriodsCount qIndex
  cases auctions : quarterAuctions cfg db s.previousQuarterPricePeriodsCount qIndex with
  | nil =>
      apply List.Perm.of_eq
      exact (List.flatMap_eq_nil_iff.mpr fun _ _ => rfl).symm
  | cons a rest =>
      rw [auctions] at numbers
      rw [filter_first numbers, List.flatMap_singleton]
      have parts := recursiveUnion_perm_flatMap (joinSuccessor_perm_flatMap QuarterAuction.seqId
        (fun f : FlaggedAuction => f.seqId) flagNext (a :: rest)) ((a :: rest).length + 1)
        ((medians cfg db s.previousQuarterPricePeriodsCount).map fun median =>
          flagAuction a (s.lastLotAttoUsd.or (median.map (·.lotAttoUsd)))
            (s.lastClaimAttoFil.or (median.map (·.claimAttoFil))))
      refine ((parts.filter _).map _).trans ?_
      change (qualified _).Perm _
      rw [qualified_flatMap, List.flatMap_map]
      apply List.Perm.flatMap_left
      intro median _
      apply List.Perm.of_eq
      have start : flagAuction a (s.lastLotAttoUsd.or (median.map (·.lotAttoUsd)))
          (s.lastClaimAttoFil.or (median.map (·.claimAttoFil))) =
          flagAuction a ((anchor.or (medianPrice median)).map (·.lotAttoUsd))
            ((anchor.or (medianPrice median)).map (·.claimAttoFil)) := by
        rw [carries.1, carries.2]
        cases anchor with
        | some p => rfl
        | none => cases median <;> rfl
      rw [start, qualified_chain numbers anchor (medianPrice median), List.map_map]
      rfl

theorem chain_positions (distinct : DistinctAuctions db) (median : Option RankedSeed) :
    (chain cfg db anchor count qIndex median).Pairwise fun a b => a.position < b.position :=
  (quarterAuctions_sorted distinct).sublist (chain_sublist median)

theorem eq_of_position (distinct : DistinctAuctions db) {a b : QuarterAuction}
    (ha : a ∈ quarterAuctions cfg db count qIndex) (hb : b ∈ quarterAuctions cfg db count qIndex)
    (same : a.position = b.position) : a = b := by
  have positions : ((quarterAuctions cfg db count qIndex).map fun a => a.position).Nodup :=
    List.pairwise_map.mpr ((quarterAuctions_sorted distinct).imp fun h => h.ne)
  exact List.inj_on_of_nodup_map positions ha hb same

theorem quarterResults_nodup_iff (distinct : DistinctAuctions db) {s : LoopState} (carries : Carries s anchor) :
    ((quarterResults cfg db s qIndex).map (·.position)).Nodup ↔
      ChainsApart cfg db anchor s.previousQuarterPricePeriodsCount qIndex := by
  have perm := (orderBy_perm PricePeriod.position (qualified (flaggedAuctions cfg db s qIndex))).trans
    (qualified_flaggedAuctions_perm carries qIndex)
  change ((orderBy PricePeriod.position (qualified _)).map _).Nodup ↔ _
  rw [(perm.map _).nodup_iff, List.map_flatMap, List.nodup_flatMap]
  constructor
  · rintro ⟨-, apart⟩
    refine apart.imp ?_
    intro m n disjoint a inM inN
    apply disjoint (a := a.position)
    · exact List.mem_map.mpr ⟨printed a, List.mem_map_of_mem inM, rfl⟩
    · exact List.mem_map.mpr ⟨printed a, List.mem_map_of_mem inN, rfl⟩
  · intro apart
    constructor
    · intro m _
      rw [List.map_map]
      exact List.pairwise_map.mpr ((chain_positions distinct m).imp fun h => h.ne)
    · refine apart.imp ?_
      intro m n disjoint position inM inN
      simp only [List.map_map, List.mem_map, Function.comp_apply] at inM inN
      obtain ⟨a, inM, rfl⟩ := inM
      obtain ⟨b, inN, same⟩ := inN
      have equal := eq_of_position distinct ((chain_sublist m).subset inM) ((chain_sublist n).subset inN) same.symm
      exact disjoint a inM (equal ▸ inN)

end Chains

section Once
variable (cfg : Config) (db : DB)

structure OnceState where
  anchor : Option Price
  count : Nat

def OnceState.initial : OnceState := ⟨none, 0⟩

/-- The auctions of a quarter that qualify in any of the chains, each taken once. -/
def onceResults (s : OnceState) (qIndex : Int) : List QuarterAuction :=
  (quarterAuctions cfg db s.count qIndex).filter fun a =>
    (medians cfg db s.count).any fun median => a ∈ chain cfg db s.anchor s.count qIndex median

def onceIteration (s : OnceState) (qIndex : Int) : OnceState where
  anchor := ((onceResults cfg db s qIndex).getLast?.map fun a => ⟨a.lotAttoUsd, a.claimAttoFil⟩).or s.anchor
  count := (onceResults cfg db s qIndex).length

def onceBefore (qIndex : Int) : OnceState :=
  ((quarterIndexes cfg db).filter (· < qIndex)).foldl (onceIteration cfg db) .initial

def QualifiesOnce : Prop := ∀ qIndex ∈ quarterIndexes cfg db,
  ChainsApart cfg db (onceBefore cfg db qIndex).anchor (onceBefore cfg db qIndex).count qIndex

def Matches (s : LoopState) (once : OnceState) : Prop :=
  Carries s once.anchor ∧ s.previousQuarterPricePeriodsCount = once.count

variable {cfg db} {s : LoopState} {once : OnceState} {qIndex : Int}

theorem quarterResults_once (distinct : DistinctAuctions db) (matched : Matches s once)
    (apart : ChainsApart cfg db once.anchor once.count qIndex) :
    quarterResults cfg db s qIndex = (onceResults cfg db once qIndex).map printed := by
  obtain ⟨carries, count⟩ := matched
  rw [← count] at apart
  have nodup := (quarterResults_nodup_iff distinct carries).mpr apart
  have sorted : (quarterResults cfg db s qIndex).Pairwise fun a b => a.position < b.position :=
    (orderBy_sorted PricePeriod.position _).imp₂ (fun a b le ne => lt_of_le_of_ne le ne) (List.pairwise_map.mp nodup)
  have sortedOnce : ((onceResults cfg db once qIndex).map printed).Pairwise fun a b => a.position < b.position :=
    List.pairwise_map.mpr ((quarterAuctions_sorted distinct).sublist List.filter_sublist)
  have irreflexive : Std.Irrefl fun a b : PricePeriod => a.position < b.position := ⟨fun a => lt_irrefl _⟩
  apply sorted.eq_of_mem_iff sortedOnce
  intro qp
  have perm := (orderBy_perm PricePeriod.position (qualified (flaggedAuctions cfg db s qIndex))).trans
    (qualified_flaggedAuctions_perm carries qIndex)
  change qp ∈ orderBy PricePeriod.position (qualified _) ↔ _
  rw [perm.mem_iff, count]
  simp only [onceResults, List.mem_flatMap, List.mem_map, List.mem_filter, List.any_eq_true, decide_eq_true_eq]
  constructor
  · rintro ⟨median, inMedians, a, inChain, rfl⟩
    exact ⟨a, ⟨(chain_sublist median).subset inChain, median, inMedians, inChain⟩, rfl⟩
  · rintro ⟨a, ⟨-, median, inMedians, inChain⟩, rfl⟩
    exact ⟨median, inMedians, a, inChain, rfl⟩

theorem Matches.step (distinct : DistinctAuctions db) (matched : Matches s once)
    (apart : ChainsApart cfg db once.anchor once.count qIndex) :
    Matches (iteration cfg db s qIndex) (onceIteration cfg db once qIndex) := by
  have results := quarterResults_once distinct matched apart
  unfold iteration onceIteration Matches Carries
  dsimp only
  rw [results, List.getLast?_map, List.length_map]
  refine ⟨?_, rfl⟩
  cases (onceResults cfg db once qIndex).getLast? with
  | none => exact matched.1
  | some a => exact ⟨rfl, rfl⟩

def stateAfter (cfg : Config) (db : DB) (past : List Int) : LoopState := past.foldl (iteration cfg db) .initial

def onceAfter (cfg : Config) (db : DB) (past : List Int) : OnceState := past.foldl (onceIteration cfg db) .initial

theorem stateAfter_concat (past : List Int) (qIndex : Int) :
    stateAfter cfg db (past ++ [qIndex]) = iteration cfg db (stateAfter cfg db past) qIndex := by
  simp [stateAfter]

theorem onceAfter_concat (past : List Int) (qIndex : Int) :
    onceAfter cfg db (past ++ [qIndex]) = onceIteration cfg db (onceAfter cfg db past) qIndex := by
  simp [onceAfter]

theorem onceBefore_eq {past rest : List Int} (split : quarterIndexes cfg db = past ++ qIndex :: rest) :
    onceBefore cfg db qIndex = onceAfter cfg db past := by
  rw [onceBefore, quarterIndexes_split split, onceAfter]

theorem matches_stateAfter (distinct : DistinctAuctions db) {past rest : List Int}
    (split : quarterIndexes cfg db = past ++ rest) (apart : ∀ qIndex ∈ past,
      ChainsApart cfg db (onceBefore cfg db qIndex).anchor (onceBefore cfg db qIndex).count qIndex) :
    Matches (stateAfter cfg db past) (onceAfter cfg db past) := by
  induction past using List.reverseRecOn generalizing rest with
  | nil => exact ⟨⟨rfl, rfl⟩, rfl⟩
  | append_singleton past qIndex ih =>
      rw [List.append_assoc] at split
      have here := apart qIndex (by simp)
      rw [onceBefore_eq split] at here
      rw [stateAfter_concat, onceAfter_concat]
      exact (ih split fun q member => apart q (List.mem_append_left _ member)).step distinct here

theorem quarter_of_returned {past : List Int} {qp : PricePeriod} (member : qp ∈ (stateAfter cfg db past).returned) :
    ∃ qIndex ∈ past, cfg.quarterNum qp.epoch = qIndex + 1 := by
  rcases mem_returned member with none | ⟨count, qIndex, known, a, inQuarter, rfl⟩
  · cases none
  · exact ⟨qIndex, known, quarterAuctions_quarter inQuarter⟩

theorem returned_concat_nodup_iff {past rest : List Int} (split : quarterIndexes cfg db = past ++ qIndex :: rest) :
    ((stateAfter cfg db (past ++ [qIndex])).returned.map (·.position)).Nodup ↔
      ((stateAfter cfg db past).returned.map (·.position)).Nodup ∧
        ((quarterResults cfg db (stateAfter cfg db past) qIndex).map (·.position)).Nodup := by
  rw [stateAfter_concat]
  change ((_ ++ _ : List PricePeriod).map _).Nodup ↔ _
  rw [List.map_append, List.nodup_append']
  constructor
  · rintro ⟨before, here, -⟩
    exact ⟨before, here⟩
  · rintro ⟨before, here⟩
    refine ⟨before, here, ?_⟩
    intro position inPast inQuarter
    obtain ⟨qp, returned, rfl⟩ := List.mem_map.mp inPast
    obtain ⟨rp, result, same⟩ := List.mem_map.mp inQuarter
    obtain ⟨earlier, known, quarter⟩ := quarter_of_returned returned
    obtain ⟨a, inQuarter, rfl⟩ := mem_quarterResults result
    have later := quarterAuctions_quarter inQuarter
    have epochs : a.auctionedAtEpoch = qp.epoch := congrArg Position.epoch same
    have increasing := quarterIndexes_increasing cfg db
    rw [split, List.pairwise_append] at increasing
    have before := increasing.2.2 earlier known qIndex List.mem_cons_self
    rw [epochs, quarter] at later
    omega

theorem returned_nodup_iff (cfg : Config) (distinct : DistinctAuctions db) {past rest : List Int}
    (split : quarterIndexes cfg db = past ++ rest) :
    ((stateAfter cfg db past).returned.map (·.position)).Nodup ↔ ∀ qIndex ∈ past,
      ChainsApart cfg db (onceBefore cfg db qIndex).anchor (onceBefore cfg db qIndex).count qIndex := by
  induction past using List.reverseRecOn generalizing rest with
  | nil => simp [stateAfter, LoopState.initial]
  | append_singleton past qIndex ih =>
      rw [List.append_assoc] at split
      have here : (∀ q ∈ past, ChainsApart cfg db (onceBefore cfg db q).anchor (onceBefore cfg db q).count q) →
          (((quarterResults cfg db (stateAfter cfg db past) qIndex).map (·.position)).Nodup ↔
            ChainsApart cfg db (onceBefore cfg db qIndex).anchor (onceBefore cfg db qIndex).count qIndex) := by
        intro apart
        obtain ⟨carries, count⟩ := matches_stateAfter distinct split apart
        rw [quarterResults_nodup_iff distinct carries, count, onceBefore_eq split]
      rw [returned_concat_nodup_iff split, ih split, and_congr_right_iff.mpr here, List.forall_mem_append,
        List.forall_mem_singleton]

end Once

section Each

/-- No two rows at one position, and a view that takes them. -/
structure OneRowEach (db : DB) : Prop where
  rows : ((getQualifyingPricePeriods db).map (·.position)).Nodup
  refreshes : ∃ next, db.refreshQualifiedPricePeriodsMv = .ok next

theorem refreshes_of_nodup {db : DB} (rows : ((getQualifyingPricePeriods db).map (·.position)).Nodup) :
    ∃ next, db.refreshQualifiedPricePeriodsMv = .ok next := by
  have keys : ((getQualifyingPricePeriods db).map PricePeriod.ukey).Nodup := by
    have positions : (((getQualifyingPricePeriods db).map PricePeriod.ukey).map fun key =>
        (⟨key.2.1, key.2.2⟩ : Position)).Nodup := by
      rw [List.map_map]
      exact rows
    exact positions.of_map _
  obtain ⟨mv, built, -⟩ := Table.exists_ofRows? keys
  exact ⟨_, by unfold DB.refreshQualifiedPricePeriodsMv; rw [built]⟩

theorem oneRowEach_iff (db : DB) (distinct : DistinctAuctions db) :
    OneRowEach db ↔ ∀ cfg, db.applicationConfig = some cfg → QualifiesOnce cfg db := by
  have rows : ((getQualifyingPricePeriods db).map (·.position)).Nodup ↔
      ∀ cfg, db.applicationConfig = some cfg → QualifiesOnce cfg db := by
    unfold getQualifyingPricePeriods
    cases db.applicationConfig with
    | none => simp
    | some cfg =>
        have all := returned_nodup_iff cfg distinct (List.append_nil _).symm
        refine all.trans ?_
        simp [QualifiesOnce]
  constructor
  · intro each
    exact rows.mp each.rows
  · intro once
    have nodup := rows.mpr once
    exact ⟨nodup, refreshes_of_nodup nodup⟩

end Each

section Priced
variable {cfg : Config} {db : DB} {count : Nat}

def Priced (db : DB) : Prop := ∀ a ∈ db.filecoinPayFeeAuction.rows,
  0 ≤ a.amountActual ∧ 0 ≤ a.filBurned ∧ (a.amountActual = 0 → a.filBurned ≠ 0)

def pricedKey (s : SubstantialAuction) : WithTop ℚ ×ₗ Nat :=
  toLex (if s.claimAttoFil = 0 then ⊤ else rate s.lotAttoUsd s.claimAttoFil, s.auctionNum)

theorem priced_of_mem (priced : Priced db) {s : SubstantialAuction} (member : s ∈ substantialAuctions cfg db count) :
    0 ≤ s.claimAttoFil ∧ (s.claimAttoFil = 0 → 0 < s.lotAttoUsd) := by
  obtain ⟨row, inRows, built⟩ := List.mem_filterMap.mp (mem_substantialAuctions member)
  obtain ⟨lot, claim, one⟩ := priced row inRows
  unfold whitelistedAuction at built
  dsimp only at built
  split at built
  · obtain ⟨t, -, same⟩ := Option.map_eq_some_iff.mp built
    rw [← same]
    refine ⟨Int.cast_nonneg claim, ?_⟩
    intro free
    have some : row.amountActual ≠ 0 := fun nothing => one nothing (Int.cast_eq_zero.mp free)
    exact mul_pos (Int.cast_pos.mpr (lot.lt_of_ne' some)) (zpow_pos (by norm_num) _)
  · cases built

theorem rankedUpTo_priced {s1 s2 : SubstantialAuction} (h1 : 0 ≤ s1.claimAttoFil ∧ (s1.claimAttoFil = 0 → 0 < s1.lotAttoUsd))
    (h2 : 0 ≤ s2.claimAttoFil ∧ (s2.claimAttoFil = 0 → 0 < s2.lotAttoUsd)) :
    rankedUpTo s1 s2 = decide (pricedKey s2 ≤ pricedKey s1) := by
  rcases h1.1.eq_or_lt' with free1 | claim1 <;> rcases h2.1.eq_or_lt' with free2 | claim2
  · simp [rankedUpTo, pricedKey, Prod.Lex.toLex_le_toLex, free1, free2]
  · simp [rankedUpTo, pricedKey, Prod.Lex.toLex_le_toLex, free1, claim2.ne', mul_pos (h1.2 free1) claim2]
  · have above := mul_pos (h2.2 free2) claim1
    simp [rankedUpTo, pricedKey, Prod.Lex.toLex_le_toLex, free2, claim1.ne', above.le, above.ne']
  · rw [rankedUpTo_eq claim1 claim2, seedKey, seedKey, pricedKey, pricedKey, if_neg claim1.ne', if_neg claim2.ne']
    simp [Prod.Lex.toLex_le_toLex]

theorem medians_length_le (cfg : Config) (priced : Priced db) : (medians cfg db count).length ≤ 1 := by
  have distinct : (seedAuctions cfg db count).Pairwise fun a b => pricedKey a ≠ pricedKey b := by
    apply (seedAuctions_numbered cfg db count).imp
    intro a b differ same
    exact differ (Prod.mk.inj (toLex_inj.mp same)).2
  have ranked : ∀ s ∈ seedAuctions cfg db count, (seedAuctions cfg db count).countP (rankedUpTo s) =
      (seedAuctions cfg db count).countP fun r => pricedKey r ≤ pricedKey s := by
    intro s member
    apply List.countP_congr
    intro r inSeeds
    rw [rankedUpTo_priced (priced_of_mem priced (List.mem_of_mem_filter member))
      (priced_of_mem priced (List.mem_of_mem_filter inSeeds))]
  have one := filter_rank_length_le pricedKey distinct 3
  unfold medians seedAuctionsRanked
  rw [filter_rankSeeds_of_key ranked 3]
  split
  · exact Nat.le_refl 1
  · rw [List.length_map, List.length_map]
    exact one

theorem qualifiesOnce_of_priced (priced : Priced db) : QualifiesOnce cfg db := by
  intro qIndex _
  unfold ChainsApart
  match medians cfg db (onceBefore cfg db qIndex).count, medians_length_le cfg priced with
  | [], _ => exact List.Pairwise.nil
  | [m], _ => exact List.pairwise_singleton _ _

end Priced

section Market

def floorless (auctions : Table FilecoinPayFeeAuction FilecoinPayFeeAuction.id) : DB :=
  { market auctions with
    serviceRewardsActorParameter := ⟨[⟨.minLotFloor, 0, 50, 0, "0x0"⟩, ⟨.minLotAlphaNumerator, 1, 50, 0, "0x0"⟩,
      ⟨.minLotAlphaDenominator, 1, 50, 0, "0x0"⟩, ⟨.priceBandBps, 1000, 50, 0, "0x0"⟩], by decide⟩ }

theorem oneRowEach_iff_floorless : OneRowEach (floorless eightAuctions) ↔
    ∀ cfg, (floorless eightAuctions).applicationConfig = some cfg → QualifiesOnce cfg (floorless eightAuctions) :=
  oneRowEach_iff (floorless eightAuctions) (by unfold DistinctAuctions; decide)

def sixAuctions : Table FilecoinPayFeeAuction FilecoinPayFeeAuction.id where
  rows := [auctionAt 1 110 102 1, auctionAt 2 111 100 1, auctionAt 3 112 0 0, auctionAt 4 113 101 1,
    auctionAt 5 114 103 1, auctionAt 6 120 102 1]
  nodup := by decide

theorem sixAuctions_returned_thrice :
    (∀ a ∈ (floorless sixAuctions).filecoinPayFeeAuction.rows, 0 ≤ a.amountActual ∧ 0 ≤ a.filBurned) ∧
      DistinctAuctions (floorless sixAuctions) ∧
      (getQualifyingPricePeriods (floorless sixAuctions)).map (·.position) = [⟨120, 0⟩, ⟨120, 0⟩, ⟨120, 0⟩] ∧
      (floorless sixAuctions).refreshQualifiedPricePeriodsMv = .error .cardinalityViolation ∧
      ¬ OneRowEach (floorless sixAuctions) := by
  have thrice : (getQualifyingPricePeriods (floorless sixAuctions)).map (·.position) = [⟨120, 0⟩, ⟨120, 0⟩, ⟨120, 0⟩] := by
    decide +kernel
  refine ⟨by decide, by unfold DistinctAuctions; decide, thrice, ?_, ?_⟩
  · have untaken : (Table.ofRows? (getQualifyingPricePeriods (floorless sixAuctions)) :
        Option (Table PricePeriod PricePeriod.ukey)) = none := by decide +kernel
    have equal : ¬ (getQualifyingPricePeriods (floorless sixAuctions)).Nodup := by decide +kernel
    unfold DB.refreshQualifiedPricePeriodsMv
    rw [untaken]
    exact if_neg equal
  · intro each
    have rows := each.rows
    rw [thrice] at rows
    exact absurd rows (by decide)

end Market

end Proof.OneRow
end FpvIndexer
