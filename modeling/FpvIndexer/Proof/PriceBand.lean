import FpvIndexer.Database.PricePeriods
import FpvIndexer.Relational.Scan
import Mathlib.Algebra.Order.Field.Basic
import Mathlib.Tactic.FieldSimp

namespace FpvIndexer
namespace Proof.PriceBand
open Relational

def WithinBand (bps anchor rate : ℚ) : Prop := |rate - anchor| ≤ bps / 10000 * anchor

theorem auctionPassesPriceBand_iff {lot claim prevLot prevClaim bps : ℚ} (hc : 0 < claim) (hp : 0 < prevClaim) :
    auctionPassesPriceBand lot claim prevLot prevClaim bps ↔ WithinBand bps (prevLot / prevClaim) (lot / claim) := by
  have pos : 0 < claim * prevClaim := mul_pos hc hp
  have difference : lot / claim - prevLot / prevClaim = (lot * prevClaim - prevLot * claim) / (claim * prevClaim) := by
    rw [div_sub_div _ _ hc.ne' hp.ne', mul_comm claim prevLot]
  have bound : bps / 10000 * (prevLot / prevClaim) = bps * prevLot * claim / 10000 / (claim * prevClaim) := by
    field_simp
  rw [WithinBand, difference, bound, abs_div, abs_of_pos pos, div_le_div_iff_of_pos_right pos,
    le_div_iff₀ (by norm_num), auctionPassesPriceBand, decide_eq_true_eq]

section Parameters
variable (cfg : Config) (db : DB)

/-- The latest value that was set for a parameter before a quarter. -/
def ParameterInForce (parameterType : ServiceRewardsActorParameterType) (quarterNum : Int) (value : ℚ) : Prop :=
  ∃ p ∈ db.serviceRewardsActorParameter.rows, p.parameterType = parameterType ∧ p.parameterValue = value ∧
    cfg.quarterNum p.updateEpoch < quarterNum ∧
    ∀ other ∈ db.serviceRewardsActorParameter.rows, other.parameterType = parameterType →
      cfg.quarterNum other.updateEpoch < quarterNum → other.position ≤ p.position

variable {cfg db}

theorem mem_parameters {p : ParameterByQuarter} (member : p ∈ parameters cfg db) :
    p.toServiceRewardsActorParameter ∈ db.serviceRewardsActorParameter.rows ∧
      p.quarterNum = cfg.quarterNum p.updateEpoch := by
  obtain ⟨row, inRows, rfl⟩ := List.mem_map.mp (mem_of_mem_distinctOn_orderBy _ member)
  exact ⟨inRows, rfl⟩

theorem exists_parameter (cfg : Config) {row : ServiceRewardsActorParameter}
    (member : row ∈ db.serviceRewardsActorParameter.rows) :
    ∃ p ∈ parameters cfg db, p.parameterType = row.parameterType ∧
      p.quarterNum = cfg.quarterNum row.updateEpoch ∧ row.position ≤ p.position := by
  have listed : (⟨row, cfg.quarterNum row.updateEpoch⟩ : ParameterByQuarter) ∈ parametersByQuarter cfg db :=
    List.mem_map.mpr ⟨row, member, rfl⟩
  let order := fun p : ParameterByQuarter =>
    toLex (p.parameterType.ordinal, toLex (p.quarterNum, OrderDual.toDual p.position))
  obtain ⟨p, kept, sameKey, before⟩ := exists_distinctOn_orderBy
    (fun p : ParameterByQuarter => (p.parameterType, p.quarterNum)) order listed
  obtain ⟨sameType, sameQuarter⟩ := Prod.mk.inj sameKey
  refine ⟨p, kept, sameType, sameQuarter, ?_⟩
  simpa [order, Prod.Lex.toLex_le_toLex, sameType, sameQuarter] using before

theorem lateralParameter_inForce {parameterType : ServiceRewardsActorParameterType} {quarterNum : Int} {value : ℚ}
    (found : lateralParameter cfg db parameterType quarterNum = some value) :
    ParameterInForce cfg db parameterType quarterNum value := by
  obtain ⟨p, first, rfl⟩ := Option.map_eq_some_iff.mp found
  have member := mem_of_head?_orderBy _ first
  rw [List.mem_filter, decide_eq_true_eq] at member
  obtain ⟨kept, type, earlier⟩ := member
  obtain ⟨inRows, quarter⟩ := mem_parameters kept
  refine ⟨_, inRows, type, rfl, quarter ▸ earlier, ?_⟩
  intro other inRowsToo typeToo earlierToo
  obtain ⟨r, keptToo, sameType, sameQuarter, later⟩ := exists_parameter cfg inRowsToo
  have notAfter := le_of_head?_orderBy (fun p : ParameterByQuarter => OrderDual.toDual p.quarterNum) first
    (List.mem_filter.mpr ⟨keptToo, decide_eq_true ⟨sameType.trans typeToo, by omega⟩⟩)
  rw [OrderDual.toDual_le_toDual] at notAfter
  apply later.trans
  rcases notAfter.lt_or_eq with before | same
  · have epochs : r.updateEpoch < p.updateEpoch := by
      by_contra h
      have := cfg.quarterNum_mono (not_lt.mp h)
      have := (mem_parameters keptToo).2
      omega
    exact (Position.lt_of_epoch_lt epochs).le
  · have sameKey : (r.parameterType, r.quarterNum) = (p.parameterType, p.quarterNum) :=
      Prod.ext (sameType.trans (typeToo.trans type.symm)) same
    rw [distinctOn_inj _ keptToo kept sameKey]

end Parameters

section Auctions
variable {cfg : Config} {db : DB} {count : Nat} {qIndex : Int}

theorem whitelistedAuction_row {row : FilecoinPayFeeAuction} {a : WhitelistedAuction}
    (built : whitelistedAuction cfg db row = some a) : a.position = row.position ∧ a.claimAttoFil = row.filBurned ∧
      a.quarterNum = cfg.quarterNum a.auctionedAtEpoch := by
  unfold whitelistedAuction at built
  dsimp only at built
  split at built
  · obtain ⟨t, -, rfl⟩ := Option.map_eq_some_iff.mp built
    exact ⟨rfl, rfl, rfl⟩
  · cases built

theorem mem_whitelistedAuctions {a : WhitelistedAuction} (member : a ∈ whitelistedAuctions cfg db) :
    ∃ row ∈ db.filecoinPayFeeAuction.rows, a.position = row.position ∧ a.claimAttoFil = row.filBurned ∧
      a.quarterNum = cfg.quarterNum a.auctionedAtEpoch := by
  obtain ⟨row, inRows, built⟩ := List.mem_filterMap.mp member
  exact ⟨row, inRows, whitelistedAuction_row built⟩

def DistinctAuctions (db : DB) : Prop := (db.filecoinPayFeeAuction.rows.map (·.position)).Nodup

def ClaimsPositive (db : DB) : Prop := ∀ a ∈ db.filecoinPayFeeAuction.rows, 0 < a.filBurned

theorem whitelistedAuctions_distinct (cfg : Config) (distinct : DistinctAuctions db) :
    (whitelistedAuctions cfg db).Pairwise fun a b => a.position ≠ b.position := by
  have rows := List.pairwise_map.mp distinct
  apply List.Pairwise.filterMap _ _ rows
  intro a b differ x hx y hy same
  exact differ ((whitelistedAuction_row hx).1.symm.trans (same.trans (whitelistedAuction_row hy).1))

theorem substantialAuctions_sorted (cfg : Config) (count : Nat) (distinct : DistinctAuctions db) :
    (substantialAuctions cfg db count).Pairwise fun a b => a.position < b.position := by
  have sorted := orderBy_strict WhitelistedAuction.position
    ((whitelistedAuctions_distinct cfg distinct).filter (isSubstantial cfg db count))
  rw [← rowNumber_map_fst (orderBy _ _), List.pairwise_map] at sorted
  exact List.pairwise_map.mpr sorted

theorem mem_substantialAuctions {a : SubstantialAuction} (member : a ∈ substantialAuctions cfg db count) :
    a.toWhitelistedAuction ∈ whitelistedAuctions cfg db := by
  obtain ⟨numbered, inRows, rfl⟩ := List.mem_map.mp member
  have kept : numbered.1 ∈ (rowNumber (orderBy (·.position)
      ((whitelistedAuctions cfg db).filter (isSubstantial cfg db count)))).map Prod.fst :=
    List.mem_map_of_mem inRows
  rw [rowNumber_map_fst, mem_orderBy] at kept
  exact List.mem_of_mem_filter kept

theorem substantialAuctions_numbers (cfg : Config) (db : DB) (count : Nat) :
    (substantialAuctions cfg db count).map (·.auctionNum) =
      List.range' 1 (substantialAuctions cfg db count).length := by
  simp [substantialAuctions, Function.comp_def, rowNumber, List.zipIdx_map_snd]

theorem quarterAuctions_numbers (cfg : Config) (db : DB) (count : Nat) (qIndex : Int) :
    (quarterAuctions cfg db count qIndex).map (·.seqId) =
      List.range' 1 (quarterAuctions cfg db count qIndex).length := by
  simp [quarterAuctions, Function.comp_def, rowNumber, List.zipIdx_map_snd]

theorem bandChecked_row {s : SubstantialAuction} {x : WhitelistedAuction × ℚ}
    (checked : bandChecked cfg db qIndex s = some x) : s.toWhitelistedAuction = x.1 ∧ 5 < s.auctionNum ∧
      x.1.quarterNum = qIndex + 1 ∧ lateralParameter cfg db .priceBandBps x.1.quarterNum = some x.2 := by
  unfold bandChecked at checked
  split at checked
  · rename_i late
    obtain ⟨bps, inForce, rfl⟩ := Option.map_eq_some_iff.mp checked
    exact ⟨rfl, late.1, late.2, inForce⟩
  · cases checked

theorem mem_quarterAuctions {a : QuarterAuction} (member : a ∈ quarterAuctions cfg db count qIndex) :
    ∃ s ∈ substantialAuctions cfg db count, s.toWhitelistedAuction = a.toWhitelistedAuction ∧ 5 < s.auctionNum ∧
      a.quarterNum = qIndex + 1 ∧ lateralParameter cfg db .priceBandBps a.quarterNum = some a.priceBandBps := by
  obtain ⟨numbered, inRows, rfl⟩ := List.mem_map.mp member
  have kept := List.mem_map_of_mem (f := Prod.fst) inRows
  rw [rowNumber_map_fst, mem_orderBy] at kept
  obtain ⟨s, substantial, checked⟩ := List.mem_filterMap.mp kept
  exact ⟨s, substantial, bandChecked_row checked⟩

theorem quarterAuctions_sorted (distinct : DistinctAuctions db) :
    (quarterAuctions cfg db count qIndex).Pairwise fun a b => a.position < b.position := by
  have checked : ((substantialAuctions cfg db count).filterMap (bandChecked cfg db qIndex)).Pairwise
      fun a b => a.1.position ≠ b.1.position := by
    apply List.Pairwise.filterMap _ _ (substantialAuctions_sorted cfg count distinct)
    intro a b before x hx y hy
    rw [← (bandChecked_row hx).1, ← (bandChecked_row hy).1]
    exact before.ne
  have sorted := orderBy_strict (fun a : WhitelistedAuction × ℚ => a.1.position) checked
  rw [← rowNumber_map_fst (orderBy _ _), List.pairwise_map] at sorted
  exact List.pairwise_map.mpr sorted

end Auctions

def rate (lotAttoUsd claimAttoFil : ℚ) : ℚ := lotAttoUsd / claimAttoFil

section Seeds
variable {cfg : Config} {db : DB} {count : Nat}

def seedKey (s : SubstantialAuction) : ℚ ×ₗ Nat := toLex (rate s.lotAttoUsd s.claimAttoFil, s.auctionNum)

theorem rankedUpTo_eq {s1 s2 : SubstantialAuction} (h1 : 0 < s1.claimAttoFil) (h2 : 0 < s2.claimAttoFil) :
    rankedUpTo s1 s2 = decide (seedKey s2 ≤ seedKey s1) := by
  unfold rankedUpTo
  rw [decide_eq_decide, seedKey, seedKey, Prod.Lex.toLex_le_toLex, rate, rate, div_lt_div_iff₀ h2 h1,
    div_eq_div_iff h2.ne' h1.ne']

theorem claim_pos (positive : ClaimsPositive db) {a : SubstantialAuction}
    (member : a ∈ substantialAuctions cfg db count) : 0 < a.claimAttoFil := by
  obtain ⟨row, inRows, -, claim, -⟩ := mem_whitelistedAuctions (mem_substantialAuctions member)
  rw [claim]
  exact_mod_cast positive row inRows

theorem seedAuctions_numbered (cfg : Config) (db : DB) (count : Nat) :
    (seedAuctions cfg db count).Pairwise fun a b => a.auctionNum ≠ b.auctionNum := by
  apply List.Pairwise.filter
  rw [← List.pairwise_map (f := SubstantialAuction.auctionNum), substantialAuctions_numbers]
  exact List.nodup_range'

theorem seedKey_distinct {seeds : List SubstantialAuction}
    (numbered : seeds.Pairwise fun a b => a.auctionNum ≠ b.auctionNum) :
    seeds.Pairwise fun a b => seedKey a ≠ seedKey b := by
  apply numbered.imp
  intro a b differ same
  exact differ (Prod.mk.inj (toLex_inj.mp same)).2

theorem seedAuctions_distinct (cfg : Config) (db : DB) (count : Nat) :
    (seedAuctions cfg db count).Pairwise fun a b => seedKey a ≠ seedKey b :=
  seedKey_distinct (seedAuctions_numbered cfg db count)

theorem length_gt_of_late {s : SubstantialAuction} (member : s ∈ substantialAuctions cfg db count)
    (late : 5 < s.auctionNum) : 5 < (substantialAuctions cfg db count).length := by
  have listed := List.mem_map_of_mem (f := SubstantialAuction.auctionNum) member
  rw [substantialAuctions_numbers, List.mem_range'_1] at listed
  omega

theorem seedAuctions_length (enough : 5 < (substantialAuctions cfg db count).length) :
    (seedAuctions cfg db count).length = 5 := by
  have numbers := substantialAuctions_numbers cfg db count
  obtain ⟨n, more⟩ : ∃ n, (substantialAuctions cfg db count).length = 5 + n := ⟨_, (Nat.add_sub_cancel' (by omega)).symm⟩
  have seeds : (seedAuctions cfg db count).map (·.auctionNum) = (List.range' 1 (5 + n)).filter (· ≤ 5) := by
    rw [← more, ← numbers, List.filter_map]
    rfl
  have none : (List.range' 6 n).filter (· ≤ 5) = [] := by
    apply List.filter_eq_nil_iff.mpr
    intro k inRange
    rw [List.mem_range'_1] at inRange
    simp
    omega
  rw [← List.range'_append_1, List.filter_append, none, List.append_nil] at seeds
  rw [← List.length_map (f := SubstantialAuction.auctionNum), seeds]
  rfl

def SeedsPositive (cfg : Config) (db : DB) : Prop :=
  ∀ count, 5 < (substantialAuctions cfg db count).length → ∀ s ∈ seedAuctions cfg db count, 0 < s.claimAttoFil

theorem ClaimsPositive.seeds (positive : ClaimsPositive db) (cfg : Config) : SeedsPositive cfg db := fun _ _ _ member =>
  claim_pos positive (List.mem_of_mem_filter member)

theorem rate_le_of_seedKey_le {s t : SubstantialAuction} (le : seedKey s ≤ seedKey t) :
    rate s.lotAttoUsd s.claimAttoFil ≤ rate t.lotAttoUsd t.claimAttoFil := by
  rcases Prod.Lex.toLex_le_toLex.mp le with less | ⟨same, -⟩
  · exact less.le
  · exact same.le

section Ranks
variable {seeds : List SubstantialAuction}

theorem countP_rankedUpTo (positive : ∀ s ∈ seeds, 0 < s.claimAttoFil) {s : SubstantialAuction} (member : s ∈ seeds) :
    seeds.countP (rankedUpTo s) = seeds.countP fun r => seedKey r ≤ seedKey s := by
  apply List.countP_congr
  intro r inSeeds
  rw [rankedUpTo_eq (positive s member) (positive r inSeeds)]

theorem rankSeeds_perm (positive : ∀ s ∈ seeds, 0 < s.claimAttoFil)
    (distinct : seeds.Pairwise fun a b => seedKey a ≠ seedKey b) :
    ((rankSeeds seeds).map (·.rankPos)).Perm (List.range' 1 seeds.length) := by
  have ranks : (rankSeeds seeds).map (·.rankPos) = seeds.map fun s => seeds.countP fun r => seedKey r ≤ seedKey s := by
    unfold rankSeeds
    rw [List.map_map]
    exact List.map_congr_left fun s member => countP_rankedUpTo positive member
  rw [ranks]
  exact ranks_perm seedKey distinct

theorem filter_rankSeeds_of_key {κ : Type} [LinearOrder κ] {key : SubstantialAuction → κ}
    (ranked : ∀ s ∈ seeds, seeds.countP (rankedUpTo s) = seeds.countP fun r => key r ≤ key s) (n : Nat) :
    (rankSeeds seeds).filter (·.rankPos = n) =
      (seeds.filter fun s => seeds.countP (fun r => key r ≤ key s) = n).map fun s => ⟨s.lotAttoUsd, s.claimAttoFil, n⟩ := by
  have same : seeds.filter ((fun r : RankedSeed => decide (r.rankPos = n)) ∘ fun s =>
      ⟨s.lotAttoUsd, s.claimAttoFil, seeds.countP (rankedUpTo s)⟩) =
        seeds.filter fun s => seeds.countP (fun r => key r ≤ key s) = n := by
    apply List.filter_congr
    intro s member
    simp [ranked s member]
  unfold rankSeeds
  rw [List.filter_map, same]
  apply List.map_congr_left
  intro s kept
  obtain ⟨member, rank⟩ := List.mem_filter.mp kept
  rw [ranked s member, of_decide_eq_true rank]

theorem filter_rankSeeds (positive : ∀ s ∈ seeds, 0 < s.claimAttoFil)
    (distinct : seeds.Pairwise fun a b => seedKey a ≠ seedKey b) {m : SubstantialAuction} (member : m ∈ seeds) {n : Nat}
    (rank : seeds.countP (fun r => seedKey r ≤ seedKey m) = n) :
    (rankSeeds seeds).filter (·.rankPos = n) = [⟨m.lotAttoUsd, m.claimAttoFil, n⟩] := by
  have only : seeds.filter (fun s => seeds.countP (fun r => seedKey r ≤ seedKey s) = n) = [m] := by
    have ranked : m ∈ seeds.filter (fun s => seeds.countP (fun r => seedKey r ≤ seedKey s) = n) :=
      List.mem_filter.mpr ⟨member, decide_eq_true rank⟩
    have length := filter_rank_length_le seedKey distinct n
    obtain ⟨other, single⟩ := List.length_eq_one_iff.mp (length.antisymm (List.length_pos_of_mem ranked))
    rw [single, List.mem_singleton] at ranked
    rw [single, ranked]
  rw [filter_rankSeeds_of_key fun s inSeeds => countP_rankedUpTo positive inSeeds, only, List.map_singleton]

theorem rankSeeds_third (positive : ∀ s ∈ seeds, 0 < s.claimAttoFil)
    (distinct : seeds.Pairwise fun a b => seedKey a ≠ seedKey b) (five : seeds.length = 5) :
    ∃ m ∈ seeds, (rankSeeds seeds).filter (·.rankPos = 3) = [⟨m.lotAttoUsd, m.claimAttoFil, 3⟩] ∧
      3 ≤ seeds.countP (fun s => rate s.lotAttoUsd s.claimAttoFil ≤ rate m.lotAttoUsd m.claimAttoFil) ∧
      3 ≤ seeds.countP (fun s => rate m.lotAttoUsd m.claimAttoFil ≤ rate s.lotAttoUsd s.claimAttoFil) := by
  have third : 3 ∈ seeds.map fun s => seeds.countP fun r => seedKey r ≤ seedKey s := by
    rw [(ranks_perm seedKey distinct).mem_iff, five]
    decide
  obtain ⟨m, member, rank⟩ := List.mem_map.mp third
  refine ⟨m, member, filter_rankSeeds positive distinct member rank, ?_, ?_⟩
  · apply rank.symm.trans_le
    exact List.countP_mono_left fun s _ le => decide_eq_true (rate_le_of_seedKey_le (of_decide_eq_true le))
  · have above := le_countP_of_rank seedKey member rank
    rw [five] at above
    have priced : seeds.countP (fun s => seedKey m ≤ seedKey s) ≤
        seeds.countP fun s => rate m.lotAttoUsd m.claimAttoFil ≤ rate s.lotAttoUsd s.claimAttoFil :=
      List.countP_mono_left fun s _ le => decide_eq_true (rate_le_of_seedKey_le (of_decide_eq_true le))
    omega

end Ranks

theorem medians_of_five (positive : ∀ s ∈ seedAuctions cfg db count, 0 < s.claimAttoFil)
    (five : (seedAuctions cfg db count).length = 5) :
    ∃ m : RankedSeed, medians cfg db count = [some m] ∧ 0 < m.claimAttoFil ∧
      IsMedian ((seedAuctions cfg db count).map fun s => rate s.lotAttoUsd s.claimAttoFil)
        (rate m.lotAttoUsd m.claimAttoFil) := by
  obtain ⟨m, member, third, below, above⟩ := rankSeeds_third positive (seedAuctions_distinct cfg db count) five
  refine ⟨⟨m.lotAttoUsd, m.claimAttoFil, 3⟩, ?_, positive m member, List.mem_map.mpr ⟨m, member, rfl⟩, ?_, ?_⟩
  · unfold medians seedAuctionsRanked
    rw [third]
    rfl
  · rw [List.length_map, five, List.countP_map]
    exact le_trans (by decide) (Nat.mul_le_mul_left 2 below)
  · rw [List.length_map, five, List.countP_map]
    exact le_trans (by decide) (Nat.mul_le_mul_left 2 above)

end Seeds

section Scan
variable {cfg : Config} {db : DB}

structure Price where
  lotAttoUsd : ℚ
  claimAttoFil : ℚ

structure BandCheck where
  auction : QuarterAuction
  median : Option Price

def BandCheck.passes (anchor : Option Price) (c : BandCheck) : Bool :=
  (anchor.or c.median).any fun p => auctionPassesPriceBand c.auction.lotAttoUsd c.auction.claimAttoFil
    p.lotAttoUsd p.claimAttoFil c.auction.priceBandBps

def BandCheck.price (c : BandCheck) : Option Price := some ⟨c.auction.lotAttoUsd, c.auction.claimAttoFil⟩

def printed (a : QuarterAuction) : PricePeriod where
  quarterNum := a.quarterNum
  epoch := a.auctionedAtEpoch
  logIndex := a.logIndex
  lotAttoUsd := a.lotAttoUsd
  claimAttoFil := a.claimAttoFil
  claimTxHash := a.claimTxHash

theorem flagAuction_passed {p : Price} {a : QuarterAuction} {median : Option Price}
    (h : BandCheck.passes (some p) ⟨a, median⟩) : flagAuction a (some p.lotAttoUsd) (some p.claimAttoFil) =
      { toQuarterAuction := a, isQualified := some true, lastLotAttoUsd := some a.lotAttoUsd
        lastClaimAttoFil := some a.claimAttoFil } := by
  have passes : passesPriceBand a (some p.lotAttoUsd) (some p.claimAttoFil) = some true := congrArg some h
  simp [flagAuction, passes]

theorem flagAuction_failed {p : Price} {a : QuarterAuction} {median : Option Price}
    (h : ¬ BandCheck.passes (some p) ⟨a, median⟩) : flagAuction a (some p.lotAttoUsd) (some p.claimAttoFil) =
      { toQuarterAuction := a, isQualified := some false, lastLotAttoUsd := some p.lotAttoUsd
        lastClaimAttoFil := some p.claimAttoFil } := by
  have fails : passesPriceBand a (some p.lotAttoUsd) (some p.claimAttoFil) = some false :=
    congrArg some (Bool.not_eq_true _ ▸ h)
  simp [flagAuction, fails]

def flagNext (previous : FlaggedAuction) (a : QuarterAuction) : FlaggedAuction :=
  flagAuction a previous.lastLotAttoUsd previous.lastClaimAttoFil

def qualified (flagged : List FlaggedAuction) : List PricePeriod :=
  (flagged.filter fun f => f.isQualified = some true).map (·.toPricePeriod)

theorem qualified_scanl (median : Option Price) (p : Price) (a : QuarterAuction) (rest : List QuarterAuction) :
    qualified (List.scanl flagNext (flagAuction a (some p.lotAttoUsd) (some p.claimAttoFil)) rest) =
      (gated BandCheck.passes BandCheck.price (some p) ((a :: rest).map fun b => ⟨b, median⟩)).map
        fun c => printed c.auction := by
  induction rest generalizing a p with
  | nil =>
      by_cases h : BandCheck.passes (some p) ⟨a, median⟩
      · simp [flagAuction_passed h, qualified, gated, h]
        rfl
      · simp [flagAuction_failed h, qualified, gated, h]
  | cons b rest ih =>
      rw [List.scanl_cons, List.map_cons]
      by_cases h : BandCheck.passes (some p) ⟨a, median⟩
      · have onward := ih ⟨a.lotAttoUsd, a.claimAttoFil⟩ b
        rw [flagAuction_passed h, gated, if_pos h, List.map_cons, BandCheck.price, ← onward]
        rfl
      · have onward := ih p b
        rw [flagAuction_failed h, gated, if_neg h, ← onward]
        rfl

theorem gated_median (median : Price) (anchor : Option Price) (auctions : List QuarterAuction) :
    gated BandCheck.passes BandCheck.price anchor (auctions.map fun a => ⟨a, some median⟩) =
      gated BandCheck.passes BandCheck.price (some (anchor.getD median)) (auctions.map fun a => ⟨a, some median⟩) := by
  cases anchor with
  | some p => rfl
  | none =>
      induction auctions with
      | nil => rfl
      | cons a rest ih =>
          rw [List.map_cons]
          have same : BandCheck.passes (some median) ⟨a, some median⟩ = BandCheck.passes none ⟨a, some median⟩ := rfl
          change _ = gated BandCheck.passes BandCheck.price (some median) _
          by_cases h : BandCheck.passes none ⟨a, some median⟩
          · rw [gated, gated, same, if_pos h, if_pos h]
          · rw [gated, gated, same, if_neg h, if_neg h]
            exact ih

theorem qualified_scanl_none (a : QuarterAuction) (rest : List QuarterAuction) :
    qualified (List.scanl flagNext (flagAuction a none none) rest) = [] := by
  induction rest generalizing a with
  | nil => rfl
  | cons b rest ih =>
      rw [List.scanl_cons]
      exact ih b

theorem gated_unanchored (auctions : List QuarterAuction) :
    gated BandCheck.passes BandCheck.price none (auctions.map fun a => ⟨a, none⟩) = [] := by
  induction auctions with
  | nil => rfl
  | cons a rest ih => exact ih

theorem qualified_chain {a : QuarterAuction} {rest : List QuarterAuction}
    (numbers : (a :: rest).map (·.seqId) = List.range' 1 (a :: rest).length) (anchor median : Option Price) :
    qualified (recursiveUnion (joinSuccessor (·.seqId) (·.seqId) flagNext (a :: rest)) ((a :: rest).length + 1)
        [flagAuction a ((anchor.or median).map (·.lotAttoUsd)) ((anchor.or median).map (·.claimAttoFil))]) =
      (gated BandCheck.passes BandCheck.price anchor ((a :: rest).map fun b => ⟨b, median⟩)).map fun c => printed c.auction := by
  have first : a.seqId = 1 := by
    rw [List.map_cons, List.length_cons, List.range'_succ] at numbers
    exact (List.cons.inj numbers).1
  have scan := recursiveUnion_joinSuccessor QuarterAuction.seqId (fun f : FlaggedAuction => f.seqId) flagNext (fun _ _ => rfl)
    [a] rest numbers (flagAuction a ((anchor.or median).map (·.lotAttoUsd)) ((anchor.or median).map (·.claimAttoFil)))
    first ((a :: rest).length + 1) (by rw [List.length_cons]; omega)
  rw [List.singleton_append] at scan
  rw [scan]
  cases anchor with
  | some p => exact qualified_scanl median p a rest
  | none =>
      cases median with
      | some m =>
          rw [gated_median]
          exact qualified_scanl (some m) m a rest
      | none =>
          rw [gated_unanchored]
          exact qualified_scanl_none a rest

end Scan

section Loop
variable {cfg : Config} {db : DB}

def Carries (s : LoopState) (anchor : Option Price) : Prop :=
  s.lastLotAttoUsd = anchor.map (·.lotAttoUsd) ∧ s.lastClaimAttoFil = anchor.map (·.claimAttoFil)

def seedMedian (cfg : Config) (db : DB) (count : Nat) : Option Price :=
  (medians cfg db count).head?.join.map fun m => ⟨m.lotAttoUsd, m.claimAttoFil⟩

def checks (cfg : Config) (db : DB) (count : Nat) (qIndex : Int) : List BandCheck :=
  (quarterAuctions cfg db count qIndex).map fun a => ⟨a, seedMedian cfg db count⟩

def kept (cfg : Config) (db : DB) (anchor : Option Price) (count : Nat) (qIndex : Int) : List BandCheck :=
  gated BandCheck.passes BandCheck.price anchor (checks cfg db count qIndex)

theorem filter_first {a : QuarterAuction} {rest : List QuarterAuction}
    (numbers : (a :: rest).map (·.seqId) = List.range' 1 (a :: rest).length) :
    (a :: rest).filter (·.seqId = 1) = [a] := by
  rw [List.map_cons, List.length_cons, List.range'_succ] at numbers
  obtain ⟨first, others⟩ := List.cons.inj numbers
  have none : rest.filter (·.seqId = 1) = [] := by
    apply List.filter_eq_nil_iff.mpr
    intro b member
    have listed := List.mem_map_of_mem (f := QuarterAuction.seqId) member
    rw [others, List.mem_range'_1] at listed
    simp
    omega
  simp [first, none]

theorem qualified_flaggedAuctions (positive : SeedsPositive cfg db) {s : LoopState} {anchor : Option Price}
    (carries : Carries s anchor) (qIndex : Int) : qualified (flaggedAuctions cfg db s qIndex) =
      (kept cfg db anchor s.previousQuarterPricePeriodsCount qIndex).map fun c => printed c.auction := by
  unfold flaggedAuctions kept checks
  dsimp only
  have numbers := quarterAuctions_numbers cfg db s.previousQuarterPricePeriodsCount qIndex
  cases auctions : quarterAuctions cfg db s.previousQuarterPricePeriodsCount qIndex with
  | nil => rfl
  | cons a rest =>
      obtain ⟨seed, substantial, -, late, -⟩ := mem_quarterAuctions (a := a) (by rw [auctions]; simp)
      have enough := length_gt_of_late substantial late
      obtain ⟨m, medians, -⟩ := medians_of_five (positive _ enough) (seedAuctions_length enough)
      rw [auctions] at numbers
      have anchored : flagAuction a (s.lastLotAttoUsd.or (some m.lotAttoUsd)) (s.lastClaimAttoFil.or (some m.claimAttoFil))
          = flagAuction a ((anchor.or (some ⟨m.lotAttoUsd, m.claimAttoFil⟩)).map (·.lotAttoUsd))
            ((anchor.or (some ⟨m.lotAttoUsd, m.claimAttoFil⟩)).map (·.claimAttoFil)) := by
        rw [carries.1, carries.2]
        cases anchor <;> rfl
      rw [filter_first numbers, medians, List.flatMap_singleton, List.map_singleton, Option.map_some, Option.map_some,
        anchored, seedMedian, medians]
      exact qualified_chain numbers anchor (some ⟨m.lotAttoUsd, m.claimAttoFil⟩)

theorem quarterResults_eq (distinct : DistinctAuctions db) (positive : SeedsPositive cfg db) {s : LoopState}
    {anchor : Option Price} (carries : Carries s anchor) (qIndex : Int) : quarterResults cfg db s qIndex =
      (kept cfg db anchor s.previousQuarterPricePeriodsCount qIndex).map fun c => printed c.auction := by
  change orderBy _ (qualified (flaggedAuctions cfg db s qIndex)) = _
  rw [qualified_flaggedAuctions positive carries]
  apply orderBy_of_sorted
  have sorted : (checks cfg db s.previousQuarterPricePeriodsCount qIndex).Pairwise
      fun c d => c.auction.position < d.auction.position :=
    List.pairwise_map.mpr (quarterAuctions_sorted distinct)
  exact List.pairwise_map.mpr ((sorted.sublist (gated_sublist anchor _)).imp fun h => h.le)

theorem iteration_eq (distinct : DistinctAuctions db) (positive : SeedsPositive cfg db) {s : LoopState}
    {anchor : Option Price} (carries : Carries s anchor) (qIndex : Int) :
    (iteration cfg db s qIndex).returned = s.returned ++
      (kept cfg db anchor s.previousQuarterPricePeriodsCount qIndex).map (fun c => printed c.auction) ∧
    Carries (iteration cfg db s qIndex)
      (lastAnchor BandCheck.price anchor (kept cfg db anchor s.previousQuarterPricePeriodsCount qIndex)) := by
  have results := quarterResults_eq distinct positive carries qIndex
  unfold iteration
  dsimp only
  rw [results]
  refine ⟨rfl, ?_⟩
  unfold Carries lastAnchor
  dsimp only
  rw [List.getLast?_map]
  cases (kept cfg db anchor s.previousQuarterPricePeriodsCount qIndex).getLast? with
  | none => exact carries
  | some c => exact ⟨rfl, rfl⟩

def bandChecks (cfg : Config) (db : DB) : LoopState → List Int → List BandCheck
  | _, [] => []
  | s, qIndex :: rest =>
      checks cfg db s.previousQuarterPricePeriodsCount qIndex ++ bandChecks cfg db (iteration cfg db s qIndex) rest

/-- All iterations together are one gated scan. -/
theorem returned_eq_gated (distinct : DistinctAuctions db) (positive : SeedsPositive cfg db) (qIndexes : List Int)
    {s : LoopState} {anchor : Option Price} (carries : Carries s anchor) :
    (qIndexes.foldl (iteration cfg db) s).returned = s.returned ++
      (gated BandCheck.passes BandCheck.price anchor (bandChecks cfg db s qIndexes)).map
        fun c => printed c.auction := by
  induction qIndexes generalizing s anchor with
  | nil => simp [bandChecks, gated]
  | cons qIndex rest ih =>
      obtain ⟨returned, onward⟩ := iteration_eq distinct positive carries qIndex
      rw [List.foldl_cons, ih onward, returned, bandChecks, gated_append, List.map_append, List.append_assoc]
      rfl

theorem bandChecks_append (s : LoopState) (front back : List Int) : bandChecks cfg db s (front ++ back) =
    bandChecks cfg db s front ++ bandChecks cfg db (front.foldl (iteration cfg db) s) back := by
  induction front generalizing s with
  | nil => rfl
  | cons qIndex front ih => simp [bandChecks, ih]

theorem mem_bandChecks {s : LoopState} {qIndexes : List Int} {c : BandCheck} (member : c ∈ bandChecks cfg db s qIndexes) :
    ∃ past qIndex rest, qIndexes = past ++ qIndex :: rest ∧
      c ∈ checks cfg db (past.foldl (iteration cfg db) s).previousQuarterPricePeriodsCount qIndex := by
  induction qIndexes generalizing s with
  | nil => cases member
  | cons qIndex rest ih =>
      rcases List.mem_append.mp member with here | later
      · exact ⟨[], qIndex, rest, rfl, here⟩
      · obtain ⟨past, next, others, rfl, found⟩ := ih later
        refine ⟨qIndex :: past, next, others, rfl, ?_⟩
        rw [List.foldl_cons]
        exact found

theorem mem_checks {count : Nat} {qIndex : Int} {c : BandCheck} (member : c ∈ checks cfg db count qIndex) :
    c.auction ∈ quarterAuctions cfg db count qIndex ∧ c.median = seedMedian cfg db count := by
  obtain ⟨a, inQuarter, rfl⟩ := List.mem_map.mp member
  exact ⟨inQuarter, rfl⟩

theorem quarterAuctions_quarter {count : Nat} {qIndex : Int} {a : QuarterAuction}
    (member : a ∈ quarterAuctions cfg db count qIndex) : cfg.quarterNum a.auctionedAtEpoch = qIndex + 1 := by
  obtain ⟨s, substantial, same, -, quarter, -⟩ := mem_quarterAuctions member
  obtain ⟨row, -, -, -, number⟩ := mem_whitelistedAuctions (mem_substantialAuctions substantial)
  rw [same] at number
  exact number.symm.trans quarter

theorem bandChecks_sorted (distinct : DistinctAuctions db) {qIndexes : List Int} (increasing : qIndexes.Pairwise (· < ·))
    (s : LoopState) :
    (bandChecks cfg db s qIndexes).Pairwise fun c d => c.auction.position < d.auction.position := by
  induction qIndexes generalizing s with
  | nil => exact List.Pairwise.nil
  | cons qIndex rest ih =>
      obtain ⟨first, others⟩ := List.pairwise_cons.mp increasing
      apply List.pairwise_append.mpr
      refine ⟨List.pairwise_map.mpr (quarterAuctions_sorted distinct), ih others _, ?_⟩
      intro c inFirst d inRest
      obtain ⟨past, later, back, rfl, inLater⟩ := mem_bandChecks inRest
      have before := first later (by simp)
      have quarterC := quarterAuctions_quarter (mem_checks inFirst).1
      have quarterD := quarterAuctions_quarter (mem_checks inLater).1
      apply Position.lt_of_epoch_lt
      change c.auction.auctionedAtEpoch < d.auction.auctionedAtEpoch
      by_contra h
      have := cfg.quarterNum_mono (not_lt.mp h)
      omega

end Loop

section Law
variable (cfg : Config) (db : DB)

def stateBefore (qIndex : Int) : LoopState :=
  ((quarterIndexes cfg db).filter (· < qIndex)).foldl (iteration cfg db) .initial

def auctionsOf (qIndex : Int) : List QuarterAuction :=
  quarterAuctions cfg db (stateBefore cfg db qIndex).previousQuarterPricePeriodsCount qIndex

def seedsOf (qIndex : Int) : List SubstantialAuction :=
  seedAuctions cfg db (stateBefore cfg db qIndex).previousQuarterPricePeriodsCount

structure MedianOfFive (qIndex : Int) (median : ℚ) : Prop where
  five : (seedsOf cfg db qIndex).length = 5
  median : IsMedian ((seedsOf cfg db qIndex).map fun s => rate s.lotAttoUsd s.claimAttoFil) median

def listed : List PricePeriod := orderBy (·.position) (getQualifyingPricePeriods db)

/-- The rate of the last row before, of the seeds' median where there is none. -/
def PrecedingRate (qIndex : Int) (before : List PricePeriod) (anchor : ℚ) : Prop :=
  match before.getLast? with
  | some previous => anchor = rate previous.lotAttoUsd previous.claimAttoFil
  | none => MedianOfFive cfg db qIndex anchor

structure SequentialBandLaw : Prop where
  opens : ∀ row back, listed db = row :: back → ∃ bps median,
    ParameterInForce cfg db .priceBandBps row.quarterNum bps ∧ MedianOfFive cfg db (row.quarterNum - 1) median ∧
      WithinBand bps median (rate row.lotAttoUsd row.claimAttoFil)
  follows : ∀ front previous row back, listed db = front ++ previous :: row :: back → ∃ bps,
    ParameterInForce cfg db .priceBandBps row.quarterNum bps ∧
      WithinBand bps (rate previous.lotAttoUsd previous.claimAttoFil) (rate row.lotAttoUsd row.claimAttoFil)
  rejects : ∀ qIndex ∈ quarterIndexes cfg db, ∀ a ∈ auctionsOf cfg db qIndex,
    printed a ∉ getQualifyingPricePeriods db → ∃ bps anchor,
      ParameterInForce cfg db .priceBandBps a.quarterNum bps ∧
        PrecedingRate cfg db qIndex ((listed db).filter (·.position < a.position)) anchor ∧
          ¬ WithinBand bps anchor (rate a.lotAttoUsd a.claimAttoFil)

variable {cfg db}

def allChecks (cfg : Config) (db : DB) : List BandCheck := bandChecks cfg db .initial (quarterIndexes cfg db)

theorem quarterIndexes_increasing (cfg : Config) (db : DB) : (quarterIndexes cfg db).Pairwise (· < ·) :=
  orderBy_strict id (distinctOn_pairwise id _)

theorem quarterIndexes_split {past rest : List Int} {qIndex : Int}
    (split : quarterIndexes cfg db = past ++ qIndex :: rest) :
    (quarterIndexes cfg db).filter (· < qIndex) = past := by
  have increasing := quarterIndexes_increasing cfg db
  rw [split] at increasing
  obtain ⟨-, back, across⟩ := List.pairwise_append.mp increasing
  have front : past.filter (· < qIndex) = past := by
    apply List.filter_eq_self.mpr
    intro q member
    exact decide_eq_true (across q member qIndex List.mem_cons_self)
  have none : (qIndex :: rest).filter (· < qIndex) = [] := by
    apply List.filter_eq_nil_iff.mpr
    intro q member
    rcases List.mem_cons.mp member with rfl | later
    · simp
    · simpa using ((List.pairwise_cons.mp back).1 q later).le
  rw [split, List.filter_append, front, none, List.append_nil]

theorem foldl_quarters_congr {σ : Type} {f g : σ → Int → σ} {start : σ} (same : ∀ q ∈ quarterIndexes cfg db,
      f (((quarterIndexes cfg db).filter (· < q)).foldl f start) q =
        g (((quarterIndexes cfg db).filter (· < q)).foldl f start) q)
    {past rest : List Int} (split : quarterIndexes cfg db = past ++ rest) :
    past.foldl f start = past.foldl g start := by
  apply foldl_congr_of_states
  intro front q back inPast
  have whole : quarterIndexes cfg db = front ++ q :: (back ++ rest) := by simp [split, inPast]
  have here := same q (by simp [whole])
  rwa [quarterIndexes_split whole] at here

theorem allChecks_sorted (cfg : Config) (distinct : DistinctAuctions db) :
    (allChecks cfg db).Pairwise fun c d => c.auction.position < d.auction.position :=
  bandChecks_sorted distinct (quarterIndexes_increasing cfg db) .initial

theorem mem_allChecks {c : BandCheck} (member : c ∈ allChecks cfg db) :
    ∃ qIndex ∈ quarterIndexes cfg db, c.auction ∈ auctionsOf cfg db qIndex ∧
      c.median = seedMedian cfg db (stateBefore cfg db qIndex).previousQuarterPricePeriodsCount := by
  obtain ⟨past, qIndex, rest, split, found⟩ := mem_bandChecks member
  rw [← quarterIndexes_split split] at found
  exact ⟨qIndex, by simp [split], mem_checks found⟩

theorem exists_check {qIndex : Int} (known : qIndex ∈ quarterIndexes cfg db) {a : QuarterAuction}
    (member : a ∈ auctionsOf cfg db qIndex) : ∃ c ∈ allChecks cfg db, c.auction = a ∧
      c.median = seedMedian cfg db (stateBefore cfg db qIndex).previousQuarterPricePeriodsCount := by
  obtain ⟨past, rest, split⟩ := List.append_of_mem known
  refine ⟨⟨a, seedMedian cfg db (stateBefore cfg db qIndex).previousQuarterPricePeriodsCount⟩, ?_, rfl, rfl⟩
  rw [allChecks, split, bandChecks_append, List.mem_append, ← quarterIndexes_split split]
  exact Or.inr (List.mem_append_left _ (List.mem_map_of_mem member))

theorem returned_eq (configured : db.applicationConfig = some cfg) (distinct : DistinctAuctions db)
    (positive : ClaimsPositive db) : getQualifyingPricePeriods db =
      (gated BandCheck.passes BandCheck.price none (allChecks cfg db)).map fun c => printed c.auction := by
  unfold getQualifyingPricePeriods
  rw [configured]
  exact (returned_eq_gated distinct (positive.seeds cfg) _ ⟨rfl, rfl⟩).trans (List.nil_append _)

theorem listed_eq (configured : db.applicationConfig = some cfg) (distinct : DistinctAuctions db)
    (positive : ClaimsPositive db) : listed db = getQualifyingPricePeriods db := by
  apply orderBy_of_sorted
  rw [returned_eq configured distinct positive]
  exact List.pairwise_map.mpr (((allChecks_sorted cfg distinct).sublist (gated_sublist none _)).imp fun h => h.le)

theorem exists_anchor (positive : ClaimsPositive db) {before : List BandCheck}
    (inChecks : ∀ c ∈ before, c ∈ allChecks cfg db) {qIndex : Int} {c : BandCheck}
    (member : c.auction ∈ auctionsOf cfg db qIndex)
    (median : c.median = seedMedian cfg db (stateBefore cfg db qIndex).previousQuarterPricePeriodsCount) :
    ∃ p : Price, (lastAnchor BandCheck.price none before).or c.median = some p ∧ 0 < p.claimAttoFil ∧
      PrecedingRate cfg db qIndex (before.map fun c => printed c.auction) (rate p.lotAttoUsd p.claimAttoFil) := by
  unfold lastAnchor PrecedingRate
  rw [List.getLast?_map]
  cases last : before.getLast? with
  | some previous =>
      obtain ⟨_, -, inQuarter, -⟩ := mem_allChecks (inChecks previous (List.mem_of_getLast? last))
      obtain ⟨s, substantial, same, -⟩ := mem_quarterAuctions inQuarter
      refine ⟨⟨previous.auction.lotAttoUsd, previous.auction.claimAttoFil⟩, rfl, ?_, rfl⟩
      rw [← same]
      exact claim_pos positive substantial
  | none =>
      obtain ⟨s, substantial, -, late, -⟩ := mem_quarterAuctions member
      have enough := length_gt_of_late substantial late
      have five := seedAuctions_length enough
      obtain ⟨m, found, claim, isMedian⟩ := medians_of_five (positive.seeds cfg _ enough) five
      refine ⟨⟨m.lotAttoUsd, m.claimAttoFil⟩, ?_, claim, five, isMedian⟩
      rw [median, seedMedian, found]
      rfl

theorem passes_iff (positive : ClaimsPositive db) {before : List BandCheck}
    (inChecks : ∀ c ∈ before, c ∈ allChecks cfg db) {qIndex : Int} {c : BandCheck}
    (member : c.auction ∈ auctionsOf cfg db qIndex)
    (median : c.median = seedMedian cfg db (stateBefore cfg db qIndex).previousQuarterPricePeriodsCount) :
    ∃ bps anchor, ParameterInForce cfg db .priceBandBps c.auction.quarterNum bps ∧
      PrecedingRate cfg db qIndex (before.map fun c => printed c.auction) anchor ∧
        (BandCheck.passes (lastAnchor BandCheck.price none before) c ↔
          WithinBand bps anchor (rate c.auction.lotAttoUsd c.auction.claimAttoFil)) := by
  obtain ⟨p, anchored, claim, preceding⟩ := exists_anchor positive inChecks member median
  obtain ⟨s, substantial, same, -, -, inForce⟩ := mem_quarterAuctions member
  refine ⟨_, _, lateralParameter_inForce inForce, preceding, ?_⟩
  have pos : 0 < c.auction.claimAttoFil := same ▸ claim_pos positive substantial
  rw [BandCheck.passes, anchored, Option.any_some]
  exact auctionPassesPriceBand_iff pos claim

/-- Every row is within the band of the row before it, the first one of the median of its seeds. -/
theorem returned_within (configured : db.applicationConfig = some cfg) (distinct : DistinctAuctions db)
    (positive : ClaimsPositive db) {front back : List PricePeriod} {row : PricePeriod}
    (split : listed db = front ++ row :: back) : ∃ bps anchor,
      ParameterInForce cfg db .priceBandBps row.quarterNum bps ∧
        PrecedingRate cfg db (row.quarterNum - 1) front anchor ∧
          WithinBand bps anchor (rate row.lotAttoUsd row.claimAttoFil) := by
  rw [listed_eq configured distinct positive, returned_eq configured distinct positive] at split
  obtain ⟨before, others, kept, rfl, tail⟩ := List.map_eq_append_iff.mp split
  obtain ⟨c, after, rfl, rfl, -⟩ := List.map_eq_cons_iff.mp tail
  have inChecks : ∀ d ∈ before ++ c :: after, d ∈ allChecks cfg db := by
    intro d member
    rw [← kept] at member
    exact (gated_sublist none _).subset member
  obtain ⟨qIndex, -, inQuarter, median⟩ := mem_allChecks (inChecks c (by simp))
  obtain ⟨bps, anchor, inForce, preceding, within⟩ := passes_iff positive
    (fun d member => inChecks d (List.mem_append_left _ member)) inQuarter median
  have quarter : c.auction.quarterNum - 1 = qIndex := by
    obtain ⟨-, -, -, -, quarter, -⟩ := mem_quarterAuctions inQuarter
    omega
  exact ⟨bps, anchor, inForce, quarter ▸ preceding, within.mp (passes_of_gated kept)⟩

theorem sequentialBandLaw (configured : db.applicationConfig = some cfg) (distinct : DistinctAuctions db)
    (positive : ClaimsPositive db) : SequentialBandLaw cfg db where
  opens := by
    intro row back split
    have apart : listed db = [] ++ row :: back := split
    exact returned_within configured distinct positive apart
  follows := by
    intro front previous row back split
    have apart : listed db = (front ++ [previous]) ++ row :: back := by simpa using split
    obtain ⟨bps, anchor, inForce, preceding, within⟩ := returned_within configured distinct positive apart
    rw [PrecedingRate, List.getLast?_concat] at preceding
    exact ⟨bps, inForce, preceding ▸ within⟩
  rejects := by
    intro qIndex known a member rejected
    obtain ⟨c, checked, rfl, median⟩ := exists_check known member
    obtain ⟨front, back, split⟩ := List.append_of_mem checked
    have sorted := allChecks_sorted cfg distinct
    rw [split] at sorted
    have nodup : (front ++ c :: back).Nodup := sorted.imp fun h same => absurd (same ▸ h) (lt_irrefl _)
    have inChecks : ∀ d ∈ gated BandCheck.passes BandCheck.price none front, d ∈ allChecks cfg db := by
      intro d kept
      rw [split]
      exact List.mem_append_left _ ((gated_sublist none front).subset kept)
    obtain ⟨bps, anchor, inForce, preceding, within⟩ := passes_iff positive inChecks member median
    refine ⟨bps, anchor, inForce, ?_, ?_⟩
    · have earlier : (gated BandCheck.passes BandCheck.price none (front ++ c :: back)).filter
          (fun d => decide (d.auction.position < c.auction.position)) = gated BandCheck.passes BandCheck.price none front :=
        filter_gated _ sorted (fun d h => decide_eq_true h) (by simp) (fun d h => by simpa using h.le)
      rw [listed_eq configured distinct positive, returned_eq configured distinct positive, List.filter_map, split]
      change PrecedingRate cfg db qIndex (List.map _ (List.filter
        (fun d : BandCheck => decide (d.auction.position < c.auction.position)) _)) anchor
      rw [earlier]
      exact preceding
    · rw [← within, ← mem_gated_iff nodup, ← split]
      intro kept
      apply rejected
      rw [returned_eq configured distinct positive]
      exact List.mem_map_of_mem kept

end Law

section Market

def auctionAt (id : Nat) (epoch : Int) (amountActual filBurned : Int) : FilecoinPayFeeAuction where
  filecoinPayContractAddress := "0xf"
  txHash := "0x0"
  logIndex := 0
  tokenAddress := "0xd"
  amountActual := amountActual
  filBurned := filBurned
  auctionedAtEpoch := epoch
  id := id

def market (auctions : Table FilecoinPayFeeAuction FilecoinPayFeeAuction.id) : DB :=
  { DB.seeded everyHundredEpochs with
    serviceRewardsActorParameter := ⟨[⟨.minLotFloor, 10, 50, 0, "0x0"⟩, ⟨.minLotAlphaNumerator, 1, 50, 0, "0x0"⟩,
      ⟨.minLotAlphaDenominator, 1, 50, 0, "0x0"⟩, ⟨.priceBandBps, 1000, 50, 0, "0x0"⟩], by decide⟩
    whitelistedToken := ⟨[⟨"0xd", 18, "USD", 50, 1, "0x0", none, none, none⟩], by decide⟩
    filecoinPayContract := ⟨[⟨"0xf", 50, 1, "0x0", none, none, none⟩], by decide⟩
    filecoinPayFeeAuction := auctions }

def eightAuctions : Table FilecoinPayFeeAuction FilecoinPayFeeAuction.id where
  rows := [auctionAt 1 110 100 1, auctionAt 2 111 90 1, auctionAt 3 112 110 1, auctionAt 4 113 80 1,
    auctionAt 5 114 120 1, auctionAt 6 120 105 1, auctionAt 7 130 150 1, auctionAt 8 310 220 2]
  nodup := by decide

theorem sequentialBandLaw_eightAuctions : SequentialBandLaw everyHundredEpochs (market eightAuctions) ∧
    (listed (market eightAuctions)).map (·.epoch) = [120, 310] :=
  ⟨sequentialBandLaw rfl (by unfold DistinctAuctions; decide) (by unfold ClaimsPositive; decide), by decide +kernel⟩

end Market

end Proof.PriceBand
end FpvIndexer
