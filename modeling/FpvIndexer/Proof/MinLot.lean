import FpvIndexer.Proof.InForce

/-!
# The minimum lot

Every iteration of the quarter loop judges the auctions of all quarters with the count of its own previous
iteration. The verdicts are one and the same exactly when no such count changes any of them.
-/

namespace FpvIndexer
namespace Proof.MinLot
open Relational PriceBand

section Specification
variable (cfg : Config) (db : DB)

def countBefore (qIndex : Int) : Nat := (stateBefore cfg db qIndex).previousQuarterPricePeriodsCount

def ownPreviousCount (periods : List PricePeriod) (a : WhitelistedAuction) : Nat :=
  periods.countP (·.quarterNum = a.quarterNum - 1)

def CheckedIn (s : SubstantialAuction) (qIndex : Int) : Prop :=
  qIndex ∈ quarterIndexes cfg db ∧ s ∈ substantialAuctions cfg db (countBefore cfg db qIndex) ∧
    (bandChecked cfg db qIndex s).isSome

structure JudgedOnce : Prop where
  measured : ∀ qIndex ∈ quarterIndexes cfg db, ∀ a ∈ whitelistedAuctions cfg db,
    isSubstantial cfg db (countBefore cfg db qIndex) a =
      isSubstantial cfg db (ownPreviousCount (getQualifyingPricePeriods db) a) a
  independent : ∀ q ∈ quarterIndexes cfg db, ∀ r ∈ quarterIndexes cfg db,
    substantialAuctions cfg db (countBefore cfg db q) = substantialAuctions cfg db (countBefore cfg db r)
  seeds : ∀ q ∈ quarterIndexes cfg db, ∀ r ∈ quarterIndexes cfg db, seedsOf cfg db q = seedsOf cfg db r
  checked : ∀ s ∈ substantialAuctions cfg db (countBefore cfg db (s.quarterNum - 1)), 5 < s.auctionNum →
    ∃! qIndex, CheckedIn cfg db s qIndex

/-- The loop with every lot measured against the floor, as after a quarter without price periods. -/
def floorIteration (s : LoopState) (qIndex : Int) : LoopState :=
  iteration cfg db { s with previousQuarterPricePeriodsCount := 0 } qIndex

def floorRun (qIndexes : List Int) : LoopState := qIndexes.foldl (floorIteration cfg db) .initial

def floorCountBefore (qIndex : Int) : Nat :=
  (floorRun cfg db ((quarterIndexes cfg db).filter (· < qIndex))).previousQuarterPricePeriodsCount

/-- With a count, the same lots are large enough as against the floor. -/
def SameVerdicts (count : Nat) : Prop :=
  ∀ a ∈ whitelistedAuctions cfg db, isSubstantial cfg db count a = isSubstantial cfg db 0 a

structure FloorDecides : Prop where
  iterations : ∀ qIndex ∈ quarterIndexes cfg db, SameVerdicts cfg db (floorCountBefore cfg db qIndex)
  own : ∀ a ∈ whitelistedAuctions cfg db,
    isSubstantial cfg db (ownPreviousCount (floorRun cfg db (quarterIndexes cfg db)).returned a) a =
      isSubstantial cfg db 0 a
  banded : ∀ s ∈ substantialAuctions cfg db 0, 5 < s.auctionNum →
    (lateralParameter cfg db .priceBandBps s.quarterNum).isSome

end Specification

section Runs
variable {cfg : Config} {db : DB}

theorem substantialAuctions_same {count : Nat} (same : SameVerdicts cfg db count) :
    substantialAuctions cfg db count = substantialAuctions cfg db 0 := by
  unfold substantialAuctions
  rw [List.filter_congr same]

theorem iteration_same {s : LoopState} (same : SameVerdicts cfg db s.previousQuarterPricePeriodsCount) (qIndex : Int) :
    iteration cfg db s qIndex = floorIteration cfg db s qIndex := by
  have auctions := substantialAuctions_same same
  have seeds : medians cfg db s.previousQuarterPricePeriodsCount = medians cfg db 0 := by
    unfold medians seedAuctionsRanked seedAuctions
    rw [auctions]
  have checked : quarterAuctions cfg db s.previousQuarterPricePeriodsCount qIndex = quarterAuctions cfg db 0 qIndex := by
    unfold quarterAuctions
    rw [auctions]
  unfold floorIteration iteration quarterResults flaggedAuctions
  dsimp only
  rw [seeds, checked]

theorem runs_agree (same : (∀ q ∈ quarterIndexes cfg db, SameVerdicts cfg db (countBefore cfg db q)) ∨
    ∀ q ∈ quarterIndexes cfg db, SameVerdicts cfg db (floorCountBefore cfg db q)) {past rest : List Int}
    (split : quarterIndexes cfg db = past ++ rest) : past.foldl (iteration cfg db) .initial = floorRun cfg db past := by
  rcases same with loop | floor
  · exact foldl_quarters_congr (fun q known => iteration_same (loop q known) q) split
  · exact (foldl_quarters_congr (fun q known => (iteration_same (floor q known) q).symm) split).symm

theorem counts_agree (same : (∀ q ∈ quarterIndexes cfg db, SameVerdicts cfg db (countBefore cfg db q)) ∨
    ∀ q ∈ quarterIndexes cfg db, SameVerdicts cfg db (floorCountBefore cfg db q)) {qIndex : Int}
    (known : qIndex ∈ quarterIndexes cfg db) : countBefore cfg db qIndex = floorCountBefore cfg db qIndex := by
  obtain ⟨past, rest, split⟩ := List.append_of_mem known
  rw [countBefore, stateBefore, floorCountBefore, quarterIndexes_split split, runs_agree same split]

theorem returned_agree (configured : db.applicationConfig = some cfg)
    (same : (∀ q ∈ quarterIndexes cfg db, SameVerdicts cfg db (countBefore cfg db q)) ∨
      ∀ q ∈ quarterIndexes cfg db, SameVerdicts cfg db (floorCountBefore cfg db q)) :
    getQualifyingPricePeriods db = (floorRun cfg db (quarterIndexes cfg db)).returned := by
  unfold getQualifyingPricePeriods
  rw [configured, ← runs_agree same (List.append_nil _).symm]

end Runs

section Quarters
variable {cfg : Config} {db : DB}

theorem isSubstantial_quarter {count : Nat} {a : WhitelistedAuction} (substantial : isSubstantial cfg db count a) :
    0 < a.quarterNum := by
  unfold isSubstantial at substantial
  split at substantial
  · rw [Bool.and_eq_true, decide_eq_true_eq] at substantial
    exact substantial.1
  · cases substantial

theorem quarter_iterated {a : WhitelistedAuction} (member : a ∈ whitelistedAuctions cfg db) (started : 0 < a.quarterNum) :
    a.quarterNum - 1 ∈ quarterIndexes cfg db := by
  obtain ⟨row, inRows, place, -, number⟩ := mem_whitelistedAuctions member
  have epoch : a.auctionedAtEpoch = row.auctionedAtEpoch := congrArg Position.epoch place
  unfold Config.quarterNum at number
  split at number
  · omega
  · rename_i active
    unfold quarterIndexes
    rw [mem_orderBy, number, Int.add_sub_cancel, epoch]
    apply mem_distinctOn_id.mpr
    exact List.mem_map.mpr ⟨row, List.mem_filter.mpr ⟨inRows, by simpa [epoch] using active⟩, rfl⟩

theorem countBefore_first {first : Int} {rest : List Int} (split : quarterIndexes cfg db = first :: rest) :
    countBefore cfg db first = 0 := by
  have apart : quarterIndexes cfg db = [] ++ first :: rest := split
  have none : (quarterIndexes cfg db).filter (· < first) = [] := quarterIndexes_split apart
  rw [countBefore, stateBefore, none]
  rfl

theorem mem_substantialAuctions_quarter {count : Nat} {s : SubstantialAuction}
    (member : s ∈ substantialAuctions cfg db count) : s.quarterNum - 1 ∈ quarterIndexes cfg db := by
  obtain ⟨numbered, inRows, rfl⟩ := List.mem_map.mp member
  have kept := List.mem_map_of_mem (f := Prod.fst) inRows
  rw [rowNumber_map_fst, mem_orderBy, List.mem_filter] at kept
  exact quarter_iterated kept.1 (isSubstantial_quarter kept.2)

theorem bandChecked_isSome {s : SubstantialAuction} {qIndex : Int} : (bandChecked cfg db qIndex s).isSome ↔
    5 < s.auctionNum ∧ s.quarterNum = qIndex + 1 ∧ (lateralParameter cfg db .priceBandBps s.quarterNum).isSome := by
  unfold bandChecked
  split
  · rename_i late
    simp [late]
  · rename_i early
    simp only [Option.isSome_none, Bool.false_eq_true, false_iff]
    exact fun late => early ⟨late.1, late.2.1⟩

end Quarters

section Reported
variable {lot floor boundVolume num den : Int} {n : Nat}

def unboundMinLotAttoUsd (boundVolume : Int) (n : Nat) (num den : Int) : Int :=
  if den ≠ 0 ∧ n ≠ 0 then (num * boundVolume).tdiv (den * n) else 0

def minLotAttoUsd (floor boundVolume : Int) (n : Nat) (num den : Int) : Int :=
  if floor ≤ unboundMinLotAttoUsd boundVolume n num den then unboundMinLotAttoUsd boundVolume n num den else floor

def LotsAgree (lot floor boundVolume : Int) (n : Nat) (num den : Int) : Prop :=
  auctionPassesMinLot lot floor boundVolume n num den ↔ minLotAttoUsd floor boundVolume n num den ≤ lot

theorem getQuarterParameters_minLot {cfg : Deployment} {db : DB} {q : QuarterNumber} {parameters : QuarterParameters}
    (set : getQuarterParameters cfg db q = .ok parameters) :
    parameters.minLotAttoUsd = minLotAttoUsd parameters.minLotFloorAttoUsd
      parameters.previousQuarterBoundVolumeAttoUsd parameters.previousQuarterPricePeriodsCount
      parameters.minLotAlphaNumerator parameters.minLotAlphaDenominator := by
  rw [(InForce.getQuarterParameters_read set).minLot]
  rfl

theorem minLotAttoUsd_le_iff : minLotAttoUsd floor boundVolume n num den ≤ lot ↔
    floor ≤ lot ∧ unboundMinLotAttoUsd boundVolume n num den ≤ lot := by
  unfold minLotAttoUsd
  split <;> omega

theorem unboundMinLotAttoUsd_zero (zero : boundVolume = 0 ∨ n = 0 ∨ den = 0) :
    unboundMinLotAttoUsd boundVolume n num den = 0 := by
  unfold unboundMinLotAttoUsd
  rcases zero with rfl | rfl | rfl
  · rw [mul_zero, Int.zero_tdiv, ite_self]
  · exact if_neg fun both => both.2 rfl
  · exact if_neg fun both => both.1 rfl

theorem unboundMinLotAttoUsd_eq (volume_nonneg : 0 ≤ boundVolume) (num_nonneg : 0 ≤ num) (divided : den ≠ 0)
    (counted : n ≠ 0) : unboundMinLotAttoUsd boundVolume n num den = num * boundVolume / (den * n) := by
  unfold unboundMinLotAttoUsd
  rw [if_pos ⟨divided, counted⟩, Int.tdiv_eq_ediv_of_nonneg (mul_nonneg num_nonneg volume_nonneg)]

theorem auctionPassesMinLot_zero (zero : boundVolume = 0 ∨ n = 0) :
    auctionPassesMinLot lot floor boundVolume n num den ↔ floor ≤ lot := by
  unfold auctionPassesMinLot
  rw [if_pos (zero.imp_left fun none => by rw [none, Int.cast_zero]), decide_eq_true_eq, Int.cast_le]

theorem auctionPassesMinLot_bound (bound : ¬ (boundVolume = 0 ∨ n = 0)) :
    auctionPassesMinLot lot floor boundVolume n num den ↔ num * boundVolume < (lot + 1) * (den * n) := by
  have both : ¬ ((boundVolume : ℚ) = 0 ∨ n = 0) := by rwa [Int.cast_eq_zero]
  have whole : (num : ℚ) * boundVolume - (den * n - 1) ≤ lot * den * n ↔
      num * boundVolume - (den * n - 1) ≤ lot * den * n := by
    exact_mod_cast Iff.rfl
  unfold auctionPassesMinLot
  rw [if_neg both, decide_eq_true_eq, whole, add_mul, one_mul, mul_assoc]
  omega

theorem lotsAgree_iff (volume_nonneg : 0 ≤ boundVolume) (num_nonneg : 0 ≤ num) (den_nonneg : 0 ≤ den)
    (lot_nonneg : 0 ≤ lot) :
    (∀ cfg db q parameters, getQuarterParameters cfg db q = .ok parameters →
      parameters.minLotAttoUsd = minLotAttoUsd parameters.minLotFloorAttoUsd
        parameters.previousQuarterBoundVolumeAttoUsd parameters.previousQuarterPricePeriodsCount
        parameters.minLotAlphaNumerator parameters.minLotAlphaDenominator) ∧
    (LotsAgree lot floor boundVolume n num den ↔ boundVolume = 0 ∨ n = 0 ∨
      if den = 0 then lot < floor else num * boundVolume / (den * n) ≤ lot → floor ≤ lot) := by
  refine ⟨fun _ _ _ _ => getQuarterParameters_minLot, ?_⟩
  unfold LotsAgree
  rw [minLotAttoUsd_le_iff]
  by_cases zero : boundVolume = 0 ∨ n = 0
  · rw [auctionPassesMinLot_zero zero, unboundMinLotAttoUsd_zero (or_assoc.mp (Or.inl zero)), ← or_assoc]
    exact iff_of_true (and_iff_left lot_nonneg).symm (Or.inl zero)
  · rw [auctionPassesMinLot_bound zero, ← or_assoc, or_iff_right zero]
    obtain ⟨-, counted⟩ := not_or.mp zero
    by_cases divided : den = 0
    · -- a product with the denominator is never below zero, so no lot passes
      rw [if_pos divided, unboundMinLotAttoUsd_zero (Or.inr (Or.inr divided)), divided, zero_mul, mul_zero,
        and_iff_left lot_nonneg]
      have never := not_lt.mpr (mul_nonneg num_nonneg volume_nonneg)
      refine ⟨fun same => not_le.mp fun passes => ?_, fun fails => iff_of_false never (not_le.mpr fails)⟩
      exact never (same.mpr passes)
    · have pos : 0 < den * n := mul_pos (lt_of_le_of_ne den_nonneg (Ne.symm divided)) (by omega)
      rw [if_neg divided, unboundMinLotAttoUsd_eq volume_nonneg num_nonneg divided counted,
        ← Int.ediv_lt_iff_lt_mul pos, Int.lt_add_one_iff]
      exact ⟨fun same passes => (same.mp passes).1, fun above => ⟨fun passes => ⟨above passes, passes⟩, And.right⟩⟩

theorem lotsAgree_iff_example : LotsAgree 7 5 100 10 1 2 ↔
    ((100 : Int) = 0 ∨ 10 = 0 ∨ if (2 : Int) = 0 then (7 : Int) < 5 else (1 : Int) * 100 / (2 * (10 : Nat)) ≤ 7 → (5 : Int) ≤ 7) :=
  (lotsAgree_iff (by decide) (by decide) (by decide) (by decide)).2

theorem belowFloor_qualifies : ¬ LotsAgree 5 10 20 4 1 1 := by
  unfold LotsAgree
  decide +kernel

end Reported

section Judged
variable {cfg : Config} {db : DB}

theorem not_isSubstantial_of_none (none : quarterIndexes cfg db = []) {a : WhitelistedAuction}
    (member : a ∈ whitelistedAuctions cfg db) (count : Nat) : isSubstantial cfg db count a = false := by
  rw [← Bool.not_eq_true]
  intro substantial
  have known := quarter_iterated member (isSubstantial_quarter substantial)
  rw [none] at known
  cases known

theorem JudgedOnce.own (judged : JudgedOnce cfg db) : ∀ a ∈ whitelistedAuctions cfg db,
    isSubstantial cfg db (ownPreviousCount (getQualifyingPricePeriods db) a) a = isSubstantial cfg db 0 a := by
  intro a member
  cases split : quarterIndexes cfg db with
  | nil => rw [not_isSubstantial_of_none split member, not_isSubstantial_of_none split member]
  | cons first rest =>
      -- the first iteration counts nothing before it
      have measured := judged.measured first (by simp [split]) a member
      rw [countBefore_first split] at measured
      exact measured.symm

theorem floorDecides_of_judgedOnce (configured : db.applicationConfig = some cfg) (judged : JudgedOnce cfg db) :
    FloorDecides cfg db := by
  have same : ∀ q ∈ quarterIndexes cfg db, SameVerdicts cfg db (countBefore cfg db q) := fun q known a member =>
    (judged.measured q known a member).trans (judged.own a member)
  refine ⟨?_, ?_, ?_⟩
  · intro q known
    rw [← counts_agree (Or.inl same) known]
    exact same q known
  · rw [← returned_agree configured (Or.inl same)]
    exact judged.own
  · intro s member late
    have known := mem_substantialAuctions_quarter member
    rw [← substantialAuctions_same (same _ known)] at member
    obtain ⟨qIndex, ⟨-, -, checked⟩, -⟩ := judged.checked s member late
    exact (bandChecked_isSome.mp checked).2.2

theorem judgedOnce_of_floorDecides (configured : db.applicationConfig = some cfg) (floor : FloorDecides cfg db) :
    JudgedOnce cfg db := by
  have same : ∀ q ∈ quarterIndexes cfg db, SameVerdicts cfg db (countBefore cfg db q) := by
    intro q known
    rw [counts_agree (Or.inr floor.iterations) known]
    exact floor.iterations q known
  have auctions : ∀ q ∈ quarterIndexes cfg db,
      substantialAuctions cfg db (countBefore cfg db q) = substantialAuctions cfg db 0 := fun q known =>
    substantialAuctions_same (same q known)
  refine ⟨?_, ?_, ?_, ?_⟩
  · intro q known a member
    rw [same q known a member, returned_agree configured (Or.inr floor.iterations), floor.own a member]
  · intro q knownQ r knownR
    rw [auctions q knownQ, auctions r knownR]
  · intro q knownQ r knownR
    change (substantialAuctions cfg db (countBefore cfg db q)).filter _ =
      (substantialAuctions cfg db (countBefore cfg db r)).filter _
    rw [auctions q knownQ, auctions r knownR]
  · intro s member late
    have known := mem_substantialAuctions_quarter member
    have inFloor := member
    rw [auctions _ known] at inFloor
    refine ⟨s.quarterNum - 1, ⟨known, member, bandChecked_isSome.mpr ⟨late, by omega, floor.banded s inFloor late⟩⟩, ?_⟩
    rintro qIndex ⟨-, -, checked⟩
    have quarter := (bandChecked_isSome.mp checked).2.1
    omega

end Judged

/-- The verdicts of all iterations are one and the same exactly when the floor decides every one of them. -/
theorem judgedOnce_iff (cfg : Config) (db : DB) (configured : db.applicationConfig = some cfg) :
    JudgedOnce cfg db ↔ FloorDecides cfg db :=
  ⟨floorDecides_of_judgedOnce configured, judgedOnce_of_floorDecides configured⟩

section Market

def spreadSeeds : DB :=
  let auctions : Table FilecoinPayFeeAuction FilecoinPayFeeAuction.id := ⟨[auctionAt 1 110 100 1,
    auctionAt 2 111 90 1, auctionAt 3 112 110 1, auctionAt 4 210 80 1, auctionAt 5 211 120 1, auctionAt 6 212 105 1,
    auctionAt 7 310 104 1], by decide⟩
  { market auctions with quarterBoundVolume := ⟨[⟨1, 1000, 205, "0x0"⟩], by decide⟩ }

theorem spreadSeeds_judged_twice : ¬ JudgedOnce hundredEpochs spreadSeeds := by
  intro judged
  have seeds := judged.seeds 1 (by decide +kernel) 2 (by decide +kernel)
  exact absurd seeds (by decide +kernel)

theorem judgedOnce_iff_eightAuctions :
    JudgedOnce hundredEpochs (market eightAuctions) ↔ FloorDecides hundredEpochs (market eightAuctions) :=
  judgedOnce_iff hundredEpochs (market eightAuctions) rfl

end Market

end Proof.MinLot
end FpvIndexer
