import FpvIndexer.Proof.InForce
import FpvIndexer.Proof.PaymentsList

namespace FpvIndexer
namespace Proof.PositiveClaims
open Relational PriceBand InForce

/-- Every price can be divided by, whichever volume or payment asks for it. -/
structure PricesDefined (cfg : Deployment) (db : DB) : Prop where
  claims : ∀ qp ∈ getQualifyingPricePeriods db, 0 < qp.claimAttoFil
  volumes : db.qualifiedPricePeriodsMv.rows = getQualifyingPricePeriods db →
    ∀ admittedContracts serviceOrchestrator numericDiv quarterNum, ∃ results,
      pricePeriodsWithVolume cfg db admittedContracts serviceOrchestrator numericDiv quarterNum = .ok results
  payments : db.qualifiedPricePeriodsMv.rows = getQualifyingPricePeriods db →
    ∀ divides query scan, (∀ rows : List PaymentRow, (scan rows).Perm rows) →
      dividesByZero divides db query (PaymentsList.pageRows cfg scan db query) = false

section Specification
variable (cfg : Config) (db : DB)

def flaggedBy (flag : QuarterAuction → Option ℚ → Option ℚ → FlaggedAuction) (s : LoopState) (qIndex : Int) :
    List FlaggedAuction :=
  let auctions := quarterAuctions cfg db s.previousQuarterPricePeriodsCount qIndex
  let first := (auctions.filter (·.seqId = 1)).flatMap fun a =>
    (medians cfg db s.previousQuarterPricePeriodsCount).map fun median =>
      flag a (s.lastLotAttoUsd.or (median.map (·.lotAttoUsd))) (s.lastClaimAttoFil.or (median.map (·.claimAttoFil)))
  recursiveUnion
    (joinSuccessor (·.seqId) (·.seqId)
      (fun previous a => flag a previous.lastLotAttoUsd previous.lastClaimAttoFil) auctions)
    (auctions.length + 1) first

def iterationBy (flag : QuarterAuction → Option ℚ → Option ℚ → FlaggedAuction) (s : LoopState) (qIndex : Int) :
    LoopState :=
  let results := orderBy (·.position)
    (((flaggedBy cfg db flag s qIndex).filter fun a => a.isQualified = some true).map (·.toPricePeriod))
  { lastLotAttoUsd := (results.getLast?.map (·.lotAttoUsd)).or s.lastLotAttoUsd
    lastClaimAttoFil := (results.getLast?.map (·.claimAttoFil)).or s.lastClaimAttoFil
    previousQuarterPricePeriodsCount := results.length
    returned := s.returned ++ results }

/-- The judgement that lets no auction qualify which burned no FIL. -/
def flagBurned (a : QuarterAuction) (prevLotAttoUsd prevClaimAttoFil : Option ℚ) : FlaggedAuction :=
  let passes := (passesPriceBand a prevLotAttoUsd prevClaimAttoFil).map fun passed => passed && a.claimAttoFil ≠ 0
  { toQuarterAuction := a
    isQualified := passes
    lastLotAttoUsd := if passes = some true then some a.lotAttoUsd else prevLotAttoUsd
    lastClaimAttoFil := if passes = some true then some a.claimAttoFil else prevClaimAttoFil }

def burnedBefore (qIndex : Int) : LoopState :=
  ((quarterIndexes cfg db).filter (· < qIndex)).foldl (iterationBy cfg db flagBurned) .initial

/-- In the loop that leaves them out, what burned no FIL has a lot and stands against an anchor with FIL, or none. -/
def NoneForFree : Prop :=
  ∀ qIndex ∈ quarterIndexes cfg db, ∀ f ∈ flaggedBy cfg db flagBurned (burnedBefore cfg db qIndex) qIndex,
    f.claimAttoFil = 0 → ∀ lot claim, f.lastLotAttoUsd = some lot → f.lastClaimAttoFil = some claim →
      f.lotAttoUsd ≠ 0 ∧ claim ≠ 0

end Specification

section Judgements
variable {a : QuarterAuction} {prevLot prevClaim : Option ℚ}

theorem passesPriceBand_free (free : a.claimAttoFil = 0) : passesPriceBand a prevLot prevClaim = some true ↔
    ∃ lot claim, prevLot = some lot ∧ prevClaim = some claim ∧ (a.lotAttoUsd = 0 ∨ claim = 0) := by
  unfold passesPriceBand
  cases prevLot with
  | none => simp
  | some lot =>
      cases prevClaim with
      | none => simp
      | some claim =>
          have scaled : |a.lotAttoUsd * claim| * 10000 ≤ 0 ↔ a.lotAttoUsd = 0 ∨ claim = 0 := by
            rw [← mul_eq_zero, ← abs_eq_zero (a := a.lotAttoUsd * claim)]
            have nonneg := abs_nonneg (a.lotAttoUsd * claim)
            constructor
            · intro small
              linarith
            · intro zero
              rw [zero, zero_mul]
          simp only [auctionPassesPriceBand, free, mul_zero, sub_zero, Option.some.injEq, decide_eq_true_eq, scaled,
            exists_and_left, exists_eq_left']

theorem flagBurned_eq (earned : a.claimAttoFil = 0 → passesPriceBand a prevLot prevClaim ≠ some true) :
    flagAuction a prevLot prevClaim = flagBurned a prevLot prevClaim := by
  have same : (passesPriceBand a prevLot prevClaim).map (fun passed => passed && a.claimAttoFil ≠ 0) =
      passesPriceBand a prevLot prevClaim := by
    by_cases free : a.claimAttoFil = 0
    · cases judged : passesPriceBand a prevLot prevClaim with
      | none => rfl
      | some passed =>
          cases passed with
          | false => rfl
          | true => exact absurd judged (earned free)
    · simp [free]
  unfold flagAuction flagBurned
  rw [same]

def Earned (f : FlaggedAuction) : Prop :=
  f.claimAttoFil = 0 → passesPriceBand f.toQuarterAuction f.lastLotAttoUsd f.lastClaimAttoFil ≠ some true

theorem flagBurned_of_earned (earned : Earned (flagBurned a prevLot prevClaim)) :
    flagAuction a prevLot prevClaim = flagBurned a prevLot prevClaim := by
  apply flagBurned_eq
  intro free
  have stays : (passesPriceBand a prevLot prevClaim).map (fun passed => passed && a.claimAttoFil ≠ 0) ≠ some true := by
    simp [free]
  have kept := earned free
  simp only [flagBurned, if_neg stays] at kept
  exact kept

theorem flagBurned_of_qualified (paid : (flagAuction a prevLot prevClaim).isQualified = some true → a.claimAttoFil ≠ 0) :
    flagBurned a prevLot prevClaim = flagAuction a prevLot prevClaim :=
  (flagBurned_eq fun free passes => paid passes free).symm

theorem earned_of_qualified (paid : (flagAuction a prevLot prevClaim).isQualified = some true → a.claimAttoFil ≠ 0) :
    Earned (flagAuction a prevLot prevClaim) := by
  intro free
  have fails : passesPriceBand a prevLot prevClaim ≠ some true := fun passes => paid passes free
  simp only [flagAuction, if_neg fails]
  exact fails

theorem paid_of_flagBurned (qualified : (flagBurned a prevLot prevClaim).isQualified = some true) :
    a.claimAttoFil ≠ 0 := by
  obtain ⟨passed, -, both⟩ := Option.map_eq_some_iff.mp qualified
  rw [Bool.and_eq_true, decide_eq_true_eq] at both
  exact both.2

end Judgements

section Iterations
variable {cfg : Config} {db : DB} {s : LoopState} {qIndex : Int}
  {flag other : QuarterAuction → Option ℚ → Option ℚ → FlaggedAuction}

theorem mem_flaggedBy {f : FlaggedAuction} (member : f ∈ flaggedBy cfg db flag s qIndex) :
    ∃ a prevLot prevClaim, f = flag a prevLot prevClaim := by
  apply forall_mem_recursiveUnion (P := fun f => ∃ a prevLot prevClaim, f = flag a prevLot prevClaim) _ _ _ f member
  · intro working _ next joined
    obtain ⟨a, -, joined⟩ := List.mem_flatMap.mp joined
    obtain ⟨previous, -, rfl⟩ := List.mem_map.mp joined
    exact ⟨_, _, _, rfl⟩
  · intro first start
    obtain ⟨a, -, flagged⟩ := List.mem_flatMap.mp start
    obtain ⟨median, -, rfl⟩ := List.mem_map.mp flagged
    exact ⟨_, _, _, rfl⟩

theorem flaggedBy_congr (good : FlaggedAuction → Prop)
    (same : ∀ a prevLot prevClaim, good (other a prevLot prevClaim) → flag a prevLot prevClaim = other a prevLot prevClaim)
    (all : ∀ f ∈ flaggedBy cfg db other s qIndex, good f) :
    flaggedBy cfg db flag s qIndex = flaggedBy cfg db other s qIndex := by
  unfold flaggedBy at all ⊢
  dsimp only at all ⊢
  have first := fun f member => all f (mem_recursiveUnion_of_mem _ _ member)
  have starts : ∀ a ∈ (quarterAuctions cfg db s.previousQuarterPricePeriodsCount qIndex).filter (·.seqId = 1),
      (medians cfg db s.previousQuarterPricePeriodsCount).map (fun median =>
        flag a (s.lastLotAttoUsd.or (median.map (·.lotAttoUsd))) (s.lastClaimAttoFil.or (median.map (·.claimAttoFil)))) =
      (medians cfg db s.previousQuarterPricePeriodsCount).map fun median =>
        other a (s.lastLotAttoUsd.or (median.map (·.lotAttoUsd)))
          (s.lastClaimAttoFil.or (median.map (·.claimAttoFil))) := fun a member =>
    List.map_congr_left fun median ranked =>
      same _ _ _ (first _ (List.mem_flatMap.mpr ⟨a, member, List.mem_map.mpr ⟨median, ranked, rfl⟩⟩))
  rw [List.flatMap_congr starts]
  refine recursiveUnion_congr (fun working rows => ?_) _ all
  refine List.flatMap_congr fun a member => List.map_congr_left fun previous joined => ?_
  exact same _ _ _ (rows _ (List.mem_flatMap.mpr ⟨a, member, List.mem_map.mpr ⟨previous, joined, rfl⟩⟩))

theorem iterationBy_congr (same : flaggedBy cfg db flag s qIndex = flaggedBy cfg db other s qIndex) :
    iterationBy cfg db flag s qIndex = iterationBy cfg db other s qIndex := by
  unfold iterationBy
  rw [same]

theorem flaggedAuctions_eq : flaggedAuctions cfg db s qIndex = flaggedBy cfg db flagAuction s qIndex := rfl

theorem iteration_eq_by : iteration cfg db = iterationBy cfg db flagAuction := rfl

theorem mem_returnedBy {qIndexes : List Int} {qp : PricePeriod}
    (member : qp ∈ (qIndexes.foldl (iterationBy cfg db flag) s).returned) :
    qp ∈ s.returned ∨ ∃ a prevLot prevClaim, (flag a prevLot prevClaim).isQualified = some true ∧
      (flag a prevLot prevClaim).toPricePeriod = qp := by
  induction qIndexes generalizing s with
  | nil => exact Or.inl member
  | cons qIndex rest ih =>
      rw [List.foldl_cons] at member
      rcases ih member with before | found
      · rcases List.mem_append.mp before with older | here
        · exact Or.inl older
        · obtain ⟨f, qualified, rfl⟩ := List.mem_map.mp ((mem_orderBy _).mp here)
          obtain ⟨flagged, passed⟩ := List.mem_filter.mp qualified
          obtain ⟨a, prevLot, prevClaim, rfl⟩ := mem_flaggedBy flagged
          exact Or.inr ⟨a, prevLot, prevClaim, of_decide_eq_true passed, rfl⟩
      · exact Or.inr found

theorem returned_subset (qIndexes : List Int) (s : LoopState) :
    s.returned ⊆ (qIndexes.foldl (iteration cfg db) s).returned := by
  induction qIndexes generalizing s with
  | nil => exact List.Subset.refl _
  | cons qIndex rest ih =>
      rw [List.foldl_cons]
      intro qp member
      exact ih _ (List.mem_append_left _ member)

theorem quarterResults_subset (configured : db.applicationConfig = some cfg) (known : qIndex ∈ quarterIndexes cfg db) :
    quarterResults cfg db (stateBefore cfg db qIndex) qIndex ⊆ getQualifyingPricePeriods db := by
  obtain ⟨past, rest, split⟩ := List.append_of_mem known
  intro qp member
  rw [stateBefore, quarterIndexes_split split] at member
  unfold getQualifyingPricePeriods
  rw [configured]
  dsimp only
  rw [split, List.foldl_append, List.foldl_cons]
  exact returned_subset rest _ (List.mem_append_right _ member)

end Iterations

section Runs
variable {cfg : Config} {db : DB}

theorem earned_iff_noneForFree : (∀ q ∈ quarterIndexes cfg db,
      ∀ f ∈ flaggedBy cfg db flagBurned (burnedBefore cfg db q) q, Earned f) ↔ NoneForFree cfg db := by
  refine forall₂_congr fun q _ => forall₂_congr fun f _ => ?_
  constructor
  · intro earned free lot claim hasLot hasClaim
    refine not_or.mp fun zero => earned free ((passesPriceBand_free free).mpr ?_)
    exact ⟨lot, claim, hasLot, hasClaim, zero⟩
  · intro charged free passes
    obtain ⟨lot, claim, hasLot, hasClaim, zero⟩ := (passesPriceBand_free free).mp passes
    exact zero.elim (charged free lot claim hasLot hasClaim).1 (charged free lot claim hasLot hasClaim).2

theorem burned_run (earned : ∀ q ∈ quarterIndexes cfg db,
      ∀ f ∈ flaggedBy cfg db flagBurned (burnedBefore cfg db q) q, Earned f) {past rest : List Int}
    (split : quarterIndexes cfg db = past ++ rest) :
    past.foldl (iteration cfg db) .initial = past.foldl (iterationBy cfg db flagBurned) .initial := by
  refine (foldl_quarters_congr (fun q known => ?_) split).symm
  rw [iteration_eq_by]
  exact (iterationBy_congr (flaggedBy_congr Earned (fun _ _ _ => flagBurned_of_earned) (earned q known))).symm

section Paid
variable (paid : ∀ q ∈ quarterIndexes cfg db, ∀ f ∈ flaggedAuctions cfg db (stateBefore cfg db q) q,
  f.isQualified = some true → f.claimAttoFil ≠ 0)
include paid

theorem paid_flagged {q : Int} (known : q ∈ quarterIndexes cfg db) :
    flaggedBy cfg db flagBurned (stateBefore cfg db q) q = flaggedAuctions cfg db (stateBefore cfg db q) q := by
  rw [flaggedAuctions_eq]
  exact flaggedBy_congr (fun f => f.isQualified = some true → f.claimAttoFil ≠ 0)
    (fun _ _ _ => flagBurned_of_qualified) (paid q known)

theorem paid_run {past rest : List Int} (split : quarterIndexes cfg db = past ++ rest) :
    past.foldl (iteration cfg db) .initial = past.foldl (iterationBy cfg db flagBurned) .initial := by
  refine foldl_quarters_congr (fun q known => ?_) split
  rw [iteration_eq_by]
  exact (iterationBy_congr (paid_flagged paid known)).symm

theorem paid_before {q : Int} (known : q ∈ quarterIndexes cfg db) : burnedBefore cfg db q = stateBefore cfg db q := by
  obtain ⟨past, rest, split⟩ := List.append_of_mem known
  rw [burnedBefore, stateBefore, quarterIndexes_split split]
  exact (paid_run paid split).symm

theorem earned_of_paid : ∀ q ∈ quarterIndexes cfg db,
    ∀ f ∈ flaggedBy cfg db flagBurned (burnedBefore cfg db q) q, Earned f := by
  intro q known f flagged
  rw [paid_before paid known, paid_flagged paid known] at flagged
  have charged := paid q known f flagged
  rw [flaggedAuctions_eq] at flagged
  obtain ⟨a, prevLot, prevClaim, rfl⟩ := mem_flaggedBy flagged
  exact earned_of_qualified charged

end Paid

theorem claims_iff (configured : db.applicationConfig = some cfg)
    (burned : ∀ a ∈ db.filecoinPayFeeAuction.rows, 0 ≤ a.filBurned) :
    (∀ qp ∈ getQualifyingPricePeriods db, 0 < qp.claimAttoFil) ↔ NoneForFree cfg db := by
  rw [← earned_iff_noneForFree]
  constructor
  · intro positive
    apply earned_of_paid
    intro q known f flagged qualified
    refine (positive f.toPricePeriod (quarterResults_subset configured known ?_)).ne'
    exact (mem_orderBy _).mpr (List.mem_map_of_mem (List.mem_filter.mpr ⟨flagged, decide_eq_true qualified⟩))
  · intro earned qp member
    have nonneg : 0 ≤ qp.claimAttoFil := by
      obtain ⟨count, qIndex, a, inQuarter, rfl⟩ := mem_getQualifyingPricePeriods configured member
      obtain ⟨s, substantial, same, -⟩ := mem_quarterAuctions inQuarter
      have whitelisted := mem_substantialAuctions substantial
      rw [same] at whitelisted
      obtain ⟨row, inRows, -, claim, -⟩ := mem_whitelistedAuctions whitelisted
      change 0 ≤ a.claimAttoFil
      rw [claim]
      exact_mod_cast burned row inRows
    unfold getQualifyingPricePeriods at member
    rw [configured] at member
    dsimp only at member
    rw [burned_run earned (List.append_nil _).symm] at member
    rcases mem_returnedBy member with none | ⟨a, prevLot, prevClaim, qualified, rfl⟩
    · cases none
    · exact lt_of_le_of_ne nonneg (paid_of_flagBurned qualified).symm

end Runs

section Divisions
variable {cfg : Deployment} {db : DB}

theorem pricesDefined_iff_claims : PricesDefined cfg db ↔ ∀ qp ∈ getQualifyingPricePeriods db, 0 < qp.claimAttoFil := by
  refine ⟨PricesDefined.claims, fun positive => ⟨positive, fun fresh => ?_, fun fresh => ?_⟩⟩
  · intro admittedContracts serviceOrchestrator numericDiv quarterNum
    rw [← fresh] at positive
    refine exists_mapM_ok fun entry member => ⟨_, if_neg (ne_of_gt ?_)⟩
    have listed := List.mem_map_of_mem (f := Prod.fst) member
    rw [lag_map_fst] at listed
    exact positive _ (List.mem_of_mem_filter ((mem_orderBy _).mp listed))
  · intro divides query scan scans
    rw [← fresh] at positive
    exact PaymentsList.dividesByZero_eq_false (fun qp stored => (positive qp stored).ne') divides scans

theorem pricesDefined_iff (configured : db.applicationConfig = some cfg.toConfig)
    (burned : ∀ a ∈ db.filecoinPayFeeAuction.rows, 0 ≤ a.filBurned) : PricesDefined cfg db ↔ NoneForFree cfg db := by
  rw [pricesDefined_iff_claims, claims_iff configured burned]

end Divisions

section Market

def lastForFree : Table FilecoinPayFeeAuction FilecoinPayFeeAuction.id where
  rows := [auctionAt 1 110 100 1, auctionAt 2 111 90 1, auctionAt 3 112 110 1, auctionAt 4 113 80 1,
    auctionAt 5 114 120 1, auctionAt 6 120 105 1, auctionAt 7 121 105 0]
  nodup := by decide

theorem pricesDefined_iff_eightAuctions : (PricesDefined hundredEpochs (market eightAuctions) ↔
    NoneForFree hundredEpochs (market eightAuctions)) ∧ NoneForFree hundredEpochs (market lastForFree) :=
  ⟨pricesDefined_iff rfl (by decide),
    (pricesDefined_iff rfl (by decide)).mp (pricesDefined_iff_claims.mpr (by decide +kernel))⟩

def freeAuctions : Table FilecoinPayFeeAuction FilecoinPayFeeAuction.id where
  rows := [auctionAt 1 110 100 1, auctionAt 2 111 90 1, auctionAt 3 112 110 0, auctionAt 4 113 80 0,
    auctionAt 5 114 120 0, auctionAt 6 120 105 0]
  nodup := by decide

theorem freeAuctions_priced : (∀ a ∈ freeAuctions.rows, 0 ≤ a.amountActual ∧ 0 ≤ a.filBurned) ∧
    ¬ PricesDefined hundredEpochs (market freeAuctions) := by
  refine ⟨by decide, fun defined => ?_⟩
  exact absurd defined.claims (by decide +kernel)

end Market

end Proof.PositiveClaims
end FpvIndexer
