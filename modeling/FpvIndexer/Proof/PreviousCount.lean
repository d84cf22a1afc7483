import FpvIndexer.Proof.MinLot
import FpvIndexer.Proof.OneRow
import FpvIndexer.Proof.AsOf

namespace FpvIndexer
namespace Proof.PreviousCount
open Relational PriceBand MinLot OneRow InForce

structure CountsPreviousQuarter (cfg : Deployment) (db : DB) : Prop where
  returned : ∀ qIndex ∈ quarterIndexes cfg db,
    countBefore cfg db qIndex = (getQualifyingPricePeriods db).countP (·.quarterNum = qIndex)
  reported : db.qualifiedPricePeriodsMv.rows = getQualifyingPricePeriods db →
    ∀ (q : QuarterNumber) parameters, (q.intValue : Int) - 1 ∈ quarterIndexes cfg db →
      getQuarterParameters cfg db q = .ok parameters →
        parameters.previousQuarterPricePeriodsCount = countBefore cfg db (q.intValue - 1)

section Specification
variable (cfg : Config) (db : DB)

def FollowsGap (qIndex : Int) : Prop := qIndex - 1 ∉ quarterIndexes cfg db

instance (qIndex : Int) : Decidable (FollowsGap cfg db qIndex) :=
  inferInstanceAs (Decidable (qIndex - 1 ∉ quarterIndexes cfg db))

/-- The loop with the count forgotten where a quarter was skipped. -/
def resetIteration (s : LoopState) (qIndex : Int) : LoopState :=
  iteration cfg db (if FollowsGap cfg db qIndex then { s with previousQuarterPricePeriodsCount := 0 } else s) qIndex

def resetAfter (past : List Int) : LoopState := past.foldl (resetIteration cfg db) .initial

/-- Before a quarter is skipped, the loop with the forgetful count returns no price period. -/
def GapsFollowNone : Prop := ∀ qIndex ∈ quarterIndexes cfg db, FollowsGap cfg db qIndex →
  (resetAfter cfg db ((quarterIndexes cfg db).filter (· < qIndex))).previousQuarterPricePeriodsCount = 0

end Specification

section Counts
variable {cfg : Config} {db : DB} {qIndex : Int}

theorem countP_results (cfg : Config) (db : DB) (s : LoopState) (qIndex quarterNum : Int) :
    (quarterResults cfg db s qIndex).countP (·.quarterNum = quarterNum) =
      if quarterNum = qIndex + 1 then (quarterResults cfg db s qIndex).length else 0 := by
  have number : ∀ qp ∈ quarterResults cfg db s qIndex, qp.quarterNum = qIndex + 1 :=
    fun _ => AsOf.quarterResults_quarter
  split
  · rename_i same
    exact List.countP_eq_length.mpr fun qp member => decide_eq_true ((number qp member).trans same.symm)
  · rename_i differs
    refine List.countP_eq_zero.mpr fun qp member same => differs ?_
    exact (of_decide_eq_true same).symm.trans (number qp member)

theorem countP_of_not_mem (cfg : Config) (db : DB) {qIndexes : List Int} (unknown : qIndex ∉ qIndexes) (s : LoopState) :
    (qIndexes.foldl (iteration cfg db) s).returned.countP (·.quarterNum = qIndex + 1) =
      s.returned.countP (·.quarterNum = qIndex + 1) := by
  induction qIndexes generalizing s with
  | nil => rfl
  | cons other rest ih =>
      obtain ⟨differs, unknown⟩ := not_or.mp (List.mem_cons.not.mp unknown)
      have none := countP_results cfg db s other (qIndex + 1)
      rw [if_neg (by omega)] at none
      rw [List.foldl_cons, ih unknown, iteration, List.countP_append, none, add_zero]

theorem countP_stateAfter_concat (cfg : Config) (db : DB) {past : List Int} (unknown : qIndex ∉ past) :
    (stateAfter cfg db (past ++ [qIndex])).returned.countP (·.quarterNum = qIndex + 1) =
      (stateAfter cfg db (past ++ [qIndex])).previousQuarterPricePeriodsCount := by
  have before : (stateAfter cfg db past).returned.countP (·.quarterNum = qIndex + 1) = 0 :=
    countP_of_not_mem cfg db unknown .initial
  rw [stateAfter_concat]
  change ((stateAfter cfg db past).returned ++ quarterResults cfg db (stateAfter cfg db past) qIndex).countP _ =
    (quarterResults cfg db (stateAfter cfg db past) qIndex).length
  rw [List.countP_append, before, zero_add, countP_results, if_pos rfl]

theorem exists_previous {past rest : List Int} (split : quarterIndexes cfg db = past ++ qIndex :: rest)
    (visited : qIndex - 1 ∈ quarterIndexes cfg db) : ∃ front, past = front ++ [qIndex - 1] := by
  have increasing := quarterIndexes_increasing cfg db
  have before : qIndex - 1 ∈ past := by
    rw [← quarterIndexes_split split]
    exact List.mem_filter.mpr ⟨visited, decide_eq_true (by omega)⟩
  obtain ⟨front, back, rfl⟩ := List.append_of_mem before
  refine ⟨front, ?_⟩
  rw [split, List.pairwise_append] at increasing
  obtain ⟨inPast, -, across⟩ := increasing
  have last : back = [] := by
    refine List.eq_nil_iff_forall_not_mem.mpr fun q member => ?_
    have above := (List.pairwise_cons.mp (List.pairwise_append.mp inPast).2.1).1 q member
    have below := across q (by simp [member]) qIndex List.mem_cons_self
    omega
  rw [last]

theorem countP_returned (configured : db.applicationConfig = some cfg) (known : qIndex ∈ quarterIndexes cfg db) :
    (getQualifyingPricePeriods db).countP (·.quarterNum = qIndex) =
      if FollowsGap cfg db qIndex then 0 else countBefore cfg db qIndex := by
  obtain ⟨past, rest, split⟩ := List.append_of_mem known
  have increasing := quarterIndexes_increasing cfg db
  rw [countBefore, stateBefore, quarterIndexes_split split]
  unfold getQualifyingPricePeriods
  rw [configured]
  dsimp only
  split
  · rename_i skipped
    have none := countP_of_not_mem cfg db skipped .initial
    rwa [Int.sub_add_cancel] at none
  · rename_i visited
    obtain ⟨front, rfl⟩ := exists_previous split (not_not.mp visited)
    rw [split, List.pairwise_append] at increasing
    obtain ⟨inPast, inRest, across⟩ := increasing
    have earlier : qIndex - 1 ∉ front := fun member =>
      lt_irrefl _ ((List.pairwise_append.mp inPast).2.2 _ member _ (List.mem_singleton_self _))
    have later : qIndex - 1 ∉ qIndex :: rest := fun member =>
      lt_irrefl _ (across _ (List.mem_append_right _ (List.mem_singleton_self _)) _ member)
    have last := countP_stateAfter_concat cfg db earlier
    rw [← countP_of_not_mem cfg db later, Int.sub_add_cancel] at last
    rw [split, List.foldl_append]
    exact last

end Counts

section Runs
variable {cfg : Config} {db : DB} {qIndex : Int}

theorem resetAfter_eq (spent : (∀ q ∈ quarterIndexes cfg db, FollowsGap cfg db q → countBefore cfg db q = 0) ∨
    GapsFollowNone cfg db) {past rest : List Int} (split : quarterIndexes cfg db = past ++ rest) :
    stateAfter cfg db past = resetAfter cfg db past := by
  have forgets : ∀ (s : LoopState) q, (FollowsGap cfg db q → s.previousQuarterPricePeriodsCount = 0) →
      iteration cfg db s q = resetIteration cfg db s q := by
    intro s q zero
    unfold resetIteration
    split
    · rename_i skipped
      rw [← zero skipped]
    · rfl
  rcases spent with loop | reset
  · exact foldl_quarters_congr (fun q known => forgets _ q (loop q known)) split
  · exact (foldl_quarters_congr (fun q known => (forgets _ q (reset q known)).symm) split).symm

theorem countBefore_eq_reset (spent : (∀ q ∈ quarterIndexes cfg db, FollowsGap cfg db q → countBefore cfg db q = 0) ∨
    GapsFollowNone cfg db) (known : qIndex ∈ quarterIndexes cfg db) : countBefore cfg db qIndex =
      (resetAfter cfg db ((quarterIndexes cfg db).filter (· < qIndex))).previousQuarterPricePeriodsCount := by
  obtain ⟨past, rest, split⟩ := List.append_of_mem known
  rw [countBefore, stateBefore, quarterIndexes_split split]
  exact congrArg _ (resetAfter_eq spent split)

theorem spent_iff : (∀ q ∈ quarterIndexes cfg db, FollowsGap cfg db q → countBefore cfg db q = 0) ↔
    GapsFollowNone cfg db := by
  constructor
  · intro spent q known skipped
    rw [← countBefore_eq_reset (Or.inl spent) known]
    exact spent q known skipped
  · intro reset q known skipped
    rw [countBefore_eq_reset (Or.inr reset) known]
    exact reset q known skipped

end Runs

theorem countsPreviousQuarter_iff (cfg : Deployment) (db : DB) (configured : db.applicationConfig = some cfg.toConfig) :
    CountsPreviousQuarter cfg db ↔ GapsFollowNone cfg db := by
  rw [← spent_iff]
  constructor
  · intro counts q known skipped
    rw [counts.returned q known, countP_returned configured known, if_pos skipped]
  · intro spent
    have returned : ∀ q ∈ quarterIndexes cfg db,
        countBefore cfg db q = (getQualifyingPricePeriods db).countP (·.quarterNum = q) := by
      intro q known
      rw [countP_returned configured known]
      split
      · rename_i skipped
        exact spent q known skipped
      · rfl
    refine ⟨returned, ?_⟩
    intro fresh q parameters known set
    rw [(getQuarterParameters_read set).count, fresh, returned _ known]

section Market

theorem countsPreviousQuarter_iff_eightAuctions : CountsPreviousQuarter hundredEpochs spreadSeeds ∧
    (CountsPreviousQuarter hundredEpochs (market eightAuctions) ↔
      GapsFollowNone hundredEpochs (market eightAuctions)) :=
  ⟨(countsPreviousQuarter_iff hundredEpochs spreadSeeds rfl).mpr (by unfold GapsFollowNone; decide +kernel),
    countsPreviousQuarter_iff hundredEpochs (market eightAuctions) rfl⟩

theorem eightAuctions_counted_late : ¬ CountsPreviousQuarter hundredEpochs (market eightAuctions) := by
  intro counts
  exact absurd (counts.returned 2 (by decide +kernel)) (by decide +kernel)

end Market

end Proof.PreviousCount
end FpvIndexer
