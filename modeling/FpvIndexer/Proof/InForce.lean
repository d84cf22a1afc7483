import FpvIndexer.Proof.PriceBand
import FpvIndexer.Proof.Reachable
import FpvIndexer.Services.Quarters

namespace FpvIndexer
namespace Proof.InForce
open Relational PriceBand

section Printed
variable {cfg : Config} {db : DB}

theorem mem_flaggedAuctions {s : LoopState} {qIndex : Int} {f : FlaggedAuction}
    (member : f ∈ flaggedAuctions cfg db s qIndex) :
    f.toQuarterAuction ∈ quarterAuctions cfg db s.previousQuarterPricePeriodsCount qIndex := by
  apply forall_mem_recursiveUnion (P := fun f : FlaggedAuction =>
    f.toQuarterAuction ∈ quarterAuctions cfg db s.previousQuarterPricePeriodsCount qIndex) _ _ _ f member
  · intro working _ next joined
    obtain ⟨a, inQuarter, joined⟩ := List.mem_flatMap.mp joined
    obtain ⟨previous, -, rfl⟩ := List.mem_map.mp joined
    exact inQuarter
  · intro first start
    obtain ⟨a, inQuarter, flagged⟩ := List.mem_flatMap.mp start
    obtain ⟨median, -, rfl⟩ := List.mem_map.mp flagged
    exact List.mem_of_mem_filter inQuarter

theorem mem_quarterResults {s : LoopState} {qIndex : Int} {qp : PricePeriod}
    (member : qp ∈ quarterResults cfg db s qIndex) :
    ∃ a ∈ quarterAuctions cfg db s.previousQuarterPricePeriodsCount qIndex, printed a = qp := by
  unfold quarterResults at member
  rw [mem_orderBy] at member
  obtain ⟨f, qualified, rfl⟩ := List.mem_map.mp member
  exact ⟨f.toQuarterAuction, mem_flaggedAuctions (List.mem_of_mem_filter qualified), rfl⟩

theorem mem_returned {qIndexes : List Int} {s : LoopState} {qp : PricePeriod}
    (member : qp ∈ (qIndexes.foldl (iteration cfg db) s).returned) :
    qp ∈ s.returned ∨ ∃ count, ∃ qIndex ∈ qIndexes, ∃ a ∈ quarterAuctions cfg db count qIndex, printed a = qp := by
  induction qIndexes generalizing s with
  | nil => exact Or.inl member
  | cons qIndex rest ih =>
      rw [List.foldl_cons] at member
      rcases ih member with before | ⟨count, later, inRest, found⟩
      · rcases List.mem_append.mp before with older | here
        · exact Or.inl older
        · exact Or.inr ⟨_, qIndex, List.mem_cons_self, mem_quarterResults here⟩
      · exact Or.inr ⟨count, later, List.mem_cons_of_mem _ inRest, found⟩

theorem mem_getQualifyingPricePeriods (configured : db.applicationConfig = some cfg) {qp : PricePeriod}
    (member : qp ∈ getQualifyingPricePeriods db) :
    ∃ count qIndex, ∃ a ∈ quarterAuctions cfg db count qIndex, printed a = qp := by
  unfold getQualifyingPricePeriods at member
  rw [configured] at member
  rcases mem_returned member with none | ⟨count, qIndex, -, found⟩
  · cases none
  · exact ⟨count, qIndex, found⟩

theorem isSubstantial_of_mem {count : Nat} {s : SubstantialAuction} (member : s ∈ substantialAuctions cfg db count) :
    isSubstantial cfg db count s.toWhitelistedAuction := by
  obtain ⟨numbered, inRows, rfl⟩ := List.mem_map.mp member
  have kept := List.mem_map_of_mem (f := Prod.fst) inRows
  rw [rowNumber_map_fst, mem_orderBy] at kept
  exact (List.mem_filter.mp kept).2

def judging : List ServiceRewardsActorParameterType :=
  [.minLotFloor, .minLotAlphaNumerator, .minLotAlphaDenominator, .priceBandBps]

structure Supported (cfg : Config) (db : DB) (qp : PricePeriod) : Prop where
  quarter : qp.quarterNum = cfg.quarterNum qp.epoch
  positive : 0 < qp.quarterNum
  parameters : ∀ parameterType ∈ judging, ∃ value, ParameterInForce cfg db parameterType qp.quarterNum value
  token : ∃ t ∈ tokensByQuarter cfg db, admittedFor t.admittanceQuarterNum t.removalQuarterNum qp.quarterNum

theorem token_of_whitelisted {a : WhitelistedAuction} (member : a ∈ whitelistedAuctions cfg db) :
    ∃ t ∈ tokensByQuarter cfg db, admittedFor t.admittanceQuarterNum t.removalQuarterNum a.quarterNum := by
  obtain ⟨row, -, built⟩ := List.mem_filterMap.mp member
  unfold whitelistedAuction at built
  dsimp only at built
  split at built
  · obtain ⟨t, found, rfl⟩ := Option.map_eq_some_iff.mp built
    obtain ⟨listed, covers⟩ := List.mem_filter.mp (mem_of_head?_orderBy _ found)
    exact ⟨t, List.mem_of_mem_filter (mem_of_mem_distinctOn_orderBy _ listed), decide_eq_true (of_decide_eq_true covers).2⟩
  · cases built

theorem parameters_of_substantial {count : Nat} {a : WhitelistedAuction} (substantial : isSubstantial cfg db count a) :
    0 < a.quarterNum ∧ (∃ value, ParameterInForce cfg db .minLotFloor a.quarterNum value) ∧
      (∃ value, ParameterInForce cfg db .minLotAlphaNumerator a.quarterNum value) ∧
        ∃ value, ParameterInForce cfg db .minLotAlphaDenominator a.quarterNum value := by
  unfold isSubstantial at substantial
  split at substantial
  · rename_i floor numerator denominator
    rw [Bool.and_eq_true, decide_eq_true_eq] at substantial
    exact ⟨substantial.1, ⟨_, lateralParameter_inForce floor⟩, ⟨_, lateralParameter_inForce numerator⟩,
      ⟨_, lateralParameter_inForce denominator⟩⟩
  · cases substantial

theorem supported_of_mem (configured : db.applicationConfig = some cfg) {qp : PricePeriod}
    (member : qp ∈ getQualifyingPricePeriods db) : Supported cfg db qp := by
  obtain ⟨count, qIndex, a, inQuarter, rfl⟩ := mem_getQualifyingPricePeriods configured member
  obtain ⟨s, substantial, same, -, quarter, band⟩ := mem_quarterAuctions inQuarter
  have whitelisted := mem_substantialAuctions substantial
  obtain ⟨positive, floor, numerator, denominator⟩ := parameters_of_substantial (isSubstantial_of_mem substantial)
  rw [same] at whitelisted positive floor numerator denominator
  obtain ⟨row, -, -, -, number⟩ := mem_whitelistedAuctions whitelisted
  refine ⟨number, positive, ?_, token_of_whitelisted whitelisted⟩
  intro parameterType judged
  simp only [judging, List.mem_cons, List.not_mem_nil, or_false] at judged
  rcases judged with rfl | rfl | rfl | rfl
  · exact floor
  · exact numerator
  · exact denominator
  · exact ⟨_, lateralParameter_inForce band⟩

end Printed

section Parameters
variable {cfg : Deployment} {db : DB}

structure ParametersRead (cfg : Deployment) (db : DB) (q : QuarterNumber) (parameters : QuarterParameters) : Prop where
  count : parameters.previousQuarterPricePeriodsCount =
    db.qualifiedPricePeriodsMv.rows.countP fun qp => qp.quarterNum = (q.intValue : Int) - 1
  band : requireParameter cfg (quarterParameters cfg db q.intValue) .priceBandBps
    (createMissingParameterError q.intValue .priceBandBps) (createInvalidParameterError q.intValue .priceBandBps) =
      .ok parameters.priceBandBps
  floor : requireParameter cfg (quarterParameters cfg db q.intValue) .minLotFloor
    (createMissingParameterError q.intValue .minLotFloor) (createMissingParameterError q.intValue .minLotFloor) =
      .ok parameters.minLotFloorAttoUsd
  numerator : requireParameter cfg (quarterParameters cfg db q.intValue) .minLotAlphaNumerator
    (createMissingParameterError q.intValue .minLotAlphaNumerator)
    (createMissingParameterError q.intValue .minLotAlphaNumerator) = .ok parameters.minLotAlphaNumerator
  denominator : requireParameter cfg (quarterParameters cfg db q.intValue) .minLotAlphaDenominator
    (createMissingParameterError q.intValue .minLotAlphaDenominator)
    (createMissingParameterError q.intValue .minLotAlphaDenominator) = .ok parameters.minLotAlphaDenominator
  minLot : parameters.minLotAttoUsd =
    let unbound := if parameters.minLotAlphaDenominator ≠ 0 ∧ parameters.previousQuarterPricePeriodsCount ≠ 0 then
        (parameters.minLotAlphaNumerator * parameters.previousQuarterBoundVolumeAttoUsd).tdiv
          (parameters.minLotAlphaDenominator * parameters.previousQuarterPricePeriodsCount)
      else 0
    if parameters.minLotFloorAttoUsd ≤ unbound then unbound else parameters.minLotFloorAttoUsd
  stablecoins : parameters.admittedStablecoins = (quarterTokens cfg db q.intValue).map (·.tokenAddress)
  contracts : parameters.admittedFilecoinPayContractAddresses =
    (quarterFilecoinPayContracts cfg db q.intValue).map (·.contractAddress)
  inRange : q.intValue - 1 < 2 ^ 31

theorem getQuarterParameters_read {q : QuarterNumber} {parameters : QuarterParameters}
    (set : getQuarterParameters cfg db q = .ok parameters) : ParametersRead cfg db q parameters := by
  unfold getQuarterParameters at set
  dsimp only at set
  obtain ⟨_, small, set⟩ := bind_eq_ok.mp set
  have inRange := lt_of_integer small
  -- the two branches of the bound volume go on alike
  split at set
  all_goals
    obtain ⟨volume, -, set⟩ := bind_eq_ok.mp set
    obtain ⟨band, bandSet, set⟩ := bind_eq_ok.mp set
    obtain ⟨floor, floorSet, set⟩ := bind_eq_ok.mp set
    obtain ⟨numerator, numeratorSet, set⟩ := bind_eq_ok.mp set
    obtain ⟨denominator, denominatorSet, set⟩ := bind_eq_ok.mp set
    obtain rfl := pure_eq_ok.mp set
    exact ⟨rfl, bandSet, floorSet, numeratorSet, denominatorSet, rfl, rfl, rfl, inRange⟩

theorem requireParameter_ok (natural : ∀ p ∈ db.serviceRewardsActorParameter.rows, ∃ n : Nat, p.parameterValue = n)
    {parameterType : ServiceRewardsActorParameterType} {quarterNum : Int}
    (inForce : ∃ value, ParameterInForce cfg db parameterType quarterNum value) (missing invalid : Failure) :
    ∃ value, requireParameter cfg (quarterParameters cfg db quarterNum) parameterType missing invalid = .ok value := by
  obtain ⟨_, row, inRows, type, -, earlier, -⟩ := inForce
  let order := fun p : ParameterByQuarter =>
    toLex (p.parameterType.ordinal, OrderDual.toDual (toLex (p.quarterNum, p.position)))
  have listed : (⟨row, cfg.quarterNum row.updateEpoch⟩ : ParameterByQuarter) ∈
      (parametersByQuarter cfg db).filter (·.quarterNum < quarterNum) :=
    List.mem_filter.mpr ⟨List.mem_map.mpr ⟨row, inRows, rfl⟩, decide_eq_true earlier⟩
  obtain ⟨kept, member, same, -⟩ := exists_distinctOn_orderBy (fun p : ParameterByQuarter => p.parameterType) order listed
  unfold requireParameter
  cases found : (quarterParameters cfg db quarterNum).find? (·.parameterType = parameterType) with
  | none => exact absurd (decide_eq_true (same.trans type)) (by simpa using List.find?_eq_none.mp found kept member)
  | some parameter =>
      have inOrder := mem_of_mem_distinctOn_orderBy _ (List.mem_of_find?_eq_some found)
      obtain ⟨source, stored, rfl⟩ := List.mem_map.mp (List.mem_of_mem_filter inOrder)
      obtain ⟨n, value⟩ := natural source stored
      refine ⟨n, ?_⟩
      have whole : cfg.toBigInt source.parameterValue = some (n : Int) := cfg.toBigInt_of_whole (by rw [value, Int.cast_natCast])
      simp [whole]

theorem exists_getQuarterParameters
    (natural : ∀ p ∈ db.serviceRewardsActorParameter.rows, ∃ n : Nat, p.parameterValue = n)
    (volumes : ∀ v ∈ db.quarterBoundVolume.rows, ∃ n : Nat, v.volumeAttoUsd = n) (q : QuarterNumber)
    (inRange : q.intValue - 1 < 2 ^ 31)
    (inForce : ∀ parameterType ∈ judging, ∃ value, ParameterInForce cfg db parameterType q.intValue value) :
    ∃ parameters, getQuarterParameters cfg db q = .ok parameters := by
  have require := fun parameterType judged => requireParameter_ok natural (inForce parameterType judged)
  obtain ⟨band, bandSet⟩ := require .priceBandBps (by simp [judging])
    (createMissingParameterError q.intValue .priceBandBps) (createInvalidParameterError q.intValue .priceBandBps)
  obtain ⟨floor, floorSet⟩ := require .minLotFloor (by simp [judging])
    (createMissingParameterError q.intValue .minLotFloor) (createMissingParameterError q.intValue .minLotFloor)
  obtain ⟨numerator, numeratorSet⟩ := require .minLotAlphaNumerator (by simp [judging])
    (createMissingParameterError q.intValue .minLotAlphaNumerator)
    (createMissingParameterError q.intValue .minLotAlphaNumerator)
  obtain ⟨denominator, denominatorSet⟩ := require .minLotAlphaDenominator (by simp [judging])
    (createMissingParameterError q.intValue .minLotAlphaDenominator)
    (createMissingParameterError q.intValue .minLotAlphaDenominator)
  unfold getQuarterParameters
  dsimp only
  rw [integer_of_lt inRange, ok_bind]
  cases found : db.quarterBoundVolume.rows.find? fun v => (v.quarterNum : Int) = q.intValue - 1 with
  | none =>
      exact ⟨_, bind_eq_ok.mpr ⟨0, rfl, bind_eq_ok.mpr ⟨band, bandSet, bind_eq_ok.mpr ⟨floor, floorSet,
        bind_eq_ok.mpr ⟨numerator, numeratorSet, bind_eq_ok.mpr ⟨denominator, denominatorSet, rfl⟩⟩⟩⟩⟩⟩
  | some v =>
      obtain ⟨n, value⟩ := volumes v (List.mem_of_find?_eq_some found)
      have volume : cfg.numericToBigInt v.volumeAttoUsd = .ok (n : Int) :=
        cfg.numericToBigInt_of_whole (by rw [value, Int.cast_natCast])
      exact ⟨_, bind_eq_ok.mpr ⟨n, volume, bind_eq_ok.mpr ⟨band, bandSet, bind_eq_ok.mpr ⟨floor, floorSet,
        bind_eq_ok.mpr ⟨numerator, numeratorSet, bind_eq_ok.mpr ⟨denominator, denominatorSet, rfl⟩⟩⟩⟩⟩⟩

theorem quarterTokens_ne_nil {quarterNum : Int} (admitted : ∃ t ∈ tokensByQuarter cfg db,
    admittedFor t.admittanceQuarterNum t.removalQuarterNum quarterNum) : quarterTokens cfg db quarterNum ≠ [] := by
  obtain ⟨t, listed, inForce⟩ := admitted
  let order := fun t : TokenByQuarter => toLex (t.tokenAddress, OrderDual.toDual (toLex (t.admittanceQuarterNum,
    (⟨t.admittanceEpoch, t.admittanceLogIndex⟩ : Position))))
  have kept : t ∈ (tokensByQuarter cfg db).filter fun t =>
      admittedFor t.admittanceQuarterNum t.removalQuarterNum quarterNum := List.mem_filter.mpr ⟨listed, inForce⟩
  obtain ⟨first, member, -⟩ := exists_distinctOn_orderBy (fun t : TokenByQuarter => t.tokenAddress) order kept
  exact List.ne_nil_of_mem member

end Parameters
end Proof.InForce
end FpvIndexer
